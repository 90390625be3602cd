import McpFlow.Factory.RuntimeAdapter

/-!
# Where the arguments of a call go

The input schema and the mapping of the arguments are two passes over the parameters of a tool. What
the first one writes about a location the second one reads, except for the name `body`: the mapping
takes it for the request body, whether or not the tool has one.
-/

namespace McpFlow.Factory

open Json (Value)

variable {u : CaseFolding} {floatText : ℚ → String} {tool : PackageTool}
  {schema outputSchema : Value} {remoteName : String} {contract : DeclarativeToolContract}
  {args done : Dict Value} {props : Dict Value} {parts parts' : ArgumentParts}
  {r : HttpArguments} {params : List PackageParameter} {k name location : String} {v : Value}

/-! ### The law -/

/-- The text of a JSON scalar. -/
def jsonText (floatText : ℚ → String) : Value → Option String
  | .bool b => some (if b then "true" else "false")
  | .int i => some (toString i)
  | .float q => some (floatText q)
  | .str s => some s
  | .null | .arr _ | .obj _ => none

/-- What a request carries under a name at one of the locations. -/
def ArgumentParts.textAt (parts : ArgumentParts) (location : String) : Dict String :=
  if location = "path" then parts.pathParams
  else if location = "query" then parts.query
  else if location = "header" then parts.headers
  else []

/-- Every argument is sent once, where its reviewed parameter says or as the request body, in its
JSON text; nothing else is sent; and the path is the template with its placeholders filled. -/
structure Transported (floatText : ℚ → String) (tool : PackageTool)
    (params : List PackageParameter) (args : Dict Value) (r : HttpArguments) : Prop where
  /-- An argument is the request body, or it stands at the location of its parameter and at no other
  one. -/
  sent : ∀ k v, (k, v) ∈ args →
    (k = "body" ∧ tool.requestSchema ≠ .null ∧ requestContent r.body = some v ∧
      ∀ location, (r.textAt location).get? k = none) ∨
    ∃ p ∈ params, Text.strip p.name = k ∧ p.location ∈ ["path", "query", "header"] ∧
      (∀ q ∈ params, Text.strip q.name = k → q.location = p.location) ∧
      ∃ text, jsonText floatText v = some text ∧
        ∀ location, (r.textAt location).get? k = if location = p.location then some text else none
  /-- Nothing is sent that is no argument. -/
  nothingElse : (∀ location k text, (r.textAt location).get? k = some text → k ∈ args.keys) ∧
    ∀ v, requestContent r.body = some v → ("body", v) ∈ args
  /-- The path is the template with each placeholder filled by the parameter of its name. -/
  path : r.path = (templateTokens tool.path).flatMap (Token.render r.pathParams) ∧
    ∀ name, .placeholder name ∈ templateTokens tool.path ↔ (r.pathParams.get? name).isSome = true
  /-- A filled placeholder decodes to its parameter. -/
  decodes : ∀ name text, r.pathParams.get? name = some text →
    Percent.unquote (Token.render r.pathParams (.placeholder name)) = some text

/-! ### What the schema says -/

/-- The properties after some parameters: each parameter has one, with its location. -/
structure Declares (u : CaseFolding) (params : List PackageParameter) (s : InputSchema) : Prop where
  ofProperty : ∀ k v, s.properties.get? k = some v → ∃ p ∈ params, Text.strip p.name = k
  property : ∀ p ∈ params, u.normalizePropertyName (Text.strip p.name) ∈ s.seen ∧
    locationOf s.properties (Text.strip p.name) = some p.location

theorem locationOf_set (props : Dict Value) (k k' : String) (v : Value) :
    locationOf (props.set k v) k' =
      if k = k' then (v.getD paramIn).str? else locationOf props k' := by
  rw [locationOf, locationOf, Dict.get?_set]
  split
  · rfl
  · rfl

theorem parameterSchema_location {p : PackageParameter} (h : parameterSchema p = .ok v) :
    (v.getD paramIn).str? = some p.location := by
  have hset : ∀ ms : Dict Value, ((Value.obj (Dict.set ms paramIn (.str p.location))).getD
      paramIn).str? = some p.location := by
    intro ms
    have hget := Dict.get?_set ms paramIn paramIn (.str p.location)
    rw [if_pos rfl] at hget
    rw [Value.getD]
    change ((Dict.get? (Dict.set ms paramIn (.str p.location)) paramIn).getD .null).str? = _
    rw [hget]
    rfl
  rw [parameterSchema] at h
  split at h
  · cases h
    exact hset _
  · cases h
    exact hset _
  · cases h

theorem Declares.addParameter {s s' : InputSchema} {p : PackageParameter} {hasBody : Bool}
    (h : Declares u params s) (hadd : s.addParameter u hasBody p = .ok s') :
    Declares u (params ++ [p]) s' := by
  simp only [InputSchema.addParameter] at hadd
  split at hadd
  · cases hadd
  · split at hadd
    · cases hadd
    · case isFalse hseen =>
      split at hadd
      · cases hadd
      · obtain ⟨schema, hschema, hs'⟩ := Except.bind_eq_ok_iff.mp hadd
        cases hs'
        constructor
        · intro k v hk
          rw [Dict.get?_set] at hk
          split at hk
          · case isTrue heq => exact ⟨p, List.mem_append_right _ List.mem_cons_self, heq⟩
          · obtain ⟨q, hq, hqk⟩ := h.ofProperty k v hk
            exact ⟨q, List.mem_append_left _ hq, hqk⟩
        · intro q hq
          dsimp only
          rw [locationOf_set, parameterSchema_location hschema]
          rcases List.mem_append.mp hq with hq | hq
          · obtain ⟨hqseen, hqloc⟩ := h.property q hq
            refine ⟨List.mem_append_left _ hqseen, ?_⟩
            -- two parameters of one name would have collided
            have hne : Text.strip p.name ≠ Text.strip q.name := by
              intro heq
              rw [heq] at hseen
              exact hseen hqseen
            rw [if_neg hne, hqloc]
          · obtain rfl := List.mem_singleton.mp hq
            exact ⟨List.mem_append_right _ List.mem_cons_self, if_pos rfl⟩

theorem declares_empty : Declares u [] ⟨[], [], []⟩ :=
  ⟨fun _ _ h => absurd h (by simp [Dict.get?]), fun _ hp => absurd hp List.not_mem_nil⟩

theorem Declares.foldlM {s s' : InputSchema} {ps : List PackageParameter} {hasBody : Bool}
    (h : Declares u params s) (hfold : ps.foldlM (InputSchema.addParameter u hasBody) s = .ok s') :
    Declares u (params ++ ps) s' := by
  induction ps generalizing params s with
  | nil =>
    cases hfold
    rwa [List.append_nil]
  | cons p ps ih =>
    rw [List.foldlM_cons] at hfold
    obtain ⟨s₁, hs₁, hfold⟩ := Except.bind_eq_ok_iff.mp hfold
    have := ih (h.addParameter hs₁) hfold
    rwa [List.append_assoc] at this

/-- The properties of a tool's input schema, besides the request body. -/
theorem declares_inputSchema (h : tool.inputSchema u = .ok schema) :
    ∃ (params : List PackageParameter) (props : Dict Value),
      tool.parameters.mapM readParameter = .ok params ∧
      schema.getD "properties" = .obj props ∧
      (∀ k, k ≠ "body" ∨ tool.requestSchema = .null → ∀ v, props.get? k = some v →
        ∃ p ∈ params, Text.strip p.name = k) ∧
      ∀ p ∈ params, Text.strip p.name ≠ "body" ∨ tool.requestSchema = .null →
        locationOf props (Text.strip p.name) = some p.location := by
  simp only [PackageTool.inputSchema, buildMcpCallableInputSchema, Except.bind_eq_ok_iff] at h
  obtain ⟨ordered, hordered, s, hs, s', hs', h⟩ := h
  cases h
  simp only [orderedParameters, Except.bind_eq_ok_iff] at hordered
  obtain ⟨params, hparams, hsort⟩ := hordered
  cases hsort
  have hdeclares := declares_empty.foldlM hs
  rw [List.nil_append] at hdeclares
  have hmem : ∀ p, p ∈ params.insertionSort PackageParameter.before ↔ p ∈ params := fun p =>
    List.mem_insertionSort _
  have hbody : (tool.requestSchema = .null ∧ s' = s) ∨
      (tool.requestSchema ≠ .null ∧ ∃ ms, s'.properties = s.properties.set "body" (.obj ms)) := by
    rw [InputSchema.addBody.eq_def] at hs'
    split at hs'
    · case h_1 hnull =>
      cases hs'
      exact .inl ⟨hnull, rfl⟩
    · case h_2 ms hobj =>
      split at hs'
      · cases hs'
      · cases hs'
        exact .inr ⟨by rw [hobj]; simp, ms, rfl⟩
    · cases hs'
  refine ⟨params, s'.properties, hparams, rfl, fun k hk v hv => ?_, fun p hp hk => ?_⟩
  · obtain ⟨-, rfl⟩ | ⟨hnull, ms, hset⟩ := hbody
    · obtain ⟨p, hp, hpk⟩ := hdeclares.ofProperty k v hv
      exact ⟨p, (hmem p).mp hp, hpk⟩
    · rw [hset, Dict.get?_set, if_neg (hk.resolve_right hnull).symm] at hv
      obtain ⟨p, hp, hpk⟩ := hdeclares.ofProperty k v hv
      exact ⟨p, (hmem p).mp hp, hpk⟩
  · have hloc := (hdeclares.property p ((hmem p).mpr hp)).2
    obtain ⟨-, rfl⟩ | ⟨hnull, ms, hset⟩ := hbody
    · exact hloc
    · rw [hset, locationOf_set, if_neg (hk.resolve_right hnull).symm]
      exact hloc

/-! ### What the mapping collects -/

/-- The parts after some arguments: each argument but the body is in the dictionary of its location,
with its text. -/
structure Collects (floatText : ℚ → String) (props done : Dict Value) (parts : ArgumentParts) :
    Prop where
  text : ∀ location k text, (parts.textAt location).get? k = some text ↔
    ∃ v, (k, v) ∈ done ∧ k ≠ "body" ∧ locationOf props k = some location ∧
      stringifyParam floatText v = .ok text
  placed : ∀ k v, (k, v) ∈ done → k ≠ "body" →
    ∃ location ∈ ["path", "query", "header"], locationOf props k = some location ∧
      ∃ text, stringifyParam floatText v = .ok text
  body : ∀ v, parts.body = some v ↔ ("body", v) ∈ done

theorem collects_empty : Collects floatText props [] ⟨[], [], [], none⟩ where
  text := by
    intro location k text
    constructor
    · intro h
      simp only [ArgumentParts.textAt, ite_self] at h
      cases h
    · rintro ⟨v, hv, -⟩
      cases hv
  placed := fun _ _ h => absurd h List.not_mem_nil
  body := fun _ => ⟨fun h => absurd h (by simp), fun h => absurd h List.not_mem_nil⟩

theorem Collects.mapArgument (h : Collects floatText props done parts)
    (hfresh : k ∉ done.keys) (hmap : mapArgument u floatText props parts (k, v) = .ok parts') :
    Collects floatText props (done ++ [(k, v)]) parts' := by
  have hnot : ∀ w, (k, w) ∉ done := fun w hw => hfresh (List.mem_map_of_mem hw)
  have hin : ∀ k' w, (k', w) ∈ done ++ [(k, v)] ↔ (k', w) ∈ done ∨ (k' = k ∧ w = v) := by
    intro k' w
    rw [List.mem_append, List.mem_singleton, Prod.mk.injEq]
  rw [Factory.mapArgument] at hmap
  split at hmap
  · case isTrue hk =>
    obtain rfl : k = "body" := hk
    cases hmap
    refine ⟨fun location k' text => ?_, fun k' w hw hne => ?_, fun w => ?_⟩
    · refine (h.text location k' text).trans ⟨?_, ?_⟩
      · rintro ⟨w, hw, hrest⟩
        exact ⟨w, (hin k' w).mpr (.inl hw), hrest⟩
      · rintro ⟨w, hw, hne, hrest⟩
        exact ⟨w, ((hin k' w).mp hw).resolve_right fun heq => hne heq.1, hne, hrest⟩
    · exact h.placed k' w (((hin k' w).mp hw).resolve_right fun heq => hne heq.1) hne
    · rw [hin]
      constructor
      · intro hw
        exact .inr ⟨rfl, (Option.some.inj hw).symm⟩
      · rintro (hw | ⟨-, rfl⟩)
        · exact absurd hw (hnot w)
        · rfl
  · case isFalse hk =>
    split at hmap
    · cases hmap
    · case h_2 location hlocation =>
      split at hmap
      · cases hmap
      · case isFalse hallowed =>
        split at hmap
        · cases hmap
        · case isFalse hcookie =>
          split at hmap
          · cases hmap
          · obtain ⟨rendered, hrendered, hparts⟩ := Except.bind_eq_ok_iff.mp hmap
            have hplace : location ∈ ["path", "query", "header"] := by
              simp only [allowedLocations, List.mem_cons, List.not_mem_nil, or_false,
                not_not] at hallowed ⊢
              tauto
            have hat : ∀ l, parts'.textAt l =
                if l = location then (parts.textAt l).set k rendered else parts.textAt l := by
              intro l
              simp only [List.mem_cons, List.not_mem_nil, or_false] at hplace
              rcases hplace with rfl | rfl | rfl
              · rw [if_pos rfl] at hparts
                cases hparts
                by_cases hl : l = "path" <;> simp [ArgumentParts.textAt, hl]
              · rw [if_neg (by decide), if_pos rfl] at hparts
                cases hparts
                by_cases hl : l = "query" <;> simp [ArgumentParts.textAt, hl]
              · rw [if_neg (by decide), if_neg (by decide)] at hparts
                cases hparts
                by_cases hl : l = "header" <;> simp [ArgumentParts.textAt, hl]
            have hbody : parts'.body = parts.body := by
              split at hparts
              · cases hparts
                rfl
              · split at hparts <;> cases hparts <;> rfl
            refine ⟨fun l k' text => ?_, fun k' w hw hne => ?_, fun w => ?_⟩
            · rw [hat]
              by_cases hkk : k = k'
              · subst hkk
                -- the argument is new, so nothing stood under its name
                have hnone : ∀ text, (parts.textAt l).get? k ≠ some text := by
                  intro text hget
                  obtain ⟨w, hw, -⟩ := (h.text l k text).mp hget
                  exact hnot w hw
                constructor
                · intro hget
                  split at hget
                  · case isTrue hl =>
                    rw [Dict.get?_set, if_pos rfl] at hget
                    obtain rfl := Option.some.inj hget
                    exact ⟨v, (hin k v).mpr (.inr ⟨rfl, rfl⟩), hk, hl ▸ hlocation, hrendered⟩
                  · exact absurd hget (hnone text)
                · rintro ⟨w, hw, -, hloc, htext⟩
                  obtain ⟨-, rfl⟩ := ((hin k w).mp hw).resolve_left (hnot w)
                  obtain rfl := Option.some.inj (hlocation.symm.trans hloc)
                  rw [if_pos rfl, Dict.get?_set, if_pos rfl]
                  exact congrArg some (Except.ok.inj (hrendered.symm.trans htext))
              · have hsame : (if l = location then (parts.textAt l).set k rendered
                    else parts.textAt l).get? k' = (parts.textAt l).get? k' := by
                  split
                  · rw [Dict.get?_set, if_neg hkk]
                  · rfl
                rw [hsame, h.text]
                simp only [hin, Ne.symm hkk, false_and, or_false]
            · rcases (hin k' w).mp hw with hw | ⟨rfl, rfl⟩
              · exact h.placed k' w hw hne
              · exact ⟨location, hplace, hlocation, rendered, hrendered⟩
            · rw [hbody, h.body, hin]
              simp only [Ne.symm hk, false_and, or_false]

theorem Collects.foldlM {rest : Dict Value} (h : Collects floatText props done parts)
    (hnodup : (done ++ rest).keys.Nodup)
    (hfold : rest.foldlM (Factory.mapArgument u floatText props) parts = .ok parts') :
    Collects floatText props (done ++ rest) parts' := by
  induction rest generalizing done parts with
  | nil =>
    cases hfold
    rwa [List.append_nil]
  | cons arg rest ih =>
    rw [List.foldlM_cons] at hfold
    obtain ⟨parts₁, hparts₁, hfold⟩ := Except.bind_eq_ok_iff.mp hfold
    have hassoc : done ++ arg :: rest = done ++ [arg] ++ rest := by
      rw [List.append_assoc, List.singleton_append]
    rw [hassoc] at hnodup ⊢
    refine ih (h.mapArgument (fun hk => ?_) hparts₁) hnodup hfold
    rw [Dict.keys, List.map_append, List.map_append] at hnodup
    have hdisjoint := (List.nodup_append.mp (List.nodup_append.mp hnodup).1).2.2
    exact hdisjoint _ hk _ List.mem_cons_self rfl

/-! ### The request -/

/-- The parts of a mapped request, and the path that is rendered from them. -/
theorem mapArgumentsToHttp_cases (hprops : contract.inputSchema.getD "properties" = .obj props)
    (hnodup : args.keys.Nodup)
    (h : mapArgumentsToHttp u floatText contract args = .ok r) :
    Collects floatText props args r.toArgumentParts ∧
      renderPath contract.pathTemplate r.pathParams = .ok r.path := by
  simp only [mapArgumentsToHttp, hprops, Except.bind_eq_ok_iff] at h
  obtain ⟨-, -, props', hprops', parts, hparts, h⟩ := h
  obtain rfl := Except.ok.inj hprops'
  split at h
  · cases h
  · obtain ⟨path, hpath, hr⟩ := Except.bind_eq_ok_iff.mp h
    cases hr
    have hcollects : Collects floatText props ([] ++ args) parts :=
      collects_empty.foldlM hnodup hparts
    exact ⟨hcollects, hpath⟩

theorem mem_filterMap_name? {tokens : List Token} :
    name ∈ tokens.filterMap Token.name? ↔ .placeholder name ∈ tokens := by
  rw [List.mem_filterMap]
  constructor
  · rintro ⟨token, htoken, hname⟩
    cases token with
    | lit c => cases hname
    | placeholder name' =>
      obtain rfl := Option.some.inj hname
      exact htoken
  · exact fun h => ⟨_, h, rfl⟩

/-- A rendered path has a parameter for every placeholder, and no other parameter. -/
theorem renderPath_eq_ok {template : String} {pathParams : Dict String} {path : List Char}
    (h : renderPath template pathParams = .ok path) :
    path = (templateTokens template).flatMap (Token.render pathParams) ∧
      ∀ name, .placeholder name ∈ templateTokens template ↔
        (pathParams.get? name).isSome = true := by
  rw [renderPath] at h
  split at h
  · cases h
  · case isFalse hmissing =>
    split at h
    · cases h
    · case isFalse hextra =>
      cases h
      refine ⟨rfl, fun name => ⟨fun hname => ?_, fun hname => ?_⟩⟩
      · by_contra hnone
        exact hmissing (List.any_eq_true.mpr
          ⟨name, mem_filterMap_name?.mpr hname, by simpa using hnone⟩)
      · obtain ⟨text, htext⟩ := Option.isSome_iff_exists.mp hname
        by_contra hnot
        exact hextra (List.any_eq_true.mpr ⟨name, Dict.mem_keys_iff.mpr ⟨text, htext⟩,
          decide_eq_true fun hin => hnot (mem_filterMap_name?.mp hin)⟩)

/-- The contract of a tool has the tool's path and its schema. -/
theorem fields_packageToolToContract (hschema : tool.inputSchema u = .ok schema)
    (h : packageToolToContract u tool schema outputSchema remoteName = .ok contract) :
    contract.inputSchema = schema ∧ contract.pathTemplate = tool.path := by
  have htype : schema.hasKey "type" = true := by
    obtain ⟨ms, rfl, hkey, hnodup⟩ := hasKey_type_of_inputSchema hschema
    obtain ⟨⟨key, v⟩, hmem, rfl⟩ := List.mem_map.mp hkey
    have hget : Dict.get? ms "type" = some v := Dict.get?_of_mem hnodup hmem
    rw [Value.hasKey, Option.isSome_iff_exists]
    exact ⟨v, hget⟩
  simp only [packageToolToContract, htype, if_true] at h
  generalize Text.strip (if remoteName = "" then tool.operationKey else remoteName) = trimmed at h
  split at h
  · cases h
  · split at h
    · cases h
    · split at h
      · cases h
      · obtain ⟨schema', hschema', h⟩ := Except.bind_eq_ok_iff.mp h
        obtain rfl := Except.ok.inj hschema'
        obtain ⟨-, -, h⟩ := Except.bind_eq_ok_iff.mp h
        cases h
        exact ⟨rfl, rfl⟩

/-- The two texts of a scalar that is no truth value agree. -/
theorem jsonText_of_stringifyParam {text : String} (h : stringifyParam floatText v = .ok text)
    (hbool : ∀ b, v ≠ .bool b) : jsonText floatText v = some text := by
  cases v with
  | bool b => exact absurd rfl (hbool b)
  | null => cases h
  | int i =>
    cases h
    rfl
  | float q =>
    cases h
    rfl
  | str s =>
    cases h
    rfl
  | arr items => cases h
  | obj ms => cases h

/-- `str(True)` is not the JSON text. -/
theorem jsonText_ne_of_bool {text : String} {b : Bool}
    (h : stringifyParam floatText (.bool b) = .ok text) :
    jsonText floatText (.bool b) ≠ some text := by
  obtain rfl := Except.ok.inj h
  cases b
  · exact fun h => absurd (Option.some.inj h) (by decide)
  · exact fun h => absurd (Option.some.inj h) (by decide)

theorem eq_of_mem_of_nodup {k : String} {v w : Value} (hnodup : args.keys.Nodup)
    (hv : (k, v) ∈ args) (hw : (k, w) ∈ args) : v = w :=
  Option.some.inj ((Dict.get?_of_mem hnodup hv).symm.trans (Dict.get?_of_mem hnodup hw))

/-- The arguments that the mapping accepts are transported faithfully exactly when no parameter is a
truth value, and an argument `body` is a request body other than `null`. -/
theorem transported_iff (hschema : tool.inputSchema u = .ok schema)
    (hparams : tool.parameters.mapM readParameter = .ok params)
    (hcontract : packageToolToContract u tool schema outputSchema remoteName = .ok contract)
    (hnodup : args.keys.Nodup) (hmap : mapArgumentsToHttp u floatText contract args = .ok r) :
    Transported floatText tool params args r ↔
      (∀ v, ("body", v) ∈ args → tool.requestSchema ≠ .null ∧ v ≠ .null) ∧
        ∀ k b, (k, .bool b) ∈ args → k = "body" := by
  obtain ⟨hinput, hpath⟩ := fields_packageToolToContract hschema hcontract
  obtain ⟨params', props, hparams', hprops, hofProperty, hproperty⟩ := declares_inputSchema hschema
  obtain rfl := Except.ok.inj (hparams.symm.trans hparams')
  rw [← hinput] at hprops
  obtain ⟨hcollects, hrender⟩ := mapArgumentsToHttp_cases hprops hnodup hmap
  rw [hpath] at hrender
  obtain ⟨hfilled, hplaceholders⟩ := renderPath_eq_ok hrender
  constructor
  · intro htransported
    refine ⟨fun v hv => ?_, fun k b hb => ?_⟩
    · rcases htransported.sent "body" v hv with
        ⟨-, hrequest, hcontent, -⟩ | ⟨p, -, -, -, -, text, -, htext⟩
      · refine ⟨hrequest, ?_⟩
        rintro rfl
        have hnull := (Option.filter_eq_some_iff.mp hcontent).2
        cases hnull
      · -- the mapping never stores an argument of this name
        have hstored := htext p.location
        rw [if_pos rfl] at hstored
        obtain ⟨-, -, hne, -⟩ := (hcollects.text p.location "body" text).mp hstored
        exact absurd rfl hne
    · rcases htransported.sent k _ hb with ⟨hk, -⟩ | ⟨p, -, -, -, -, text, hjson, htext⟩
      · exact hk
      · have hstored := htext p.location
        rw [if_pos rfl] at hstored
        obtain ⟨v, hv, -, -, hstring⟩ := (hcollects.text p.location k text).mp hstored
        obtain rfl := eq_of_mem_of_nodup hnodup hb hv
        exact absurd hjson (jsonText_ne_of_bool hstring)
  · rintro ⟨hbody, hbool⟩
    refine ⟨fun k v hv => ?_, ⟨fun l k text htext => ?_, fun v hv => ?_⟩,
      ⟨hfilled, hplaceholders⟩, fun name text htext => ?_⟩
    · by_cases hk : k = "body"
      · subst hk
        obtain ⟨hrequest, hnull⟩ := hbody v hv
        refine .inl ⟨rfl, hrequest, ?_, fun l => ?_⟩
        · rw [(hcollects.body v).mpr hv, requestContent, Option.filter_some, if_pos]
          cases v <;> first | rfl | exact absurd rfl hnull
        · refine Option.eq_none_iff_forall_ne_some.mpr fun text htext => ?_
          obtain ⟨-, -, hne, -⟩ := (hcollects.text l "body" text).mp htext
          exact hne rfl
      · obtain ⟨location, hplace, hlocation, text, hstring⟩ := hcollects.placed k v hv hk
        obtain ⟨property, hget, -⟩ := Option.bind_eq_some_iff.mp hlocation
        obtain ⟨p, hp, hpk⟩ := hofProperty k (.inl hk) property hget
        have hdeclared : ∀ q ∈ params, Text.strip q.name = k → q.location = location := by
          intro q hq hqk
          have hq' := hproperty q hq (.inl (hqk ▸ hk))
          rw [hqk] at hq'
          exact Option.some.inj (hq'.symm.trans hlocation)
        have hpl := hdeclared p hp hpk
        refine .inr ⟨p, hp, hpk, hpl ▸ hplace, fun q hq hqk => (hdeclared q hq hqk).trans hpl.symm,
          text, jsonText_of_stringifyParam hstring fun b hb => hk (hbool k b (hb ▸ hv)),
          fun l => ?_⟩
        rw [hpl]
        split
        · case isTrue hl =>
          exact (hcollects.text l k text).mpr ⟨v, hv, hk, hl ▸ hlocation, hstring⟩
        · case isFalse hl =>
          refine Option.eq_none_iff_forall_ne_some.mpr fun text' htext' => hl ?_
          obtain ⟨-, -, -, hl', -⟩ := (hcollects.text l k text').mp htext'
          exact Option.some.inj (hl'.symm.trans hlocation)
    · obtain ⟨v, hv, -⟩ := (hcollects.text l k text).mp htext
      exact List.mem_map_of_mem hv
    · exact (hcollects.body v).mp (Option.filter_eq_some_iff.mp hv).1
    · rw [Token.render, htext, Option.getD_some, Percent.unquote_quote]

/-- The request has the header of an argument as it was mapped: only the names that no argument may
have are overwritten by credentials. -/
theorem get?_requestHeaders {headers auth : Dict String} {content : Option Value} {text : String}
    (hreserved : ¬ (u.lower k = "authorization" ∨ u.lower k = "cookie"))
    (h : headers.get? k = some text) :
    (requestHeaders u headers auth content).get? k = some text := by
  have hmerged : (auth.foldl (fun headers p =>
      if u.lower p.1 = "authorization" ∨ u.lower p.1 = "cookie" then headers.set p.1 p.2
      else headers.setDefault p.1 p.2) headers).get? k = some text := by
    induction auth generalizing headers with
    | nil => exact h
    | cons p auth ih =>
      refine ih ?_
      dsimp only
      split
      · case isTrue hp =>
        have hne : p.1 ≠ k := fun heq => hreserved (heq ▸ hp)
        rw [Dict.get?_set, if_neg hne, h]
      · rw [Dict.get?_setDefault]
        split
        · case isTrue heq =>
          rw [heq, h]
          rfl
        · exact h
  rw [requestHeaders]
  split
  · rw [Dict.get?_setDefault]
    split
    · case isTrue heq =>
      rw [heq, hmerged]
      rfl
    · exact hmerged
  · exact hmerged

/-! ### Two calls -/

/-- The case functions, where only ASCII letters have a case. -/
def asciiCase : CaseFolding where
  casefold s := String.ofList (s.toList.map Char.toLower)
  lower s := String.ofList (s.toList.map Char.toLower)
  upper s := String.ofList (s.toList.map Char.toUpper)

/-- A tool with one path and one query parameter, and no request body. -/
def listItems : PackageTool where
  candidateId := "c"
  operationKey := "GET /users/{id}/items"
  method := "get"
  path := "/users/{id}/items"
  operationId := .null
  summary := .null
  description := .null
  tags := []
  deprecated := false
  parameters := [
    .obj [("name", .str "id"), ("location", .str "path"), ("required", .bool true)],
    .obj [("name", .str "open"), ("location", .str "query"),
      ("schema", .obj [("type", .str "boolean")])]]
  requestSchema := .null
  requestBodyRequired := false
  responseSchema := .null

/-- The declared parameters of the tool. -/
def listItemsParams : List PackageParameter :=
  [⟨"id", "path", true, .null⟩, ⟨"open", "query", false, .obj [("type", .str "boolean")]⟩]

/-- A call of the tool, with the schema and the contract of its own package. -/
def callListItems (args : Dict Value) :
    Except AppError (Value × DeclarativeToolContract × HttpArguments) := do
  let schema ← listItems.inputSchema asciiCase
  let contract ← packageToolToContract asciiCase listItems schema .null ""
  let r ← mapArgumentsToHttp asciiCase (fun _ => "") contract args
  return (schema, contract, r)

variable (args) in
theorem callListItems_cases (h : (callListItems args).isOk = true) :
    ∃ schema contract r, listItems.inputSchema asciiCase = .ok schema ∧
      packageToolToContract asciiCase listItems schema .null "" = .ok contract ∧
      mapArgumentsToHttp asciiCase (fun _ => "") contract args = .ok r ∧
      callListItems args = .ok (schema, contract, r) := by
  obtain ⟨⟨schema, contract, r⟩, hcall⟩ := Except.isOk_iff.mp h
  have hparts := hcall
  simp only [callListItems, Except.bind_eq_ok_iff] at hparts
  obtain ⟨schema', hschema, contract', hcontract, r', hr, hall⟩ := hparts
  cases hall
  exact ⟨schema, contract, r, hschema, hcontract, hr, hcall⟩

/-- A text with a slash stays in its segment, and decodes to what the caller gave. -/
theorem transported_listItems : ∃ contract r,
    mapArgumentsToHttp asciiCase (fun _ => "") contract [("id", .str "a/b")] = .ok r ∧
      r.path = "/users/a%2Fb/items".toList ∧
      Transported (fun _ => "") listItems listItemsParams [("id", .str "a/b")] r := by
  obtain ⟨schema, contract, r, hschema, hcontract, hr, hcall⟩ :=
    callListItems_cases [("id", .str "a/b")] (by decide +kernel)
  have hpath : (callListItems [("id", .str "a/b")]).toOption.map (·.2.2.path) =
      some "/users/a%2Fb/items".toList := by
    decide +kernel
  rw [hcall] at hpath
  refine ⟨contract, r, hr, Option.some.inj hpath, ?_⟩
  refine (transported_iff hschema rfl hcontract (by decide) hr).mpr
    ⟨fun v hv => ?_, fun k b hb => ?_⟩
  · simp at hv
  · simp at hb

/-- A truth value goes out as Python prints it. -/
theorem not_transported_truth : ∃ contract r,
    mapArgumentsToHttp asciiCase (fun _ => "") contract
        [("id", .str "7"), ("open", .bool true)] = .ok r ∧
      r.query = [("open", "True")] ∧
      ¬ Transported (fun _ => "") listItems listItemsParams
        [("id", .str "7"), ("open", .bool true)] r := by
  obtain ⟨schema, contract, r, -, -, hr, hcall⟩ :=
    callListItems_cases [("id", .str "7"), ("open", .bool true)] (by decide +kernel)
  have hquery : (callListItems [("id", .str "7"), ("open", .bool true)]).toOption.map
      (·.2.2.query) = some [("open", "True")] := by
    decide +kernel
  rw [hcall] at hquery
  have hquery : r.query = [("open", "True")] := Option.some.inj hquery
  refine ⟨contract, r, hr, hquery, fun htransported => ?_⟩
  rcases htransported.sent "open" (.bool true) (List.mem_cons_of_mem _ List.mem_cons_self) with
    ⟨hk, -⟩ | ⟨p, hp, hpk, -, -, text, hjson, htext⟩
  · exact absurd hk (by decide)
  · have hloc : p.location = "query" := by
      simp only [listItemsParams, List.mem_cons, List.not_mem_nil, or_false] at hp
      rcases hp with rfl | rfl
      · exact absurd hpk (by decide)
      · rfl
    have hstored := htext "query"
    rw [if_pos hloc.symm, ArgumentParts.textAt, if_neg (by decide), if_pos rfl, hquery] at hstored
    obtain rfl := Option.some.inj hjson
    exact absurd hstored (by decide)

end McpFlow.Factory

import McpFlow.Factory.Transport
import McpFlow.Library.Url

/-!
# The URL that is requested

The rendered path of a call is joined to the base URL of the binding as a relative reference, so the
join reads it again: dot segments are resolved, leading and empty segments disappear, and a colon in
front of the first slash makes a scheme. The percent encoding keeps arguments inside their segments,
but not from being a dot segment. The request stays below the base URL exactly when the reference is
one that the join appends as it stands.
-/

namespace McpFlow.Factory

open Json (Value)

/-! ### The base URL -/

/-- The base URL of a binding, in the form that `validate_outbound_base_url` stores. -/
structure BaseUrl where
  scheme : List Char
  netloc : List Char
  path : List Char
  /-- The scheme is one of `_ALLOWED_SCHEMES`. -/
  isHttp : scheme = "http".toList ∨ scheme = "https".toList
  netloc_ne : netloc ≠ []
  /-- The host and the port have none of the characters that end them. -/
  netlocChars : ∀ c ∈ netloc, Url.endsNetloc c = false ∧ Url.isUnsafe c = false
  rooted : path = [] ∨ path.head? = some '/'
  /-- Slashes at the end are stripped. -/
  noTrailing : path.getLast? ≠ some '/'
  /-- Query and fragment are dropped. -/
  pathChars : ∀ c ∈ path, c ≠ '?' ∧ c ≠ '#' ∧ Url.isUnsafe c = false

/-- The text of a base URL. -/
def BaseUrl.text (base : BaseUrl) : List Char := base.scheme ++ "://".toList ++ base.netloc ++ base.path

/-- `base_url.rstrip("/") + "/"`. -/
def BaseUrl.directory (base : BaseUrl) : List Char :=
  (base.text.reverse.dropWhile (· == '/')).reverse ++ ['/']

/-- The components of the base URL with a slash at its end. -/
def BaseUrl.parts (base : BaseUrl) : Url.Parts where
  scheme := base.scheme
  netloc := base.netloc
  path := base.path ++ ['/']
  params := []
  query := []
  fragment := []

/-! ### The request -/

/-- A request of the adapter, as far as its URL goes. -/
structure DeclarativeRequest extends HttpArguments where
  url : Url.Parts

/-- The URL part of `execute_declarative_http`. -/
def executeDeclarativeHttp (u : CaseFolding) (floatText : ℚ → String)
    (validate : Value → Value → Bool) (base : BaseUrl) (contract : DeclarativeToolContract)
    (arguments : Dict Value) : Except AppError DeclarativeRequest := do
  validateToolArguments validate contract.inputSchema arguments
  let mapped ← mapArgumentsToHttp u floatText contract arguments
  return { mapped with
    url := Url.urljoin (Url.urlparse [] base.directory) (mapped.path.dropWhile (· == '/')) }

/-! ### Templates -/

/-- The segments of a template behind its leading slash. -/
def pathSegments (template : String) : List (List Token) :=
  ((templateTokens template).splitOn (.lit '/')).tail

/-- The text of an argument in a path. -/
def argumentText (floatText : ℚ → String) (arguments : Dict Value) (name : String) : String :=
  ((arguments.get? name).bind fun v => (stringifyParam floatText v).toOption).getD ""

/-- A piece of a template, filled with the encoded argument. -/
def Token.fill (floatText : ℚ → String) (arguments : Dict Value) : Token → List Char
  | .lit c => [c]
  | .placeholder name => Percent.quote (argumentText floatText arguments name)

/-- A filled segment. -/
def fillSegment (floatText : ℚ → String) (arguments : Dict Value) (segment : List Token) :
    List Char :=
  segment.flatMap (Token.fill floatText arguments)

/-- The filled segments of a template. -/
def filledSegments (floatText : ℚ → String) (template : String) (arguments : Dict Value) :
    List (List Char) :=
  (pathSegments template).map (fillSegment floatText arguments)

/-- The segments of the path of a request, after the removal of dot segments by the client. -/
def DeclarativeRequest.segments (request : DeclarativeRequest) : List (List Char) :=
  Url.segments (Url.removeDotSegments request.url.fullPath)

/-- A request has the scheme, the host and the port of the base, and its path is the path of the base
with one filled segment for each segment of the template. -/
structure Contained (floatText : ℚ → String) (base : BaseUrl) (template : String)
    (arguments : Dict Value) (request : DeclarativeRequest) : Prop where
  scheme : request.url.scheme = base.scheme
  netloc : request.url.netloc = base.netloc
  segments : request.segments =
    Url.segments base.path ++ filledSegments floatText template arguments

/-- Two requests have as many segments, and the same ones where the template has no placeholder. -/
structure SameLiterals (base : BaseUrl) (template : String)
    (request request' : DeclarativeRequest) : Prop where
  length : request.segments.length = request'.segments.length
  literal : ∀ i segment, (pathSegments template)[i]? = some segment →
    (∀ token ∈ segment, token.name? = none) →
      request.segments[(Url.segments base.path).length + i]? =
        request'.segments[(Url.segments base.path).length + i]?

/-- The filled template, without its leading slash. -/
def reference (floatText : ℚ → String) (template : String) (arguments : Dict Value) : List Char :=
  Url.ofSegments (filledSegments floatText template arguments)

/-- The filled template is a reference that the join appends to the base as it stands: it starts with
no slash and has no scheme, no query, no fragment and no empty parameters, and no segment of it or of
the base is a dot segment or, but for the last one, empty. -/
def StaysBelow (floatText : ℚ → String) (base : BaseUrl) (template : String)
    (arguments : Dict Value) : Prop :=
  (reference floatText template arguments).head? ≠ some '/' ∧
    Url.Appended base.path (reference floatText template arguments)

/-! ### The base in its parts -/

variable {u : CaseFolding} {floatText : ℚ → String} {validate : Value → Value → Bool}
  {base : BaseUrl} {tool : PackageTool} {inputSchema outputSchema : Value} {remoteName : String}
  {contract : DeclarativeToolContract} {arguments arguments' : Dict Value} {template : String}
  {request request' : DeclarativeRequest} {r : HttpArguments}

theorem BaseUrl.directory_eq (base : BaseUrl) : base.directory = base.text ++ ['/'] := by
  have hlast : base.text.reverse.head? ≠ some '/' := by
    rw [List.head?_reverse, BaseUrl.text, List.getLast?_append]
    cases hpath : base.path.getLast? with
    | some c => exact fun h => base.noTrailing (hpath.trans h)
    | none =>
      rw [Option.none_or, List.getLast?_append]
      cases hnetloc : base.netloc.getLast? with
      | some c =>
        intro h
        have hc := (base.netlocChars c (List.mem_of_getLast? hnetloc)).1
        obtain rfl : c = '/' := Option.some.inj h
        cases hc
      | none => exact absurd (List.getLast?_eq_none_iff.mp hnetloc) base.netloc_ne
  have hkeep : base.text.reverse.dropWhile (· == '/') = base.text.reverse := by
    cases hrev : base.text.reverse with
    | nil => rfl
    | cons c cs =>
      rw [hrev, List.head?_cons] at hlast
      rw [List.dropWhile_cons_of_neg]
      exact fun h => hlast (congrArg some (eq_of_beq h))
  rw [BaseUrl.directory, hkeep, List.reverse_reverse]

/-- The base URL is parsed into its components. -/
theorem BaseUrl.urlparse_directory (base : BaseUrl) :
    Url.urlparse [] base.directory = base.parts := by
  have hdirectory : base.directory =
      base.scheme ++ "://".toList ++ (base.netloc ++ (base.path ++ ['/'])) := by
    rw [BaseUrl.directory_eq, BaseUrl.text, List.append_assoc, List.append_assoc]
  have hscheme : Url.splitScheme base.directory =
        some (base.scheme, '/' :: '/' :: (base.netloc ++ (base.path ++ ['/']))) ∧
      base.directory.dropWhile Url.isControlOrSpace = base.directory ∧
      ((base.scheme ++ "://".toList).all fun c => !Url.isUnsafe c) = true := by
    rw [hdirectory]
    rcases base.isHttp with h | h
    · rw [h]
      exact ⟨rfl, rfl, by decide⟩
    · rw [h]
      exact ⟨rfl, rfl, by decide⟩
  obtain ⟨hscheme, hstart, hsafe⟩ := hscheme
  have hclean : Url.clean base.directory = base.directory := by
    rw [Url.clean, hstart, List.filter_eq_self]
    intro c hc
    rw [hdirectory] at hc
    rcases List.mem_append.mp hc with hc | hc
    · exact List.all_eq_true.mp hsafe c hc
    · rw [List.mem_append, List.mem_append, List.mem_singleton] at hc
      rcases hc with hc | hc | rfl
      · rw [(base.netlocChars c hc).2]
        rfl
      · rw [(base.pathChars c hc).2.2]
        rfl
      · rfl
  have hnetloc : Url.splitNetloc ('/' :: '/' :: (base.netloc ++ (base.path ++ ['/']))) =
      (base.netloc, base.path ++ ['/']) := by
    have hkeep : ∀ c ∈ base.netloc, (!Url.endsNetloc c) = true := fun c hc => by
      rw [(base.netlocChars c hc).1]
      rfl
    have hhead : ∃ rest, base.path ++ ['/'] = '/' :: rest := by
      have := @Url.head?_append_slash [] _ base.rooted
      exact List.head?_eq_some_iff.mp this
    obtain ⟨rest, hrest⟩ := hhead
    rw [Url.splitNetloc, hrest, List.takeWhile_append_of_pos hkeep,
      List.dropWhile_append_of_pos hkeep]
    change (base.netloc ++ [], '/' :: rest) = _
    rw [List.append_nil]
  have hpath : '#' ∉ base.path ++ ['/'] ∧ '?' ∉ base.path ++ ['/'] := by
    constructor
    · rw [List.mem_append, List.mem_singleton, not_or]
      exact ⟨fun h => (base.pathChars _ h).2.1 rfl, by decide⟩
    · rw [List.mem_append, List.mem_singleton, not_or]
      exact ⟨fun h => (base.pathChars _ h).1 rfl, by decide⟩
  have hparams : Url.splitParams (base.path ++ ['/']) = (base.path ++ ['/'], []) := by
    have hlast : Url.lastSegment (base.path ++ ['/']) = [] := by
      rw [Url.lastSegment, List.reverse_append]
      rfl
    rw [Url.splitParams, hlast, List.length_nil, Nat.sub_zero, List.take_length]
    change (base.path ++ ['/'] ++ [], []) = _
    rw [List.append_nil]
  simp only [Url.urlparse, hclean, hscheme, Option.getD_some, hnetloc, Url.cutAt_eq hpath.1,
    Url.cutAt_eq hpath.2, hparams]
  rfl

/-! ### Filled templates -/

theorem slash_notMem_quote (s : String) : '/' ∉ Percent.quote s := by
  intro h
  rcases Percent.mem_quote h with h | h
  · exact absurd h (by decide)
  · exact absurd h (by decide)

/-- The segments of a filled template are its filled segments: no argument brings a slash. -/
theorem segments_fill (tokens : List Token) :
    Url.segments (tokens.flatMap (Token.fill floatText arguments)) =
      (tokens.splitOn (.lit '/')).map (fillSegment floatText arguments) := by
  induction tokens with
  | nil => rfl
  | cons token tokens ih =>
    rw [List.flatMap_cons, List.splitOn_cons_eq_if_modifyHead]
    obtain ⟨segment, rest, hsplit⟩ :=
      List.exists_cons_of_ne_nil (List.splitOn_ne_nil (.lit '/') tokens)
    have hnotMem : token ≠ .lit '/' → '/' ∉ Token.fill floatText arguments token := by
      intro hne
      cases token with
      | lit c => exact fun h => hne (by rw [List.mem_singleton.mp h])
      | placeholder name => exact slash_notMem_quote _
    split
    · case isTrue heq =>
      obtain rfl := eq_of_beq heq
      rw [List.map_cons, ← ih]
      exact Url.segments_append_slash [] _
    · case isFalse hne =>
      rw [Url.segments_notMem_append (hnotMem fun heq => hne (heq ▸ beq_self_eq_true _)), ih,
        hsplit]
      rfl

/-- A template that starts with a slash has an empty segment in front. -/
theorem templateTokens_slash (h : template.startsWith "/" = true) :
    ∃ tokens, templateTokens template = .lit '/' :: tokens ∧
      pathSegments template = tokens.splitOn (.lit '/') := by
  obtain ⟨rest, hrest⟩ := String.startsWith_string_iff.mp h
  have htokens : templateTokens template = .lit '/' :: scanTemplate none rest := by
    rw [templateTokens, ← hrest]
    rfl
  refine ⟨scanTemplate none rest, htokens, ?_⟩
  rw [pathSegments, htokens, List.splitOn_cons_eq_if_modifyHead, if_pos (beq_self_eq_true _),
    List.tail_cons]

/-- The filled template is a slash and the reference. -/
theorem fill_eq_reference (h : template.startsWith "/" = true) :
    (templateTokens template).flatMap (Token.fill floatText arguments) =
      '/' :: reference floatText template arguments := by
  obtain ⟨tokens, htokens, hsegments⟩ := templateTokens_slash h
  rw [htokens, List.flatMap_cons, reference, filledSegments, hsegments, ← segments_fill,
    Url.ofSegments_segments]
  rfl

theorem segments_reference (h : template.startsWith "/" = true) :
    Url.segments (reference floatText template arguments) =
      filledSegments floatText template arguments := by
  obtain ⟨tokens, -, hsegments⟩ := templateTokens_slash h
  rw [reference, filledSegments, hsegments, ← segments_fill, Url.ofSegments_segments]

/-! ### The requested path -/

/-- The parts that any accepted call collects. -/
theorem collects_mapArgumentsToHttp (hnodup : arguments.keys.Nodup)
    (h : mapArgumentsToHttp u floatText contract arguments = .ok r) :
    ∃ props, Collects floatText props arguments r.toArgumentParts ∧
      renderPath contract.pathTemplate r.pathParams = .ok r.path := by
  simp only [mapArgumentsToHttp] at h
  obtain ⟨-, -, h⟩ := Except.bind_eq_ok_iff.mp h
  have hrest : ∃ props : Dict Value, ∃ parts,
      arguments.foldlM (mapArgument u floatText props) ⟨[], [], [], none⟩ = .ok parts ∧
        ∃ path, renderPath contract.pathTemplate parts.pathParams = .ok path ∧
          r = { parts with path := path } := by
    split at h
    · obtain ⟨props, -, h⟩ := Except.bind_eq_ok_iff.mp h
      obtain ⟨parts, hparts, h⟩ := Except.bind_eq_ok_iff.mp h
      split at h
      · cases h
      · obtain ⟨path, hpath, hr⟩ := Except.bind_eq_ok_iff.mp h
        exact ⟨props, parts, hparts, path, hpath, (Except.ok.inj hr).symm⟩
    · obtain ⟨props, -, h⟩ := Except.bind_eq_ok_iff.mp h
      obtain ⟨parts, hparts, h⟩ := Except.bind_eq_ok_iff.mp h
      split at h
      · cases h
      · obtain ⟨path, hpath, hr⟩ := Except.bind_eq_ok_iff.mp h
        exact ⟨props, parts, hparts, path, hpath, (Except.ok.inj hr).symm⟩
    · cases h
  obtain ⟨props, parts, hparts, path, hpath, rfl⟩ := hrest
  exact ⟨props, collects_empty.foldlM hnodup hparts, hpath⟩

/-- The rendered path is the template filled with the arguments. -/
theorem path_mapArgumentsToHttp (hnodup : arguments.keys.Nodup)
    (h : mapArgumentsToHttp u floatText contract arguments = .ok r) :
    r.path = (templateTokens contract.pathTemplate).flatMap (Token.fill floatText arguments) := by
  obtain ⟨props, hcollects, hrender⟩ := collects_mapArgumentsToHttp hnodup h
  obtain ⟨hpath, hnames⟩ := renderPath_eq_ok hrender
  rw [hpath]
  refine List.flatMap_congr fun token htoken => ?_
  cases token with
  | lit c => rfl
  | placeholder name =>
    obtain ⟨text, htext⟩ := Option.isSome_iff_exists.mp ((hnames name).mp htoken)
    obtain ⟨v, hv, -, -, hstring⟩ := (hcollects.text "path" name text).mp htext
    rw [Token.render, Token.fill, argumentText, htext, Dict.get?_of_mem hnodup hv,
      Option.bind_some, hstring]
    rfl

/-- The request of an accepted call joins the reference to the base. -/
theorem url_executeDeclarativeHttp (habsolute : contract.pathTemplate.startsWith "/" = true)
    (hnodup : arguments.keys.Nodup)
    (h : executeDeclarativeHttp u floatText validate base contract arguments = .ok request) :
    request.url = Url.urljoin base.parts
      ((reference floatText contract.pathTemplate arguments).dropWhile (· == '/')) := by
  simp only [executeDeclarativeHttp, Except.bind_eq_ok_iff] at h
  obtain ⟨-, -, r, hr, h⟩ := h
  cases h
  dsimp only
  rw [base.urlparse_directory, path_mapArgumentsToHttp hnodup hr, fill_eq_reference habsolute]
  rfl

theorem startsWith_packageToolToContract
    (h : packageToolToContract u tool inputSchema outputSchema remoteName = .ok contract) :
    contract.pathTemplate.startsWith "/" = true := by
  simp only [packageToolToContract] at h
  generalize Text.strip (if remoteName = "" then tool.operationKey else remoteName) = trimmed at h
  split at h
  · cases h
  · split at h
    · cases h
    · split at h
      · cases h
      · case isFalse hpath =>
        have hfield : contract.pathTemplate = tool.path := by
          split at h
          · obtain ⟨schema, -, hsafe⟩ := Except.bind_eq_ok_iff.mp h
            obtain ⟨-, -, hfields⟩ := Except.bind_eq_ok_iff.mp hsafe
            cases hfields
            rfl
          · obtain ⟨schema, -, hsafe⟩ := Except.bind_eq_ok_iff.mp h
            obtain ⟨-, -, hfields⟩ := Except.bind_eq_ok_iff.mp hsafe
            cases hfields
            rfl
        rw [hfield]
        simpa using hpath

/-- One request is contained exactly when its reference is appended to the base. -/
theorem contained_iff_appended (habsolute : contract.pathTemplate.startsWith "/" = true)
    (hnodup : arguments.keys.Nodup)
    (h : executeDeclarativeHttp u floatText validate base contract arguments = .ok request) :
    Contained floatText base contract.pathTemplate arguments request ↔
      StaysBelow floatText base contract.pathTemplate arguments := by
  rw [StaysBelow]
  have hurl := url_executeDeclarativeHttp habsolute hnodup h
  have hsegments := @segments_reference floatText arguments _ habsolute
  generalize reference floatText contract.pathTemplate arguments = ref at hurl hsegments ⊢
  have hhead : (ref.dropWhile (· == '/')).head? ≠ some '/' := by
    intro hslash
    have := List.head?_dropWhile_not (· == '/') ref
    rw [hslash] at this
    cases this
  have hiff := @Url.urljoin_iff _ _ base.parts base.rooted rfl rfl hhead
  have hpath : Contained floatText base contract.pathTemplate arguments request ↔
      request.url.scheme = base.scheme ∧ request.url.netloc = base.netloc ∧
        Url.removeDotSegments request.url.fullPath = base.path ++ '/' :: ref := by
    constructor
    · rintro ⟨hscheme, hnetloc, hsegs⟩
      refine ⟨hscheme, hnetloc, Url.segments_inj ?_⟩
      rw [Url.segments_append_slash, hsegments]
      exact hsegs
    · rintro ⟨hscheme, hnetloc, hfull⟩
      refine ⟨hscheme, hnetloc, ?_⟩
      rw [DeclarativeRequest.segments, hfull, Url.segments_append_slash, hsegments]
  rw [hpath, hurl]
  by_cases hslash : ref.head? = some '/'
  · -- slashes that are stripped are missing in the path
    refine iff_of_false ?_ fun h => h.1 hslash
    rintro ⟨-, -, hfull⟩
    obtain ⟨rest, hrest⟩ := List.head?_eq_some_iff.mp hslash
    have hshort : (ref.dropWhile (· == '/')).length < ref.length := by
      rw [hrest, List.dropWhile_cons_of_pos (p := (· == '/')) (beq_self_eq_true '/'),
        List.length_cons]
      exact Nat.lt_succ_of_le (List.dropWhile_sublist _).length_le
    have hle := @Url.length_urljoin_le _ _ base.parts base.rooted rfl rfl hhead
    have hremove := Url.length_removeDotSegments_le
      (Url.urljoin base.parts (ref.dropWhile (· == '/'))).fullPath
    rw [hfull, List.length_append, List.length_cons] at hremove
    omega
  · have hself : ref.dropWhile (· == '/') = ref := by
      cases ref with
      | nil => rfl
      | cons c rest =>
        rw [List.head?_cons] at hslash
        exact List.dropWhile_cons_of_neg fun h => hslash (congrArg some (eq_of_beq h))
    rw [hself] at hiff ⊢
    exact hiff.trans (and_iff_right hslash).symm

/-- Contained requests of one template have the same literal segments. -/
theorem Contained.sameLiterals (h : Contained floatText base template arguments request)
    (h' : Contained floatText base template arguments' request') :
    SameLiterals base template request request' := by
  refine ⟨?_, fun i segment hsegment hliteral => ?_⟩
  · rw [h.segments, h'.segments, List.length_append, List.length_append, filledSegments,
      filledSegments, List.length_map, List.length_map]
  · have hfill : fillSegment floatText arguments segment =
        fillSegment floatText arguments' segment := by
      refine List.flatMap_congr fun token htoken => ?_
      cases token with
      | lit c => rfl
      | placeholder name => cases hliteral _ htoken
    rw [h.segments, h'.segments, List.getElem?_append_right (Nat.le_add_right _ _),
      List.getElem?_append_right (Nat.le_add_right _ _), Nat.add_sub_cancel_left, filledSegments,
      filledSegments, List.getElem?_map, List.getElem?_map, hsegment, Option.map_some,
      Option.map_some, hfill]

/-- The requests of a reviewed tool stay below the base URL exactly when their filled templates are
appended as they stand, and then they differ in no literal segment. -/
theorem contained_iff
    (hcontract : packageToolToContract u tool inputSchema outputSchema remoteName = .ok contract)
    (hnodup : arguments.keys.Nodup) (hnodup' : arguments'.keys.Nodup)
    (h : executeDeclarativeHttp u floatText validate base contract arguments = .ok request)
    (h' : executeDeclarativeHttp u floatText validate base contract arguments' = .ok request') :
    (Contained floatText base contract.pathTemplate arguments request ↔
        StaysBelow floatText base contract.pathTemplate arguments) ∧
      (StaysBelow floatText base contract.pathTemplate arguments →
        StaysBelow floatText base contract.pathTemplate arguments' →
        SameLiterals base contract.pathTemplate request request') := by
  have habsolute := startsWith_packageToolToContract hcontract
  have hiff := contained_iff_appended habsolute hnodup h
  have hiff' := contained_iff_appended habsolute hnodup' h'
  exact ⟨hiff, fun hbelow hbelow' => (hiff.mpr hbelow).sameLiterals (hiff'.mpr hbelow')⟩

/-! ### Two requests -/

/-- A base URL with a path. -/
def sampleBase : BaseUrl where
  scheme := "https".toList
  netloc := "api.example.com".toList
  path := "/v1".toList
  isHttp := by decide
  netloc_ne := by decide
  netlocChars c hc := by
    have hall : ("api.example.com".toList.all fun c => !Url.endsNetloc c && !Url.isUnsafe c) = true :=
      by decide
    simpa using List.all_eq_true.mp hall c hc
  rooted := by decide
  noTrailing := by decide
  pathChars c hc := by
    have hall : ("/v1".toList.all fun c => c ≠ '?' && c ≠ '#' && !Url.isUnsafe c) = true := by decide
    simpa [and_assoc] using List.all_eq_true.mp hall c hc

/-- A request of the tool, with the contract of its own package. -/
def requestListItems (args : Dict Value) :
    Except AppError (Value × DeclarativeToolContract × DeclarativeRequest) := do
  let schema ← listItems.inputSchema asciiCase
  let contract ← packageToolToContract asciiCase listItems schema .null ""
  let request ← executeDeclarativeHttp asciiCase (fun _ => "") (fun _ _ => true) sampleBase
    contract args
  return (schema, contract, request)

variable (args : Dict Value) in
theorem requestListItems_cases (h : (requestListItems args).isOk = true) :
    ∃ schema contract request,
      packageToolToContract asciiCase listItems schema .null "" = .ok contract ∧
      executeDeclarativeHttp asciiCase (fun _ => "") (fun _ _ => true) sampleBase contract args =
        .ok request ∧
      requestListItems args = .ok (schema, contract, request) := by
  obtain ⟨⟨schema, contract, request⟩, hcall⟩ := Except.isOk_iff.mp h
  have hparts := hcall
  simp only [requestListItems, Except.bind_eq_ok_iff] at hparts
  obtain ⟨schema', hschema, contract', hcontract, request', hrequest, hall⟩ := hparts
  cases hall
  exact ⟨schema, contract, request, hcontract, hrequest, hcall⟩

/-- A text with a slash stays in its segment. -/
theorem contained_listItems : ∃ contract request,
    executeDeclarativeHttp asciiCase (fun _ => "") (fun _ _ => true) sampleBase contract
        [("id", .str "a/b")] = .ok request ∧
      Contained (fun _ => "") sampleBase contract.pathTemplate [("id", .str "a/b")] request := by
  obtain ⟨schema, contract, request, hcontract, hrequest, hcall⟩ :=
    requestListItems_cases [("id", .str "a/b")] (by decide +kernel)
  have htemplate : (requestListItems [("id", .str "a/b")]).toOption.map (·.2.1.pathTemplate) =
      some "/users/{id}/items" := by
    decide +kernel
  rw [hcall] at htemplate
  refine ⟨contract, request, hrequest, ?_⟩
  refine (contained_iff hcontract (by decide) (by decide) hrequest hrequest).1.mpr ?_
  rw [show contract.pathTemplate = "/users/{id}/items" from Option.some.inj htemplate]
  have href : reference (fun _ => "") "/users/{id}/items" [("id", .str "a/b")] =
      "users/a%2Fb/items".toList := by
    decide +kernel
  rw [StaysBelow, href]
  have hkept : Url.Kept sampleBase.path (Url.splitParams "users/a%2Fb/items".toList).1 := by
    rw [Url.Kept]
    decide +kernel
  exact ⟨by decide, .inr ⟨by decide, ⟨by decide +kernel, by decide +kernel, by decide +kernel,
    by decide +kernel, by decide +kernel⟩, hkept⟩⟩

/-- Two dots leave the template. -/
theorem not_contained_dots : ∃ contract request,
    executeDeclarativeHttp asciiCase (fun _ => "") (fun _ _ => true) sampleBase contract
        [("id", .str "..")] = .ok request ∧
      Url.removeDotSegments request.url.fullPath = "/v1/items".toList ∧
      ¬ Contained (fun _ => "") sampleBase contract.pathTemplate [("id", .str "..")] request := by
  obtain ⟨schema, contract, request, -, hrequest, hcall⟩ :=
    requestListItems_cases [("id", .str "..")] (by decide +kernel)
  have hfields : (requestListItems [("id", .str "..")]).toOption.map
        (fun p => (p.2.1.pathTemplate, Url.removeDotSegments p.2.2.url.fullPath)) =
      some ("/users/{id}/items", "/v1/items".toList) := by
    decide +kernel
  rw [hcall] at hfields
  obtain ⟨htemplate, hpath⟩ := Prod.ext_iff.mp (Option.some.inj hfields)
  have hpath : Url.removeDotSegments request.url.fullPath = "/v1/items".toList := hpath
  refine ⟨contract, request, hrequest, hpath, fun hcontained => ?_⟩
  have hsegments := hcontained.segments
  rw [DeclarativeRequest.segments, hpath,
    show contract.pathTemplate = "/users/{id}/items" from htemplate] at hsegments
  exact absurd (congrArg List.length hsegments) (by decide +kernel)

end McpFlow.Factory

import Mathlib.Data.List.Basic
import McpFlow.Library.Json

/-!
# Exchanges of the HTTP client

What one streamed POST can end in: the published exception classes of the client with their
hierarchy, and the three ways an exchange goes. The exceptions of connecting and of waiting for a
connection are raised before the request is written, so no exchange that may have left carries one.
-/

namespace McpFlow.Mcp

/-- The exception classes of the HTTP client; `other` is every exception that is none of them. -/
inductive HttpException where
  | connectTimeout
  | readTimeout
  | writeTimeout
  | poolTimeout
  | timeoutException
  | connectError
  | readError
  | writeError
  | closeError
  | networkError
  | localProtocolError
  | remoteProtocolError
  | protocolError
  | proxyError
  | unsupportedProtocol
  | transportError
  | decodingError
  | tooManyRedirects
  | requestError
  | httpError
  | invalidUrl
  | streamError
  | other
deriving DecidableEq, Repr

namespace HttpException

/-- The base class, within the hierarchy. -/
def base? : HttpException → Option HttpException
  | connectTimeout | readTimeout | writeTimeout | poolTimeout => some timeoutException
  | connectError | readError | writeError | closeError => some networkError
  | localProtocolError | remoteProtocolError => some protocolError
  | timeoutException | networkError | protocolError | proxyError | unsupportedProtocol =>
    some transportError
  | transportError | decodingError | tooManyRedirects => some requestError
  | requestError => some httpError
  | httpError | invalidUrl | streamError | other => none

/-- The class and the ones above it, `n` levels up. -/
def classes : ℕ → HttpException → List HttpException
  | 0, e => [e]
  | n + 1, e => e :: (e.base?.map (classes n)).getD []

/-- `isinstance(e, c)`. The hierarchy has five levels. -/
def isInstance (e c : HttpException) : Bool := (classes 4 e).contains c

/-- The exceptions that end an exchange before the request is written: no connection was made, or
none was free. -/
def precedesRequest (e : HttpException) : Bool :=
  e.isInstance connectTimeout || e.isInstance poolTimeout || e.isInstance connectError

end HttpException

/-- An exception that can follow the request. -/
abbrev LateException := { e : HttpException // e.precedesRequest = false }

/-- How one streamed POST goes. -/
inductive Exchange where
  /-- The client raised before any byte of the request was written. -/
  | unsent (e : HttpException)
  /-- The request may have left, and the client raised before it had the response headers. -/
  | unanswered (e : LateException)
  /-- The response headers arrived. The chunks of the body follow; the reading ends with the body,
  or breaks off with an exception. -/
  | answered (statusCode : ℕ) (chunks : List (List UInt8)) (broken : Option LateException)
deriving DecidableEq

/-- What the client posts. -/
structure HttpRequest where
  endpoint : String
  headers : List (String × String)
  body : Json.Value
  timeoutMs : ℕ
deriving DecidableEq

/-- What `json.loads(body.decode("utf-8"))` ends in. A document nested too deeply raises a
`RecursionError`; NaN and the infinities stand as some float other than zero. -/
inductive Decoded where
  | value (payload : Json.Value)
  | valueError
  | recursionError
deriving DecidableEq

end McpFlow.Mcp

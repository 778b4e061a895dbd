import MiniOpenFX.Common.Errors
import MiniOpenFX.Js.Codec

/-!
# The exceptions filter

What the API answers when a request fails. Whatever is thrown ends as one envelope,
`{"error": {"code", "message"}}`, under the status of the exception; what is no `HttpException` is
an internal error, whose message is not shown.

Source: `apps/api/src/common/filters/all-exceptions.filter.ts`.
-/

namespace MiniOpenFX

open Js

/-- The property `message` of the object an exception responds with. -/
inductive ExceptionMessage where
  | text (message : String)
  | list (messages : List String)
  | other

/-- `HttpException.getResponse()`: a text, or an object that may have a message. -/
inductive ExceptionResponse where
  | text (body : String)
  | object (message : Option ExceptionMessage)

/-- An exception of Nest: its status, what `getResponse()` gives and its own message, the last
resort of `extractMessage`. -/
structure HttpException where
  status : Nat
  response : ExceptionResponse
  message : String

/-- An exception of Nest that is made with a message. -/
def HttpException.of (status : Nat) (message : String) : HttpException :=
  ⟨status, .object (some (.text message)), message⟩

/-- What a request can fail with: what the services throw, and what the guard, the pipes and the
controllers do. -/
inductive Thrown where
  | service (e : JsError)
  | badRequestException (message : String)
  /-- the `ValidationPipe` refuses the query or body -/
  | validation (messages : List String)
  | unauthorizedException (message : String)
  | serviceUnavailableException (message : String)

/-- The exception, if it is an `HttpException`. -/
def Thrown.httpException? : Thrown → Option HttpException
  | .service (.badRequestException message) => some (.of 400 message)
  | .service (.notFoundException message) => some (.of 404 message)
  | .service (.conflictException message) => some (.of 409 message)
  | .service (.goneException message) => some (.of 410 message)
  | .service (.unprocessableEntityException message) => some (.of 422 message)
  | .service (.badGatewayException message) => some (.of 502 message)
  | .service (.gatewayTimeoutException message) => some (.of 504 message)
  | .service _ => none
  | .badRequestException message => some (.of 400 message)
  | .validation messages =>
    some ⟨400, .object (some (.list messages)), "Bad Request Exception"⟩
  | .unauthorizedException message => some (.of 401 message)
  | .serviceUnavailableException message => some (.of 503 message)

/-- A response on the wire. -/
structure HttpReply where
  status : Nat
  text : String
  deriving DecidableEq

/-- `response.status(status).json(value)`. -/
def HttpReply.json {α : Type} [JsonCodec α] (status : Nat) (value : α) : HttpReply :=
  ⟨status, JsonCodec.text value⟩

/-- `{ error: { code, message } }`, the body of every reply that is not a success. -/
structure ErrorEnvelope where
  code : String
  message : String
  deriving DecidableEq

instance : JsonCodec ErrorEnvelope where
  toJson e := .obj [("error", .obj [("code", .str e.code), ("message", .str e.message)])]
  ofJson? v := do
    let error ← v.field? "error"
    return ⟨← error.text? "code", ← error.text? "message"⟩
  valid _ := by simp [Json.Valid, Json.ValidFields]
  ofJson?_toJson e := by simp [Json.field?, Json.text?, Json.str?]

namespace AllExceptionsFilter

/-- `STATUS_CODES` of `node:http`, for errors. -/
def statusText? : Nat → Option String
  | 400 => some "Bad Request"
  | 401 => some "Unauthorized"
  | 402 => some "Payment Required"
  | 403 => some "Forbidden"
  | 404 => some "Not Found"
  | 405 => some "Method Not Allowed"
  | 406 => some "Not Acceptable"
  | 407 => some "Proxy Authentication Required"
  | 408 => some "Request Timeout"
  | 409 => some "Conflict"
  | 410 => some "Gone"
  | 411 => some "Length Required"
  | 412 => some "Precondition Failed"
  | 413 => some "Payload Too Large"
  | 414 => some "URI Too Long"
  | 415 => some "Unsupported Media Type"
  | 416 => some "Range Not Satisfiable"
  | 417 => some "Expectation Failed"
  | 418 => some "I'm a Teapot"
  | 421 => some "Misdirected Request"
  | 422 => some "Unprocessable Entity"
  | 423 => some "Locked"
  | 424 => some "Failed Dependency"
  | 425 => some "Too Early"
  | 426 => some "Upgrade Required"
  | 428 => some "Precondition Required"
  | 429 => some "Too Many Requests"
  | 431 => some "Request Header Fields Too Large"
  | 451 => some "Unavailable For Legal Reasons"
  | 500 => some "Internal Server Error"
  | 501 => some "Not Implemented"
  | 502 => some "Bad Gateway"
  | 503 => some "Service Unavailable"
  | 504 => some "Gateway Timeout"
  | 505 => some "HTTP Version Not Supported"
  | 506 => some "Variant Also Negotiates"
  | 507 => some "Insufficient Storage"
  | 508 => some "Loop Detected"
  | 509 => some "Bandwidth Limit Exceeded"
  | 510 => some "Not Extended"
  | 511 => some "Network Authentication Required"
  | _ => none

/-- `text.replace(/[^A-Z0-9]+/g, '_')`; `run` while the characters before belong to a match. -/
def underscored (run : Bool) : List Char → List Char
  | [] => []
  | c :: cs =>
    if c.isUpper || c.isDigit then c :: underscored false cs
    else if run then underscored true cs
    else '_' :: underscored true cs

/-- The name of a status in capitals, `Not Found` as `NOT_FOUND`; an unknown status is named as
500. -/
def codeForStatus (status : Nat) : String :=
  let text := (statusText? status).getD "Internal Server Error"
  String.ofList (underscored false (text.toList.map Char.toUpper))

/-- The message of the envelope: what the exception responds with, the messages of a list joined,
and for anything but an `HttpException` a text that gives nothing away. -/
def extractMessage (exception : Thrown) (status : Nat) : String :=
  match exception.httpException? with
  | some e => match e.response with
    | .text body => body
    | .object (some (.list messages)) => "; ".intercalate messages
    | .object (some (.text message)) => message
    | .object (some .other) | .object none => e.message
  | none => if status ≥ 500 then "Internal server error" else "Unexpected error"

/-- The status the exception is answered with; what is no `HttpException` is a 500. -/
def statusOf (exception : Thrown) : Nat :=
  match exception.httpException? with
  | some e => e.status
  | none => 500

/-- The envelope an exception ends as. -/
def envelope (exception : Thrown) : ErrorEnvelope :=
  ⟨codeForStatus (statusOf exception), extractMessage exception (statusOf exception)⟩

/-- `catch`: what is answered. -/
def reply (exception : Thrown) : HttpReply := .json (statusOf exception) (envelope exception)

end AllExceptionsFilter

end MiniOpenFX

import ChatBackend.Auth
import ChatBackend.Lib.Process
import ChatBackend.Service.Storable

/-! What a client is told of its request: the request id that every response carries, and the body of an
error. Routes are any programs that send messages, and the server may refuse any of these. -/

namespace ChatBackend

open Lib

namespace Http

abbrev Headers := List (Text × Text)

inductive AsgiMessage where
  | start (status : Nat) (headers : Headers)
  | body (content : List (Fin 256))
  | other (type : String)

def AsgiMessage.isStart : AsgiMessage → Bool
  | .start _ _ => true
  | _ => false

/-- The exceptions that the handlers tell apart. -/
inductive Failure where
  | app (e : AppError)
  | http (statusCode : Nat) (detail : String)
  | validation (errors : List FieldError)
  | dbapi
  | redis
  | connection
  | other
  deriving DecidableEq

/-- `base`: what `except Exception` lets by, as a cancellation. -/
inductive Thrown where
  | exception (f : Failure)
  | base
  deriving DecidableEq

def xRequestId : Text := text "x-request-id"

/-- The library's responses. Setting a header replaces every header of that name. -/
structure Responses where
  render : Json → List (Fin 256)
  jsonHeaders : List (Fin 256) → Headers
  setItem : Headers → Text → Text → Headers
  setItem_same : ∀ headers key value,
    (setItem headers key value).filter (fun h => h.1 = key) = [(key, value)]

/-! Errors. -/

/-- `_STATUS_CODES`. -/
def statusCodes : List (Nat × String) := [
  (400, "bad_request"),
  (401, "unauthorized"),
  (403, "access_denied"),
  (404, "not_found"),
  (405, "method_not_allowed"),
  (409, "conflict"),
  (413, "payload_too_large"),
  (415, "unsupported_media_type"),
  (422, "validation_error"),
  (429, "rate_limited"),
  (503, "service_unavailable")]

def httpError (statusCode : Nat) (detail : String) : AppError :=
  ⟨statusCode, (statusCodes.lookup statusCode).getD "error", detail⟩

/-- `install_error_handlers`. -/
def errorHandler : Failure → Option AppError
  | .app e => some e
  | .http statusCode detail => some (httpError statusCode detail)
  | .validation errors => some (validationError errors)
  | .dbapi | .redis | .connection => some dependencyDown
  | .other => none

def internalError : AppError := ⟨500, "internal_error", "Internal server error"⟩

def errorBody (e : AppError) (requestId : Text) : Json := .obj [
  (text "code", stringJson e.code),
  (text "message", stringJson e.message),
  (text "request_id", .str requestId)]

section Answers

variable (lib : Responses) (requestId : Text)

def errorMessages (e : AppError) : List AsgiMessage :=
  let content := lib.render (errorBody e requestId)
  [.start e.statusCode (lib.jsonHeaders content), .body content]

def sendAll : List AsgiMessage → Process AsgiMessage Thrown
  | [] => .returns
  | m :: ms => .sends m (fun refused => refused.elim (sendAll ms) .raises)

def errorResponse (e : AppError) : Process AsgiMessage Thrown := sendAll (errorMessages lib requestId e)

/-- How the framework runs the handlers. A handled exception that comes after the start becomes an error
of its own. -/
def exceptionHandler (started : Bool) : Thrown → Process AsgiMessage Thrown
  | .base => .raises .base
  | .exception f =>
    match errorHandler f with
    | none => .raises (.exception f)
    | some e => if started then .raises (.exception .other) else errorResponse lib requestId e

def exceptionMiddleware (route : Process AsgiMessage Thrown) : Process AsgiMessage Thrown :=
  .guarded AsgiMessage.isStart (exceptionHandler lib requestId) false route

/-! `RequestContextMiddleware`. -/

/-- The variables of `_http`, and what the server was given. -/
structure Exchange where
  status : Nat
  started : Bool
  sent : List AsgiMessage

def Exchange.init : Exchange := ⟨500, false, []⟩

variable (server : List AsgiMessage → Option Thrown)

def forward (x : Exchange) (m : AsgiMessage) : Exchange × Option Thrown :=
  ({ x with sent := x.sent ++ [m] }, server (x.sent ++ [m]))

def sendWrapper (x : Exchange) : AsgiMessage → Exchange × Option Thrown
  | .start status headers =>
    forward server { x with started := true, status := status }
      (.start status (lib.setItem headers xRequestId requestId))
  | m => forward server x m

/-- The `status` at the end is the one that is counted and logged. -/
def http (app : Process AsgiMessage Thrown) : Exchange × Option Thrown :=
  match app.perform (sendWrapper lib requestId server) .init with
  | (x, some (.exception f)) =>
    if x.started then (x, some (.exception f))
    else (errorResponse lib requestId internalError).perform (sendWrapper lib requestId server) x
  | r => r

end Answers

/-- `[A-Za-z0-9._-]`. -/
def requestIdClass (c : CodePoint) : Bool :=
  between 'A' 'Z' c || between 'a' 'z' c || between '0' '9' c || (text "._-").contains c

/-- `_VALID_REQUEST_ID.match`. -/
def validRequestId (s : Text) : Bool :=
  Regex.accepts (Regex.looseEnd newline) (.whole requestIdClass 1 128) s

/-- `uuid.uuid4().hex`. -/
def uuidHex (id : Uuid) : Text := (numeral 16 32 id.val).map codePoint

/-- `Headers.get` gives the first header of the name. -/
def incomingId (headers : Headers) : Text :=
  (headers.find? (fun h => h.1 = xRequestId)).elim [] Prod.snd

def requestIdOf (headers : Headers) (fresh : Uuid) : Text :=
  if validRequestId (incomingId headers) then incomingId headers else uuidHex fresh

/-- A request as it comes in. The route sees the request id in the context variable. -/
def call (lib : Responses) (headers : Headers) (fresh : Uuid) (route : Text → Process AsgiMessage Thrown)
    (server : List AsgiMessage → Option Thrown) : Exchange × Option Thrown :=
  let requestId := requestIdOf headers fresh
  http lib requestId server (exceptionMiddleware lib requestId (route requestId))

/-! The request id. -/

section Answers

variable {lib : Responses} {requestId : Text} (server : List AsgiMessage → Option Thrown)

def stamp (lib : Responses) (requestId : Text) : AsgiMessage → AsgiMessage
  | .start status headers => .start status (lib.setItem headers xRequestId requestId)
  | m => m

/-- The status of the last start, or the status that `_http` begins with. -/
def statusOf (sent : List AsgiMessage) : Nat :=
  sent.foldl (fun status m => match m with | .start s _ => s | _ => status) 500

/-- The exchange after the messages `ms`. -/
def Follows (lib : Responses) (requestId : Text) (x : Exchange) (ms : List AsgiMessage) : Prop :=
  x = ⟨statusOf ms, ms.any AsgiMessage.isStart, ms.map (stamp lib requestId)⟩

theorem Follows.send {x : Exchange} {ms : List AsgiMessage} (follows : Follows lib requestId x ms)
    (m : AsgiMessage) :
    Follows lib requestId (sendWrapper lib requestId server x m).1 (ms ++ [m]) ∧
      (sendWrapper lib requestId server x m).2 = server ((ms ++ [m]).map (stamp lib requestId)) := by
  subst follows
  cases m <;> simp [Follows, sendWrapper, forward, stamp, statusOf, AsgiMessage.isStart]

/-- What a program sends by itself, and what it raises. -/
def alone (lib : Responses) (requestId : Text) (server : List AsgiMessage → Option Thrown)
    (p : Process AsgiMessage Thrown) : List AsgiMessage × Option Thrown :=
  p.perform (Process.record fun sent => server (sent.map (stamp lib requestId))) []

/-- The route under the wrapper, with the flag of the framework beside it. -/
def watched (lib : Responses) (requestId : Text) (server : List AsgiMessage → Option Thrown)
    (p : Process AsgiMessage Thrown) : (Exchange × Bool) × Option Thrown :=
  p.perform (Process.watch AsgiMessage.isStart (sendWrapper lib requestId server)) (.init, false)

/-- A failed route was answered, as far as the server took the answer. -/
structure Answered (lib : Responses) (requestId : Text) (server : List AsgiMessage → Option Thrown)
    (e : AppError) (before : List AsgiMessage) (out : Exchange × Option Thrown) : Prop where
  sent : ∃ taken, taken <+: errorMessages lib requestId e ∧ taken ≠ [] ∧
    out.1.sent = (before ++ taken).map (stamp lib requestId)
  whole : (∀ sent, server sent = none) →
    out.1.sent = (before ++ errorMessages lib requestId e).map (stamp lib requestId) ∧ out.2 = none

/-- Every message is a stamped one, and the status is that of the last start. -/
def Stamped (lib : Responses) (requestId : Text) (x : Exchange) : Prop :=
  ∃ ms, Follows lib requestId x ms

theorem statusOf_stamped (ms : List AsgiMessage) :
    statusOf (ms.map (stamp lib requestId)) = statusOf ms := by
  rw [statusOf, List.foldl_map]
  refine List.foldl_ext _ _ _ fun status m _ => ?_
  cases m <;> rfl

theorem Stamped.names {x : Exchange} (stamped : Stamped lib requestId x) :
    (∀ status headers, AsgiMessage.start status headers ∈ x.sent →
      headers.filter (fun h => h.1 = xRequestId) = [(xRequestId, requestId)]) ∧
    x.status = statusOf x.sent := by
  obtain ⟨ms, rfl⟩ := stamped
  refine ⟨fun status headers mem => ?_, (statusOf_stamped ms).symm⟩
  obtain ⟨m, -, eq⟩ := List.mem_map.mp mem
  cases m with
  | start s hs =>
    cases eq
    exact lib.setItem_same hs xRequestId requestId
  | body | other => cases eq

end Answers

def plainResponses : Responses where
  render _ := []
  jsonHeaders _ := [(text "content-type", text "application/json")]
  setItem headers key value := headers.filter (fun h => h.1 ≠ key) ++ [(key, value)]
  setItem_same headers key value := by
    rw [List.filter_append, List.filter_filter]
    simp

/-- The server is gone when the body of the answer is to be sent. -/
def teapot : Exchange × Option Thrown :=
  call plainResponses [(xRequestId, text "abc")] 0 (fun _ => .raises (.exception (.http 418 "teapot")))
    (fun sent => if sent.length = 2 then some (.exception .connection) else none)

example : teapot.1.status = 418 ∧ teapot.1.sent.length = 2 ∧ teapot.2 = some (.exception .connection) := by
  decide +kernel

end Http

end ChatBackend

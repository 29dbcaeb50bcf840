import ChatBackend.Lib.PyText
import ChatBackend.Realtime.Dispatch
import ChatBackend.Service.Atomic

/-! Client frames, from `ws.receive` to the reply in the queue and the text it is written as. The
reply echoes the `ref` of the event, whatever JSON value that is. -/

namespace ChatBackend

open Lib

inductive Raised where
  | app (e : AppError)
  | python (e : PyError)
  /-- `SQLAlchemyError`, `RedisError` or `OSError`. -/
  | backend

/-- What fails outside while an action runs: the database before the commit, the answer to a commit
that took place, Redis. -/
inductive Outage where
  | none
  | database
  | commit
  | redis
  deriving DecidableEq

inductive Frame where
  | text (t : Text)
  | bytes (b : List (Fin 256))

/-- An empty text goes on as no bytes, which is the same text. -/
def Frame.raw : Frame → Text
  | .text t => t
  | .bytes b => decodeReplace b

structure Socket where
  session : Session
  service : Service
  conn : Connection Json

/-- What handles the frames of a socket. -/
structure Handler where
  env : Env
  py : Interpreter
  unicode : Printing

def errorReply (code message : Text) (ref : Json) : Json :=
  .obj [(text "type", .str (text "error")), (text "ref", ref),
    (text "data", .obj [(text "code", .str code), (text "message", .str message)])]

def pongReply (ref : Json) : Json := .obj [(text "type", .str (text "pong")), (text "ref", ref)]

namespace Socket

def reply (k : Socket) (r : Json) : Socket := { k with conn := k.conn.sendNowait r }

/-- `SocketSession._error`. -/
def error (k : Socket) (code message : Text) (ref : Json) : Socket :=
  k.reply (errorReply code message ref)

/-- `SocketSession._guard`, once its action is done. -/
def guard (k : Socket) (ref : Json) (done : Service × Except Raised Unit) : Except Raised Socket :=
  let k := { k with service := done.1 }
  match done.2 with
  | .ok () => .ok k
  | .error (.app e) => .ok (k.error (text e.code) (text e.message) ref)
  | .error (.python e) =>
    if e ∈ [.keyError, .typeError, .valueError] then
      .ok (k.error (text "bad_event") (text "Missing or invalid fields") ref)
    else .error (.python e)
  | .error .backend =>
    .ok (k.error (text "service_unavailable") (text "Temporarily unavailable, retry") ref)

end Socket

/-- `event[key]` -/
def itemOf (event : List (Text × Json)) (key : String) : Except Raised Json :=
  match event.lookup (text key) with
  | some v => .ok v
  | none => .error (.python .keyError)

def Ending.outcome {ρ : Type} : Ending ρ → Except Raised Unit
  | .raised e => .error (.app e)
  | .failed => .error .backend
  | .returned _ => .ok ()

namespace Handler

variable (h : Handler)

/-- `uuid.UUID(str(v))` -/
def uuidOf (v : Json) : Except Raised Uuid :=
  match (plainString (h.unicode.str v)).bind (parseUuid h.env.lenient) with
  | some id => .ok id
  | none => .error (.python .valueError)

/-- `uuid.UUID(str(event[key]))` -/
def uuidItem (event : List (Text × Json)) (key : String) : Except Raised Uuid :=
  match itemOf event key with
  | .ok v => h.uuidOf v
  | .error e => .error e

def conclude {ρ : Type} (s : Service) (outage : Outage) (change : Option Change) (ending : Ending ρ) :
    Service × Except Raised Unit :=
  if outage = .database then (s, .error .backend)
  else (s.commit h.env change,
    if outage = .commit ∧ change.isSome then .error .backend else ending.outcome)

/-- `SocketSession._ack`. -/
def ack (k : Socket) (event : List (Text × Json)) (now : Timestamp) (outage : Outage) :
    Service × Except Raised Unit :=
  match h.uuidItem event "message_id" with
  | .error e => (k.service, .error e)
  | .ok id =>
    let r := markDelivered h.env k.service.db k.session.userId id now
    h.conclude k.service outage r.1 r.2

/-- `SocketSession._read`. -/
def read (k : Socket) (event : List (Text × Json)) (now : Timestamp) (outage : Outage) :
    Service × Except Raised Unit :=
  match h.uuidItem event "conversation_id" with
  | .error e => (k.service, .error e)
  | .ok cid =>
    match h.uuidItem event "up_to_message_id" with
    | .error e => (k.service, .error e)
    | .ok upTo =>
      let r := markRead k.service.db k.session.userId cid upTo now
      h.conclude k.service outage r.1 r.2

/-- `Hub.publish` of a typing event. -/
def publish (k : Socket) (s : Service) (cid : Uuid) (isTyping : Bool) (peer : UserId)
    (outage : Outage) : Service × Except Raised Unit :=
  if outage = .redis then (s, .error .backend) else (s.publish k.session cid isTyping peer, .ok ())

/-- `SocketSession._typing`. -/
def typing (k : Socket) (event : List (Text × Json)) (outage : Outage) :
    Service × Except Raised Unit :=
  match h.uuidItem event "conversation_id" with
  | .error e => (k.service, .error e)
  | .ok cid =>
    let isTyping := ((event.lookup (text "is_typing")).getD (.bool true)).truthy
    match k.service.peer k.session cid with
    | some peer => publish k k.service cid isTyping peer outage
    | none =>
      if outage = .database then (k.service, .error .backend)
      else
        match getConversation k.service.db k.session.userId cid with
        | .error e => (k.service, .error (.app e))
        | .ok c =>
          let peer := c.peerOf k.session.userId
          publish k { k.service with peers := k.service.peers ++ [(k.session, cid, peer)] } cid
            isTyping peer outage

/-- The actions that run under `_guard`. -/
def action (k : Socket) (event : List (Text × Json)) (now : Timestamp) (outage : Outage) :
    Option (Service × Except Raised Unit) :=
  let kind := getItem event "type"
  if kind.isText (text "ack") then some (h.ack k event now outage)
  else if kind.isText (text "read") then some (h.read k event now outage)
  else if kind.isText (text "typing") then some (h.typing k event outage)
  else none

/-- `SocketSession._handle`. -/
def handle (k : Socket) (event : List (Text × Json)) (now : Timestamp) (outage : Outage) :
    Except Raised Socket :=
  let kind := getItem event "type"
  let ref := getItem event "ref"
  if kind.isText (text "ping") then .ok (k.reply (pongReply ref))
  else if kind.isText (text "pong") then .ok k
  else
    match h.action k event now outage with
    | some done => k.guard ref done
    | none =>
      .ok (k.error (text "unknown_event")
        (text "Unsupported event type: " ++ h.unicode.repr kind) ref)

/-- `SocketSession._reader`, on one frame. -/
def receive (k : Socket) (frame : Frame) (now : Timestamp) (outage : Outage) : Except Raised Socket :=
  match h.py.loads frame.raw with
  | .error .valueError =>
    .ok (k.error (text "bad_event") (text "Events must be JSON objects") .null)
  | .error .recursionError | .error .unfinished => .error (.python .recursionError)
  | .ok (.obj event) => h.handle k event now outage
  | .ok _ => .ok (k.error (text "bad_event") (text "Events must be JSON objects") .null)

end Handler

/-- `SocketSession._writer`: `json.dumps` refuses an integer that is too long, and `send_text` a
text that UTF-8 cannot encode. -/
def writeText (event : Json) : Except PyError Text :=
  if event.isShort && encodable (dumps event) then .ok (dumps event) else .error .valueError

/-! What a reply is worth to the writer. -/

theorem errorReply_isFinite (code message : Text) (ref : Json) :
    (errorReply code message ref).isFinite = ref.isFinite := by
  simp [errorReply, Json.isFinite, Json.every, everyMember, Json.leafFinite]

theorem errorReply_isShort (code message : Text) (ref : Json) :
    (errorReply code message ref).isShort = ref.isShort := by
  simp [errorReply, Json.isShort, Json.every, everyMember, Json.leafShort]

theorem errorReply_isScalar {code message : Text} (ref : Json) (hc : encodable code = true)
    (hm : encodable message = true) : (errorReply code message ref).isScalar = ref.isScalar := by
  simp [errorReply, Json.isScalar, Json.every, everyMember, Json.leafScalar, hc, hm, encodable_text]

/-- Nothing but the ref can spoil the reply. -/
structure Echoes (r ref : Json) : Prop where
  finite : r.isFinite = ref.isFinite
  scalar : r.isScalar = ref.isScalar
  short : r.isShort = ref.isShort

theorem echoes_error {code message : Text} (ref : Json) (hc : encodable code = true)
    (hm : encodable message = true) : Echoes (errorReply code message ref) ref :=
  ⟨errorReply_isFinite _ _ ref, errorReply_isScalar ref hc hm, errorReply_isShort _ _ ref⟩

theorem echoes_pong (ref : Json) : Echoes (pongReply ref) ref where
  finite := by simp [pongReply, Json.isFinite, Json.every, everyMember, Json.leafFinite]
  scalar := by simp [pongReply, Json.isScalar, Json.every, everyMember, Json.leafScalar, encodable_text]
  short := by simp [pongReply, Json.isShort, Json.every, everyMember, Json.leafShort]

/-- The writer sends the event, as a JSON text. -/
def Written (event : Json) : Prop :=
  ∃ t, writeText event = .ok t ∧ IsJson t ∧ encodable t = true

theorem written_iff {event : Json} (short : event.isShort = true) :
    Written event ↔ event.isFinite = true ∧ event.isScalar = true := by
  unfold Written writeText
  rw [short, Bool.true_and, dumps_encodable]
  constructor
  · rintro ⟨t, sent, json, -⟩
    split at sent
    · rename_i scalar
      cases sent
      exact ⟨(dumps_isJson_iff event).mp json, scalar⟩
    · cases sent
  · rintro ⟨finite, scalar⟩
    exact ⟨dumps event, if_pos scalar, (dumps_isJson_iff event).mpr finite,
      (dumps_encodable event).trans scalar⟩

/-- The text is not nested beyond the interpreter's limit. -/
def Interpreter.fits (py : Interpreter) (t : Text) : Bool :=
  match py.loads t with
  | .error .recursionError => false
  | _ => true

/-! No action raises what `_guard` lets through. -/

def Caught (r : Except Raised Unit) : Prop :=
  ∀ e, r = .error (.python e) → e ∈ [PyError.keyError, .typeError, .valueError]

theorem outcome_caught {ρ : Type} (ending : Ending ρ) : Caught ending.outcome := by
  intro e same
  cases ending <;> cases same

section Actions
variable (h : Handler)

theorem uuidItem_caught {event : List (Text × Json)} {key : String} {e : Raised}
    (h' : h.uuidItem event key = .error e) : Caught (.error e) := by
  intro p same
  cases same
  unfold Handler.uuidItem itemOf at h'
  cases found : event.lookup (text key) with
  | none =>
    simp only [found] at h'
    cases h'
    decide
  | some v =>
    simp only [found, Handler.uuidOf] at h'
    split at h'
    · cases h'
    · cases h'
      decide

theorem conclude_caught {ρ : Type} (s : Service) (outage : Outage) (change : Option Change)
    (ending : Ending ρ) : Caught (h.conclude s outage change ending).2 := by
  unfold Handler.conclude
  split
  · exact fun e same => nomatch same
  · dsimp only
    split
    · exact fun e same => nomatch same
    · exact outcome_caught ending

theorem publish_caught (k : Socket) (s : Service) (cid : Uuid) (isTyping : Bool) (peer : UserId)
    (outage : Outage) : Caught (Handler.publish k s cid isTyping peer outage).2 := by
  unfold Handler.publish
  split <;> exact fun e same => nomatch same

theorem ack_caught (k : Socket) (event : List (Text × Json)) (now : Timestamp) (outage : Outage) :
    Caught (h.ack k event now outage).2 := by
  unfold Handler.ack
  cases id : h.uuidItem event "message_id" with
  | error e => exact uuidItem_caught h id
  | ok id => exact conclude_caught h _ _ _ _

theorem read_caught (k : Socket) (event : List (Text × Json)) (now : Timestamp) (outage : Outage) :
    Caught (h.read k event now outage).2 := by
  unfold Handler.read
  cases cid : h.uuidItem event "conversation_id" with
  | error e => exact uuidItem_caught h cid
  | ok cid =>
    cases upTo : h.uuidItem event "up_to_message_id" with
    | error e => exact uuidItem_caught h upTo
    | ok upTo => exact conclude_caught h _ _ _ _

theorem typing_caught (k : Socket) (event : List (Text × Json)) (outage : Outage) :
    Caught (h.typing k event outage).2 := by
  unfold Handler.typing
  cases cid : h.uuidItem event "conversation_id" with
  | error e => exact uuidItem_caught h cid
  | ok cid =>
    dsimp only
    split
    · exact publish_caught _ _ _ _ _ _
    · split
      · exact fun e same => nomatch same
      · split
        · exact fun e same => nomatch same
        · exact publish_caught _ _ _ _ _ _

theorem action_caught {k : Socket} {event : List (Text × Json)} {now : Timestamp} {outage : Outage}
    {done : Service × Except Raised Unit} (h' : h.action k event now outage = some done) :
    Caught done.2 := by
  unfold Handler.action at h'
  dsimp only at h'
  split at h'
  · cases h'
    exact ack_caught h _ _ _ _
  · split at h'
    · cases h'
      exact read_caught h _ _ _ _
    · split at h'
      · cases h'
        exact typing_caught h _ _ _
      · cases h'

end Actions

/-- With nothing failing outside, the typing action is the one of the service. -/
theorem typing_service (h : Handler) (k : Socket) {event : List (Text × Json)} {cid : Uuid}
    (named : h.uuidItem event "conversation_id" = .ok cid) :
    ∃ isTyping, h.typing k event .none =
      ((sendTyping k.service k.session cid isTyping).1,
        (sendTyping k.service k.session cid isTyping).2.mapError .app) := by
  refine ⟨((event.lookup (text "is_typing")).getD (.bool true)).truthy, ?_⟩
  unfold Handler.typing sendTyping
  simp only [named, Handler.publish]
  cases k.service.peer k.session cid with
  | some peer => rfl
  | none =>
    cases getConversation k.service.db k.session.userId cid with
    | error e => rfl
    | ok c => rfl

/-! The reply to a frame, by the ref it echoes. -/

inductive Answered (c : Connection Json) : Option Json → Connection Json → Prop where
  | silent : Answered c none c
  | replied (r ref : Json) : Echoes r ref → Answered c (some ref) (c.sendNowait r)

namespace Handler

variable (h : Handler)

/-- The ref that the reply echoes, if there is one. -/
def echoOf (k : Socket) (event : List (Text × Json)) (now : Timestamp) (outage : Outage) : Option Json :=
  let kind := getItem event "type"
  if kind.isText (text "ping") then some (getItem event "ref")
  else if kind.isText (text "pong") then none
  else
    match h.action k event now outage with
    | some (_, .ok ()) => none
    | _ => some (getItem event "ref")

def echo (k : Socket) (frame : Frame) (now : Timestamp) (outage : Outage) : Option Json :=
  match h.py.loads frame.raw with
  | .ok (.obj event) => h.echoOf k event now outage
  | _ => some .null

end Handler

theorem guard_answered (k : Socket) (ref : Json) {done : Service × Except Raised Unit}
    (caught : Caught done.2) : ∃ k', k.guard ref done = .ok k' ∧
      Answered k.conn (match done.2 with | .ok () => none | .error _ => some ref) k'.conn := by
  obtain ⟨s, r⟩ := done
  unfold Socket.guard
  cases r with
  | ok => exact ⟨_, rfl, .silent⟩
  | error e =>
    cases e with
    | app e => exact ⟨_, rfl, .replied _ ref (echoes_error ref (encodable_text _) (encodable_text _))⟩
    | python e =>
      have inside := caught e rfl
      simp only [if_pos inside]
      exact ⟨_, rfl, .replied _ ref (echoes_error ref (encodable_text _) (encodable_text _))⟩
    | backend => exact ⟨_, rfl, .replied _ ref (echoes_error ref (encodable_text _) (encodable_text _))⟩

theorem handle_answered (h : Handler) (k : Socket) (event : List (Text × Json)) (now : Timestamp)
    (outage : Outage) : ∃ k', h.handle k event now outage = .ok k' ∧
      Answered k.conn (h.echoOf k event now outage) k'.conn := by
  unfold Handler.handle Handler.echoOf
  by_cases ping : (getItem event "type").isText (text "ping") = true
  · simp only [if_pos ping]
    exact ⟨_, rfl, .replied _ _ (echoes_pong _)⟩
  · by_cases pong : (getItem event "type").isText (text "pong") = true
    · simp only [if_neg ping, if_pos pong]
      exact ⟨_, rfl, .silent⟩
    · simp only [if_neg ping, if_neg pong]
      cases act : h.action k event now outage with
      | none =>
        refine ⟨_, rfl, .replied _ _ (echoes_error _ (encodable_text _) ?_)⟩
        rw [encodable_append, encodable_text, h.unicode.repr_encodable]
        rfl
      | some done =>
        obtain ⟨s, r⟩ := done
        have answered := guard_answered k (getItem event "ref") (action_caught h act)
        cases r with
        | ok => exact answered
        | error e => exact answered

theorem receive_answered (h : Handler) (k : Socket) {frame : Frame} (now : Timestamp)
    (outage : Outage) (fits : h.py.fits frame.raw = true) :
    ∃ k', h.receive k frame now outage = .ok k' ∧ Answered k.conn (h.echo k frame now outage) k'.conn := by
  have refused : Answered k.conn (some .null)
      (k.error (text "bad_event") (text "Events must be JSON objects") .null).conn :=
    .replied _ _ (echoes_error _ (encodable_text _) (encodable_text _))
  unfold Handler.receive Handler.echo
  unfold Interpreter.fits at fits
  cases loaded : h.py.loads frame.raw with
  | error e =>
    cases e with
    | valueError => exact ⟨_, rfl, refused⟩
    | recursionError =>
      rw [loaded] at fits
      cases fits
    | unfinished => exact absurd loaded (loads_finished _ _ _)
  | ok v =>
    cases v with
    | obj event => exact handle_answered h k event now outage
    | null | bool | int | float | str | arr => exact ⟨_, rfl, refused⟩

theorem getItem_short {event : List (Text × Json)} (short : (Json.obj event).isShort = true)
    (key : String) : (getItem event key).isShort = true := by
  unfold getItem
  replace short : everyMember (fun _ => true) Json.leafShort event = true := short
  induction event with
  | nil => rfl
  | cons m rest ih =>
    obtain ⟨k, v⟩ := m
    rw [everyMember, Bool.true_and, Bool.and_eq_true] at short
    rw [List.lookup_cons]
    cases text key == k with
    | true => exact short.1
    | false => exact ih short.2

theorem echo_short {h : Handler} {k : Socket} {frame : Frame} {now : Timestamp} {outage : Outage}
    {ref : Json} (echoed : h.echo k frame now outage = some ref) : ref.isShort = true := by
  unfold Handler.echo at echoed
  split at echoed
  · rename_i event loaded
    have short := getItem_short (loads_short loaded) "ref"
    unfold Handler.echoOf at echoed
    dsimp only at echoed
    split at echoed
    · cases echoed
      exact short
    · split at echoed
      · cases echoed
      · split at echoed
        · cases echoed
        · cases echoed
          exact short
  · cases echoed
    rfl

/-- The frame is handled without raising, with one reply at most, which the writer can write. -/
def Unbroken (h : Handler) (k : Socket) (frame : Frame) (now : Timestamp) (outage : Outage) : Prop :=
  ∃ (k' : Socket) (replies : List Json), h.receive k frame now outage = .ok k' ∧ k'.conn.closing = false ∧
    k'.conn.queue = k.conn.queue ++ replies.map Item.event ∧ replies.length ≤ 1 ∧
    ∀ r ∈ replies, Written r

/-- The ref that would be echoed has no NaN, no infinity and no surrogate. -/
def Handler.echoable (h : Handler) (k : Socket) (frame : Frame) (now : Timestamp) (outage : Outage) :
    Bool :=
  match h.echo k frame now outage with
  | none => true
  | some ref => ref.isFinite && ref.isScalar

theorem Answered.queue {c c' : Connection Json} {echoed : Option Json} (answered : Answered c echoed c')
    (up : c.closing = false) (room : c.queue.length < maxPendingEvents) :
    c'.closing = false ∧ (echoed = none ∧ c'.queue = c.queue ∨ ∃ r ref, echoed = some ref ∧
      Echoes r ref ∧ c'.queue = c.queue ++ [.event r]) := by
  cases answered with
  | silent => exact ⟨up, .inl ⟨rfl, rfl⟩⟩
  | replied r ref echoes =>
    have put : c.sendNowait r = { c with queue := c.queue ++ [.event r], put := c.put ++ [r] } := by
      rw [Connection.sendNowait, if_neg (by simp [up]), if_neg (by omega)]
    rw [put]
    exact ⟨up, .inr ⟨r, ref, rfl, echoes, rfl⟩⟩

/-- In particular, nothing but the ref of the frame can break the session. -/
theorem frame_unbroken_iff (h : Handler) (k : Socket) (frame : Frame) (now : Timestamp) (outage : Outage)
    (up : k.conn.closing = false) (room : k.conn.queue.length < maxPendingEvents)
    (fits : h.py.fits frame.raw = true) :
    Unbroken h k frame now outage ↔ h.echoable k frame now outage = true := by
  obtain ⟨k', received, answered⟩ := receive_answered h k now outage fits
  obtain ⟨open_, queued⟩ := answered.queue up room
  unfold Handler.echoable
  obtain ⟨echoed, same⟩ | ⟨r, ref, echoed, echoes, added⟩ := queued
  · rw [echoed]
    exact ⟨fun _ => rfl, fun _ => ⟨k', [], received, open_, by simpa using same, by simp, by simp⟩⟩
  · have short : r.isShort = true := echoes.short.trans (echo_short echoed)
    have written := written_iff short
    rw [echoes.finite, echoes.scalar] at written
    simp only [echoed, Bool.and_eq_true]
    rw [← written]
    constructor
    · rintro ⟨k'', replies, again, -, queue, -, all⟩
      obtain rfl := Except.ok.inj (received.symm.trans again)
      rw [added, List.append_cancel_left_eq] at queue
      have single : replies = [r] := by
        cases replies with
        | nil => cases queue
        | cons first others =>
          cases others with
          | nil => cases queue; rfl
          | cons => cases queue
      exact all r (by simp [single])
    · intro fine
      exact ⟨k', [r], received, open_, by simpa using added, by simp, by simpa using fine⟩

section Pings

def plainHandler : Handler := ⟨.plain, plainInterpreter, ⟨fun _ => false, fun _ _ => rfl⟩⟩

def newSocket : Socket := ⟨⟨"bob", 0⟩, .init, .init⟩

theorem ping_answered : Unbroken plainHandler newSocket
    (.text (text "\x7b\"type\": \"ping\", \"ref\": [1, \"a\"]\x7d")) 0 .none :=
  (frame_unbroken_iff plainHandler newSocket _ 0 .none rfl (by decide) (by decide +kernel)).mpr
    (by decide +kernel)

/-- The escape of half a character in the ref. -/
def halfPing : Frame := .text (text "\x7b\"type\": \"ping\", \"ref\": \"\\ud800\"\x7d")

theorem half_ref_breaks : ¬ ∀ (h : Handler) (k : Socket) (frame : Frame) (now : Timestamp)
    (outage : Outage), k.conn.closing = false → k.conn.queue.length < maxPendingEvents →
    h.py.fits frame.raw = true → Unbroken h k frame now outage := by
  intro all
  obtain ⟨k', replies, received, -, queue, -, written⟩ :=
    all plainHandler newSocket halfPing 0 .none rfl (by decide) (by decide +kernel)
  have lost : (match plainHandler.receive newSocket halfPing 0 .none with
      | .ok k => k.conn.queue.all fun i =>
          match i with
          | .event e => (writeText e).isOk
          | .close _ _ => true
      | .error _ => true) = false := by decide +kernel
  rw [received] at lost
  have sent : (k'.conn.queue.all fun i =>
      match i with
      | .event e => (writeText e).isOk
      | .close _ _ => true) = true := by
    rw [queue]
    refine List.all_eq_true.mpr fun i mem => ?_
    obtain ⟨r, hr, rfl⟩ := List.mem_map.mp mem
    obtain ⟨t, ok, -⟩ := written r hr
    simp only [ok]
    rfl
  exact absurd (sent.symm.trans lost) (by decide)

example : plainHandler.echoable newSocket (.text (text "\x7b\"ref\": -Infinity\x7d")) 0 .none = false := by
  decide +kernel

end Pings

end ChatBackend

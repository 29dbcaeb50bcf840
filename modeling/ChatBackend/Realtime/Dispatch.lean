import ChatBackend.Realtime.Gap
import ChatBackend.Lib.JsonDecoder

/-! `_dispatch` on every text that comes from Redis. Only the errors of `json.loads` and of reading
the creation time are caught, so a value of another shape than an event's can end the loop. -/

namespace ChatBackend

open Lib

/-- The interpreter: `float` on a numeral, how deep `json.loads` may go, and the time of an ISO date. -/
structure Interpreter where
  toFloat : Text → PyFloat
  nesting : Nat
  timestamp : Text → Option Int

/-- `contextlib.suppress`. -/
def suppress (kinds : List PyError) : Except PyError Unit → Except PyError Unit
  | .error e => if e ∈ kinds then .ok () else .error e
  | .ok () => .ok ()

/-- `event.get("data") or {}` -/
def dataOf (members : List (Text × Json)) : Json :=
  if (getItem members "data").truthy then getItem members "data" else .obj []

namespace Interpreter

variable (py : Interpreter)

def loads (data : Text) : Except LoadsError Json := Lib.loads py.toFloat py.nesting data

/-- `datetime.fromisoformat(data["created_at"]).timestamp()` -/
def createdAt (data : List (Text × Json)) : Except PyError Int :=
  match data.lookup (text "created_at") with
  | none => .error .keyError
  | some (.str s) =>
    match py.timestamp s with
    | none => .error .valueError
    | some t => .ok t
  | some _ => .error .typeError

/-- `Hub._observe_latency`; what it observes is a metric only. -/
def observeLatency (userId : UserId) (event : Json) : Except PyError Unit :=
  match event with
  | .obj members =>
    if !(getItem members "type").isText (text "message.new") then .ok ()
    else
      match dataOf members with
      | .obj data =>
        if !(getItem data "recipient_id").isText (text userId) then .ok ()
        else suppress [.keyError, .typeError, .valueError] ((py.createdAt data).map fun _ => ())
      | _ => .error .attributeError
  | _ => .error .attributeError

/-- `Hub._dispatch`: the `send_nowait` calls it makes, unless it raises. -/
def dispatch (h : Hub Json) (channel : String) (data : Text) :
    Except PyError (List (ConnId × Json)) :=
  match channelUser channel with
  | none => .ok []
  | some userId =>
    match (h.localUsers.lookup userId).getD [] with
    | [] => .ok []
    | first :: others =>
      match py.loads data with
      | .error .valueError => .ok []
      | .error .recursionError | .error .unfinished => .error .recursionError
      | .ok event =>
        match py.observeLatency userId event with
        | .error e => .error e
        | .ok () => .ok ((first :: others).map fun c => (c, event))

end Interpreter

/-- The set of each user, as a list. -/
def Hub.Sets (h : Hub Json) : Prop :=
  ∀ u conns, h.localUsers.lookup u = some conns → conns.Nodup

theorem Hub.Registry.sets {h : Hub Json} {user : ConnId → UserId} (inv : h.Registry user) : h.Sets :=
  fun u conns found => (inv.members u conns found).2.1

namespace Hub

/-- The connections a dispatch on the channel is for. -/
def recipients (h : Hub Json) (channel : String) : List ConnId :=
  match channelUser channel with
  | none => []
  | some u => (h.localUsers.lookup u).getD []

def sendAll (h : Hub Json) (calls : List (ConnId × Json)) : Hub Json :=
  calls.foldl (fun h (c, e) => { h with conns := Function.update h.conns c ((h.conns c).sendNowait e) }) h

end Hub

/-- `_observe_latency` can look into the event. -/
def observable (members : List (Text × Json)) : Bool :=
  !(getItem members "type").isText (text "message.new") || (dataOf members).isObject

namespace Interpreter

variable (py : Interpreter)

/-- Nobody here listens, or the text is not JSON, or it is an object that can be looked into. -/
def tame (h : Hub Json) (channel : String) (data : Text) : Bool :=
  (h.recipients channel).isEmpty ||
    match py.loads data with
    | .error .valueError => true
    | .ok (.obj members) => observable members
    | _ => false

/-- The channel is that of a user with local connections, and the data is a JSON object. -/
structure Addressed (h : Hub Json) (channel : String) (data : Text) (u : UserId)
    (conns : List ConnId) (event : Json) : Prop where
  channel : channel = topicChannel (userTopic u)
  present : h.localUsers.lookup u = some conns
  some : conns ≠ []
  decoded : py.loads data = .ok event
  object : ∃ members, event = .obj members

/-- Each connection is handed the event, once. -/
structure HandedOnce (calls : List (ConnId × Json)) (conns : List ConnId) (event : Json) : Prop where
  once : (calls.map Prod.fst).Nodup
  each : ∀ c, c ∈ calls.map Prod.fst ↔ c ∈ conns
  same : ∀ call ∈ calls, call.2 = event

structure ExactOn (h : Hub Json) (channel : String) (data : Text) (calls : List (ConnId × Json)) :
    Prop where
  handed : ∀ u conns event, py.Addressed h channel data u conns event → HandedOnce calls conns event
  nothing : (∀ u conns event, ¬ py.Addressed h channel data u conns event) → calls = []

/-- It returns, and has handed out what it should. -/
def DispatchExact (h : Hub Json) (channel : String) (data : Text) : Prop :=
  ∃ calls, py.dispatch h channel data = .ok calls ∧ py.ExactOn h channel data calls

variable {py}

theorem createdAt_suppressed (data : List (Text × Json)) :
    suppress [.keyError, .typeError, .valueError] ((py.createdAt data).map fun _ => ()) = .ok () := by
  unfold createdAt
  split
  · rfl
  · split <;> rfl
  · rfl

theorem observeLatency_obj (u : UserId) (members : List (Text × Json)) :
    py.observeLatency u (.obj members) =
      if observable members = true then .ok () else .error .attributeError := by
  unfold observeLatency observable
  by_cases kind : (getItem members "type").isText (text "message.new") = true
  · simp only [kind]
    cases dataOf members with
    | obj data => simp [createdAt_suppressed, Json.isObject]
    | null | bool | int | float | str | arr => rfl
  · simp only [kind, Bool.not_false, Bool.true_or, if_true]

/-- The one place where the loop can end, apart from the text itself. -/
theorem observeLatency_ok {u : UserId} {event : Json} : py.observeLatency u event = .ok () ↔
    ∃ members, event = .obj members ∧ observable members = true := by
  constructor
  · intro ok
    cases event with
    | obj members =>
      rw [observeLatency_obj] at ok
      split at ok
      · rename_i seen
        exact ⟨members, rfl, seen⟩
      · cases ok
    | null | bool | int | float | str | arr => cases ok
  · rintro ⟨members, rfl, seen⟩
    rw [observeLatency_obj, if_pos seen]

variable {h : Hub Json} {channel : String} {data : Text}

theorem recipients_some {u : UserId} {conns : List ConnId} (found : h.localUsers.lookup u = some conns) :
    h.recipients (topicChannel (userTopic u)) = conns := by
  have same : topicChannel (userTopic u) = userChannel u := (String.append_assoc ..).symm
  rw [Hub.recipients, same, channelUser_userChannel]
  simp only [found, Option.getD_some]

theorem dispatch_nobody (nobody : h.recipients channel = []) : py.dispatch h channel data = .ok [] := by
  unfold Hub.recipients at nobody
  unfold dispatch
  cases user : channelUser channel with
  | none => rfl
  | some u =>
    rw [user] at nobody
    simp only at nobody
    simp only [nobody]

theorem dispatch_somebody (py : Interpreter) (data : Text) (somebody : h.recipients channel ≠ []) : ∃ u,
    channel = topicChannel (userTopic u) ∧ h.localUsers.lookup u = some (h.recipients channel) ∧
    py.dispatch h channel data =
      match py.loads data with
      | .error .valueError => .ok []
      | .error .recursionError | .error .unfinished => .error .recursionError
      | .ok event =>
        match py.observeLatency u event with
        | .error e => .error e
        | .ok () => .ok ((h.recipients channel).map fun c => (c, event)) := by
  unfold Hub.recipients at somebody ⊢
  unfold dispatch
  cases user : channelUser channel with
  | none => simp [user] at somebody
  | some u =>
    simp only [user] at somebody ⊢
    cases found : h.localUsers.lookup u with
    | none => simp [found] at somebody
    | some conns =>
      simp only [found, Option.getD_some] at somebody ⊢
      cases conns with
      | nil => exact absurd rfl somebody
      | cons first others =>
        exact ⟨u, (channelUser_some user).trans (String.append_assoc ..), found, rfl⟩

theorem handed_map {conns : List ConnId} {event : Json} (nodup : conns.Nodup) :
    HandedOnce (conns.map fun c => (c, event)) conns event := by
  have firsts : (conns.map fun c => (c, event)).map Prod.fst = conns :=
    (List.map_map ..).trans (List.map_id conns)
  refine ⟨by rwa [firsts], fun c => by rw [firsts], fun call mem => ?_⟩
  obtain ⟨c, -, rfl⟩ := List.mem_map.mp mem
  rfl

theorem Addressed.recipients {u : UserId} {conns : List ConnId} {event : Json}
    (sent : py.Addressed h channel data u conns event) : h.recipients channel = conns := by
  rw [sent.channel, recipients_some sent.present]

end Interpreter

namespace Hub

theorem sendAll_map (h : Hub Json) {conns : List ConnId} (nodup : conns.Nodup) (event : Json) :
    h.sendAll (conns.map fun c => (c, event)) =
      { h with conns := fun c => if c ∈ conns then (h.conns c).sendNowait event else h.conns c } := by
  induction conns generalizing h with
  | nil => simp [sendAll]
  | cons first others ih =>
    obtain ⟨fresh, rest⟩ := List.nodup_cons.mp nodup
    have one := ih { h with conns := Function.update h.conns first ((h.conns first).sendNowait event) } rest
    rw [List.map_cons, sendAll, List.foldl_cons]
    refine one.trans (congrArg (fun conns => { h with conns }) (funext fun c => ?_))
    by_cases same : c = first
    · subst same
      simp [fresh]
    · simp [same]

end Hub

/-- When it returns, the hub is the one of the model that has its data decoded. -/
theorem Interpreter.dispatch_sends (py : Interpreter) {h : Hub Json} (sets : h.Sets) {channel : String}
    {data : Text} {calls : List (ConnId × Json)} (ok : py.dispatch h channel data = .ok calls) :
    h.sendAll calls = h.dispatch ⟨channel, (py.loads data).toOption⟩ := by
  unfold Interpreter.dispatch at ok
  unfold Hub.dispatch
  cases user : channelUser channel with
  | none =>
    simp only [user] at ok
    cases ok
    rfl
  | some u =>
    simp only [user] at ok ⊢
    cases found : h.localUsers.lookup u with
    | none =>
      simp only [found, Option.getD_none] at ok
      cases ok
      rfl
    | some conns =>
      simp only [found, Option.getD_some] at ok ⊢
      cases conns with
      | nil =>
        cases ok
        split
        · rfl
        · simp [Hub.sendAll]
      | cons first others =>
        cases read : py.loads data with
        | error e =>
          simp only [read] at ok
          cases e with
          | valueError => cases ok; rfl
          | recursionError => cases ok
          | unfinished => cases ok
        | ok event =>
          simp only [read] at ok
          split at ok
          · cases ok
          · cases ok
            exact h.sendAll_map (sets u _ found) event

/-- The loop goes on and the event is handed out exactly, just when the message is tame. -/
theorem dispatch_exact_iff (py : Interpreter) {h : Hub Json} (sets : h.Sets) (channel : String)
    (data : Text) : py.DispatchExact h channel data ↔ py.tame h channel data = true := by
  by_cases nobody : h.recipients channel = []
  · have exact : py.ExactOn h channel data [] :=
      ⟨fun u conns event sent => absurd (sent.recipients.symm.trans nobody) sent.some, fun _ => rfl⟩
    refine ⟨fun _ => ?_, fun _ => ⟨[], Interpreter.dispatch_nobody nobody, exact⟩⟩
    unfold Interpreter.tame
    rw [nobody]
    rfl
  · obtain ⟨u, names, found, made⟩ := py.dispatch_somebody data nobody
    have some : (h.recipients channel).isEmpty = false := by simpa using nobody
    unfold Interpreter.DispatchExact Interpreter.tame
    rw [made, some, Bool.false_or]
    cases read : py.loads data with
    | error e =>
      cases e with
      | valueError =>
        refine ⟨fun _ => rfl, fun _ => ⟨[], rfl, fun v conns event sent => ?_, fun _ => rfl⟩⟩
        cases read.symm.trans sent.decoded
      | recursionError => exact ⟨fun ⟨_, ok, _⟩ => (nomatch ok), nofun⟩
      | unfinished => exact ⟨fun ⟨_, ok, _⟩ => (nomatch ok), nofun⟩
    | ok event =>
      constructor
      · rintro ⟨calls, ok, -⟩
        have seen : py.observeLatency u event = .ok () := by
          cases latency : py.observeLatency u event with
          | error e =>
            simp only [latency] at ok
            cases ok
          | ok => rfl
        obtain ⟨members, rfl, visible⟩ := Interpreter.observeLatency_ok.mp seen
        exact visible
      · intro visible
        cases event with
        | obj members =>
          have seen : py.observeLatency u (.obj members) = .ok () :=
            Interpreter.observeLatency_ok.mpr ⟨members, rfl, visible⟩
          simp only [seen]
          refine ⟨_, rfl, fun v conns event sent => ?_, fun none => ?_⟩
          · obtain rfl := Except.ok.inj (read.symm.trans sent.decoded)
            rw [sent.recipients]
            exact Interpreter.handed_map (sets v conns sent.present)
          · exact absurd ⟨names, found, nobody, read, members, rfl⟩ (none u _ _)
        | null | bool | int | float | str | arr => cases visible

section Bob

def bobsHub : Hub Json := { (Hub.init : Hub Json) with localUsers := AList.insert "bob" [0, 1] ∅ }

theorem bobsHub_sets : bobsHub.Sets := by
  intro u conns found
  by_cases same : u = "bob"
  · subst same
    rw [bobsHub, AList.lookup_insert] at found
    cases found
    decide
  · rw [bobsHub, AList.lookup_insert_ne same] at found
    cases found

def plainInterpreter : Interpreter := ⟨fun _ => .nan, 10, fun _ => none⟩

theorem typing_handed_out :
    plainInterpreter.DispatchExact bobsHub "chat:user:bob" (text "\x7b\"type\": \"typing\"\x7d") :=
  (dispatch_exact_iff plainInterpreter bobsHub_sets _ _).mpr (by decide +kernel)

theorem array_ends_loop : ¬ ∀ (py : Interpreter) (h : Hub Json) (channel : String) (data : Text),
    h.Sets → py.DispatchExact h channel data := by
  intro all
  obtain ⟨calls, ok, -⟩ := all plainInterpreter bobsHub "chat:user:bob" (text "[]") bobsHub_sets
  have raised : (plainInterpreter.dispatch bobsHub "chat:user:bob" (text "[]")).isOk = false := by
    decide +kernel
  rw [ok] at raised
  cases raised

end Bob

end ChatBackend

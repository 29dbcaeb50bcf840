import ChatBackend.Lib.JsonRoundTrip
import ChatBackend.Realtime.Frames
import ChatBackend.Service.Storable

/-! Events as the texts they travel in: from an outbox row to Redis, from Redis to the queue of a
connection, from there to the socket. Nothing is lost on the way, whatever an event holds. -/

namespace ChatBackend

open Lib

/-! Payloads. -/

def Event.payload (e : Event) : Json := makeEvent e.type e.data

/-- The event of `SocketSession._typing`. -/
def TypingEvent.payload (e : TypingEvent) : Json :=
  makeEvent "typing" (.obj [(text "conversation_id", uuidJson e.conversationId),
    (text "user_id", stringJson e.userId), (text "is_typing", .bool e.isTyping)])

/-- In which order a JSONB column keeps the members of an object. -/
structure Wire where
  arrange : List (Text × Json) → List (Text × Json)
  arranged : ∀ members, (arrange members).Perm members

mutual

/-- A value as it comes back from a JSONB column. -/
def stored (arrange : List (Text × Json) → List (Text × Json)) : Json → Json
  | .arr items => .arr (storedItems arrange items)
  | .obj members => .obj (arrange (storedMembers arrange members))
  | v => v

def storedItems (arrange : List (Text × Json) → List (Text × Json)) : List Json → List Json
  | [] => []
  | v :: rest => stored arrange v :: storedItems arrange rest

def storedMembers (arrange : List (Text × Json) → List (Text × Json)) :
    List (Text × Json) → List (Text × Json)
  | [] => []
  | (k, v) :: rest => (k, stored arrange v) :: storedMembers arrange rest

end

/-- What is published: an outbox row by the relay, a typing event by the hub. -/
inductive Outgoing where
  | row (e : Event)
  | typing (e : TypingEvent)

namespace Outgoing

variable (w : Wire)

def value : Outgoing → Json
  | .row e => stored w.arrange e.payload
  | .typing e => e.payload

/-- `json.dumps` in `publish_batch` and in `Hub.publish`. -/
def published : Outgoing → Text
  | .row e => dumpsAscii (stored w.arrange e.payload)
  | .typing e => dumps e.payload

end Outgoing

theorem storedItems_eq (arrange : List (Text × Json) → List (Text × Json)) (items : List Json) :
    storedItems arrange items = items.map (stored arrange) := by
  induction items with
  | nil => rfl
  | cons v rest ih => rw [storedItems, ih, List.map_cons]

theorem storedMembers_eq (arrange : List (Text × Json) → List (Text × Json))
    (members : List (Text × Json)) :
    storedMembers arrange members = members.map fun m => (m.1, stored arrange m.2) := by
  induction members with
  | nil => rfl
  | cons m rest ih => rw [storedMembers, ih, List.map_cons]

/-! Payloads are made of texts. -/

/-- No numbers, and no character that UTF-8 cannot encode; `n` levels of brackets at most. -/
inductive Plain : Nat → Json → Prop where
  | null (n : Nat) : Plain n .null
  | bool (n : Nat) (b : Bool) : Plain n (.bool b)
  | str (n : Nat) (cs : List Char) : Plain n (.str (cs.map codePoint))
  | arr (n : Nat) (items : List Json) : (∀ v ∈ items, Plain n v) → Plain (n + 1) (.arr items)
  | obj (n : Nat) (members : List (Text × Json)) : (members.map Prod.fst).Nodup →
      (∀ m ∈ members, ∃ k, m.1 = text k) → (∀ m ∈ members, Plain n m.2) →
      Plain (n + 1) (.obj members)

theorem Plain.readable {esc : CodePoint → Text} {toFloat : Text → PyFloat} {n : Nat} {v : Json}
    (h : Plain n v) : Readable esc toFloat n v := by
  have legible : ∀ cs : List Char, Legible esc (cs.map codePoint) :=
    fun cs => .inr (unpaired_of_encodable (encodable_chars cs))
  induction h with
  | null n => exact .null n
  | bool n b => exact .bool n b
  | str n cs => exact .str n _ (legible cs)
  | arr n items _ ih => exact .arr n items ih
  | obj n members apart named _ ih =>
    refine .obj n members apart (fun m mem => ?_) ih
    obtain ⟨k, same⟩ := named m mem
    exact same ▸ legible k.toList

theorem Plain.every {key : Text → Bool} {leaf : Json → Bool} {n : Nat} {v : Json} (h : Plain n v)
    (keys : ∀ s, key (text s) = true) (null : leaf .null = true) (bool : ∀ b, leaf (.bool b) = true)
    (strings : ∀ cs : List Char, leaf (.str (cs.map codePoint)) = true) : v.every key leaf = true := by
  induction h with
  | null n => exact null
  | bool n b => exact bool b
  | str n cs => exact strings cs
  | arr n items _ ih => exact everyItem_of ih
  | obj n members _ named _ ih =>
    refine everyMember_of fun m mem => ⟨?_, ih m mem⟩
    obtain ⟨k, same⟩ := named m mem
    rw [same]
    exact keys k

/-- The order of the members does not matter. -/
theorem Plain.stored (w : Wire) {n : Nat} {v : Json} (h : Plain n v) : Plain n (stored w.arrange v) := by
  induction h with
  | null n => exact .null n
  | bool n b => exact .bool n b
  | str n cs => exact .str n cs
  | arr n items _ ih =>
    rw [ChatBackend.stored, storedItems_eq]
    refine .arr n _ fun v mem => ?_
    obtain ⟨u, inside, rfl⟩ := List.mem_map.mp mem
    exact ih u inside
  | obj n members apart named _ ih =>
    have kept := w.arranged (storedMembers w.arrange members)
    have keys : (storedMembers w.arrange members).map Prod.fst = members.map Prod.fst := by
      rw [storedMembers_eq, List.map_map]
      rfl
    have inside : ∀ m ∈ w.arrange (storedMembers w.arrange members),
        ∃ k ∈ members, m = (k.1, ChatBackend.stored w.arrange k.2) := by
      intro m mem
      rw [kept.mem_iff, storedMembers_eq] at mem
      obtain ⟨k, old, rfl⟩ := List.mem_map.mp mem
      exact ⟨k, old, rfl⟩
    rw [ChatBackend.stored]
    refine .obj n _ ?_ ?_ ?_
    · rw [(kept.map Prod.fst).nodup_iff, keys]
      exact apart
    · intro m mem
      obtain ⟨k, old, rfl⟩ := inside m mem
      exact named k old
    · intro m mem
      obtain ⟨k, old, rfl⟩ := inside m mem
      exact ih k old

theorem plain_option {α : Type} {f : α → Json} {n : Nat} (each : ∀ a, Plain n (f a))
    (o : Option α) : Plain n (optionJson f o) := by
  cases o with
  | none => exact .null n
  | some a => exact each a

/-- An object whose keys are these. -/
theorem plain_members {n : Nat} {members : List (Text × Json)} (keys : List String)
    (named : members.map Prod.fst = keys.map text) (apart : (keys.map text).Nodup)
    (each : ∀ m ∈ members, Plain n m.2) : Plain (n + 1) (.obj members) := by
  refine .obj n members (named ▸ apart) (fun m mem => ?_) each
  obtain ⟨k, -, same⟩ := List.mem_map.mp (named ▸ List.mem_map_of_mem mem)
  exact ⟨k, same.symm⟩

theorem plain_dump (m : MessageOut) : Plain 2 m.dump := by
  refine plain_members ["id", "conversation_id", "sender_id", "recipient_id", "client_msg_id", "body",
    "attachment_key", "attachment_mime", "attachment_url", "status", "created_at", "delivered_at",
    "read_at", "cursor"] rfl (by decide) ?_
  have texts := plain_option (f := stringJson) (n := 1) fun s => .str 1 s.toList
  have times := plain_option (f := utcJson) (n := 1) fun t => .str 1 _
  simp only [List.forall_mem_cons]
  exact ⟨.str .., .str .., .str .., .str .., .str .., texts _, texts _, texts _, texts _, .str ..,
    .str .., times _, times _, .str .., by simp⟩

theorem plain_data (e : Event) : Plain 2 e.data := by
  cases e with
  | messageNew m => exact plain_dump m
  | messageDelivered messageId conversationId clientMsgId deliveredAt =>
    refine plain_members ["message_id", "conversation_id", "client_msg_id", "delivered_at"] rfl
      (by decide) ?_
    simp only [List.forall_mem_cons]
    exact ⟨.str .., .str .., .str .., .str .., by simp⟩
  | messageRead conversationId readerId messageIds readAt =>
    refine plain_members ["conversation_id", "reader_id", "message_ids", "read_at"] rfl (by decide) ?_
    simp only [List.forall_mem_cons]
    refine ⟨.str .., .str .., .arr 0 _ fun v mem => ?_, .str .., by simp⟩
    obtain ⟨id, -, rfl⟩ := List.mem_map.mp mem
    exact .str ..

theorem plain_event {n : Nat} (eventType : String) {data : Json} (inside : Plain (n + 1) data) :
    Plain (n + 2) (makeEvent eventType data) := by
  refine plain_members ["type", "data"] rfl (by decide) ?_
  simp only [List.forall_mem_cons]
  exact ⟨.str .., inside, by simp⟩

theorem plain_typing (e : TypingEvent) : Plain 2 e.payload := by
  refine plain_event "typing" (plain_members ["conversation_id", "user_id", "is_typing"] rfl
    (by decide) ?_)
  simp only [List.forall_mem_cons]
  exact ⟨.str .., .str .., .bool 0 e.isTyping, by simp⟩

theorem plain_row (w : Wire) (e : Event) : Plain 3 (stored w.arrange e.payload) :=
  (plain_event e.type (plain_data e)).stored w

/-! The shape of what is published. -/

theorem getItem_mem {members : List (Text × Json)} (apart : (members.map Prod.fst).Nodup) {key : String}
    {v : Json} (mem : (text key, v) ∈ members) : getItem members key = v := by
  have found : members.lookup (text key) = some v := by
    induction members with
    | nil => cases mem
    | cons m rest ih =>
      obtain ⟨k, u⟩ := m
      obtain ⟨fresh, others⟩ := List.nodup_cons.mp apart
      rw [List.lookup_cons]
      cases List.mem_cons.mp mem with
      | inl first =>
        cases first
        simp
      | inr later =>
        have other : (text key == k) = false := by
          refine beq_false_of_ne fun same => fresh ?_
          exact List.mem_map.mpr ⟨_, later, same⟩
        rw [other]
        exact ih others later
  rw [getItem, found]
  rfl

theorem observable_data {members data : List (Text × Json)}
    (found : getItem members "data" = .obj data) : observable members = true := by
  have object : (dataOf members).isObject = true := by
    unfold dataOf
    rw [found]
    split <;> rfl
  rw [observable, object, Bool.or_true]

theorem Event.data_object (e : Event) : ∃ members, e.data = .obj members := by
  cases e with
  | messageNew m => exact ⟨_, rfl⟩
  | messageDelivered messageId conversationId clientMsgId deliveredAt => exact ⟨_, rfl⟩
  | messageRead conversationId readerId messageIds readAt => exact ⟨_, rfl⟩

theorem outgoing_observable (w : Wire) (o : Outgoing) :
    ∃ members, o.value w = .obj members ∧ observable members = true := by
  cases o with
  | typing e =>
    refine ⟨_, rfl, observable_data (getItem_mem ?_ (List.mem_cons_of_mem _ List.mem_cons_self))⟩
    show ([text "type", text "data"] : List Text).Nodup
    decide
  | row e =>
    obtain ⟨data, object⟩ := e.data_object
    let kept := storedMembers w.arrange [(text "type", stringJson e.type), (text "data", .obj data)]
    have perm := w.arranged kept
    have apart : ((w.arrange kept).map Prod.fst).Nodup := by
      rw [(perm.map Prod.fst).nodup_iff]
      show ([text "type", text "data"] : List Text).Nodup
      decide
    have inside : (text "data", Json.obj (w.arrange (storedMembers w.arrange data))) ∈ kept :=
      List.mem_cons_of_mem _ List.mem_cons_self
    refine ⟨w.arrange kept, ?_, observable_data (getItem_mem apart (perm.mem_iff.mpr inside))⟩
    rw [Outgoing.value, Event.payload, object]
    rfl

/-! What arrives. -/

/-- The socket's text is a JSON text that can be sent, and reads back as the event. -/
def Intact (py : Interpreter) (event : Json) : Prop :=
  ∃ t, writeText event = .ok t ∧ IsJson t ∧ encodable t = true ∧ py.loads t = .ok event

theorem outgoing_plain (w : Wire) (o : Outgoing) : ∃ n ≤ 3, Plain n (o.value w) := by
  cases o with
  | row e => exact ⟨3, by decide, plain_row w e⟩
  | typing e => exact ⟨2, by decide, plain_typing e⟩

theorem outgoing_loads (py : Interpreter) (w : Wire) (o : Outgoing) (deep : 3 ≤ py.nesting) :
    py.loads (o.published w) = .ok (o.value w) := by
  obtain ⟨n, le, plain⟩ := outgoing_plain w o
  cases o with
  | row e => exact loads_dumpsBy escapeAscii_escapes (plain.readable.deeper (Nat.le_trans le deep))
  | typing e =>
    rw [Outgoing.published, ← dumpsBy_escape]
    exact loads_dumpsBy escape_escapes (plain.readable.deeper (Nat.le_trans le deep))

theorem outgoing_intact (py : Interpreter) (w : Wire) (o : Outgoing) (deep : 3 ≤ py.nesting) :
    Intact py (o.value w) := by
  obtain ⟨n, le, plain⟩ := outgoing_plain w o
  have short : (o.value w).isShort = true :=
    plain.every (by simp) rfl (by simp [Json.leafShort]) fun _ => rfl
  have finite : (o.value w).isFinite = true :=
    plain.every (by simp) rfl (by simp [Json.leafFinite]) fun _ => rfl
  have scalar : (o.value w).isScalar = true :=
    plain.every encodable_text rfl (by simp [Json.leafScalar]) encodable_chars
  obtain ⟨t, sent, json, bytes⟩ := (written_iff short).mpr ⟨finite, scalar⟩
  refine ⟨t, sent, json, bytes, ?_⟩
  unfold writeText at sent
  split at sent
  · cases sent
    rw [← dumpsBy_escape]
    exact loads_dumpsBy escape_escapes (plain.readable.deeper (Nat.le_trans le deep))
  · cases sent

/-- Every event that the service or a session publishes is handed to the local connections of its
channel as it was, and never ends the loop; and the socket's text says the same. -/
theorem outgoing_arrives (py : Interpreter) (w : Wire) (o : Outgoing) (deep : 3 ≤ py.nesting)
    (h : Hub Json) (channel : String) :
    py.dispatch h channel (o.published w) =
        .ok ((h.recipients channel).map fun c => (c, o.value w)) ∧
      Intact py (o.value w) := by
  refine ⟨?_, outgoing_intact py w o deep⟩
  by_cases nobody : h.recipients channel = []
  · rw [nobody]
    exact Interpreter.dispatch_nobody nobody
  · obtain ⟨u, -, -, made⟩ := py.dispatch_somebody (o.published w) nobody
    obtain ⟨members, same, visible⟩ := outgoing_observable w o
    have seen : py.observeLatency u (o.value w) = .ok () :=
      Interpreter.observeLatency_ok.mpr ⟨members, same, visible⟩
    rw [made, outgoing_loads py w o deep]
    simp only [seen]

section Bob

def plainWire : Wire := ⟨id, fun _ => .refl _⟩

theorem typing_arrives : plainInterpreter.dispatch bobsHub "chat:user:bob"
      ((Outgoing.typing ⟨0, "alice", true⟩).published plainWire) =
        .ok ((bobsHub.recipients "chat:user:bob").map
          fun c => (c, (Outgoing.typing ⟨0, "alice", true⟩).value plainWire)) ∧
    Intact plainInterpreter ((Outgoing.typing ⟨0, "alice", true⟩).value plainWire) :=
  outgoing_arrives plainInterpreter plainWire (.typing ⟨0, "alice", true⟩) (by decide) bobsHub
    "chat:user:bob"

end Bob

/-! Events that come from elsewhere, and the answers to frames: nothing keeps them from the writer but
what it cannot write. -/

/-- The writer sends a text that reads back as the event, and a JSON text where no NaN and no infinity
is in it. Only what has a surrogate is not sent at all. -/
structure ReadsBack (py : Interpreter) (event : Json) : Prop where
  sent : event.isScalar = true → ∃ t, writeText event = .ok t ∧ encodable t = true ∧
    py.loads t = .ok event
  intact : event.isScalar = true → event.isFinite = true → Intact py event
  unsent : event.isScalar = false → writeText event = .error .valueError

theorem readable_short {esc : CodePoint → Text} {toFloat : Text → PyFloat} {n : Nat} {v : Json}
    (h : Readable esc toFloat n v) : v.isShort = true := by
  induction h with
  | null | bool | nan | infinite | finite | str => rfl
  | int n i small =>
    unfold Json.isShort Json.every Json.leafShort
    exact decide_eq_true small
  | arr n items _ ih => exact everyItem_of ih
  | obj n members _ _ _ ih => exact everyMember_of fun m mem => ⟨rfl, ih m mem⟩

theorem readsBack_of_readable {py : Interpreter} {event : Json}
    (readable : Readable escape py.toFloat py.nesting event) : ReadsBack py event := by
  have short := readable_short readable
  have back : py.loads (dumps event) = .ok event := by
    rw [← dumpsBy_escape]
    exact loads_dumpsBy escape_escapes readable
  have writes : writeText event = if event.isScalar then .ok (dumps event) else .error .valueError := by
    rw [writeText, short, Bool.true_and, dumps_encodable]
  constructor
  · intro scalar
    exact ⟨dumps event, writes.trans (if_pos scalar), (dumps_encodable event).trans scalar, back⟩
  · intro scalar finite
    exact ⟨dumps event, writes.trans (if_pos scalar), (dumps_isJson_iff event).mpr finite,
      (dumps_encodable event).trans scalar, back⟩
  · intro spoilt
    exact writes.trans (if_neg (by simp [spoilt]))

theorem dispatch_decoded {py : Interpreter} {h : Hub Json} {channel : String} {data : Text}
    {calls : List (ConnId × Json)} (made : py.dispatch h channel data = .ok calls) :
    ∀ call ∈ calls, py.loads data = .ok call.2 := by
  by_cases nobody : h.recipients channel = []
  · rw [Interpreter.dispatch_nobody nobody] at made
    cases made
    exact nofun
  · obtain ⟨u, -, -, same⟩ := py.dispatch_somebody data nobody
    rw [same] at made
    split at made
    · cases made
      exact nofun
    · cases made
    · cases made
    · rename_i event decoded
      split at made
      · cases made
      · cases made
        intro call mem
        obtain ⟨c, -, rfl⟩ := List.mem_map.mp mem
        exact decoded

/-- The two kinds of answer. -/
inductive Replies (ref : Json) : Json → Prop where
  | error (code message : Text) : Replies ref (errorReply code message ref)
  | pong : Replies ref (pongReply ref)

theorem guard_replies {k k' : Socket} {ref : Json} {done : Service × Except Raised Unit}
    (h : k.guard ref done = .ok k') :
    k'.conn = k.conn ∨ ∃ r, Replies ref r ∧ k'.conn = k.conn.sendNowait r := by
  unfold Socket.guard at h
  dsimp only at h
  split at h
  · cases h
    exact .inl rfl
  · cases h
    exact .inr ⟨_, .error _ _, rfl⟩
  · split at h
    · cases h
      exact .inr ⟨_, .error _ _, rfl⟩
    · cases h
  · cases h
    exact .inr ⟨_, .error _ _, rfl⟩

theorem handle_replies {h : Handler} {k k' : Socket} {event : List (Text × Json)} {now : Timestamp}
    {outage : Outage} (handled : h.handle k event now outage = .ok k') :
    k'.conn = k.conn ∨ ∃ r, Replies (getItem event "ref") r ∧ k'.conn = k.conn.sendNowait r := by
  unfold Handler.handle at handled
  dsimp only at handled
  split at handled
  · cases handled
    exact .inr ⟨_, .pong, rfl⟩
  · split at handled
    · cases handled
      exact .inl rfl
    · split at handled
      · exact guard_replies handled
      · cases handled
        exact .inr ⟨_, .error _ _, rfl⟩

section
variable {esc : CodePoint → Text} {toFloat : Text → PyFloat}

theorem readable_item {n : Nat} {event : List (Text × Json)}
    (readable : ∀ m ∈ event, Readable esc toFloat n m.2) (key : String) :
    Readable esc toFloat n (getItem event key) := by
  induction event with
  | nil => exact .null n
  | cons m rest ih =>
    obtain ⟨k, v⟩ := m
    have others := ih fun u mem => readable u (List.mem_cons_of_mem _ mem)
    unfold getItem at others ⊢
    rw [List.lookup_cons]
    cases text key == k with
    | true => exact readable (k, v) List.mem_cons_self
    | false => exact others

theorem readable_reply {n : Nat} {ref r : Json} (replies : Replies ref r)
    (readable : Readable escape toFloat (n + 1) ref) : Readable escape toFloat (n + 2) r := by
  cases replies with
  | error code message =>
    have data : Readable escape toFloat (n + 1)
        (.obj [(text "code", .str code), (text "message", .str message)]) := by
      refine .obj n _ ?_ (fun m _ => escape_legible m.1) ?_
      · show ([text "code", text "message"] : List Text).Nodup
        decide
      · simp only [List.forall_mem_cons]
        exact ⟨.str n code (escape_legible code), .str n message (escape_legible message), by simp⟩
    refine .obj (n + 1) _ ?_ (fun m _ => escape_legible m.1) ?_
    · show ([text "type", text "ref", text "data"] : List Text).Nodup
      decide
    · simp only [List.forall_mem_cons]
      exact ⟨.str _ _ (escape_legible _), readable, data, by simp⟩
  | pong =>
    refine .obj (n + 1) _ ?_ (fun m _ => escape_legible m.1) ?_
    · show ([text "type", text "ref"] : List Text).Nodup
      decide
    · simp only [List.forall_mem_cons]
      exact ⟨.str _ _ (escape_legible _), readable, by simp⟩

end

theorem receive_readable {h : Handler} (back : RepeatsFloats h.py.toFloat) (deep : 2 ≤ h.py.nesting)
    {k k' : Socket} {frame : Frame} {now : Timestamp} {outage : Outage}
    (received : h.receive k frame now outage = .ok k') {r : Json} (mem : r ∈ k'.conn.put) :
    r ∈ k.conn.put ∨ Readable escape h.py.toFloat h.py.nesting r := by
  obtain ⟨n, levels⟩ : ∃ n, h.py.nesting = n + 2 := ⟨h.py.nesting - 2, by omega⟩
  have refused :
      ∀ r ∈ (k.error (text "bad_event") (text "Events must be JSON objects") .null).conn.put,
      r ∈ k.conn.put ∨ Readable escape h.py.toFloat h.py.nesting r := by
    intro r mem
    obtain old | rfl := Connection.mem_sendNowait mem
    · exact .inl old
    · rw [levels]
      exact .inr (readable_reply (.error _ _) (.null _))
  unfold Handler.receive at received
  split at received
  · cases received
    exact refused r mem
  · cases received
  · cases received
  · rename_i event decoded
    have whole : Readable escape h.py.toFloat (n + 2) (.obj event) :=
      levels ▸ loads_readable back decoded
    cases whole with
    | obj _ _ apart legible each =>
      obtain same | ⟨answer, replies, sent⟩ := handle_replies received
      · exact .inl (same ▸ mem)
      · rw [sent] at mem
        obtain old | rfl := Connection.mem_sendNowait mem
        · exact .inl old
        · rw [levels]
          exact .inr (readable_reply replies (readable_item each "ref"))
  · cases received
    exact refused r mem

/-- Neither the hub nor the session spoils an event between decoding it and writing it: what a client is
sent says what was published or echoes what was received, and it is sent unless a surrogate is in it. -/
theorem nothing_spoilt (h : Handler) (back : RepeatsFloats h.py.toFloat) (deep : 2 ≤ h.py.nesting) :
    (∀ (hub : Hub Json) (channel : String) (data : Text) (calls : List (ConnId × Json)),
      h.py.dispatch hub channel data = .ok calls → ∀ call ∈ calls, ReadsBack h.py call.2) ∧
    ∀ (k k' : Socket) (frame : Frame) (now : Timestamp) (outage : Outage),
      h.receive k frame now outage = .ok k' →
      ∀ r ∈ k'.conn.put, r ∉ k.conn.put → ReadsBack h.py r := by
  constructor
  · intro hub channel data calls made call mem
    exact readsBack_of_readable (loads_readable back (dispatch_decoded made call mem))
  · intro k k' frame now outage received r mem new
    obtain old | readable := receive_readable back deep received mem
    · exact absurd old new
    · exact readsBack_of_readable readable

section Half

theorem one_lt_ten : 1 < 10 := by decide

theorem five_lt_ten : 5 < 10 := by decide

def fifteen : List (Fin 10) := [⟨1, one_lt_ten⟩, ⟨5, five_lt_ten⟩]

theorem fifteen_some : fifteen ≠ [] := by decide

theorem fifteen_normal : fifteen.head? = some 0 → fifteen = [0] ∧ (1 : Int) = 1 := by decide

def oneAndAHalf : Decimal := ⟨false, fifteen, 1, fifteen_some, fifteen_normal⟩

/-- `float`, on the one numeral below. -/
def readsHalf (t : Text) : PyFloat := if t = text "1.5" then .finite oneAndAHalf else .nan

theorem readsHalf_repeats : RepeatsFloats readsHalf := by
  intro s d read
  unfold readsHalf at read
  split at read
  · cases read
    rfl
  · cases read

def halfHandler : Handler :=
  ⟨.plain, ⟨readsHalf, 10, fun _ => none⟩, ⟨fun _ => false, fun _ _ => rfl⟩⟩

def halfRef : Frame := .text (text "\x7b\"type\": \"ping\", \"ref\": 1.5\x7d")

theorem half_reads_back : ∃ k' r, halfHandler.receive newSocket halfRef 0 .none = .ok k' ∧
    k'.conn.put = [r] ∧ Intact halfHandler.py r := by
  have works : (match halfHandler.receive newSocket halfRef 0 .none with
      | .ok k => k.conn.put.length == 1 && k.conn.put.all (fun r => r.isScalar && r.isFinite)
      | .error _ => false) = true := by
    decide +kernel
  cases received : halfHandler.receive newSocket halfRef 0 .none with
  | error e =>
    rw [received] at works
    cases works
  | ok k' =>
    rw [received] at works
    simp only [Bool.and_eq_true, beq_iff_eq] at works
    obtain ⟨one, plain⟩ := works
    obtain ⟨r, put⟩ := List.length_eq_one_iff.mp one
    have back := (nothing_spoilt halfHandler readsHalf_repeats (by decide)).2
      newSocket k' halfRef 0 .none received r (put ▸ List.mem_singleton.mpr rfl) List.not_mem_nil
    rw [put, List.all_cons, List.all_nil, Bool.and_true, Bool.and_eq_true] at plain
    exact ⟨k', r, rfl, put, back.intact plain.1 plain.2⟩

end Half

end ChatBackend

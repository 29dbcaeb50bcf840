import ChatBackend.Service.Atomic

/-! What one user can see of the service: the rows of the user's own conversations. Every look-up
made for a user is decided by these rows, and a change to other rows leaves them as they are. -/

namespace ChatBackend

open Lib

def involves (u : UserId) (m : Message) : Bool := m.senderId == u || m.recipientId == u

/-- Two states that look the same to `u`. -/
structure SameFor (u : UserId) (s t : Service) : Prop where
  conversations : s.db.conversations.filter (fun c => c.hasMember u) =
    t.db.conversations.filter (fun c => c.hasMember u)
  messages : s.db.messages.filter (involves u) = t.db.messages.filter (involves u)
  outbox : s.db.outbox.filter (fun r => r.topic == userTopic u) =
    t.db.outbox.filter (fun r => r.topic == userTopic u)
  typing : s.typing.filter (fun e => e.1 == u) = t.typing.filter (fun e => e.1 == u)

/-- A cached peer is the one the conversation gives, and typing events went to the peer. -/
structure Service.Inv (s : Service) : Prop where
  sound : s.db.Sound
  peers : ∀ e ∈ s.peers, ∃ c ∈ s.db.conversations, c.id = e.2.1 ∧
    c.hasMember e.1.userId = true ∧ e.2.2 = c.peerOf e.1.userId
  typing : ∀ e ∈ s.typing, ∃ c ∈ s.db.conversations, c.id = e.2.conversationId ∧
    c.hasMember e.2.userId = true ∧ e.1 = c.peerOf e.2.userId

theorem hasMember_iff {c : Conversation} {u : UserId} :
    c.hasMember u = true ↔ u = c.userA ∨ u = c.userB := by
  simp [Conversation.hasMember]

theorem hasMember_sorted {c : Conversation} {u v w : UserId} (pair : c.pair = sortedPair v w) :
    c.hasMember u = true ↔ u = v ∨ u = w := by
  rw [hasMember_iff]
  unfold sortedPair Conversation.pair at pair
  split at pair
  · obtain ⟨a, b⟩ := Prod.mk.inj pair
    rw [a, b, or_comm]
  · obtain ⟨a, b⟩ := Prod.mk.inj pair
    rw [a, b]

theorem peerOf_mem (c : Conversation) (u : UserId) : c.hasMember (c.peerOf u) = true := by
  rw [hasMember_iff, Conversation.peerOf]
  split
  · exact .inr rfl
  · exact .inl rfl

theorem involves_iff {u : UserId} {m : Message} :
    involves u m = true ↔ m.senderId = u ∨ m.recipientId = u := by
  simp [involves]

/-- The messages of a conversation involve exactly its members. -/
theorem Db.Sound.involves_member {db : Db} (sound : db.Sound) {m : Message} {c : Conversation}
    (hm : m ∈ db.messages) (hc : c ∈ db.conversations) (inside : m.conversationId = c.id)
    (u : UserId) : involves u m = c.hasMember u := by
  obtain ⟨_, d, hd, id, pair⟩ := sound.placed m hm
  obtain rfl := sound.keys.conversation_unique hd hc (id.trans inside)
  rw [Bool.eq_iff_iff, involves_iff, hasMember_sorted pair, eq_comm, @eq_comm _ u]
  tauto

/-! Each look-up of a command, made on the user's own rows. -/

theorem eq_of_filter {α : Type} {p : α → Bool} {x y : Option α} (h : x.filter p = y.filter p)
    (hx : ∀ a ∈ x, p a = true) (hy : ∀ a ∈ y, p a = true) : x = y := by
  have left : x.filter p = x := by
    cases x with
    | none => rfl
    | some a => simp [hx a rfl]
  have right : y.filter p = y := by
    cases y with
    | none => rfl
    | some a => simp [hy a rfl]
  rw [← left, ← right, h]

theorem getConversation_own (db : Db) (u : UserId) (id : Uuid) : getConversation db u id =
    match (db.conversation id).filter (fun c => c.hasMember u) with
    | some c => .ok c
    | none => .error (notFoundError "Conversation not found") := by
  unfold getConversation
  cases db.conversation id with
  | none => rfl
  | some c =>
    cases member : c.hasMember u with
    | true => rw [Option.filter_some, if_pos member]; simp [member]
    | false => rw [Option.filter_some, if_neg (by simp [member])]; simp [member]

section Lookups

variable {u v : UserId} {s t : Service}

theorem SameFor.conversation (same : SameFor u s t) (hs : s.Inv) (ht : t.Inv) (id : Uuid) :
    (s.db.conversation id).filter (fun c => c.hasMember u) =
      (t.db.conversation id).filter (fun c => c.hasMember u) := by
  have own : ∀ {r : Service}, r.Inv → (r.db.conversation id).filter (fun c => c.hasMember u) =
      (r.db.conversations.filter (fun c => c.hasMember u)).find? (fun c => c.id == id) :=
    fun hr => find?_filter_unique (fun a ha b hb ea eb => hr.sound.keys.conversation_unique ha hb
      ((beq_iff_eq.mp ea).trans (beq_iff_eq.mp eb).symm))
  rw [own hs, own ht, same.conversations]

theorem SameFor.message (same : SameFor u s t) (hs : s.Inv) (ht : t.Inv) (id : Uuid) :
    (s.db.message id).filter (involves u) = (t.db.message id).filter (involves u) := by
  have own : ∀ {r : Service}, r.Inv → (r.db.message id).filter (involves u) =
      (r.db.messages.filter (involves u)).find? (fun m => m.id == id) :=
    fun hr => find?_filter_unique (fun a ha b hb ea eb => hr.sound.keys.message_unique ha hb
      ((beq_iff_eq.mp ea).trans (beq_iff_eq.mp eb).symm))
  rw [own hs, own ht, same.messages]

theorem SameFor.getConversation (same : SameFor u s t) (hs : s.Inv) (ht : t.Inv) (id : Uuid) :
    getConversation s.db u id = getConversation t.db u id := by
  rw [getConversation_own, getConversation_own, same.conversation hs ht]

/-- A conversation of `u` is there for everybody in both states. -/
theorem SameFor.known_conversation (same : SameFor u s t) (hs : s.Inv) (ht : t.Inv) {id : Uuid}
    (known : (s.db.conversation id).any (fun c => c.hasMember u) = true) :
    ∃ c, s.db.conversation id = some c ∧ t.db.conversation id = some c ∧ c.hasMember u = true := by
  obtain ⟨c, hc, member⟩ := (Option.any_eq_true _ _).mp known
  have eq := same.conversation hs ht id
  rw [hc, Option.filter_some, if_pos member] at eq
  exact ⟨c, hc, (Option.filter_eq_some_iff.mp eq.symm).1, member⟩

theorem SameFor.known_message (same : SameFor u s t) (hs : s.Inv) (ht : t.Inv) {id : Uuid}
    (known : (s.db.message id).any (involves u) = true) :
    ∃ m, s.db.message id = some m ∧ t.db.message id = some m ∧ involves u m = true := by
  obtain ⟨m, hm, own⟩ := (Option.any_eq_true _ _).mp known
  have eq := same.message hs ht id
  rw [hm, Option.filter_some, if_pos own] at eq
  exact ⟨m, hm, (Option.filter_eq_some_iff.mp eq.symm).1, own⟩

theorem SameFor.conversationOf (same : SameFor u s t) (hs : s.Inv) (ht : t.Inv) {v w : UserId}
    (end_ : u = v ∨ u = w) :
    s.db.conversationOf (sortedPair v w) = t.db.conversationOf (sortedPair v w) := by
  have own : ∀ {r : Service}, r.Inv →
      (r.db.conversationOf (sortedPair v w)).filter (fun c => c.hasMember u) =
      (r.db.conversations.filter (fun c => c.hasMember u)).find? (fun c => c.pair == sortedPair v w) :=
    fun hr => find?_filter_unique (fun a ha b hb ea eb => hr.sound.keys.pair_unique ha hb
      ((beq_iff_eq.mp ea).trans (beq_iff_eq.mp eb).symm))
  apply eq_of_filter (p := fun c => c.hasMember u)
  · rw [own hs, own ht, same.conversations]
  · exact fun c hc => (hasMember_sorted (Db.conversationOf_some hc).2).mpr end_
  · exact fun c hc => (hasMember_sorted (Db.conversationOf_some hc).2).mpr end_

theorem SameFor.byClientMsgId (same : SameFor u s t) (hs : s.Inv) (ht : t.Inv) {v : UserId} {k : String}
    (ours : ∀ m ∈ s.db.messages, m.clientKey = (v, k) → involves u m = true)
    (theirs : ∀ m ∈ t.db.messages, m.clientKey = (v, k) → involves u m = true) :
    s.db.byClientMsgId v k = t.db.byClientMsgId v k := by
  have own : ∀ {r : Service}, r.Inv → (r.db.byClientMsgId v k).filter (involves u) =
      (r.db.messages.filter (involves u)).find?
        (fun m => m.senderId == v && m.clientMsgId == k) := by
    intro r hr
    apply find?_filter_unique
    intro a ha b hb ea eb
    simp only [Bool.and_eq_true, beq_iff_eq] at ea eb
    apply hr.sound.keys.client_unique ha hb
    rw [Message.clientKey, Message.clientKey, ea.1, ea.2, eb.1, eb.2]
  apply eq_of_filter (p := involves u)
  · rw [own hs, own ht, same.messages]
  · intro m hm
    obtain ⟨mem, key⟩ := Db.byClientMsgId_some hm
    exact ours m mem key
  · intro m hm
    obtain ⟨mem, key⟩ := Db.byClientMsgId_some hm
    exact theirs m mem key

/-- What a filter picks from the messages of `u` alone. -/
theorem SameFor.rows (same : SameFor u s t) {q : Message → Bool}
    (ours : ∀ m ∈ s.db.messages, q m = true → involves u m = true)
    (theirs : ∀ m ∈ t.db.messages, q m = true → involves u m = true) :
    s.db.messages.filter q = t.db.messages.filter q := by
  have own : ∀ {r : Service}, (∀ m ∈ r.db.messages, q m = true → involves u m = true) →
      r.db.messages.filter q = (r.db.messages.filter (involves u)).filter q := by
    intro r inside
    rw [List.filter_filter]
    apply List.filter_congr
    intro m hm
    cases hq : q m with
    | true => simp [inside m hm hq]
    | false => simp
  rw [own ours, own theirs, same.messages]

theorem SameFor.messagesOf (same : SameFor u s t) (hs : s.Inv) (ht : t.Inv) {c : Conversation}
    (hc : c ∈ s.db.conversations) (hc' : c ∈ t.db.conversations) (member : c.hasMember u = true) :
    s.db.messagesOf c.id = t.db.messagesOf c.id := by
  apply same.rows
  · exact fun m hm inside => (hs.sound.involves_member hm hc (beq_iff_eq.mp inside) u).trans member
  · exact fun m hm inside => (ht.sound.involves_member hm hc' (beq_iff_eq.mp inside) u).trans member

theorem checkAnchor_own {db : Db} (sound : db.Sound) {c : Conversation} (hc : c ∈ db.conversations)
    (member : c.hasMember u = true) (id : Uuid) :
    checkAnchor c (db.message id) = checkAnchor c ((db.message id).filter (involves u)) := by
  cases found : db.message id with
  | none => rfl
  | some m =>
    by_cases inside : m.conversationId = c.id
    · have own := sound.involves_member (Db.message_some found).1 hc inside u
      rw [Option.filter_some, if_pos (own.trans member)]
    · by_cases own : involves u m = true
      · rw [Option.filter_some, if_pos own]
      · rw [Option.filter_some, if_neg own]
        simp [checkAnchor, inside]

end Lookups

/-! What a change lets `u` see. -/

/-- The change is about another pair's rows. -/
def Change.Hidden (u : UserId) : Change → Prop
  | .sent opened m => involves u m = false ∧ ∀ c ∈ opened, c.hasMember u = false
  | .delivered _ old _ => involves u old = false
  | .read c _ _ _ => c.hasMember u = false

theorem Touch.involves {ch : Change} {m n : Message} (h : Touch ch m n) (u : UserId) :
    involves u n = involves u m := by
  rw [ChatBackend.involves, ChatBackend.involves, h.same.senderId, h.same.recipientId]

namespace Change

variable {env : Env} {u : UserId}

theorem messages_seen {db : Db} {ch : Change} (keys : db.Keys) (valid : ch.Valid db) :
    (ch.apply env db).messages.filter (involves u) =
      (db.messages.filter (involves u)).map ch.update ++ ch.added.filter (involves u) := by
  rw [apply, List.filter_append, List.filter_map]
  congr 2
  exact List.filter_congr (fun m hm => (touch keys valid hm).involves u)

/-- The same change shows the same. -/
theorem same {s t : Service} {ch : Change} (same : SameFor u s t) (hs : s.Inv) (ht : t.Inv)
    (vs : ch.Valid s.db) (vt : ch.Valid t.db) :
    SameFor u (s.commit env (some ch)) (t.commit env (some ch)) where
  conversations := by
    simp only [Service.commit, apply, List.filter_append, same.conversations]
  messages := by
    simp only [Service.commit]
    rw [messages_seen hs.sound.keys vs, messages_seen ht.sound.keys vt, same.messages]
  outbox := by
    simp only [Service.commit, apply, List.filter_append, same.outbox]
  typing := same.typing

theorem topic_other {u v : UserId} (ne : v ≠ u) (e : Event) :
    (enqueue [v] e).filter (fun r => r.topic == userTopic u) = [] := by
  have other : userTopic v ≠ userTopic u := fun eq => ne (userTopic_injective eq)
  rw [enqueue_one, List.filter_singleton, beq_false_of_ne other, cond_false]

theorem rows_hidden {db : Db} {ch : Change} (valid : ch.Valid db) (hidden : ch.Hidden u) :
    (ch.rows env).filter (fun r => r.topic == userTopic u) = [] := by
  cases ch with
  | sent opened m =>
    have ends : ¬(m.senderId = u ∨ m.recipientId = u) := by
      rw [← involves_iff, hidden.1]
      exact Bool.false_ne_true
    obtain ⟨sender, recipient⟩ := not_or.mp ends
    have one : ∀ {v : UserId}, v ≠ u → userTopic v ≠ userTopic u :=
      fun ne eq => ne (userTopic_injective eq)
    rw [rows, sentRows, enqueue_two valid.peers.symm]
    simp [one sender, one recipient]
  | delivered v old now =>
    have ends : ¬(old.senderId = u ∨ old.recipientId = u) := by
      rw [← involves_iff, show involves u old = false from hidden]
      exact Bool.false_ne_true
    exact topic_other (not_or.mp ends).1 _
  | read c v ids now =>
    apply topic_other
    rintro rfl
    have member := peerOf_mem c v
    rw [show c.hasMember (c.peerOf v) = false from hidden] at member
    cases member

theorem update_hidden {db : Db} {ch : Change} (sound : db.Sound) (valid : ch.Valid db)
    (hidden : ch.Hidden u) {m : Message} (hm : m ∈ db.messages) (own : involves u m = true) :
    ch.update m = m := by
  cases ch with
  | sent opened n => rfl
  | delivered v old now =>
    rw [update, if_neg]
    intro id
    obtain rfl := sound.keys.message_unique hm valid.1 id
    rw [show involves u m = false from hidden] at own
    cases own
  | read c v ids now =>
    rw [update, if_neg]
    intro hit
    obtain ⟨x, hx, id, inside, _⟩ := valid.unread m.id hit
    obtain rfl := sound.keys.message_unique hx hm id
    rw [sound.involves_member hx valid.member.1 inside, show c.hasMember u = false from hidden] at own
    cases own

/-- A change to another pair's rows shows nothing. -/
theorem hidden {s : Service} {ch : Change} (hs : s.Inv) (valid : ch.Valid s.db)
    (hidden : ch.Hidden u) : SameFor u (s.commit env (some ch)) s where
  conversations := by
    have new : ch.opened.filter (fun c => c.hasMember u) = [] := by
      cases ch with
      | sent opened m => exact List.filter_eq_nil_iff.mpr (fun c hc => by simp [hidden.2 c hc])
      | delivered v old now => rfl
      | read c v ids now => rfl
    simp only [Service.commit, apply, List.filter_append, new, List.append_nil]
  messages := by
    have new : ch.added.filter (involves u) = [] := by
      cases ch with
      | sent opened m => rw [added, List.filter_singleton, hidden.1, cond_false]
      | delivered v old now => rfl
      | read c v ids now => rfl
    have kept : (s.db.messages.filter (involves u)).map ch.update =
        s.db.messages.filter (involves u) := by
      rw [List.map_congr_left (g := id), List.map_id]
      intro m hm
      obtain ⟨mem, own⟩ := List.mem_filter.mp hm
      exact update_hidden hs.sound valid hidden mem own
    simp only [Service.commit]
    rw [messages_seen hs.sound.keys valid, new, kept, List.append_nil]
  outbox := by
    simp only [Service.commit, apply, List.filter_append, rows_hidden valid hidden, List.append_nil]
  typing := rfl

end Change

end ChatBackend

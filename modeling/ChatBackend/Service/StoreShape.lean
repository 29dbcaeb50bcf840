import Mathlib.Data.Sym.Sym2
import ChatBackend.Service.Refinement

/-! The shape of the store: one conversation for each pair of users, none of them empty, and every
message between the two members of its own. -/

namespace ChatBackend

open Lib

def Message.HasContent (m : Message) : Prop := m.body ≠ none ∨ m.attachmentKey ≠ none

/-- A conversation is opened by its first message. -/
def Db.Spoken (db : Db) : Prop :=
  ∀ c ∈ db.conversations, ∃ m ∈ db.messages, m.conversationId = c.id

def Db.Filled (db : Db) : Prop := ∀ m ∈ db.messages, m.HasContent

theorem SameColumns.hasContent {m n : Message} (h : SameColumns m n) (full : m.HasContent) :
    n.HasContent := by
  rw [Message.HasContent, h.body, h.attachmentKey]
  exact full

theorem Composed.hasContent {u : UserId} {req : SendMessageRequest} {m : Message}
    (h : Composed u req m) : m.HasContent := by
  obtain ⟨body, mime, cid, id, now, bound, rfl⟩ := h
  refine req.hasContent.imp_left fun some empty => some ?_
  rw [← bound, show body = none from empty]
  rfl

section Ledger

variable {env : Env} {db : Db} {ch : Change}

theorem Change.spoken (keys : db.Keys) (valid : ch.Valid db) (spoken : db.Spoken) :
    (ch.apply env db).Spoken := by
  intro c hc
  rcases List.mem_append.mp hc with old | new
  · obtain ⟨m, hm, inside⟩ := spoken c old
    have same := (Change.touch keys valid hm).same
    exact ⟨ch.update m, Change.mem_messages.mpr (.inl ⟨m, hm, rfl⟩), same.conversationId.trans inside⟩
  · cases ch with
    | sent opened m =>
      obtain ⟨d, _, rfl | rfl, _, id⟩ := valid.inside
      · cases new
      · obtain rfl := List.mem_singleton.mp new
        exact ⟨m, Change.mem_messages.mpr (.inr (List.mem_singleton_self m)), id.symm⟩
    | delivered u old now => cases new
    | read d u ids now => cases new

theorem Change.filled (keys : db.Keys) (valid : ch.Valid db) (filled : db.Filled)
    (added : ∀ m ∈ ch.added, m.HasContent) : (ch.apply env db).Filled := by
  intro n hn
  rcases Change.mem_messages.mp hn with ⟨m, hm, rfl⟩ | new
  · exact (Change.touch keys valid hm).same.hasContent (filled m hm)
  · exact added n new

end Ledger

/-- A send commits a row that it composed from a request that passed validation. -/
theorem Sys.Inv.added_content {env : Env} {s : Sys} (inv : s.Inv env) {i : Input} {ch : Change}
    (h : s.change i = some ch) : ∀ m ∈ ch.added, m.HasContent := by
  intro m hm
  unfold Sys.change at h
  split at h
  · rename_i c
    have ok := inv.calls c
    unfold Call.change at h
    split at h
    · rename_i u req n calls
      cases h
      rw [calls] at ok
      obtain rfl := List.mem_singleton.mp hm
      obtain ⟨_, composed, _⟩ := ok
      exact composed.hasContent
    · cases h
      cases hm
    · cases h
      cases hm
    · cases h
  · cases h

/-- The tables in every state that some run reaches. -/
structure Db.Shaped (db : Db) : Prop where
  sound : db.Sound
  spoken : db.Spoken
  filled : db.Filled

theorem chat_shaped (env : Env) (is : List Input) : ((chat env).run is).db.Shaped := by
  have all := (chat env).run_invariant (fun s => s.Inv env ∧ s.db.Spoken ∧ s.db.Filled)
    ⟨Sys.Inv.init env, by simp [Db.Spoken, chat, Sys.init, Db.empty],
      by simp [Db.Filled, chat, Sys.init, Db.empty]⟩ ?_ is
  · exact ⟨all.1.sound, all.2.1, all.2.2⟩
  · rintro s i t ⟨inv, spoken, filled⟩ step
    refine ⟨inv.step step, ?_⟩
    have change := inv.step_change step
    cases e : s.change i with
    | none =>
      rw [e] at change
      rw [change]
      exact ⟨spoken, filled⟩
    | some ch =>
      rw [e] at change
      obtain ⟨valid, db⟩ := change
      rw [db]
      exact ⟨Change.spoken inv.sound.keys valid spoken,
        Change.filled inv.sound.keys valid filled (inv.added_content e)⟩

/-! Members, peers and senders. -/

/-- The two members, whichever of them comes first. -/
def Conversation.members (c : Conversation) : Sym2 UserId := s(c.userA, c.userB)

theorem members_of_pair {c : Conversation} {u v : UserId} (pair : c.pair = sortedPair u v) :
    c.members = s(u, v) := by
  unfold sortedPair Conversation.pair at pair
  unfold Conversation.members
  split at pair
  · obtain ⟨a, b⟩ := Prod.mk.inj pair
    rw [a, b, Sym2.eq_swap]
  · obtain ⟨a, b⟩ := Prod.mk.inj pair
    rw [a, b]

theorem sortedPair_of_members {u v w x : UserId} (h : s(u, v) = s(w, x)) :
    sortedPair u v = sortedPair w x := by
  rcases Sym2.eq_iff.mp h with ⟨rfl, rfl⟩ | ⟨rfl, rfl⟩
  · rfl
  · exact sortedPair_comm u v

theorem Db.Sound.members_unique {db : Db} (sound : db.Sound) {c d : Conversation}
    (hc : c ∈ db.conversations) (hd : d ∈ db.conversations) (same : c.members = d.members) :
    c = d := by
  obtain ⟨u, v, _, cp⟩ := sound.paired c hc
  obtain ⟨w, x, _, dp⟩ := sound.paired d hd
  rw [members_of_pair cp, members_of_pair dp] at same
  exact sound.keys.pair_unique hc hd (by rw [cp, dp, sortedPair_of_members same])

theorem Db.Sound.peerOf_other {db : Db} (sound : db.Sound) {c : Conversation} (hc : c ∈ db.conversations)
    {u : UserId} (member : c.hasMember u = true) :
    c.peerOf u ≠ u ∧ c.members = s(u, c.peerOf u) := by
  obtain ⟨v, w, ne, pair⟩ := sound.paired c hc
  have members := members_of_pair pair
  have inside : u ∈ c.members := by
    simpa [Conversation.hasMember, Conversation.members] using member
  rw [members] at inside ⊢
  rcases Sym2.mem_iff.mp inside with rfl | rfl
  · rw [peerOf_sorted ne.symm (pair.trans (sortedPair_comm u w))]
    exact ⟨ne.symm, rfl⟩
  · rw [peerOf_sorted ne pair]
    exact ⟨ne, Sym2.eq_swap⟩

theorem Db.Sound.sender_peer {db : Db} (sound : db.Sound) {c : Conversation} (hc : c ∈ db.conversations)
    {m : Message} (hm : m ∈ db.messages) (inside : m.conversationId = c.id) :
    c.members = s(m.senderId, m.recipientId) ∧ c.peerOf m.recipientId = m.senderId := by
  obtain ⟨ne, d, hd, id, pair⟩ := sound.placed m hm
  obtain rfl := sound.keys.conversation_unique hc hd (inside.symm.trans id.symm)
  exact ⟨members_of_pair pair, peerOf_sorted ne pair⟩

/-- What the service promises of its tables. -/
structure StoreShape (db : Db) : Prop where
  onePerPair : ∀ c ∈ db.conversations, ∀ d ∈ db.conversations, c.members = d.members → c = d
  neverEmpty : ∀ c ∈ db.conversations, ∃ m ∈ db.messages, m.conversationId = c.id
  peers : ∀ m ∈ db.messages, m.senderId ≠ m.recipientId
  ends : ∀ m ∈ db.messages, ∃ c ∈ db.conversations, c.id = m.conversationId ∧
    s(m.senderId, m.recipientId) = s(c.userA, c.userB)
  content : ∀ m ∈ db.messages, m.body ≠ none ∨ m.attachmentKey ≠ none
  peerOf : ∀ c ∈ db.conversations, ∀ u, c.hasMember u = true →
    c.peerOf u ≠ u ∧ s(u, c.peerOf u) = s(c.userA, c.userB)
  readFrom : ∀ c ∈ db.conversations, ∀ u, c.hasMember u = true → ∀ anchor, ∀ m ∈ db.messages,
    readWhere c.id u anchor m = true → m.senderId = c.peerOf u

/-- The store has its shape in every state of every run, whatever order the database uses on text. -/
theorem store_shape (env : Env) (is : List Input) : StoreShape ((chat env).run is).db := by
  obtain ⟨sound, spoken, filled⟩ := chat_shaped env is
  exact {
    onePerPair := fun c hc d hd => sound.members_unique hc hd
    neverEmpty := spoken
    peers := fun m hm => (sound.placed m hm).1
    ends := by
      intro m hm
      obtain ⟨_, c, hc, id, pair⟩ := sound.placed m hm
      exact ⟨c, hc, id, (members_of_pair pair).symm⟩
    content := filled
    peerOf := by
      intro c hc u member
      obtain ⟨ne, members⟩ := sound.peerOf_other hc member
      exact ⟨ne, members.symm⟩
    readFrom := by
      intro c hc u _ anchor m hm hit
      simp only [readWhere, Bool.and_eq_true, beq_iff_eq] at hit
      obtain ⟨_, peer⟩ := sound.sender_peer hc hm hit.1.1.1
      rw [← peer, hit.1.1.2] }

end ChatBackend

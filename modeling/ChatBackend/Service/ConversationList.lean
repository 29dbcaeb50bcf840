import Mathlib.Data.List.Count
import ChatBackend.Service.Atomic
import ChatBackend.Service.Paging
import ChatBackend.Service.StoreShape

/-! The conversation list against the messages: which conversations it shows and in what order,
and how receipts move the unread counts. -/

namespace ChatBackend

open Lib

/-- What the list is ordered by. -/
def Db.activity (db : Db) (c : Conversation) : Timestamp :=
  ((db.lastMessage c.id).map Message.createdAt).getD c.createdAt

/-- What `list_conversations` may return: ORDER BY leaves the order of ties to the database. -/
def Listed (env : Env) (db : Db) (userId : UserId) (limit : Nat) (out : List ConversationOut) : Prop :=
  ∃ cs : List Conversation, cs.Perm (db.conversations.filter (fun c => c.hasMember userId)) ∧
    cs.Pairwise (fun c d => db.activity d ≤ db.activity c) ∧
    out = (cs.take limit).map (conversationOut env db userId)

theorem listConversations_listed (env : Env) (db : Db) (userId : UserId) (limit : Nat) :
    Listed env db userId limit (listConversations env db userId limit) := by
  refine ⟨byKey db.activityKey (db.conversations.filter (fun c => c.hasMember userId)), ?_, ?_, rfl⟩
  · exact List.perm_insertionSort _ _
  · refine (byKey_sorted _).imp ?_
    intro c d le
    rcases (Prod.Lex.le_iff).mp le with lt | ⟨eq, _⟩
    · exact OrderDual.toDual_lt_toDual.mp lt |>.le
    · exact (OrderDual.toDual_inj.mp eq).ge

/-- `m` is the message of the conversation with the greatest key. -/
structure Newest (db : Db) (conversationId : Uuid) (m : Message) : Prop where
  mem : m ∈ db.messages
  inside : m.conversationId = conversationId
  greatest : ∀ x ∈ db.messages, x.conversationId = conversationId → x.key ≤ m.key

theorem lastMessage_newest {db : Db} {id : Uuid} {m : Message} (h : db.lastMessage id = some m) :
    Newest db id m := by
  obtain ⟨tail, eq⟩ := List.head?_eq_some_iff.mp h
  have order : (byKey Message.newestKey (db.messagesOf id)).Pairwise
      (fun x y => x.newestKey ≤ y.newestKey) := byKey_sorted _
  rw [eq] at order
  have all : ∀ x, x ∈ m :: tail ↔ x ∈ db.messages ∧ x.conversationId = id := by
    intro x
    rw [← eq, mem_byKey, Db.mem_messagesOf]
  obtain ⟨mem, inside⟩ := (all m).mp List.mem_cons_self
  refine ⟨mem, inside, ?_⟩
  intro x hx here
  rcases List.mem_cons.mp ((all x).mpr ⟨hx, here⟩) with rfl | later
  · exact le_rfl
  · exact OrderDual.toDual_le_toDual.mp ((List.pairwise_cons.mp order).1 x later)

theorem lastMessage_some {db : Db} {id : Uuid} {m : Message} (mem : m ∈ db.messages)
    (inside : m.conversationId = id) : ∃ n, db.lastMessage id = some n := by
  have here : m ∈ byKey Message.newestKey (db.messagesOf id) :=
    mem_byKey.mpr (Db.mem_messagesOf.mpr ⟨mem, inside⟩)
  cases eq : db.lastMessage id with
  | none => rw [List.head?_eq_none_iff.mp eq] at here; cases here
  | some n => exact ⟨n, rfl⟩

/-- The last message is what history starts with. -/
theorem lastMessage_first (env : Env) {db : Db} (keys : db.Keys) {userId : UserId} {c : Conversation}
    (mem : c ∈ db.conversations) (member : c.hasMember userId = true) {n : Nat} (pos : 0 < n) :
    ∃ p, listMessages env db userId c.id n none none = .ok p ∧
      p.items.head? = (db.lastMessage c.id).map (toOut env) := by
  have found := getConversation_member keys mem member
  refine ⟨_, listMessages_older found n none, ?_⟩
  have some : n ≠ 0 := Nat.ne_of_gt pos
  simp [historyPage, List.head?_take, some, older, Db.lastMessage]

/-! How a change moves the unread counts. -/

/-- What an unread count counts. -/
def unreadBy (userId : UserId) (conversationId : Uuid) (m : Message) : Bool :=
  m.conversationId == conversationId && m.recipientId == userId && m.status != .read

theorem Db.unreadCount_eq (db : Db) (userId : UserId) (conversationId : Uuid) :
    db.unreadCount userId conversationId = db.messages.countP (unreadBy userId conversationId) := rfl

theorem unreadBy_iff {u : UserId} {id : Uuid} {m : Message} : unreadBy u id m = true ↔
    m.conversationId = id ∧ m.recipientId = u ∧ m.status ≠ .read := by
  simp [unreadBy, and_assoc]

/-- Of the rows that match, those whose id is listed are as many as the ids, when every id
stands for one of them. -/
theorem countP_listed {db : Db} (keys : db.Keys) {p : Message → Bool} {ids : List Uuid}
    (distinct : ids.Nodup) (hit : ∀ id ∈ ids, ∃ m ∈ db.messages, m.id = id ∧ p m = true) :
    (db.messages.filter (fun m => decide (m.id ∈ ids))).countP p = ids.length := by
  have perm : (((db.messages.filter (fun m => decide (m.id ∈ ids))).filter p).map Message.id).Perm
      ids := by
    have nodup : (((db.messages.filter (fun m => decide (m.id ∈ ids))).filter p).map
        Message.id).Nodup :=
      keys.messageId.sublist ((List.filter_sublist.trans List.filter_sublist).map Message.id)
    apply (List.perm_ext_iff_of_nodup nodup distinct).mpr
    intro id
    constructor
    · intro h
      obtain ⟨m, hm, rfl⟩ := List.mem_map.mp h
      simpa using (List.mem_filter.mp (List.mem_filter.mp hm).1).2
    · intro h
      obtain ⟨m, hm, rfl, match_⟩ := hit id h
      exact List.mem_map.mpr ⟨m, List.mem_filter.mpr
        ⟨List.mem_filter.mpr ⟨hm, by simpa using h⟩, match_⟩, rfl⟩
  rw [List.countP_eq_length_filter, ← perm.length_eq, List.length_map]

section Changes

variable {env : Env} {db : Db} (keys : db.Keys)

include keys

/-- A read takes away from the count one for each message it names. -/
theorem unreadCount_read {c : Conversation} {u : UserId} {ids : List Uuid} {now : Timestamp}
    (valid : Change.Reads db c u ids) :
    ((Change.read c u ids now).apply env db).unreadCount u c.id + ids.length =
      db.unreadCount u c.id := by
  have hit : ∀ id ∈ ids, ∃ m ∈ db.messages, m.id = id ∧ unreadBy u c.id m = true := by
    intro id hid
    obtain ⟨m, hm, rfl, inside, recipient, unread⟩ := valid.unread id hid
    exact ⟨m, hm, rfl, unreadBy_iff.mpr ⟨inside, recipient, unread⟩⟩
  have listed := countP_listed keys valid.distinct hit
  have rest : ((Change.read c u ids now).apply env db).unreadCount u c.id =
      (db.messages.filter (fun m => !decide (m.id ∈ ids))).countP (unreadBy u c.id) := by
    rw [Db.unreadCount_eq]
    simp only [Change.apply, Change.added, List.append_nil, List.countP_map, List.countP_filter]
    apply List.countP_congr
    intro m _
    by_cases named : m.id ∈ ids
    · simp [Change.update, named, readSet, unreadBy]
    · simp [Change.update, named]
  rw [rest, Db.unreadCount_eq,
    List.countP_eq_countP_filter_add db.messages _ (fun m => decide (m.id ∈ ids)), listed]
  exact Nat.add_comm _ _

/-- A read in one conversation leaves the counts of the others alone. -/
theorem unreadCount_other {c : Conversation} {u v : UserId} {ids : List Uuid} {now : Timestamp}
    (valid : Change.Reads db c u ids) {id : Uuid} (other : id ≠ c.id) :
    ((Change.read c u ids now).apply env db).unreadCount v id = db.unreadCount v id := by
  rw [Db.unreadCount_eq, Db.unreadCount_eq]
  simp only [Change.apply, Change.added, List.append_nil, List.countP_map]
  apply List.countP_congr
  intro m hm
  by_cases named : m.id ∈ ids
  · obtain ⟨n, hn, same, inside, _⟩ := valid.unread m.id named
    obtain rfl := keys.message_unique hn hm same
    have elsewhere : n.conversationId ≠ id := by rw [inside]; exact other.symm
    simp [Change.update, named, readSet, unreadBy, elsewhere]
  · simp [Change.update, named]

end Changes

theorem markRead_returned {db : Db} {u : UserId} {cid upTo : Uuid} {now : Timestamp}
    {ch : Option Change} {r : ReadResult} (h : markRead db u cid upTo now = (ch, .returned r)) :
    (ch = none ∧ r.messageIds = []) ∨ ∃ c, c.id = cid ∧ ch = some (.read c u r.messageIds now) := by
  unfold markRead at h
  split at h
  · cases h
  · rename_i c found
    split at h
    · cases h
    · dsimp only at h
      split at h
      · cases h
        exact .inl ⟨rfl, rfl⟩
      · cases h
        exact .inr ⟨c, (getConversation_ok found).2.1, rfl⟩

/-- A `mark_read` lowers the count by the messages it names, and moves no other count. -/
theorem markRead_counts (env : Env) {db : Db} (keys : db.Keys) {u : UserId} {cid upTo : Uuid}
    {now : Timestamp} {ch : Option Change} {r : ReadResult}
    (h : markRead db u cid upTo now = (ch, .returned r)) :
    (db.after env ch).unreadCount u cid + r.messageIds.length = db.unreadCount u cid ∧
    ∀ v id, id ≠ cid → (db.after env ch).unreadCount v id = db.unreadCount v id := by
  rcases markRead_returned h with ⟨rfl, none⟩ | ⟨c, rfl, rfl⟩
  · rw [none]
    exact ⟨rfl, fun _ _ _ => rfl⟩
  · have commits := congrArg Prod.fst h
    obtain ⟨d, ids, eq, _, valid⟩ := markRead_change keys commits
    cases eq
    exact ⟨unreadCount_read keys valid, fun v id other => unreadCount_other keys valid other⟩

/-- A `mark_read` up to the newest message leaves nothing unread. -/
theorem markRead_newest (env : Env) {db : Db} (sound : db.Sound) {u : UserId} {c : Conversation}
    (hc : c ∈ db.conversations) (member : c.hasMember u = true) {m : Message}
    (newest : Newest db c.id m) (now : Timestamp) :
    ∃ ch r, markRead db u c.id m.id now = (ch, .returned r) ∧
      (db.after env ch).unreadCount u c.id = 0 := by
  have found := getConversation_member sound.keys hc member
  have anchor : checkAnchor c (db.message m.id) = .ok m := by
    rw [Db.message_mem sound.keys newest.mem, checkAnchor, if_neg (not_not.mpr newest.inside)]
  have all : (db.messages.filter (readWhere c.id u m.key)).length = db.unreadCount u c.id := by
    rw [Db.unreadCount_eq, List.countP_eq_length_filter]
    congr 1
    apply List.filter_congr
    intro x hx
    rw [Bool.eq_iff_iff, unreadBy_iff]
    simp only [readWhere, Bool.and_eq_true, beq_iff_eq, bne_iff_ne, decide_eq_true_eq]
    constructor
    · rintro ⟨⟨⟨inside, recipient⟩, unread⟩, _⟩
      exact ⟨inside, recipient, unread⟩
    · rintro ⟨inside, recipient, unread⟩
      exact ⟨⟨⟨inside, recipient⟩, unread⟩, newest.greatest x hx inside⟩
  have answer : ∃ ch r, markRead db u c.id m.id now = (ch, .returned r) ∧
      r.messageIds = (db.messages.filter (readWhere c.id u m.key)).map Message.id := by
    simp only [markRead, found, anchor]
    split
    · rename_i none
      exact ⟨_, _, rfl, none.symm⟩
    · exact ⟨_, _, rfl, rfl⟩
  obtain ⟨ch, r, eq, ids⟩ := answer
  refine ⟨ch, r, eq, ?_⟩
  have counts := (markRead_counts env sound.keys eq).1
  rw [ids, List.length_map, all] at counts
  omega

/-! What goes on between the list and the `mark_read`. -/

def Change.sendsTo (conversationId : Uuid) (ch : Change) : Bool :=
  ch.added.any (fun m => m.conversationId == conversationId)

theorem Newest.change (env : Env) {db : Db} {id : Uuid} {m : Message} {ch : Change} (keys : db.Keys)
    (valid : ch.Valid db) (quiet : ch.sendsTo id = false) (h : Newest db id m) :
    Newest (ch.apply env db) id (ch.update m) := by
  have same := (Change.touch keys valid h.mem).same
  refine ⟨Change.mem_messages.mpr (.inl ⟨m, h.mem, rfl⟩), same.conversationId.trans h.inside, ?_⟩
  intro x hx inside
  rcases Change.mem_messages.mp hx with ⟨y, hy, rfl⟩ | new
  · have other := (Change.touch keys valid hy).same
    rw [same.key, other.key]
    exact h.greatest y hy (other.conversationId.symm.trans inside)
  · have here := List.any_eq_false.mp quiet x new
    simp [inside] at here

/-- Receipts, and sends elsewhere, leave the newest message of a conversation the newest. -/
theorem Newest.exec {env : Env} {id : Uuid} {c : Conversation} (chs : List Change) :
    ∀ {db : Db} {m : Message}, db.Sound → c ∈ db.conversations → Newest db id m →
    (∀ ch ∈ chs, ch.sendsTo id = false) →
    ((ledger env).exec db chs).Sound ∧ c ∈ ((ledger env).exec db chs).conversations ∧
    ∃ n, n.id = m.id ∧ Newest ((ledger env).exec db chs) id n := by
  induction chs with
  | nil => exact fun sound hc newest _ => ⟨sound, hc, _, rfl, newest⟩
  | cons ch chs ih =>
    intro db m sound hc newest quiet
    have rest : ∀ ch ∈ chs, ch.sendsTo id = false := fun x hx => quiet x (List.mem_cons_of_mem _ hx)
    rw [Machine.exec_cons]
    by_cases valid : ch.Valid db
    · have step : (ledger env).next db ch = ch.apply env db :=
        Machine.next_of_step _ (ledger_step.mpr ⟨valid, rfl⟩)
      rw [step]
      have newest' := newest.change env sound.keys valid (quiet ch List.mem_cons_self)
      obtain ⟨sound', hc', n, same, final⟩ := ih (Change.sound valid sound)
        (List.mem_append_left _ hc) newest' rest
      exact ⟨sound', hc', n, same.trans (ch.update_id m), final⟩
    · have stay : (ledger env).next db ch = db := Machine.next_of_disabled _ (if_neg valid)
      rw [stay]
      exact ih sound hc newest rest

/-! The list. -/

section List

variable {env : Env} {db : Db} {userId : UserId} {limit : Nat} {out : List ConversationOut}

/-- A returned list agrees with the messages. -/
structure ListAgrees (env : Env) (db : Db) (userId : UserId) (limit : Nat)
    (out : List ConversationOut) : Prop where
  distinct : (out.map ConversationOut.id).Nodup
  own : ∀ o ∈ out, ∃ c ∈ db.conversations, c.id = o.id ∧ c.hasMember userId = true ∧
    o.peerId = c.peerOf userId
  count : out.length = min limit (db.conversations.countP (fun c => c.hasMember userId))
  ordered : out.Pairwise (fun x y => ∃ a b, x.lastMessage = some a ∧ y.lastMessage = some b ∧
    b.createdAt ≤ a.createdAt)
  noneNewer : ∀ c ∈ db.conversations, c.hasMember userId = true → c.id ∉ out.map ConversationOut.id →
    ∀ m ∈ db.messages, m.conversationId = c.id →
    ∀ o ∈ out, ∃ a, o.lastMessage = some a ∧ m.createdAt ≤ a.createdAt
  last : ∀ o ∈ out, o.lastMessage ≠ none ∧ ∀ n, 0 < n →
    ∃ p, listMessages env db userId o.id n none none = .ok p ∧ p.items.head? = o.lastMessage
  unread : ∀ o ∈ out, o.unreadCount = (db.messages.filter (fun m =>
    m.conversationId = o.id ∧ m.recipientId = userId ∧ m.status ≠ .read)).length

theorem Db.Shaped.lastMessage (shaped : db.Shaped) {c : Conversation} (hc : c ∈ db.conversations) :
    ∃ m, db.lastMessage c.id = some m := by
  obtain ⟨x, hx, inside⟩ := shaped.spoken c hc
  exact lastMessage_some hx inside

/-- The list is ordered by the time of the last message. -/
theorem activity_le {c d : Conversation} {m n : Message} (hm : db.lastMessage c.id = some m)
    (hn : db.lastMessage d.id = some n) (le : db.activity d ≤ db.activity c) :
    n.createdAt ≤ m.createdAt := by
  simpa [Db.activity, hm, hn] using le

theorem Message.createdAt_le {m n : Message} (h : m.key ≤ n.key) : m.createdAt ≤ n.createdAt := by
  rcases Prod.Lex.le_iff.mp h with lt | ⟨eq, _⟩
  · exact lt.le
  · exact eq.le

theorem Listed.agrees (shaped : db.Shaped) (h : Listed env db userId limit out) :
    ListAgrees env db userId limit out := by
  obtain ⟨cs, perm, order, rfl⟩ := h
  have keys := shaped.sound.keys
  have mine : ∀ c, c ∈ cs ↔ c ∈ db.conversations ∧ c.hasMember userId = true := by
    intro c
    rw [perm.mem_iff, List.mem_filter]
  have shown : ∀ c ∈ cs.take limit, c ∈ db.conversations ∧ c.hasMember userId = true ∧
      ∃ m, db.lastMessage c.id = some m := by
    intro c hc
    obtain ⟨mem, member⟩ := (mine c).mp (List.mem_of_mem_take hc)
    exact ⟨mem, member, shaped.lastMessage mem⟩
  have nodup : (cs.map Conversation.id).Nodup :=
    (perm.map Conversation.id).nodup_iff.mpr
      (keys.conversationId.sublist (List.filter_sublist.map Conversation.id))
  have ids : ((cs.take limit).map (conversationOut env db userId)).map ConversationOut.id =
      (cs.take limit).map Conversation.id := by
    rw [List.map_map]
    rfl
  exact {
    distinct := by
      rw [ids]
      exact nodup.sublist ((List.take_sublist limit cs).map Conversation.id)
    own := by
      intro o ho
      obtain ⟨c, hc, rfl⟩ := List.mem_map.mp ho
      obtain ⟨mem, member, _⟩ := shown c hc
      exact ⟨c, mem, rfl, member, rfl⟩
    count := by
      rw [List.length_map, List.length_take, perm.length_eq, List.countP_eq_length_filter]
    ordered := by
      rw [List.pairwise_map]
      have front := order.sublist (List.take_sublist limit cs)
      refine front.imp_of_mem ?_
      intro c d hc hd le
      obtain ⟨_, _, m, hm⟩ := shown c hc
      obtain ⟨_, _, n, hn⟩ := shown d hd
      exact ⟨toOut env m, toOut env n, by simp [conversationOut, hm], by simp [conversationOut, hn],
        activity_le hm hn le⟩
    noneNewer := by
      intro c hc member absent m hm inside o ho
      obtain ⟨d, hd, rfl⟩ := List.mem_map.mp ho
      obtain ⟨_, _, a, ha⟩ := shown d hd
      obtain ⟨n, hn⟩ := shaped.lastMessage hc
      refine ⟨toOut env a, by simp [conversationOut, ha], ?_⟩
      have late : c ∈ cs.drop limit := by
        have all := (mine c).mpr ⟨hc, member⟩
        rw [← List.take_append_drop limit cs] at all
        rcases List.mem_append.mp all with early | late
        · rw [ids] at absent
          exact absurd (List.mem_map.mpr ⟨c, early, rfl⟩) absent
        · exact late
      have split := order
      rw [← List.take_append_drop limit cs] at split
      have le := (List.pairwise_append.mp split).2.2 d hd c late
      have newest := (lastMessage_newest hn).greatest m hm inside
      exact (Message.createdAt_le newest).trans (activity_le ha hn le)
    last := by
      intro o ho
      obtain ⟨c, hc, rfl⟩ := List.mem_map.mp ho
      obtain ⟨mem, member, m, hm⟩ := shown c hc
      exact ⟨by simp [conversationOut, hm], fun n pos => lastMessage_first env keys mem member pos⟩
    unread := by
      intro o ho
      obtain ⟨c, _, rfl⟩ := List.mem_map.mp ho
      show db.unreadCount userId c.id = _
      rw [Db.unreadCount_eq, List.countP_eq_length_filter]
      congr 1
      apply List.filter_congr
      intro m _
      rw [Bool.eq_iff_iff, unreadBy_iff, decide_eq_true_eq]
      rfl }

end List

/-- How receipts move the count that a returned conversation shows. -/
structure CountFollows (env : Env) (db : Db) (userId : UserId) (o : ConversationOut) : Prop where
  read : ∀ upTo now ch r, markRead db userId o.id upTo now = (ch, .returned r) →
    (db.after env ch).unreadCount userId o.id + r.messageIds.length = o.unreadCount ∧
    ∀ id, id ≠ o.id → (db.after env ch).unreadCount userId id = db.unreadCount userId id
  readAll : ∀ m, o.lastMessage = some m → ∀ chs : List Change, (∀ ch ∈ chs, ch.sendsTo o.id = false) →
    ∀ now, ∃ ch r, markRead ((ledger env).exec db chs) userId o.id m.id now = (ch, .returned r) ∧
      (((ledger env).exec db chs).after env ch).unreadCount userId o.id = 0

/-- In every state of every run, whichever order the database gives to ties: the list agrees with the
messages, and so do the counts after any `mark_read`, alone or as the commit of a concurrent call. -/
theorem conversation_list_agrees (env : Env) (is : List Input) (userId : UserId) (limit : Nat)
    (out : List ConversationOut) (listed : Listed env ((chat env).run is).db userId limit out) :
    ListAgrees env ((chat env).run is).db userId limit out ∧
    (∀ o ∈ out, CountFollows env ((chat env).run is).db userId o) ∧
    ∀ i t c ids now, (chat env).step ((chat env).run is) i = some t →
      ((chat env).run is).change i = some (.read c userId ids now) →
      t.db.unreadCount userId c.id + ids.length = ((chat env).run is).db.unreadCount userId c.id ∧
      ∀ id, id ≠ c.id → t.db.unreadCount userId id = ((chat env).run is).db.unreadCount userId id := by
  have shaped := chat_shaped env is
  have keys := shaped.sound.keys
  refine ⟨listed.agrees shaped, ?_, ?_⟩
  · intro o ho
    obtain ⟨cs, perm, _, rfl⟩ := listed
    obtain ⟨c, hc, rfl⟩ := List.mem_map.mp ho
    obtain ⟨mem, member⟩ := List.mem_filter.mp (perm.mem_iff.mp (List.mem_of_mem_take hc))
    refine ⟨?_, ?_⟩
    · intro upTo now ch r h
      obtain ⟨here, others⟩ := markRead_counts env keys h
      exact ⟨here, others userId⟩
    · intro m last chs quiet now
      obtain ⟨n, hn, rfl⟩ := Option.map_eq_some_iff.mp last
      obtain ⟨sound, still, k, same, newest⟩ :=
        Newest.exec chs shaped.sound mem (lastMessage_newest hn) quiet
      have reads := markRead_newest env sound still member newest now
      rwa [same] at reads
  · intro i t c ids now step change
    have effect := (chat_inv env is).step_change step
    rw [change] at effect
    obtain ⟨valid, after⟩ := effect
    rw [after]
    exact ⟨unreadCount_read keys valid, fun id other => unreadCount_other keys valid other⟩

theorem list_after_one_send :
    let is := sendSteps 0 "a" .helloB 11 1 ++ [Input.act 0 .commit]
    let db := ((chat Env.plain).run is).db
    (listConversations Env.plain db "b" 20).map ConversationOut.unreadCount = [1] ∧
      ListAgrees Env.plain db "b" 20 (listConversations Env.plain db "b" 20) := by
  intro is db
  refine ⟨by decide +kernel, ?_⟩
  exact (conversation_list_agrees Env.plain is "b" 20 _ (listConversations_listed _ _ _ _)).1

end ChatBackend

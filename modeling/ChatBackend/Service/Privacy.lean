import ChatBackend.Lib.Noninterference
import ChatBackend.Service.Visibility

/-! Conversations are private: what a user sees depends only on the operations that concern the
user's own conversations. -/

namespace ChatBackend

open Lib

/-- The operation is the user's own, or about a message or a conversation of the user's. -/
def concerns (u : UserId) (s : Service) : Operation → Bool
  | .sendMessage senderId req _ _ _ => senderId == u || req.recipientId == u
  | .markDelivered userId messageId _ => userId == u || (s.db.message messageId).any (involves u)
  | .markRead userId conversationId _ _ =>
    userId == u || (s.db.conversation conversationId).any (fun c => c.hasMember u)
  | .listConversations userId _ => userId == u
  | .listMessages userId _ _ _ _ => userId == u
  | .typing session conversationId _ =>
    session.userId == u || (s.db.conversation conversationId).any (fun c => c.hasMember u)

/-- Of two operations in this order: their ids differ, and if the later one is a message to `u`, the
earlier one does not use its client id towards anyone else. -/
def Apart (u : UserId) : Operation → Operation → Prop
  | .sendMessage v req _ conversation message, .sendMessage w later _ conversation' message' =>
    conversation.1 ≠ conversation'.1 ∧ message.1 ≠ message'.1 ∧
    (later.recipientId = u → (v, req.clientMsgId) = (w, later.clientMsgId) → req.recipientId = u)
  | _, _ => True

/-- The same of a message sent earlier. -/
def Clear (u : UserId) (s : Service) : Operation → Prop
  | .sendMessage w req _ conversation message =>
    (∀ c ∈ s.db.conversations, c.id ≠ conversation.1) ∧ (∀ m ∈ s.db.messages, m.id ≠ message.1) ∧
    (req.recipientId = u → ∀ m ∈ s.db.messages, m.clientKey = (w, req.clientMsgId) →
      m.recipientId = u)
  | _ => True

structure Ready (u : UserId) (s : Service) (os : List Operation) : Prop where
  inv : s.Inv
  apart : os.Pairwise (Apart u)
  clear : ∀ o ∈ os, Clear u s o

/-! The invariant is kept, by every operation. -/

theorem Service.Inv.init : Service.init.Inv :=
  ⟨Db.Sound.empty, by simp [Service.init], by simp [Service.init]⟩

theorem Service.Inv.commit {env : Env} {s : Service} (inv : s.Inv) {ch : Option Change}
    (valid : ∀ x ∈ ch, x.Valid s.db) : (s.commit env ch).Inv := by
  cases ch with
  | none => exact inv
  | some x =>
    have old : ∀ c ∈ s.db.conversations, c ∈ (x.apply env s.db).conversations :=
      fun c hc => List.mem_append_left _ hc
    refine ⟨Change.sound (valid x rfl) inv.sound, fun e he => ?_, fun e he => ?_⟩
    · obtain ⟨c, hc, rest⟩ := inv.peers e he
      exact ⟨c, old c hc, rest⟩
    · obtain ⟨c, hc, rest⟩ := inv.typing e he
      exact ⟨c, old c hc, rest⟩

theorem Service.peer_some {s : Service} {session : Session} {id : Uuid} {peer : UserId}
    (h : s.peer session id = some peer) : (session, id, peer) ∈ s.peers := by
  obtain ⟨⟨x, i, v⟩, found, rfl⟩ := Option.map_eq_some_iff.mp h
  have hit := List.find?_some found
  simp only [Bool.and_eq_true, beq_iff_eq] at hit
  obtain ⟨rfl, rfl⟩ := hit
  exact List.mem_of_find?_eq_some found

/-- The cache saves a look-up and changes nothing else. -/
theorem sendTyping_spec {s : Service} (inv : s.Inv) (session : Session) (id : Uuid) (isTyping : Bool) :
    match getConversation s.db session.userId id with
    | .error e => sendTyping s session id isTyping = (s, .error e)
    | .ok c => ∃ peers, (∀ e ∈ peers, e ∈ s.peers ∨ e = (session, id, c.peerOf session.userId)) ∧
        sendTyping s session id isTyping = (⟨s.db, peers, s.typing ++
          [(c.peerOf session.userId, ⟨id, session.userId, isTyping⟩)]⟩, .ok ()) := by
  unfold sendTyping
  cases cached : s.peer session id with
  | some peer =>
    obtain ⟨c, hc, rfl, member, eq⟩ := inv.peers _ (Service.peer_some cached)
    rw [getConversation_member inv.sound.keys hc member, show peer = c.peerOf session.userId from eq]
    exact ⟨s.peers, fun e he => .inl he, rfl⟩
  | none =>
    cases found : getConversation s.db session.userId id with
    | error e => rfl
    | ok c =>
      refine ⟨s.peers ++ [(session, id, c.peerOf session.userId)], fun e he => ?_, rfl⟩
      rcases List.mem_append.mp he with old | new
      · exact .inl old
      · exact .inr (List.mem_singleton.mp new)

theorem Service.Inv.sendTyping {s : Service} (inv : s.Inv) (session : Session) (id : Uuid)
    (isTyping : Bool) : (sendTyping s session id isTyping).1.Inv := by
  have spec := sendTyping_spec inv session id isTyping
  cases found : getConversation s.db session.userId id with
  | error e =>
    rw [found] at spec
    rw [spec]
    exact inv
  | ok c =>
    rw [found] at spec
    obtain ⟨peers, cached, eq⟩ := spec
    obtain ⟨hc, rfl, member⟩ := getConversation_ok found
    rw [eq]
    refine ⟨inv.sound, fun e he => ?_, fun e he => ?_⟩
    · rcases cached e he with old | rfl
      · exact inv.peers e old
      · exact ⟨c, hc, rfl, member, rfl⟩
    · rcases List.mem_append.mp he with old | new
      · exact inv.typing e old
      · obtain rfl := List.mem_singleton.mp new
        exact ⟨c, hc, rfl, member, rfl⟩

/-- The change that an operation commits. -/
def Operation.change (env : Env) (s : Service) : Operation → Option Change
  | .sendMessage senderId req stored conversation message =>
    (ChatBackend.sendMessage env s.db senderId req stored conversation message).1
  | .markDelivered userId messageId now => (ChatBackend.markDelivered env s.db userId messageId now).1
  | .markRead userId conversationId upToMessageId now =>
    (ChatBackend.markRead s.db userId conversationId upToMessageId now).1
  | _ => none

theorem Operation.change_valid (env : Env) {s : Service} (inv : s.Inv) (o : Operation) :
    ∀ ch ∈ o.change env s, ch.Valid s.db := by
  intro ch h
  cases o with
  | sendMessage v req stored conversation message =>
    obtain ⟨_, _, _, _, rfl, _, _, valid⟩ := sendMessage_change h
    exact valid
  | markDelivered v id now =>
    obtain ⟨_, rfl, _, valid⟩ := markDelivered_change h
    exact valid
  | markRead v cid upTo now =>
    obtain ⟨_, _, rfl, _, valid⟩ := markRead_change inv.sound.keys h
    exact valid
  | listConversations v limit => cases h
  | listMessages v cid limit before after => cases h
  | typing session cid isTyping => cases h

theorem Service.Inv.step {env : Env} {s : Service} (inv : s.Inv) (o : Operation) :
    (s.step env o).1.Inv := by
  have commit : (s.commit env (o.change env s)).Inv := inv.commit (o.change_valid env inv)
  cases o with
  | sendMessage v req stored conversation message => exact commit
  | markDelivered v id now => exact commit
  | markRead v cid upTo now => exact commit
  | listConversations v limit => exact inv
  | listMessages v cid limit before after => exact inv
  | typing session cid isTyping => exact inv.sendTyping session cid isTyping

theorem sendTyping_db (s : Service) (session : Session) (id : Uuid) (isTyping : Bool) :
    (sendTyping s session id isTyping).1.db = s.db := by
  unfold sendTyping
  split
  · rfl
  · split
    · rfl
    · rfl

theorem Service.step_db (env : Env) (s : Service) (o : Operation) :
    (s.step env o).1.db = (s.commit env (o.change env s)).db := by
  cases o with
  | typing session id isTyping => exact sendTyping_db s session id isTyping
  | sendMessage v req stored conversation message => rfl
  | markDelivered v id now => rfl
  | markRead v cid upTo now => rfl
  | listConversations v limit => rfl
  | listMessages v cid limit before after => rfl

/-- Only a send adds rows, under the ids it was given. -/
theorem Operation.change_new {env : Env} {s : Service} (inv : s.Inv) {o : Operation} {ch : Change}
    (h : o.change env s = some ch) :
    (ch.opened = [] ∧ ch.added = []) ∨
    ∃ v req stored conversation message, o = .sendMessage v req stored conversation message ∧
      (∀ c ∈ ch.opened, c.id = conversation.1) ∧ ∃ m, ch.added = [m] ∧ m.id = message.1 ∧
        m.clientKey = (v, req.clientMsgId) ∧ m.recipientId = req.recipientId := by
  cases o with
  | sendMessage v req stored conversation message =>
    obtain ⟨opened, body, mime, c, rfl, _, ids, _⟩ := sendMessage_change h
    exact .inr ⟨v, req, stored, conversation, message, rfl, fun d hd => (ids d hd).2, _, rfl, rfl, rfl,
      rfl⟩
  | markDelivered v id now =>
    obtain ⟨_, rfl, _, _⟩ := markDelivered_change h
    exact .inl ⟨rfl, rfl⟩
  | markRead v cid upTo now =>
    obtain ⟨_, _, rfl, _, _⟩ := markRead_change inv.sound.keys h
    exact .inl ⟨rfl, rfl⟩
  | listConversations v limit => cases h
  | listMessages v cid limit before after => cases h
  | typing session cid isTyping => cases h

theorem Clear.step {env : Env} {u : UserId} {s : Service} (inv : s.Inv) {a o : Operation}
    (apart : Apart u a o) (clear : Clear u s o) : Clear u (s.step env a).1 o := by
  cases o with
  | sendMessage w later stored conversation message =>
    cases made : a.change env s with
    | none =>
      have db : (s.step env a).1.db = s.db := by rw [Service.step_db, made, Service.commit]
      simpa only [Clear, db] using clear
    | some ch =>
      have db : (s.step env a).1.db = ch.apply env s.db := by rw [Service.step_db, made, Service.commit]
      have valid := a.change_valid env inv ch made
      simp only [Clear, db]
      obtain ⟨conversations, messages, clients⟩ := clear
      have old : ∀ m ∈ s.db.messages, (ch.update m).recipientId = m.recipientId :=
        fun m hm => (Change.touch inv.sound.keys valid hm).same.recipientId
      rcases a.change_new inv made with ⟨opened, added⟩ |
        ⟨v, req, _, conversation', message', rfl, ids, m, added, id, key, recipient⟩
      · refine ⟨fun c hc => ?_, fun n hn => ?_, fun towards n hn same => ?_⟩
        · simp only [Change.apply, opened, List.append_nil] at hc
          exact conversations c hc
        · simp only [Change.mem_messages, added, List.not_mem_nil, or_false] at hn
          obtain ⟨x, hx, rfl⟩ := hn
          rw [Change.update_id]
          exact messages x hx
        · simp only [Change.mem_messages, added, List.not_mem_nil, or_false] at hn
          obtain ⟨x, hx, rfl⟩ := hn
          rw [Change.update_clientKey] at same
          rw [old x hx]
          exact clients towards x hx same
      · obtain ⟨otherConversation, otherMessage, otherClient⟩ := apart
        refine ⟨fun c hc => ?_, fun n hn => ?_, fun towards n hn same => ?_⟩
        · rcases List.mem_append.mp hc with past | new
          · exact conversations c past
          · rw [ids c new]
            exact otherConversation
        · rcases Change.mem_messages.mp hn with ⟨x, hx, rfl⟩ | new
          · rw [Change.update_id]
            exact messages x hx
          · rw [added, List.mem_singleton] at new
            rw [new, id]
            exact otherMessage
        · rcases Change.mem_messages.mp hn with ⟨x, hx, rfl⟩ | new
          · rw [Change.update_clientKey] at same
            rw [old x hx]
            exact clients towards x hx same
          · rw [added, List.mem_singleton] at new
            rw [new, key] at same
            rw [new, recipient]
            exact otherClient towards same
  | markDelivered v id now => trivial
  | markRead v cid upTo now => trivial
  | listConversations v limit => trivial
  | listMessages v cid limit before after => trivial
  | typing session cid isTyping => trivial

theorem Ready.step {env : Env} {u : UserId} {s : Service} {o : Operation} {os : List Operation}
    (ready : Ready u s (o :: os)) : Ready u (s.step env o).1 os := by
  obtain ⟨first, rest⟩ := List.pairwise_cons.mp ready.apart
  exact ⟨ready.inv.step o, rest,
    fun x hx => (ready.clear x (List.mem_cons_of_mem _ hx)).step ready.inv (first x hx)⟩

/-! An operation of no concern to `u` is silent. -/

theorem SameFor.refl (u : UserId) (s : Service) : SameFor u s s := ⟨rfl, rfl, rfl, rfl⟩

theorem SameFor.symm {u : UserId} {s t : Service} (h : SameFor u s t) : SameFor u t s :=
  ⟨h.conversations.symm, h.messages.symm, h.outbox.symm, h.typing.symm⟩

theorem SameFor.trans {u : UserId} {s t r : Service} (h : SameFor u s t) (g : SameFor u t r) :
    SameFor u s r :=
  ⟨h.conversations.trans g.conversations, h.messages.trans g.messages, h.outbox.trans g.outbox,
    h.typing.trans g.typing⟩

theorem actor_other {u : UserId} {s : Service} {o : Operation} (h : concerns u s o = false) :
    (o.actor == u) = false := by
  cases o with
  | sendMessage v req stored conversation message => exact (Bool.or_eq_false_iff.mp h).1
  | markDelivered v id now => exact (Bool.or_eq_false_iff.mp h).1
  | markRead v cid upTo now => exact (Bool.or_eq_false_iff.mp h).1
  | listConversations v limit => exact h
  | listMessages v cid limit before after => exact h
  | typing session cid isTyping => exact (Bool.or_eq_false_iff.mp h).1

theorem Operation.change_hidden {env : Env} {u : UserId} {s : Service} (inv : s.Inv) {o : Operation}
    (other : concerns u s o = false) : ∀ ch ∈ o.change env s, ch.Hidden u := by
  intro ch h
  cases o with
  | sendMessage v req stored conversation message =>
    obtain ⟨opened, body, mime, c, rfl, _, pairs, _⟩ := sendMessage_change h
    refine ⟨other, fun d hd => ?_⟩
    rw [Bool.eq_false_iff, ne_eq, hasMember_sorted (pairs d hd).1]
    rintro (rfl | rfl)
    · simp [concerns] at other
    · simp [concerns] at other
  | markDelivered v id now =>
    obtain ⟨old, rfl, rfl, mem, _⟩ := markDelivered_change h
    have found := (Bool.or_eq_false_iff.mp other).2
    rw [Db.message_mem inv.sound.keys mem] at found
    exact found
  | markRead v cid upTo now =>
    obtain ⟨c, ids, rfl, rfl, valid⟩ := markRead_change inv.sound.keys h
    have found := (Bool.or_eq_false_iff.mp other).2
    rw [Db.conversation_mem inv.sound.keys valid.member.1] at found
    exact found
  | listConversations v limit => cases h
  | listMessages v cid limit before after => cases h
  | typing session cid isTyping => cases h

theorem typing_silent {u : UserId} {s : Service} (inv : s.Inv) {session : Session} {id : Uuid}
    {isTyping : Bool} (other : concerns u s (.typing session id isTyping) = false) :
    SameFor u (sendTyping s session id isTyping).1 s := by
  have spec := sendTyping_spec inv session id isTyping
  cases found : getConversation s.db session.userId id with
  | error e =>
    rw [found] at spec
    rw [spec]
    exact SameFor.refl u s
  | ok c =>
    rw [found] at spec
    obtain ⟨peers, _, eq⟩ := spec
    obtain ⟨hc, rfl, member⟩ := getConversation_ok found
    have outside := (Bool.or_eq_false_iff.mp other).2
    rw [Db.conversation_mem inv.sound.keys hc] at outside
    have inside := peerOf_mem c session.userId
    have away : c.peerOf session.userId ≠ u := by
      rintro rfl
      rw [show c.hasMember (c.peerOf session.userId) = false from outside] at inside
      cases inside
    rw [eq]
    refine ⟨rfl, rfl, rfl, ?_⟩
    rw [List.filter_append, List.filter_singleton, beq_false_of_ne away, cond_false, List.append_nil]

theorem silent {env : Env} {u : UserId} {s : Service} (inv : s.Inv) {o : Operation}
    (other : concerns u s o = false) : SameFor u (s.step env o).1 s := by
  have commit : SameFor u (s.commit env (o.change env s)) s := by
    cases made : o.change env s with
    | none => exact SameFor.refl u s
    | some ch =>
      exact Change.hidden inv (o.change_valid env inv ch made) (o.change_hidden inv other ch made)
  cases o with
  | sendMessage v req stored conversation message => exact commit
  | markDelivered v id now => exact commit
  | markRead v cid upTo now => exact commit
  | listConversations v limit => exact commit
  | listMessages v cid limit before after => exact commit
  | typing session cid isTyping => exact typing_silent inv other

/-! An operation that concerns `u` has the same effect and answer in two states that look the same
to `u`. -/

/-- The recipient of a message is one of those it involves. -/
theorem deliverFound_own (env : Env) (u : UserId) (now : Timestamp) (found : Option Message) :
    deliverFound env u now found = deliverFound env u now (found.filter (involves u)) := by
  cases found with
  | none => rfl
  | some m =>
    cases own : involves u m with
    | true => rw [Option.filter_some, if_pos own]
    | false =>
      have ends : ¬(m.senderId = u ∨ m.recipientId = u) := by
        rw [← involves_iff, own]
        exact Bool.false_ne_true
      obtain ⟨sender, recipient⟩ := not_or.mp ends
      rw [Option.filter_some, if_neg (by simp [own]), deliverFound, Option.filter_some,
        if_neg (by simp [recipient]), deliveredAlready, if_pos ⟨Ne.symm sender, Ne.symm recipient⟩]
      rfl

section Agreement

variable {env : Env} {u : UserId} {s t : Service}

theorem markDelivered_same (env : Env) (same : SameFor u s t) (hs : s.Inv) (ht : t.Inv) {v : UserId} {id : Uuid}
    (now : Timestamp) (concern : concerns u s (.markDelivered v id now) = true) :
    markDelivered env s.db v id now = markDelivered env t.db v id now := by
  rw [markDelivered_eq hs.sound.keys, markDelivered_eq ht.sound.keys]
  rcases Bool.or_eq_true_iff.mp concern with own | known
  · rw [beq_iff_eq.mp own, deliverFound_own, same.message hs ht, ← deliverFound_own]
  · obtain ⟨m, here, there, _⟩ := same.known_message hs ht known
    rw [here, there]

theorem sendMessage_same (env : Env) (same : SameFor u s t) (hs : s.Inv) (ht : t.Inv) {v : UserId}
    {req : SendMessageRequest} {stored : Option StoredObject} {conversation message : Uuid × Timestamp}
    (here : Clear u s (.sendMessage v req stored conversation message))
    (there : Clear u t (.sendMessage v req stored conversation message))
    (concern : concerns u s (.sendMessage v req stored conversation message) = true) :
    sendMessage env s.db v req stored conversation message =
      sendMessage env t.db v req stored conversation message := by
  have ends : u = v ∨ u = req.recipientId := by
    rcases Bool.or_eq_true_iff.mp concern with own | towards
    · exact .inl (beq_iff_eq.mp own).symm
    · exact .inr (beq_iff_eq.mp towards).symm
  have ours : ∀ {r : Service}, Clear u r (.sendMessage v req stored conversation message) →
      ∀ m ∈ r.db.messages, m.clientKey = (v, req.clientMsgId) → involves u m = true := by
    intro r clear m hm key
    rw [involves_iff]
    rcases ends with rfl | towards
    · exact .inl (Prod.mk.inj key).1
    · exact .inr (clear.2.2 towards.symm m hm key)
  have opened : ∀ {r : Service}, Clear u r (.sendMessage v req stored conversation message) →
      r.db.conversation conversation.1 = none := fun clear => Db.conversation_none.mpr clear.1
  have added : ∀ {r : Service}, Clear u r (.sendMessage v req stored conversation message) →
      r.db.message message.1 = none := fun clear => Db.message_none.mpr clear.2.1
  rw [sendMessage, sendMessage, same.byClientMsgId hs ht (ours here) (ours there), added here,
    added there]
  simp only [getOrCreateConversation, same.conversationOf hs ht ends, opened here, opened there]

theorem getConversation_same (same : SameFor u s t) (hs : s.Inv) (ht : t.Inv) {v : UserId} {cid : Uuid}
    (concern : (v == u || (s.db.conversation cid).any (fun c => c.hasMember u)) = true) :
    getConversation s.db v cid = getConversation t.db v cid ∧
      ∀ c, getConversation s.db v cid = .ok c → c.hasMember u = true := by
  rcases Bool.or_eq_true_iff.mp concern with own | known
  · obtain rfl := beq_iff_eq.mp own
    exact ⟨same.getConversation hs ht cid, fun c hc => (getConversation_ok hc).2.2⟩
  · obtain ⟨d, here, there, member⟩ := same.known_conversation hs ht known
    refine ⟨by rw [getConversation, getConversation, here, there], fun c hc => ?_⟩
    obtain ⟨mem, rfl, _⟩ := getConversation_ok hc
    rw [Db.conversation_mem hs.sound.keys mem] at here
    rwa [Option.some.inj here]

theorem markRead_same (same : SameFor u s t) (hs : s.Inv) (ht : t.Inv) {v : UserId} {cid upTo : Uuid}
    (now : Timestamp) (concern : concerns u s (.markRead v cid upTo now) = true) :
    markRead s.db v cid upTo now = markRead t.db v cid upTo now := by
  obtain ⟨equal, member⟩ := getConversation_same same hs ht concern
  rw [markRead, markRead, ← equal]
  cases found : getConversation s.db v cid with
  | error e => rfl
  | ok c =>
    have own := member c found
    have here := (getConversation_ok found).1
    have there := (getConversation_ok (equal ▸ found)).1
    have anchor : checkAnchor c (s.db.message upTo) = checkAnchor c (t.db.message upTo) := by
      rw [checkAnchor_own hs.sound here own, same.message hs ht, ← checkAnchor_own ht.sound there own]
    have rows : ∀ k, s.db.messages.filter (readWhere c.id v k) =
        t.db.messages.filter (readWhere c.id v k) := by
      intro k
      have inside : ∀ m, readWhere c.id v k m = true → m.conversationId = c.id := by
        intro m hit
        simp only [readWhere, Bool.and_eq_true, beq_iff_eq] at hit
        exact hit.1.1.1
      apply same.rows
      · exact fun m hm hit => (hs.sound.involves_member hm here (inside m hit) u).trans own
      · exact fun m hm hit => (ht.sound.involves_member hm there (inside m hit) u).trans own
    simp only [anchor, rows]

theorem listConversations_same (env : Env) (same : SameFor u s t) (hs : s.Inv) (ht : t.Inv) (limit : Nat) :
    listConversations env s.db u limit = listConversations env t.db u limit := by
  have shown : ∀ c ∈ s.db.conversations.filter (fun c => c.hasMember u),
      s.db.messagesOf c.id = t.db.messagesOf c.id := by
    intro c hc
    have hc' := hc
    rw [same.conversations] at hc'
    exact same.messagesOf hs ht (List.mem_of_mem_filter hc) (List.mem_of_mem_filter hc')
      (List.mem_filter.mp hc).2
  have last : ∀ c ∈ s.db.conversations.filter (fun c => c.hasMember u),
      s.db.lastMessage c.id = t.db.lastMessage c.id := by
    intro c hc
    rw [Db.lastMessage, Db.lastMessage, shown c hc]
  have unread : ∀ c ∈ s.db.conversations.filter (fun c => c.hasMember u),
      s.db.unreadCount u c.id = t.db.unreadCount u c.id := by
    intro c hc
    have split : ∀ db : Db, db.unreadCount u c.id =
        (db.messagesOf c.id).countP (fun m => m.recipientId == u && m.status != .read) := by
      intro db
      rw [Db.unreadCount, Db.messagesOf, List.countP_filter]
      congr 1
      funext m
      rw [Bool.eq_iff_iff]
      simp only [Bool.and_eq_true]
      tauto
    rw [split, split, shown c hc]
  have order : byKey s.db.activityKey (s.db.conversations.filter (fun c => c.hasMember u)) =
      byKey t.db.activityKey (t.db.conversations.filter (fun c => c.hasMember u)) := by
    rw [← same.conversations]
    apply byKey_congr
    intro c hc
    rw [Db.activityKey, Db.activityKey, last c hc]
  rw [listConversations, listConversations, ← order]
  apply List.map_congr_left
  intro c hc
  have listed := mem_byKey.mp (List.mem_of_mem_take hc)
  rw [conversationOut, conversationOut, last c listed, unread c listed]

theorem listMessages_same (env : Env) (same : SameFor u s t) (hs : s.Inv) (ht : t.Inv) (cid : Uuid) (limit : Nat)
    (before after : Option String) :
    listMessages env s.db u cid limit before after = listMessages env t.db u cid limit before after := by
  have equal := same.getConversation hs ht cid
  rw [listMessages, listMessages, ← equal]
  cases found : getConversation s.db u cid with
  | error e => rfl
  | ok c =>
    obtain ⟨here, _, own⟩ := getConversation_ok found
    have there := (getConversation_ok (equal ▸ found)).1
    simp only [listAfter, listBefore, listLatest, same.messagesOf hs ht here there own]

theorem sendTyping_same (same : SameFor u s t) (hs : s.Inv) (ht : t.Inv) {session : Session}
    {id : Uuid} {isTyping : Bool} (concern : concerns u s (.typing session id isTyping) = true) :
    SameFor u (sendTyping s session id isTyping).1 (sendTyping t session id isTyping).1 ∧
      (sendTyping s session id isTyping).2 = (sendTyping t session id isTyping).2 := by
  have here := sendTyping_spec hs session id isTyping
  have there := sendTyping_spec ht session id isTyping
  rw [← (getConversation_same same hs ht concern).1] at there
  cases found : getConversation s.db session.userId id with
  | error e =>
    rw [found] at here there
    rw [here, there]
    exact ⟨same, rfl⟩
  | ok c =>
    rw [found] at here there
    obtain ⟨_, _, left⟩ := here
    obtain ⟨_, _, right⟩ := there
    rw [left, right]
    refine ⟨⟨same.conversations, same.messages, same.outbox, ?_⟩, rfl⟩
    simp only [List.filter_append, same.typing]

theorem commit_same (env : Env) (same : SameFor u s t) (hs : s.Inv) (ht : t.Inv) {o : Operation}
    (equal : o.change env s = o.change env t) :
    SameFor u (s.commit env (o.change env s)) (t.commit env (o.change env t)) := by
  have valid := o.change_valid env ht
  rw [← equal] at valid ⊢
  cases made : o.change env s with
  | none => exact same
  | some ch => exact Change.same same hs ht (o.change_valid env hs ch made) (valid ch made)

theorem agree (same : SameFor u s t) (hs : s.Inv) (ht : t.Inv) {o : Operation} (here : Clear u s o)
    (there : Clear u t o) (concern : concerns u s o = true) :
    SameFor u (s.step env o).1 (t.step env o).1 ∧
      ((o.actor == u) = true → (s.step env o).2 = (t.step env o).2) := by
  cases o with
  | sendMessage v req stored conversation message =>
    have equal := sendMessage_same env same hs ht here there concern
    have next := commit_same env same hs ht (o := .sendMessage v req stored conversation message)
      (congrArg Prod.fst equal)
    exact ⟨next, fun _ => congrArg Answer.sent (congrArg Prod.snd equal)⟩
  | markDelivered v id now =>
    have equal := markDelivered_same env same hs ht now concern
    have next := commit_same env same hs ht (o := .markDelivered v id now) (congrArg Prod.fst equal)
    exact ⟨next, fun _ => congrArg Answer.delivered (congrArg Prod.snd equal)⟩
  | markRead v cid upTo now =>
    have equal := markRead_same same hs ht now concern
    have next := commit_same env same hs ht (o := .markRead v cid upTo now)
      (congrArg Prod.fst equal)
    exact ⟨next, fun _ => congrArg Answer.read (congrArg Prod.snd equal)⟩
  | listConversations v limit =>
    obtain rfl := beq_iff_eq.mp concern
    exact ⟨same, fun _ => congrArg Answer.conversations (listConversations_same env same hs ht limit)⟩
  | listMessages v cid limit before after =>
    obtain rfl := beq_iff_eq.mp concern
    have equal := listMessages_same env same hs ht cid limit before after
    exact ⟨same, fun _ => congrArg Answer.messages equal⟩
  | typing session id isTyping =>
    obtain ⟨next, told⟩ := sendTyping_same same hs ht concern
    exact ⟨next, fun _ => congrArg Answer.typing told⟩

end Agreement

theorem service_unwinds (env : Env) (u : UserId) :
    Unwinds (Service.step env) (concerns u) (fun o => o.actor == u) (Ready u) (SameFor u) where
  refl := SameFor.refl u
  symm _ _ := SameFor.symm
  trans _ _ _ := SameFor.trans
  tail _ _ _ ready := ready.step
  sub _ _ _ ready sub := ⟨ready.inv, ready.apart.sublist sub, fun o ho => ready.clear o (sub.subset ho)⟩
  silent _ _ _ ready other := ⟨actor_other other, silent ready.inv other⟩
  agree _ _ _ _ _ here there same concern := agree same here.inv there.inv
    (here.clear _ List.mem_cons_self) (there.clear _ List.mem_cons_self) concern

theorem Ready.init {u : UserId} {os : List Operation} (apart : os.Pairwise (Apart u)) :
    Ready u Service.init os := by
  refine ⟨Service.Inv.init, apart, fun o _ => ?_⟩
  cases o with
  | sendMessage v req stored conversation message =>
    simp [Clear, Service.init, Db.empty]
  | markDelivered v id now => trivial
  | markRead v cid upTo now => trivial
  | listConversations v limit => trivial
  | listMessages v cid limit before after => trivial
  | typing session cid isTyping => trivial

theorem Service.Inv.final (env : Env) (os : List Operation) {s : Service} (inv : s.Inv) :
    (Lib.final (Service.step env) s os).Inv := by
  induction os generalizing s with
  | nil => exact inv
  | cons o os ih => exact ih (inv.step o)

/-! Another pair's id against an id that does not exist. -/

section Strangers

variable {env : Env} {u : UserId} {s : Service}

theorem filter_of_any_false {α : Type} {p : α → Bool} {x : Option α} (h : x.any p = false) :
    x.filter p = none := by
  cases x with
  | none => rfl
  | some a => rw [Option.filter_some, if_neg (by simpa using h)]

theorem strange_message (inv : s.Inv) {foreign missing : Uuid}
    (other : (s.db.message foreign).any (involves u) = false) (absent : s.db.message missing = none) :
    (∀ now, s.step env (.markDelivered u foreign now) = s.step env (.markDelivered u missing now)) ∧
    ∀ cid now, s.step env (.markRead u cid foreign now) = s.step env (.markRead u cid missing now) := by
  have hidden := filter_of_any_false other
  refine ⟨fun now => ?_, fun cid now => ?_⟩
  · have equal : markDelivered env s.db u foreign now = markDelivered env s.db u missing now := by
      rw [markDelivered_eq inv.sound.keys, markDelivered_eq inv.sound.keys, deliverFound_own, hidden,
        absent]
    simp only [Service.step, equal]
  · have equal : markRead s.db u cid foreign now = markRead s.db u cid missing now := by
      rw [markRead, markRead]
      cases found : getConversation s.db u cid with
      | error e => rfl
      | ok c =>
        obtain ⟨hc, _, member⟩ := getConversation_ok found
        simp only [checkAnchor_own inv.sound hc member, hidden, absent]
    simp only [Service.step, equal]

theorem strange_conversation (inv : s.Inv) {foreign missing : Uuid}
    (other : (s.db.conversation foreign).any (fun c => c.hasMember u) = false)
    (absent : s.db.conversation missing = none) :
    (∀ upTo now, s.step env (.markRead u foreign upTo now) = s.step env (.markRead u missing upTo now)) ∧
    (∀ limit before after, s.step env (.listMessages u foreign limit before after) =
      s.step env (.listMessages u missing limit before after)) ∧
    ∀ number isTyping, s.step env (.typing ⟨u, number⟩ foreign isTyping) =
      s.step env (.typing ⟨u, number⟩ missing isTyping) := by
  have refused : ∀ id, (s.db.conversation id).filter (fun c => c.hasMember u) = none →
      getConversation s.db u id = .error (notFoundError "Conversation not found") := by
    intro id hidden
    rw [getConversation_own, hidden]
  have left := refused foreign (filter_of_any_false other)
  have right := refused missing (by rw [absent, Option.filter_none])
  refine ⟨fun upTo now => ?_, fun limit before after => ?_, fun number isTyping => ?_⟩
  · simp only [Service.step, markRead, left, right]
  · simp only [Service.step, listMessages, left, right]
  · have here := sendTyping_spec inv ⟨u, number⟩ foreign isTyping
    have there := sendTyping_spec inv ⟨u, number⟩ missing isTyping
    rw [show getConversation s.db (Session.mk u number).userId foreign = _ from left] at here
    rw [show getConversation s.db (Session.mk u number).userId missing = _ from right] at there
    simp only [Service.step, here, there]

end Strangers

/-- Two runs with the same operations of concern to `u` answer `u` the same and push the same to `u`.
In any state, an id of another pair does as an id that does not exist, and typing goes to the peer. -/
theorem conversations_are_private (env : Env) (u : UserId) :
    (∀ first second : List Operation, first.Pairwise (Apart u) → second.Pairwise (Apart u) →
      concerning (Service.step env) (concerns u) Service.init first =
        concerning (Service.step env) (concerns u) Service.init second →
      answers (Service.step env) (fun o => o.actor == u) Service.init first =
        answers (Service.step env) (fun o => o.actor == u) Service.init second ∧
      (final (Service.step env) Service.init first).db.outbox.filter
          (fun r => r.topic == userTopic u) =
        (final (Service.step env) Service.init second).db.outbox.filter
          (fun r => r.topic == userTopic u) ∧
      (final (Service.step env) Service.init first).typing.filter (fun e => e.1 == u) =
        (final (Service.step env) Service.init second).typing.filter (fun e => e.1 == u)) ∧
    ∀ (os : List Operation) (s : Service), s = final (Service.step env) Service.init os →
      (∀ foreign missing, (s.db.message foreign).any (involves u) = false →
        s.db.message missing = none →
        (∀ now, s.step env (.markDelivered u foreign now) = s.step env (.markDelivered u missing now)) ∧
        ∀ cid now, s.step env (.markRead u cid foreign now) = s.step env (.markRead u cid missing now)) ∧
      (∀ foreign missing, (s.db.conversation foreign).any (fun c => c.hasMember u) = false →
        s.db.conversation missing = none →
        (∀ upTo now,
          s.step env (.markRead u foreign upTo now) = s.step env (.markRead u missing upTo now)) ∧
        (∀ limit before after, s.step env (.listMessages u foreign limit before after) =
          s.step env (.listMessages u missing limit before after)) ∧
        ∀ number isTyping, s.step env (.typing ⟨u, number⟩ foreign isTyping) =
          s.step env (.typing ⟨u, number⟩ missing isTyping)) ∧
      ∀ e ∈ s.typing, ∃ c ∈ s.db.conversations, c.id = e.2.conversationId ∧
        c.hasMember e.2.userId = true ∧ e.1 = c.peerOf e.2.userId := by
  refine ⟨fun first second apart apart' equal => ?_, ?_⟩
  · obtain ⟨told, same⟩ := (service_unwinds env u).two_runs Service.init first second
      (Ready.init apart) (Ready.init apart') equal
    exact ⟨told, same.outbox, same.typing⟩
  · rintro os s rfl
    have inv := Service.Inv.init.final env os
    exact ⟨fun _ _ => strange_message inv, fun _ _ => strange_conversation inv, inv.typing⟩

/-- `b` cannot tell whether `a` also wrote to `c`. -/
theorem private_from_b :
    let toB : Operation := .sendMessage "a" (.hello "b" "k1" (by decide) (by decide)) none (1, 1) (2, 1)
    let toC : Operation := .sendMessage "a" (.hello "c" "k2" (by decide) (by decide)) none (3, 2) (4, 2)
    let ops : List Operation := [.markRead "b" 1 2 5, .typing ⟨"a", 0⟩ 1 true, .listConversations "b" 10]
    answers (Service.step Env.plain) (fun o => o.actor == "b") Service.init
        ([toB, toC, .markRead "c" 3 4 3] ++ ops) =
      answers (Service.step Env.plain) (fun o => o.actor == "b") Service.init ([toB] ++ ops) := by
  intro toB toC ops
  have quiet : ∀ a, ∀ o ∈ Operation.markRead "c" 3 4 3 :: ops, Apart "b" a o := by
    intro a
    simp only [ops, List.forall_mem_cons]
    cases a <;> exact ⟨trivial, trivial, trivial, trivial, nofun⟩
  have apart : ([toB, toC, .markRead "c" 3 4 3] ++ ops).Pairwise (Apart "b") := by
    have sent : Apart "b" toB toC := ⟨by decide, by decide, by decide⟩
    have rest : (Operation.markRead "c" 3 4 3 :: ops).Pairwise (Apart "b") :=
      List.pairwise_of_forall_mem_list fun a _ => quiet a
    exact .cons (List.forall_mem_cons.mpr ⟨sent, quiet toB⟩) (.cons (quiet toC) rest)
  refine ((conversations_are_private Env.plain "b").1 _ _ apart (apart.sublist ?_) ?_).1
  · exact ((List.Sublist.refl ops).cons _ |>.cons toC).cons_cons toB
  · simp (disch := decide +kernel) only [toB, toC, ops, List.cons_append, List.nil_append,
      concerning_keep, concerning_skip, concerning_nil]

end ChatBackend

import Mathlib.Order.WithBot
import ChatBackend.Lib.Joins
import ChatBackend.Service.Atomic
import ChatBackend.Service.DeliveryState

/-! Receipts as joins. The statuses are ordered, and a receipt raises each status to its join with
one that depends only on columns no statement writes; so does its error. -/

namespace ChatBackend

open Lib

theorem MessageStatus.rank_injective : Function.Injective MessageStatus.rank := by
  intro a b h
  cases a <;> cases b <;> first | rfl | cases h

instance : LinearOrder MessageStatus := LinearOrder.lift' MessageStatus.rank
  MessageStatus.rank_injective

/-- A call of one of the two receipt operations. -/
inductive ReceiptCall where
  | delivered (userId : UserId) (messageId : Uuid)
  | read (userId : UserId) (conversationId upToMessageId : Uuid)

def Ending.error {ρ : Type} : Ending ρ → Option AppError
  | .raised e => some e
  | _ => none

/-- What the call commits and the error it raises, with its clock reading. -/
def ReceiptCall.outcome (env : Env) (db : Db) (now : Timestamp) :
    ReceiptCall → Option Change × Option AppError
  | .delivered u id => let r := markDelivered env db u id now; (r.1, r.2.error)
  | .read u cid upTo => let r := markRead db u cid upTo now; (r.1, r.2.error)

/-- A call and the reading of the clock it happens to make. -/
abbrev TimedCall := ReceiptCall × Timestamp

def TimedCall.run (env : Env) (db : Db) (k : TimedCall) : Db := db.after env (k.1.outcome env db k.2).1

def TimedCall.error (env : Env) (db : Db) (k : TimedCall) : Option AppError :=
  (k.1.outcome env db k.2).2

/-- The status of every message, by id. -/
def Db.statuses (db : Db) (id : Uuid) : WithBot MessageStatus := (db.message id).map Message.status

/-- The status that a call asks for, by the columns of a row that never change. -/
def ReceiptCall.asks (db : Db) : ReceiptCall → Message → WithBot MessageStatus
  | .delivered u id, m => if m.id = id ∧ m.recipientId = u then MessageStatus.delivered else ⊥
  | .read u cid upTo, m =>
    match getConversation db u cid with
    | .error _ => ⊥
    | .ok c =>
      match checkAnchor c (db.message upTo) with
      | .error _ => ⊥
      | .ok anchor =>
        if m.conversationId = c.id ∧ m.recipientId = u ∧ m.key ≤ anchor.key then MessageStatus.read
        else ⊥

def ReceiptCall.gives (db : Db) (k : ReceiptCall) (id : Uuid) : WithBot MessageStatus :=
  match db.message id with
  | none => ⊥
  | some m => k.asks db m

/-- Receipts leave everything but statuses and receipt times. -/
structure Frozen (a b : Db) : Prop where
  conversations : b.conversations = a.conversations
  messages : ∀ id, Option.Rel SameColumns (a.message id) (b.message id)

theorem Frozen.refl (db : Db) : Frozen db db := by
  refine ⟨rfl, fun id => ?_⟩
  cases db.message id with
  | none => exact .none
  | some m => exact .some (SameColumns.refl m)

section Changes

variable {env : Env} {db : Db} {ch : Change}

theorem Change.message_apply (quiet : ch.added = []) (id : Uuid) :
    (ch.apply env db).message id = (db.message id).map ch.update := by
  have ids : (fun m : Message => m.id == id) ∘ ch.update = fun m => m.id == id := by
    funext m
    simp
  simp only [Db.message, Change.apply, quiet, List.append_nil, List.find?_map, ids]

theorem Change.frozen (keys : db.Keys) (valid : ch.Valid db) (quiet : ch.added = [])
    (closed : ch.opened = []) : Frozen db (ch.apply env db) := by
  refine ⟨by simp [Change.apply, closed], ?_⟩
  intro id
  rw [Change.message_apply quiet]
  cases found : db.message id with
  | none => exact .none
  | some m => exact .some (Change.touch keys valid (Db.message_some found).1).same

end Changes

theorem getConversation_frozen {a b : Db} (h : Frozen a b) (u : UserId) (id : Uuid) :
    getConversation b u id = getConversation a u id := by
  rw [getConversation, getConversation, Db.conversation, Db.conversation, h.conversations]

theorem Frozen.message {a b : Db} (h : Frozen a b) (id : Uuid) :
    (a.message id = none ∧ b.message id = none) ∨
    ∃ m n, a.message id = some m ∧ b.message id = some n ∧ SameColumns m n := by
  have rel := h.messages id
  cases ha : a.message id with
  | none =>
    rw [ha] at rel
    cases hb : b.message id with
    | none => exact .inl ⟨rfl, rfl⟩
    | some n => rw [hb] at rel; cases rel
  | some m =>
    rw [ha] at rel
    cases hb : b.message id with
    | none => rw [hb] at rel; cases rel
    | some n =>
      rw [hb] at rel
      cases rel with
      | some same => exact .inr ⟨m, n, rfl, rfl, same⟩

/-! Guards and contributions read frozen columns only. -/

theorem Frozen.checkAnchor {a b : Db} (h : Frozen a b) (c : Conversation) (id : Uuid) :
    (∃ e, checkAnchor c (a.message id) = .error e ∧ checkAnchor c (b.message id) = .error e) ∨
    ∃ m n, checkAnchor c (a.message id) = .ok m ∧ checkAnchor c (b.message id) = .ok n ∧
      SameColumns m n := by
  rcases h.message id with ⟨ha, hb⟩ | ⟨m, n, ha, hb, same⟩
  · rw [ha, hb]
    exact .inl ⟨_, rfl, rfl⟩
  · rw [ha, hb, ChatBackend.checkAnchor, ChatBackend.checkAnchor, same.conversationId]
    by_cases inside : m.conversationId = c.id
    · exact .inr ⟨m, n, by simp [inside], by simp [inside], same⟩
    · exact .inl ⟨_, if_pos inside, if_pos inside⟩

theorem asks_same (db : Db) (k : ReceiptCall) {m n : Message} (same : SameColumns m n) :
    k.asks db n = k.asks db m := by
  cases k with
  | delivered u id => simp only [ReceiptCall.asks, same.id, same.recipientId]
  | read u cid upTo =>
    simp only [ReceiptCall.asks, same.conversationId, same.recipientId, same.key]

theorem Frozen.asks {a b : Db} (h : Frozen a b) (k : ReceiptCall) (m : Message) :
    k.asks b m = k.asks a m := by
  cases k with
  | delivered u id => rfl
  | read u cid upTo =>
    simp only [ReceiptCall.asks, getConversation_frozen h]
    cases getConversation a u cid with
    | error e => rfl
    | ok c =>
      rcases h.checkAnchor c upTo with ⟨e, ha, hb⟩ | ⟨x, y, ha, hb, same⟩
      · simp only [ha, hb]
      · simp only [ha, hb, same.key]

theorem Frozen.gives {a b : Db} (h : Frozen a b) (k : ReceiptCall) : k.gives b = k.gives a := by
  funext id
  rw [ReceiptCall.gives, ReceiptCall.gives]
  rcases h.message id with ⟨ha, hb⟩ | ⟨m, n, ha, hb, same⟩
  · rw [ha, hb]
  · rw [ha, hb]
    exact (asks_same b k same).trans (h.asks k m)

/-- `mark_delivered` raises what the check after a fruitless UPDATE would. -/
theorem deliverFound_error (env : Env) (u : UserId) (now : Timestamp) (found : Option Message) :
    (deliverFound env u now found).2.error =
      (Ending.ofExcept (deliveredAlready env u found)).error := by
  unfold deliverFound
  split
  · rename_i old hit
    obtain ⟨rfl, hit⟩ := Option.filter_eq_some_iff.mp hit
    obtain rfl : old.recipientId = u := by simp_all
    simp [deliveredAlready, Ending.ofExcept, Ending.error]
  · rfl

theorem markRead_error (db : Db) (u : UserId) (cid upTo : Uuid) (now : Timestamp) :
    (markRead db u cid upTo now).2.error =
      match getConversation db u cid with
      | .error e => some e
      | .ok c =>
        match checkAnchor c (db.message upTo) with
        | .error e => some e
        | .ok _ => none := by
  unfold markRead
  cases getConversation db u cid with
  | error e => rfl
  | ok c =>
    cases anchor : checkAnchor c (db.message upTo) with
    | error e =>
      simp only [anchor]
      rfl
    | ok m =>
      simp only [anchor]
      split <;> rfl

theorem Frozen.error {env : Env} {a b : Db} (h : Frozen a b) (ka : a.Keys) (kb : b.Keys)
    (k : ReceiptCall) (t t' : Timestamp) : (k.outcome env b t).2 = (k.outcome env a t').2 := by
  cases k with
  | delivered u id =>
    simp only [ReceiptCall.outcome, markDelivered_eq ka, markDelivered_eq kb, deliverFound_error]
    rcases h.message id with ⟨ha, hb⟩ | ⟨m, n, ha, hb, same⟩
    · rw [ha, hb]
    · rw [ha, hb]
      simp only [deliveredAlready, same.senderId, same.recipientId]
      split
      · rfl
      · split <;> rfl
  | read u cid upTo =>
    simp only [ReceiptCall.outcome, markRead_error, getConversation_frozen h]
    cases getConversation a u cid with
    | error e => rfl
    | ok c =>
      rcases h.checkAnchor c upTo with ⟨e, ha, hb⟩ | ⟨x, y, ha, hb, same⟩
      · simp only [ha, hb]
      · simp only [ha, hb]

/-! What a call does to the statuses. -/

theorem statuses_join {a b : Db} {k : ReceiptCall} (update : Message → Message)
    (look : ∀ id, b.message id = (a.message id).map update)
    (raised : ∀ m ∈ a.messages, ((update m).status : WithBot MessageStatus) =
      (m.status : WithBot MessageStatus) ⊔ k.asks a m) : b.statuses = a.statuses ⊔ k.gives a := by
  funext id
  show (b.message id).map Message.status = a.statuses id ⊔ k.gives a id
  rw [Db.statuses, ReceiptCall.gives, look]
  cases found : a.message id with
  | none => exact (bot_sup_eq (⊥ : WithBot MessageStatus)).symm
  | some m => exact raised m (Db.message_some found).1

theorem delivered_join (s : MessageStatus) (sent : s = .sent) :
    (MessageStatus.delivered : WithBot MessageStatus) = s ⊔ MessageStatus.delivered := by
  subst sent
  decide

theorem delivered_absorbed (s : MessageStatus) (past : s ≠ .sent) :
    (s : WithBot MessageStatus) = s ⊔ MessageStatus.delivered := by
  cases s with
  | sent => exact absurd rfl past
  | delivered => decide
  | read => decide

theorem read_top (s : MessageStatus) :
    (MessageStatus.read : WithBot MessageStatus) = s ⊔ MessageStatus.read := by
  cases s <;> decide

section Join

variable {env : Env} {db : Db} (keys : db.Keys)

include keys

theorem run_delivered (u : UserId) (id : Uuid) (now : Timestamp) :
    (TimedCall.run env db (.delivered u id, now)).statuses =
      db.statuses ⊔ (ReceiptCall.delivered u id).gives db := by
  simp only [TimedCall.run, ReceiptCall.outcome, markDelivered_eq keys, deliverFound]
  split
  · rename_i old filtered
    obtain ⟨found, hit⟩ := Option.filter_eq_some_iff.mp filtered
    obtain ⟨mem, rfl⟩ := Db.message_some found
    simp only [Bool.and_eq_true, beq_iff_eq] at hit
    refine statuses_join _ (fun _ => Change.message_apply rfl _) ?_
    intro m hm
    by_cases same : m.id = old.id
    · obtain rfl := keys.message_unique hm mem same
      simp only [Change.update, if_true, deliverSet, ReceiptCall.asks, hit.1, and_self]
      exact delivered_join m.status hit.2
    · simp [Change.update, ReceiptCall.asks, same]
  · rename_i miss
    refine statuses_join (fun m => m) (fun _ => by simp [Db.after]) ?_
    intro m hm
    by_cases asked : m.id = id ∧ m.recipientId = u
    · obtain ⟨rfl, recipient⟩ := asked
      have past : m.status ≠ .sent := by
        rw [Db.message_mem keys hm] at miss
        simpa [recipient] using miss
      simp only [ReceiptCall.asks, recipient, and_self, if_true]
      exact delivered_absorbed m.status past
    · simp [ReceiptCall.asks, asked]

theorem run_read (u : UserId) (cid upTo : Uuid) (now : Timestamp) :
    (TimedCall.run env db (.read u cid upTo, now)).statuses =
      db.statuses ⊔ (ReceiptCall.read u cid upTo).gives db := by
  have still : ∀ id, db.message id = (db.message id).map (fun m => m) := fun _ => by simp
  simp only [TimedCall.run, ReceiptCall.outcome, markRead]
  cases member : getConversation db u cid with
  | error e => exact statuses_join (fun m => m) still (by simp [ReceiptCall.asks, member])
  | ok c =>
    cases found : checkAnchor c (db.message upTo) with
    | error e =>
      simp only [found]
      exact statuses_join (fun m => m) still (by simp [ReceiptCall.asks, member, found])
    | ok anchor =>
      have asks : ∀ m, (ReceiptCall.read u cid upTo).asks db m =
          if m.conversationId = c.id ∧ m.recipientId = u ∧ m.key ≤ anchor.key then
            (MessageStatus.read : WithBot MessageStatus) else ⊥ := by
        intro m
        simp only [ReceiptCall.asks, member, found]
      have kept : ∀ m, readWhere c.id u anchor.key m = false →
          (m.status : WithBot MessageStatus) =
            (m.status : WithBot MessageStatus) ⊔ (ReceiptCall.read u cid upTo).asks db m := by
        intro m miss
        rw [asks]
        split
        · rename_i asked
          have done : m.status = .read := by
            simpa [readWhere, asked] using miss
          rw [done]
          exact read_top .read
        · exact (sup_bot_eq _).symm
      simp only [found]
      split
      · rename_i none
        refine statuses_join (fun m => m) still ?_
        intro m hm
        apply kept
        have empty := List.filter_eq_nil_iff.mp (List.map_eq_nil_iff.mp none) m hm
        simpa using empty
      · refine statuses_join _ (fun _ => Change.message_apply rfl _) ?_
        intro m hm
        rw [Change.update]
        split
        · rename_i listed
          obtain ⟨n, hn, same⟩ := List.mem_map.mp listed
          obtain ⟨hn, hit⟩ := List.mem_filter.mp hn
          obtain rfl := keys.message_unique hn hm same
          simp only [readWhere, Bool.and_eq_true, beq_iff_eq, decide_eq_true_eq] at hit
          rw [asks, if_pos ⟨hit.1.1.1, hit.1.1.2, hit.2⟩]
          exact read_top n.status
        · rename_i unlisted
          apply kept
          by_contra hit
          rw [Bool.not_eq_false] at hit
          exact unlisted (List.mem_map.mpr ⟨m, List.mem_filter.mpr ⟨hm, hit⟩, rfl⟩)

theorem outcome_quiet (k : ReceiptCall) (now : Timestamp) {ch : Change}
    (h : (k.outcome env db now).1 = some ch) :
    ch.Valid db ∧ ch.added = [] ∧ ch.opened = [] := by
  cases k with
  | delivered u id =>
    obtain ⟨old, rfl, _, valid⟩ := markDelivered_change h
    exact ⟨valid, rfl, rfl⟩
  | read u cid upTo =>
    obtain ⟨c, ids, rfl, _, valid⟩ := markRead_change keys h
    exact ⟨valid, rfl, rfl⟩

theorem run_frozen (k : TimedCall) :
    (TimedCall.run env db k).Keys ∧ Frozen db (TimedCall.run env db k) := by
  rw [TimedCall.run]
  cases h : (k.1.outcome env db k.2).1 with
  | none => exact ⟨keys, Frozen.refl db⟩
  | some ch =>
    obtain ⟨valid, quiet, closed⟩ := outcome_quiet keys k.1 k.2 h
    exact ⟨Change.keys valid keys, Change.frozen keys valid quiet closed⟩

end Join

theorem receipts_join (env : Env) :
    Joins (TimedCall.run env) Db.statuses (fun db k => k.1.gives db) Db.Keys where
  keep _ k keys := (run_frozen keys k).1
  join _ k keys := by
    obtain ⟨call, now⟩ := k
    cases call with
    | delivered u id => exact run_delivered keys u id now
    | read u cid upTo => exact run_read keys u cid upTo now
  fixed _ k j keys := (run_frozen keys k).2.gives j.1

/-- Of two reads in one conversation, the one with the later anchor asks for all that both do. -/
theorem gives_later {db : Db} {u : UserId} {cid x y : Uuid} {a b : Message}
    (ha : db.message x = some a) (hb : db.message y = some b) (ca : a.conversationId = cid)
    (cb : b.conversationId = cid) :
    (ReceiptCall.read u cid x).gives db ⊔ (ReceiptCall.read u cid y).gives db =
      (ReceiptCall.read u cid (if a.key ≤ b.key then y else x)).gives db := by
  funext id
  show (ReceiptCall.read u cid x).gives db id ⊔ (ReceiptCall.read u cid y).gives db id = _
  simp only [ReceiptCall.gives]
  cases db.message id with
  | none => exact sup_idem (⊥ : WithBot MessageStatus)
  | some m =>
    cases member : getConversation db u cid with
    | error e =>
      simp only [ReceiptCall.asks, member]
      exact sup_idem (⊥ : WithBot MessageStatus)
    | ok c =>
      have id := (getConversation_ok member).2.1
      have first : checkAnchor c (some a) = .ok a := by simp [checkAnchor, ca, id]
      have second : checkAnchor c (some b) = .ok b := by simp [checkAnchor, cb, id]
      by_cases le : a.key ≤ b.key
      · simp only [ReceiptCall.asks, member, ha, hb, first, second, if_pos le]
        apply sup_eq_right.mpr
        split
        · rename_i asked
          rw [if_pos ⟨asked.1, asked.2.1, asked.2.2.trans le⟩]
        · exact bot_le
      · simp only [ReceiptCall.asks, member, ha, hb, first, second, if_neg le]
        apply sup_eq_left.mpr
        split
        · rename_i asked
          rw [if_pos ⟨asked.1, asked.2.1, asked.2.2.trans (not_le.mp le).le⟩]
        · exact bot_le

/-- Receipts commute on every store that a run reaches. Neither the order of the calls, nor their
clocks, nor a repetition shows in a status, and the error of a call is a function of the call. -/
theorem receipts_commute (env : Env) (is : List Input) :
    let db := ((chat env).run is).db
    let after := fun (ks : List TimedCall) => ks.foldl (TimedCall.run env) db
    (∀ ks js : List TimedCall, (ks.map Prod.fst).Perm (js.map Prod.fst) →
      (after ks).statuses = (after js).statuses) ∧
    (∃ error : ReceiptCall → Option AppError, ∀ ks : List TimedCall,
      replies (TimedCall.run env) (TimedCall.error env) db ks = ks.map (fun k => error k.1)) ∧
    (∀ (ks : List TimedCall) (k : TimedCall) (again : Timestamp), k ∈ ks →
      (after (ks ++ [(k.1, again)])).statuses = (after ks).statuses) ∧
    ∀ (u : UserId) (cid x y : Uuid) (a b : Message) (s t r : Timestamp),
      db.message x = some a → db.message y = some b →
      a.conversationId = cid → b.conversationId = cid →
      (after [(.read u cid x, s), (.read u cid y, t)]).statuses =
        (after [(.read u cid (if a.key ≤ b.key then y else x), r)]).statuses := by
  intro db after
  have keys : db.Keys := (chat_inv env is).sound.keys
  have joins := receipts_join env
  refine ⟨?_, ⟨fun k => TimedCall.error env db (k, 0), ?_⟩, ?_, ?_⟩
  · intro ks js same
    apply joins.perm db keys
    have given := same.map (fun k => k.gives db)
    rwa [List.map_map, List.map_map] at given
  · intro ks
    have fixed : ∀ (s : Db) (k j : TimedCall), s.Keys → TimedCall.error env (TimedCall.run env s k) j =
        TimedCall.error env s j := by
      intro s k j hs
      have frozen : _ ∧ Frozen s (TimedCall.run env s k) := run_frozen hs k
      exact frozen.2.error hs frozen.1 j.1 j.2 j.2
    rw [joins.replies_fixed fixed db ks keys]
    apply List.map_congr_left
    intro k _
    exact (Frozen.refl db).error keys keys k.1 k.2 0
  · intro ks k again mem
    show ((ks ++ [(k.1, again)]).foldl (TimedCall.run env) db).statuses = _
    rw [List.foldl_append]
    exact joins.absorb db keys mem rfl
  · intro u cid x y a b s t r ha hb ca cb
    exact joins.merge db keys (gives_later ha hb ca cb)

end ChatBackend

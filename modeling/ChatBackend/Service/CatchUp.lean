import ChatBackend.Lib.CatchUp
import ChatBackend.Service.Listing
import ChatBackend.Service.Refinement

/-! Catch-up sync: one member pages forward through a conversation while sends go on. The calls of
the service run as before; a page reads the rows that are committed at that moment. -/

namespace ChatBackend

open Lib

def MessageOut.key (out : MessageOut) : Timestamp ×ₗ Uuid := toLex (out.createdAt, out.id)

/-- The message that a step of the service commits to the conversation. -/
def sentIn (conversationId : Uuid) (s : Sys) (i : Input) : Option Message :=
  match s.change i with
  | some (.sent _ m) => if m.conversationId = conversationId then some m else none
  | _ => none

/-- The service, and what the member has: the message it started from, the messages that were
committed then, its cursor and everything the pages returned. -/
structure Sync where
  sys : Sys
  first : Option Message
  base : List Message
  cursor : String
  items : List MessageOut
  caughtUp : Bool

inductive SyncInput where
  | service (i : Input)
  | start (id : Uuid)
  | page (limit : Nat)

def Sync.init : Sync := ⟨Sys.init, none, [], "", [], false⟩

/-- `caughtUp` holds from a page with `has_more = false` until the next message commits. -/
def Sync.step (env : Env) (userId : UserId) (conversationId : Uuid) (s : Sync) :
    SyncInput → Option Sync
  | .service i => (s.sys.step env i).map (fun t => { s with
      sys := t
      caughtUp := s.caughtUp && (sentIn conversationId s.sys i).isNone })
  | .start id =>
    match s.first, getConversation s.sys.db userId conversationId, s.sys.db.message id with
    | none, .ok _, some m =>
      if m.conversationId = conversationId then some { s with
        first := some m
        base := s.sys.db.messagesOf conversationId
        cursor := (toOut env m).cursor }
      else none
    | _, _, _ => none
  | .page limit =>
    match s.first, listMessages env s.sys.db userId conversationId limit none (some s.cursor) with
    | some _, .ok page => some { s with
        cursor := page.nextCursor.getD s.cursor
        items := s.items ++ page.items
        caughtUp := !page.hasMore }
    | _, _ => none

def syncing (env : Env) (userId : UserId) (conversationId : Uuid) : Machine Sync SyncInput :=
  ⟨Sync.init, Sync.step env userId conversationId⟩

/-- The key of the last message the member has got. -/
def Sync.top (s : Sync) : Option (Timestamp ×ₗ Uuid) :=
  s.first.map (fun m => (s.items.map MessageOut.key).getLast?.getD m.key)

/-- Every message committed since the member got its first cursor was returned, exactly once. -/
def Sync.Complete (conversationId : Uuid) (s : Sync) : Prop :=
  ∀ m ∈ s.sys.db.messages, m.conversationId = conversationId → (∀ x ∈ s.base, x.id ≠ m.id) →
    (s.items.map MessageOut.id).count m.id = 1

/-- A message that commits in this step sorts after all that the member has got. -/
def AheadOfReader (conversationId : Uuid) (x : Move Sync SyncInput) : Prop :=
  match x.action with
  | .service i => ∀ m, sentIn conversationId x.before.sys i = some m →
      ∀ k, x.before.top = some k → k < m.key
  | _ => True

/-! The member's view is a reader catching up with a growing set of keys. -/

def Sync.view (conversationId : Uuid) (s : Sync) : CatchUp (Timestamp ×ₗ Uuid) where
  present := (s.sys.db.messagesOf conversationId).map Message.key
  base := s.base.map Message.key
  top := s.top
  returned := s.items.map MessageOut.key
  caughtUp := s.caughtUp

def Sync.emit (conversationId : Uuid) (s : Sync) :
    SyncInput → Option (CatchUp.Action (Timestamp ×ₗ Uuid))
  | .service i => (sentIn conversationId s.sys i).map (fun m => .add m.key)
  | .start id => (s.sys.db.message id).map (fun m => .start m.key)
  | .page limit => some (.page limit)

structure Sync.Inv (env : Env) (userId : UserId) (conversationId : Uuid) (s : Sync) : Prop where
  sys : s.sys.Inv env
  idle : s.first = none → s.items = []
  member : s.first ≠ none →
    ∃ c ∈ s.sys.db.conversations, c.id = conversationId ∧ c.hasMember userId = true
  cursor : ∀ k, s.top = some k → s.cursor = encodeCursor (ofLex k).1 (ofLex k).2

theorem Db.mem_messagesOf {db : Db} {id : Uuid} {m : Message} :
    m ∈ db.messagesOf id ↔ m ∈ db.messages ∧ m.conversationId = id := by
  simp [Db.messagesOf]

/-- A change adds one key to the conversation it sends to, and moves no other. -/
theorem messagesOf_change {env : Env} {db : Db} {ch : Change} (keys : db.Keys) (valid : ch.Valid db)
    (id : Uuid) : ((ch.apply env db).messagesOf id).map Message.key =
      (db.messagesOf id).map Message.key ++
        match ch with
        | .sent _ m => if m.conversationId = id then [m.key] else []
        | _ => [] := by
  have old : ((db.messages.map ch.update).filter (fun m => m.conversationId == id)).map Message.key =
      (db.messagesOf id).map Message.key := by
    rw [List.filter_map, List.map_map, Db.messagesOf]
    have same : ∀ m ∈ db.messages, SameColumns m (ch.update m) := fun m hm =>
      (Change.touch keys valid hm).same
    have rows : db.messages.filter ((fun m : Message => m.conversationId == id) ∘ ch.update) =
        db.messages.filter (fun m => m.conversationId == id) :=
      List.filter_congr (fun m hm => by simp [(same m hm).conversationId])
    rw [rows]
    exact List.map_congr_left (fun m hm => (same m (List.mem_of_mem_filter hm)).key)
  rw [Db.messagesOf, Change.apply, List.filter_append, List.map_append, old]
  congr 1
  cases ch with
  | sent opened m => by_cases inside : m.conversationId = id <;> simp [Change.added, inside]
  | delivered u o now => rfl
  | read c u ids now => rfl

@[simp] theorem toOut_key (env : Env) (m : Message) : (toOut env m).key = m.key := rfl

/-- What a page shows of the rows it was cut from. -/
theorem catchUpPage_spec (env : Env) (rows : List Message) (k : Timestamp ×ₗ Uuid) (limit : Nat) :
    let page := catchUpPage env (page Message.key rows k (limit + 1)) limit
      (encodeCursor (ofLex k).1 (ofLex k).2)
    let keys := CatchUp.keysPage (rows.map Message.key) k limit
    page.items.map MessageOut.key = keys ∧
    page.nextCursor = some (encodeCursor (ofLex (keys.getLast?.getD k)).1
      (ofLex (keys.getLast?.getD k)).2) ∧
    (!page.hasMore) = decide ((beyond id (rows.map Message.key) k).length ≤ limit) := by
  intro result keys
  have items : result.items = (page Message.key rows k limit).map (toOut env) := by
    show ((page Message.key rows k (limit + 1)).take limit).map (toOut env) = _
    rw [page_take]
  have shown : keys = (page Message.key rows k limit).map Message.key := (page_map rows k limit).symm
  refine ⟨?_, ?_, ?_⟩
  · rw [items, List.map_map, shown]
    rfl
  · show some ((result.items.getLast?.map MessageOut.cursor).getD _) = _
    rw [items, shown]
    cases page Message.key rows k limit using List.reverseRecOn with
    | nil => rfl
    | append_singleton init m => simp [toOut, Message.key]
  · show (!decide (limit < (page Message.key rows k (limit + 1)).length)) = _
    rw [← beyond_map, List.length_map, ← decide_not, decide_eq_decide, page_more, not_lt]

section Steps

variable {env : Env} {userId : UserId} {conversationId : Uuid} {s t : Sync}

theorem Sync.Inv.top_some (inv : s.Inv env userId conversationId) (first : s.first ≠ none) :
    ∃ k, s.top = some k ∧ s.cursor = encodeCursor (ofLex k).1 (ofLex k).2 := by
  cases h : s.first with
  | none => exact absurd h first
  | some m =>
    have top : s.top = some ((s.items.map MessageOut.key).getLast?.getD m.key) := by simp [Sync.top, h]
    exact ⟨_, top, inv.cursor _ top⟩

/-- The page a member reads from where it stands. -/
theorem Sync.Inv.page (inv : s.Inv env userId conversationId) {k : Timestamp ×ₗ Uuid}
    (top : s.top = some k) (limit : Nat) :
    ∃ p, listMessages env s.sys.db userId conversationId limit none (some s.cursor) = .ok p ∧
      p.items.map MessageOut.key = CatchUp.keysPage (s.view conversationId).present k limit ∧
      p.nextCursor = some (encodeCursor
        (ofLex ((CatchUp.keysPage (s.view conversationId).present k limit).getLast?.getD k)).1
        (ofLex ((CatchUp.keysPage (s.view conversationId).present k limit).getLast?.getD k)).2) ∧
      (!p.hasMore) = decide ((beyond id (s.view conversationId).present k).length ≤ limit) := by
  have first : s.first ≠ none := fun none => by simp [Sync.top, none] at top
  obtain ⟨c, mem, rfl, member⟩ := inv.member first
  have found := getConversation_member inv.sys.sound.keys mem member
  rw [inv.cursor k top, listMessages_after found]
  exact ⟨_, rfl, catchUpPage_spec env _ k limit⟩

theorem Sync.Inv.step {a : SyncInput} (inv : s.Inv env userId conversationId)
    (h : (syncing env userId conversationId).step s a = some t) : t.Inv env userId conversationId := by
  cases a with
  | service i =>
    obtain ⟨u, step, rfl⟩ := Option.map_eq_some_iff.mp h
    have grow : ∀ c ∈ s.sys.db.conversations, c ∈ u.db.conversations := by
      have db := inv.sys.step_change step
      cases change : s.sys.change i with
      | none =>
        rw [change] at db
        rw [db]
        exact fun _ hc => hc
      | some ch =>
        rw [change] at db
        rw [db.2]
        exact fun _ hc => List.mem_append_left _ hc
    refine ⟨inv.sys.step step, inv.idle, fun first => ?_, inv.cursor⟩
    obtain ⟨c, mem, member⟩ := inv.member first
    exact ⟨c, grow c mem, member⟩
  | start id =>
    simp only [syncing, Sync.step] at h
    split at h
    · rename_i c m first found known
      split at h
      · cases h
        obtain ⟨mem, cid, member⟩ := getConversation_ok found
        refine ⟨inv.sys, (fun idle => by cases idle), fun _ => ⟨c, mem, cid, member⟩, fun k top => ?_⟩
        rw [Sync.top, inv.idle first] at top
        cases top
        rfl
      · cases h
    · cases h
  | page limit =>
    simp only [syncing, Sync.step] at h
    split at h
    · rename_i m p first listed
      cases h
      obtain ⟨k, top, cursor⟩ := inv.top_some (by simp [first])
      obtain ⟨q, again, items, next, _⟩ := inv.page top limit
      obtain rfl : p = q := Except.ok.inj (listed.symm.trans again)
      refine ⟨inv.sys, (fun idle => by simp [first] at idle), inv.member, fun l after => ?_⟩
      rw [next, Option.getD_some]
      rw [Sync.top, first] at top after
      simp only [Option.map_some, Option.some.injEq, List.map_append, items] at top after
      rw [← after]
      cases CatchUp.keysPage (s.view conversationId).present k limit using List.reverseRecOn with
      | nil =>
        rw [List.append_nil, top]
        rfl
      | append_singleton init x => simp
    · cases h

/-- A member can always read its next page. -/
theorem Sync.Inv.page_enabled (inv : s.Inv env userId conversationId) (first : s.first ≠ none)
    (limit : Nat) : ∃ t, (syncing env userId conversationId).step s (.page limit) = some t := by
  obtain ⟨k, top, _⟩ := inv.top_some first
  obtain ⟨p, listed, _⟩ := inv.page top limit
  obtain ⟨m, started⟩ := Option.ne_none_iff_exists'.mp first
  simp only [syncing, Sync.step, started, listed]
  exact ⟨_, rfl⟩

theorem sentIn_fresh (inv : s.Inv env userId conversationId) {i : Input} {u : Sys}
    (step : s.sys.step env i = some u) :
    (u.db.messagesOf conversationId).map Message.key =
        (s.sys.db.messagesOf conversationId).map Message.key ++
          ((sentIn conversationId s.sys i).map Message.key).toList ∧
      ∀ m, sentIn conversationId s.sys i = some m →
        m.key ∉ (s.sys.db.messagesOf conversationId).map Message.key := by
  have db := inv.sys.step_change step
  unfold sentIn
  cases change : s.sys.change i with
  | none =>
    rw [change] at db
    rw [db]
    simp
  | some ch =>
    rw [change] at db
    obtain ⟨valid, eq⟩ := db
    rw [eq, messagesOf_change inv.sys.sound.keys valid]
    cases ch with
    | delivered u o now => simp
    | read c u ids now => simp
    | sent opened m =>
      dsimp only
      by_cases inside : m.conversationId = conversationId
      · rw [if_pos inside, if_pos inside]
        refine ⟨rfl, ?_⟩
        intro n sent old
        obtain rfl := Option.some.inj sent
        obtain ⟨x, hx, key⟩ := List.mem_map.mp old
        have id : x.id = m.id := congrArg (fun k => (ofLex k).2) key
        exact (valid.fresh x (Db.mem_messagesOf.mp hx).1).1 id
      · rw [if_neg inside, if_neg inside]
        simp

theorem syncing_refines (env : Env) (userId : UserId) (conversationId : Uuid) :
    Machine.Refines (syncing env userId conversationId) CatchUp.machine
      (Sync.Inv env userId conversationId) (Sync.view conversationId) (Sync.emit conversationId) where
  initial := ⟨Sys.Inv.init env, fun _ => rfl, fun none => absurd rfl none, fun _ h => by cases h⟩
  keep _ _ _ inv h := inv.step h
  init := rfl
  quiet s a t inv h none := by
    cases a with
    | service i =>
      obtain ⟨u, step, rfl⟩ := Option.map_eq_some_iff.mp h
      have unsent : sentIn conversationId s.sys i = .none := Option.map_eq_none_iff.mp none
      have present := (sentIn_fresh inv step).1
      simp only [unsent, Option.map_none, Option.toList_none, List.append_nil] at present
      simp only [Sync.view, Sync.top, present, unsent, Option.isNone_none, Bool.and_true]
    | start id =>
      have unknown : s.sys.db.message id = .none := Option.map_eq_none_iff.mp none
      simp only [syncing, Sync.step] at h
      split at h
      · rename_i known
        rw [unknown] at known
        cases known
      · cases h
    | page limit => cases none
  visible s a t b inv h some := by
    cases a with
    | service i =>
      obtain ⟨u, step, rfl⟩ := Option.map_eq_some_iff.mp h
      obtain ⟨m, sent, rfl⟩ := Option.map_eq_some_iff.mp some
      obtain ⟨present, fresh⟩ := sentIn_fresh inv step
      rw [sent] at present
      have new := fresh m sent
      simp only [CatchUp.machine, CatchUp.step, Sync.view, Sync.top, if_neg new, present, sent]
      simp
    | start id =>
      simp only [syncing, Sync.step] at h
      split at h
      · rename_i c m first found known
        obtain rfl : b = .start m.key := by simpa [Sync.emit, known] using some.symm
        split at h
        · rename_i inside
          cases h
          have mem : m.key ∈ (s.sys.db.messagesOf conversationId).map Message.key :=
            List.mem_map.mpr ⟨m, Db.mem_messagesOf.mpr ⟨(Db.message_some known).1, inside⟩, rfl⟩
          have empty := inv.idle first
          simp [CatchUp.machine, CatchUp.step, Sync.view, Sync.top, first, empty, mem]
        · cases h
      · cases h
    | page limit =>
      cases some
      simp only [syncing, Sync.step] at h
      split at h
      · rename_i m p first listed
        cases h
        obtain ⟨k, top, cursor⟩ := inv.top_some (by simp [first])
        obtain ⟨q, again, items, next, more⟩ := inv.page top limit
        obtain rfl : p = q := Except.ok.inj (listed.symm.trans again)
        have at_ : (s.view conversationId).top = .some k := top
        simp only [CatchUp.machine, CatchUp.step, at_]
        rw [← items, ← more]
        simp only [Sync.top, first, Option.map_some, Option.some.injEq] at top
        simp only [Sync.view, Sync.top, first, List.map_append, Option.map_some, Option.some.injEq,
          CatchUp.mk.injEq, true_and, and_true]
        cases p.items.map MessageOut.key using List.reverseRecOn with
        | nil => simp [← top]
        | append_singleton init x => simp
      · cases h

end Steps

theorem aheadOfReader_iff (conversationId : Uuid) (x : Move Sync SyncInput) :
    AheadOfReader conversationId x ↔
      ∀ y, Machine.project (Sync.view conversationId) (Sync.emit conversationId) x = some y →
        CatchUp.Ahead y := by
  obtain ⟨s, a, t⟩ := x
  cases a with
  | service i =>
    cases sent : sentIn conversationId s.sys i with
    | none => simp [AheadOfReader, Machine.project, Sync.emit, sent]
    | some m => simp [AheadOfReader, Machine.project, Sync.emit, sent, CatchUp.Ahead, Sync.view]
  | start id =>
    cases known : s.sys.db.message id with
    | none => simp [AheadOfReader, Machine.project, Sync.emit, known]
    | some m => simp [AheadOfReader, Machine.project, Sync.emit, known, CatchUp.Ahead]
  | page limit => simp [AheadOfReader, Machine.project, Sync.emit, CatchUp.Ahead]

/-- Ids and keys tell the same messages apart. -/
theorem Sync.complete_iff {env : Env} {userId : UserId} {conversationId : Uuid} {s : Sync}
    (inv : s.Inv env userId conversationId) (view : (s.view conversationId).Inv) :
    s.Complete conversationId ↔ (s.view conversationId).Complete := by
  have same : ∀ m ∈ s.sys.db.messagesOf conversationId, ∀ k ∈ (s.view conversationId).present,
      (ofLex k).2 = m.id → k = m.key := by
    intro m hm k hk id
    obtain ⟨x, hx, rfl⟩ := List.mem_map.mp hk
    have hx := (Db.mem_messagesOf.mp hx).1
    rw [inv.sys.sound.keys.message_unique hx (Db.mem_messagesOf.mp hm).1 id]
  have count : ∀ m ∈ s.sys.db.messagesOf conversationId,
      (s.items.map MessageOut.id).count m.id = (s.view conversationId).got m.key := by
    intro m hm
    rw [List.count, List.countP_map, CatchUp.got, Sync.view, List.countP_map]
    apply List.countP_congr
    intro o ho
    have known := view.fromPresent o.key (List.mem_map_of_mem ho)
    simp only [Function.comp_apply, beq_iff_eq, decide_eq_true_eq]
    constructor
    · exact fun id => same m hm o.key known id
    · exact fun key => congrArg (fun k => (ofLex k).2) key
  have base : ∀ m ∈ s.sys.db.messagesOf conversationId,
      (∀ x ∈ s.base, x.id ≠ m.id) ↔ m.key ∉ (s.view conversationId).base := by
    intro m hm
    constructor
    · intro out mem
      obtain ⟨x, hx, key⟩ := List.mem_map.mp mem
      exact out x hx (congrArg (fun k => (ofLex k).2) key)
    · intro out x hx id
      have known := view.basePresent x.key (List.mem_map_of_mem hx)
      exact out (List.mem_map.mpr ⟨x, hx, same m hm x.key known id⟩)
  constructor
  · intro complete k hk out
    obtain ⟨m, hm, rfl⟩ := List.mem_map.mp hk
    obtain ⟨mem, inside⟩ := Db.mem_messagesOf.mp hm
    rw [← count m hm]
    exact complete m mem inside ((base m hm).mpr out)
  · intro complete m mem inside out
    have hm := Db.mem_messagesOf.mpr ⟨mem, inside⟩
    rw [count m hm]
    exact complete m.key (List.mem_map_of_mem hm) ((base m hm).mp out)

/-- A member whose last page had nothing after it has every message committed since it started,
each once, exactly when each of them sorted after all that the member had when it committed. -/
theorem catch_up_complete_iff (env : Env) (userId : UserId) (conversationId : Uuid)
    (is : List SyncInput)
    (caught : ((syncing env userId conversationId).run is).caughtUp = true) :
    ((syncing env userId conversationId).run is).Complete conversationId ↔
      ∀ x ∈ (syncing env userId conversationId).history is, AheadOfReader conversationId x := by
  have ref := syncing_refines env userId conversationId
  have view := ref.run is
  have caughtView : (CatchUp.machine.run (Machine.trace (Sync.emit conversationId)
      ((syncing env userId conversationId).history is))).caughtUp = true := by
    rw [view]
    exact caught
  have abstract_ := CatchUp.complete_iff _ caughtView
  have inv := (CatchUp.run_inv (Machine.trace (Sync.emit conversationId)
      ((syncing env userId conversationId).history is))).1
  rw [view] at abstract_ inv
  rw [Sync.complete_iff (ref.invariant is) inv, abstract_, ref.history]
  simp only [List.mem_filterMap, aheadOfReader_iff]
  constructor
  · exact fun ahead x hx y proj => ahead y ⟨x, hx, proj⟩
  · rintro ahead y ⟨x, hx, proj⟩
    exact ahead x hx y proj

def Call.sending : Call → Bool
  | .send _ _ (.running _) => true
  | _ => false

def started (is : List SyncInput) : List CallId :=
  is.filterMap (fun i => match i with | .service (.start c _) => some c | _ => none)

/-- The send of message 12 reads the clock at 5 and commits after the member got message 13, which
was sent at 7. -/
def lateCommit : List SyncInput :=
  (sendSteps 0 "a" .helloB 11 1 ++
    [Input.act 0 .commit]).map .service ++ [.start 11] ++
  (sendSteps 1 "b" (.hello "a" "1" (by decide) SendMessageRequest.helloB.clientMsgIdLength)
    12 5).map .service ++
  (sendSteps 2 "a" (.hello "b" "2" SendMessageRequest.helloB.recipientPattern (by decide)) 13 7 ++
    [Input.act 2 .commit]).map .service ++
  [.page 10, .service (.act 1 .commit), .page 10]

theorem lateCommit_state :
    let s := (syncing .plain "b" 10).run lateCommit
    s.caughtUp = true ∧ (∀ c ∈ started lateCommit, (s.sys.calls c).sending = false) ∧
      (12, 10) ∈ s.sys.db.messages.map (fun m => (m.id, m.conversationId)) ∧
      s.base.map Message.id = [11] ∧ s.items.map MessageOut.id = [13] := by
  decide +kernel

theorem catch_up_late_commit :
    ((syncing .plain "b" 10).run lateCommit).Complete 10 ↔
      ∀ x ∈ (syncing .plain "b" 10).history lateCommit, AheadOfReader 10 x :=
  catch_up_complete_iff .plain "b" 10 lateCommit lateCommit_state.1

theorem catch_up_can_miss :
    ¬ ∀ (env : Env) (userId : UserId) (conversationId : Uuid) (is : List SyncInput),
      (∀ c ∈ started is,
        (((syncing env userId conversationId).run is).sys.calls c).sending = false) →
      ((syncing env userId conversationId).run is).caughtUp = true →
      ((syncing env userId conversationId).run is).Complete conversationId := by
  intro h
  obtain ⟨caught, settled, rows, base, items⟩ := lateCommit_state
  have complete := h .plain "b" 10 lateCommit settled caught
  obtain ⟨m, mem, row⟩ := List.mem_map.mp rows
  obtain ⟨id, inside⟩ := Prod.mk.inj row
  have out : ∀ x ∈ ((syncing .plain "b" 10).run lateCommit).base, x.id ≠ m.id := by
    intro x hx
    have known := List.mem_map_of_mem (f := Message.id) hx
    rw [base, List.mem_singleton] at known
    rw [known, id]
    decide
  have once := complete m mem inside out
  rw [items, id] at once
  exact absurd once (by decide)

end ChatBackend

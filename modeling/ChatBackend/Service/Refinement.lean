import ChatBackend.Service.Invariant
import ChatBackend.Service.Ledger

/-! The concurrent service refines the ledger: a step that commits is one valid change,
and no other step is visible in the tables. -/

namespace ChatBackend

open Lib

def openedBy (own : List Write) : List Conversation :=
  own.filterMap (fun w => match w with | .insertConversation c => some c | _ => none)

/-- The change a call is about to commit. -/
def Call.change (own : List Write) : Call → Option Change
  | .send _ _ (.running (.commit m)) => some (.sent (openedBy own) m)
  | .deliver u _ (.running (.commit old now)) => some (.delivered u old now)
  | .read u _ _ (.running (.commit c now ids)) => some (.read c u ids now)
  | _ => none

def Sys.change (s : Sys) : Input → Option Change
  | .act c .commit => (s.calls c).change (s.pending.own c)
  | _ => none

def EffectOk (db : Db) (own : List Write) (blocked : Write → Bool) (after : Db → List Write → Prop) :
    Effect → Prop
  | .stage ws => after db (own ++ ws) ∧ Staged db own blocked ws
  | .rollback => after db []
  | .commit => after (store.commit db own) []

theorem Phase.step_ok {κ ρ : Type} {db : Db} {own : List Write} {blocked : Write → Bool}
    {run : Db → List Write → κ → Prop} {reply : Db → Reply ρ → Prop} {p q : Phase κ ρ} {a : Action}
    {e : Effect} {next : κ → Action → Option (Outcome κ ρ)} (around : Around db own blocked)
    (failed : reply db .failed) (lost : reply db .lost)
    (nexts : ∀ k o, run db own k → next k a = some o → OutcomeOk db own blocked run reply o)
    (ok : PhaseOk db own run reply p) (h : p.step next a = some (q, e)) :
    EffectOk db own blocked (fun db own => PhaseOk db own run reply q) e := by
  unfold Phase.step at h
  split at h
  case h_1 =>
    cases h
    exact ⟨rfl, failed⟩
  case h_2 k _ =>
    have after := nexts k
    split at h
    · rename_i hn
      cases h
      exact after _ ok hn
    · rename_i hn
      cases h
      exact after _ ok hn
    · rename_i hn
      cases h
      exact ⟨rfl, after _ ok hn⟩
    · rename_i hn
      cases h
      exact ⟨rfl, after _ ok hn⟩
    · cases h
  case h_3 =>
    obtain ⟨rfl, told⟩ := ok
    cases h
    exact ⟨⟨rfl, told⟩, Staged.nil around⟩
  case h_4 =>
    obtain ⟨rfl, told⟩ := ok
    cases h
    exact ⟨⟨rfl, lost⟩, Staged.nil around⟩
  case h_5 => cases h

theorem Call.step_ok {env : Env} {db : Db} {own : List Write} {blocked : Write → Bool} {k l : Call}
    {a : Action} {e : Effect} (around : Around db own blocked) (ok : CallOk env db own k)
    (h : k.step env (store.commit db own) blocked a = some (l, e)) :
    EffectOk db own blocked (fun db own => CallOk env db own l) e := by
  cases k with
  | idle => cases h
  | send u req p =>
    obtain ⟨⟨q, f⟩, hp, pair⟩ := Option.map_eq_some_iff.mp h
    cases pair
    exact Phase.step_ok around trivial trivial (fun _ _ ok hn => SendPc.next_ok around ok hn) ok hp
  | deliver u id p =>
    obtain ⟨⟨q, f⟩, hp, pair⟩ := Option.map_eq_some_iff.mp h
    cases pair
    exact Phase.step_ok around trivial trivial (fun _ _ ok hn => DeliverPc.next_ok around ok hn) ok hp
  | read u cid upTo p =>
    obtain ⟨⟨q, f⟩, hp, pair⟩ := Option.map_eq_some_iff.mp h
    cases pair
    exact Phase.step_ok around trivial trivial (fun _ _ ok hn => ReadPc.next_ok around ok hn) ok hp

/-! Which steps commit. -/

/-- A call at its commit, and the call after it. -/
inductive Commits (env : Env) : Call → Call → Prop where
  | send (u : UserId) (req : SendMessageRequest) (m : Message) :
      Commits env (.send u req (.running (.commit m)))
        (.send u req (.committed (toOut env m, true)))
  | deliver (u : UserId) (id : Uuid) (old : Message) (now : Timestamp) :
      Commits env (.deliver u id (.running (.commit old now)))
        (.deliver u id (.committed (toOut env (deliverSet now old))))
  | read (u : UserId) (cid upTo : Uuid) (c : Conversation) (now : Timestamp) (ids : List Uuid) :
      Commits env (.read u cid upTo (.running (.commit c now ids)))
        (.read u cid upTo (.committed ⟨c.id, ids, some now⟩))

theorem Phase.step_commit {κ ρ : Type} {p q : Phase κ ρ} {a : Action}
    {next : κ → Action → Option (Outcome κ ρ)} (h : p.step next a = some (q, .commit)) :
    ∃ k r, p = .running k ∧ q = .committed r ∧ next k a = some (.commit r) := by
  unfold Phase.step at h
  split at h
  case h_2 k _ =>
    split at h
    case h_4 r hn =>
      cases h
      exact ⟨k, r, rfl, rfl, hn⟩
    all_goals cases h
  all_goals cases h

section Next

variable {env : Env} {db : Db} {blocked : Write → Bool} {a : Action}

theorem SendPc.next_commit {u : UserId} {req : SendMessageRequest} {k : SendPc}
    {r : MessageOut × Bool} (h : k.next env db blocked u req a = some (.commit r)) :
    ∃ m, a = .commit ∧ k = .commit m ∧ r = (toOut env m, true) := by
  unfold SendPc.next at h
  split at h
  case h_8 m =>
    cases h
    exact ⟨m, rfl, rfl, rfl⟩
  case h_3 =>
    simp only [insertPair] at h
    repeat' split at h
    all_goals cases h
  case h_6 =>
    simp only [insertMessage] at h
    repeat' split at h
    all_goals cases h
  all_goals
    repeat' split at h
    all_goals cases h

theorem DeliverPc.next_commit {u : UserId} {id : Uuid} {k : DeliverPc} {r : MessageOut}
    (h : k.next env db blocked u id a = some (.commit r)) :
    ∃ old now, a = .commit ∧ k = .commit old now ∧ r = toOut env (deliverSet now old) := by
  unfold DeliverPc.next at h
  split at h
  case h_5 old now =>
    cases h
    exact ⟨old, now, rfl, rfl, rfl⟩
  all_goals
    repeat' split at h
    all_goals cases h

theorem ReadPc.next_commit {u : UserId} {cid upTo : Uuid} {k : ReadPc} {r : ReadResult}
    (h : k.next db blocked u cid upTo a = some (.commit r)) :
    ∃ c now ids, a = .commit ∧ k = .commit c now ids ∧ r = ⟨c.id, ids, some now⟩ := by
  unfold ReadPc.next at h
  split at h
  case h_7 c now ids =>
    cases h
    exact ⟨c, now, ids, rfl, rfl, rfl⟩
  all_goals
    repeat' split at h
    all_goals cases h

theorem Call.step_commit {k l : Call} (h : k.step env db blocked a = some (l, .commit)) :
    a = .commit ∧ Commits env k l := by
  cases k with
  | idle => cases h
  | send u req p =>
    obtain ⟨⟨q, f⟩, hp, pair⟩ := Option.map_eq_some_iff.mp h
    cases pair
    obtain ⟨k, r, rfl, rfl, hn⟩ := Phase.step_commit hp
    obtain ⟨m, rfl, rfl, rfl⟩ := SendPc.next_commit hn
    exact ⟨rfl, .send u req m⟩
  | deliver u id p =>
    obtain ⟨⟨q, f⟩, hp, pair⟩ := Option.map_eq_some_iff.mp h
    cases pair
    obtain ⟨k, r, rfl, rfl, hn⟩ := Phase.step_commit hp
    obtain ⟨old, now, rfl, rfl, rfl⟩ := DeliverPc.next_commit hn
    exact ⟨rfl, .deliver u id old now⟩
  | read u cid upTo p =>
    obtain ⟨⟨q, f⟩, hp, pair⟩ := Option.map_eq_some_iff.mp h
    cases pair
    obtain ⟨k, r, rfl, rfl, hn⟩ := Phase.step_commit hp
    obtain ⟨c, now, ids, rfl, rfl, rfl⟩ := ReadPc.next_commit hn
    exact ⟨rfl, .read u cid upTo c now ids⟩

theorem Call.step_of_change {k : Call} {own : List Write} {ch : Change}
    (h : k.change own = some ch) : ∃ l, k.step env db blocked .commit = some (l, .commit) := by
  unfold Call.change at h
  split at h
  · exact ⟨_, rfl⟩
  · exact ⟨_, rfl⟩
  · exact ⟨_, rfl⟩
  · cases h

end Next

/-! What the pending writes of a committing call do to the tables. -/

theorem commit_reads {now : Timestamp} {olds : List Message} {db : Db}
    (unique : ∀ o ∈ olds, ∀ m ∈ db.messages, m.id = o.id → m = o)
    (distinct : (olds.map Message.id).Nodup) :
    store.commit db (readWrites now olds) = ⟨db.conversations,
      db.messages.map (fun m => if m.id ∈ olds.map Message.id then readSet now m else m), db.outbox⟩ := by
  induction olds generalizing db with
  | nil => simp [readWrites]
  | cons o olds ih =>
    obtain ⟨notMem, distinct⟩ := List.nodup_cons.mp distinct
    have rest : ∀ p ∈ olds, ∀ m ∈ (db.apply (.updateMessage o (readSet now o))).messages,
        m.id = p.id → m = p := by
      intro p hp m hm id
      rcases mem_apply_update.mp hm with ⟨x, _, _, rfl⟩ | ⟨hm, _⟩
      · exact absurd (List.mem_map.mpr ⟨p, hp, id.symm⟩) notMem
      · exact unique p (List.mem_cons_of_mem _ hp) m hm id
    have tail : store.commit db (readWrites now (o :: olds)) =
        store.commit (db.apply (.updateMessage o (readSet now o))) (readWrites now olds) := rfl
    rw [tail, ih rest distinct]
    simp only [Db.apply, List.map_map, Db.mk.injEq, true_and, and_true]
    apply List.map_congr_left
    intro m hm
    by_cases hit : m.id = o.id
    · obtain rfl := unique o List.mem_cons_self m hm hit
      have done : (readSet now m).id ∉ olds.map Message.id := notMem
      simp only [Function.comp_apply, if_pos, if_neg done, List.map_cons, List.mem_cons, true_or]
    · simp [hit]

theorem openedBy_announced (env : Env) (before : List Write) (m : Message) :
    openedBy (before ++ .insertMessage m :: (sentRows env m).map .insertOutbox) = openedBy before := by
  simp [openedBy, List.filterMap_append, List.filterMap_map]

theorem Claimed.opened {db : Db} {own : List Write} {c : Conversation} (h : Claimed db own c) :
    (store.commit db own).conversations = db.conversations ++ openedBy own ∧
    c ∈ db.conversations ++ openedBy own ∧ (openedBy own = [] ∨ openedBy own = [c]) := by
  rcases h with ⟨rfl, mem⟩ | rfl
  · exact ⟨by simp [openedBy], List.mem_append_left _ mem, .inl rfl⟩
  · exact ⟨rfl, by simp [openedBy], .inr rfl⟩

/-- The writes of a call at its commit are one valid change. -/
theorem Commits.change {env : Env} {db : Db} {own : List Write} {k l : Call} (keys : db.Keys)
    (fits : ∀ w ∈ own, Fits db w) (apart : own.Pairwise (fun v w => conflict v w = false))
    (ok : CallOk env db own k) (h : Commits env k l) :
    ∃ ch, k.change own = some ch ∧ ch.Valid db ∧ store.commit db own = ch.apply env db := by
  cases h with
  | send u req m =>
    obtain ⟨ne, ⟨body, mime, cid, id, now, -, hm⟩, c, before, pair, inside, claimed, rfl⟩ := ok
    refine ⟨.sent (openedBy before) m, by rw [Call.change, openedBy_announced], ?_, ?_⟩
    · have opened := claimed.opened
      have ends : m.senderId = u ∧ m.recipientId = req.recipientId := by simp [hm, newMessage]
      exact {
        status := by simp [hm, newMessage]
        peers := by rw [ends.1, ends.2]; exact ne
        fresh := fits (.insertMessage m) (by simp)
        freshPair := by
          intro d hd
          rcases claimed with ⟨rfl, _⟩ | rfl
          · cases hd
          · obtain rfl := List.mem_singleton.mp hd
            exact fits (.insertConversation d) (by simp)
        inside := ⟨c, opened.2.1, opened.2.2, by rw [ends.1, ends.2]; exact pair, inside⟩ }
    · rw [commit_send claimed, claimed.opened.1]
      simp [Change.apply, Change.opened, Change.added, Change.rows]
  | deliver u id old now =>
    obtain ⟨hit, rfl⟩ := ok
    have fit := fits _ List.mem_cons_self
    simp only [deliverWhere, Bool.and_eq_true, beq_iff_eq] at hit
    refine ⟨_, rfl, ⟨fit.1, hit.1.2, hit.2⟩, ?_⟩
    rw [Semantics.commit_cons, commit_insertOutbox]
    simp only [store, Db.apply, Change.apply, Change.opened, Change.added, Change.rows, List.append_nil,
      Db.mk.injEq, and_true, true_and]
    apply List.map_congr_left
    intro m hm
    rw [Change.update]
    split
    · rename_i id
      rw [keys.message_unique hm fit.1 id]
    · rfl
  | read u cid upTo c now ids =>
    obtain ⟨anchored, some, anchor, olds, rfl, rfl, hits⟩ := ok
    have unread : ∀ o ∈ olds, o ∈ db.messages := fun o ho =>
      (fits _ (List.mem_append_left _ (List.mem_map.mpr ⟨o, ho, rfl⟩))).1
    have distinct : (olds.map Message.id).Nodup := by
      have updates := (List.pairwise_append.mp apart).1
      rw [readWrites, List.pairwise_map] at updates
      rw [List.Nodup, List.pairwise_map]
      exact updates.imp (fun h => by simpa [conflict] using h)
    refine ⟨_, rfl, ⟨⟨anchored.1, anchored.2.2⟩, some, distinct, ?_⟩, ?_⟩
    · intro id hid
      obtain ⟨o, ho, rfl⟩ := List.mem_map.mp hid
      have hit := hits o ho
      simp only [readWhere, Bool.and_eq_true, beq_iff_eq, bne_iff_ne] at hit
      exact ⟨o, unread o ho, rfl, hit.1.1.1, hit.1.1.2, hit.1.2⟩
    · rw [Semantics.commit_append, commit_insertOutbox,
        commit_reads (fun o ho m hm id => keys.message_unique hm (unread o ho) id) distinct]
      simp only [Change.apply, Change.opened, Change.added, Change.rows, List.append_nil]
      rfl

/-! The invariant of the whole system. -/

structure Sys.Inv (env : Env) (s : Sys) : Prop where
  sound : s.db.Sound
  isolated : store.Isolated s.db s.pending
  calls : ∀ c, CallOk env s.db (s.pending.own c) (s.calls c)

/-- What a call has pending after one of its steps. -/
def Effect.leaves (own : List Write) : Effect → List Write
  | .stage ws => own ++ ws
  | .rollback | .commit => []

theorem settle_own_self (s : Sys) (c : CallId) (k : Call) (e : Effect) :
    (s.settle c k e).pending.own c = e.leaves (s.pending.own c) := by
  cases e <;> simp [Sys.settle, Effect.leaves]

theorem settle_own_other (s : Sys) {c d : CallId} (k : Call) (e : Effect) (h : d ≠ c) :
    (s.settle c k e).pending.own d = s.pending.own d := by
  cases e with
  | stage ws => exact Pending.own_stage_other _ _ h
  | rollback => exact Pending.own_drop_other _ h
  | commit => exact Pending.own_drop_other _ h

theorem settle_db {s : Sys} {c : CallId} {k : Call} {e : Effect} (ne : e ≠ .commit) :
    (s.settle c k e).db = s.db := by
  cases e with
  | stage ws => rfl
  | rollback => rfl
  | commit => exact absurd rfl ne

theorem settle_calls (s : Sys) (c : CallId) (k : Call) (e : Effect) :
    (s.settle c k e).calls = Function.update s.calls c k := by
  cases e <;> rfl

theorem conflict_row (v : Write) (old new : Message) :
    conflict v (.updateMessage old new) = conflict v (.updateMessage old old) := by
  cases v <;> rfl

theorem Sys.Inv.around {env : Env} {s : Sys} (inv : s.Inv env) (c : CallId) :
    Around s.db (s.pending.own c) (store.blocked s.pending c) where
  keys := inv.sound.keys
  fits := inv.isolated.own_fits c
  apart := inv.isolated.own_apart c
  outbox row := by simp [Semantics.blocked, store, conflict_outbox]
  row old new := by simp only [Semantics.blocked, store, conflict_row _ old new]

theorem Grows.commit {db : Db} {p : Pending CallId Write} (isolated : store.Isolated db p)
    (keys : db.Keys) (c : CallId) : Grows db (store.commit db (p.own c)) :=
  (isolated.commit_invariant c (fun d => d.Keys ∧ Grows db d)
    (fun _ _ h fits => ⟨h.1.apply fits, h.2.trans (Grows.apply h.1 fits)⟩)
    ⟨keys, Grows.refl db⟩).2

theorem checkRequest_error {env : Env} {u : UserId} {req : SendMessageRequest} {e : AppError}
    (h : checkRequest env u req = .error e) : e.code ≠ "conflict" := by
  unfold checkRequest at h
  split at h
  · cases h
    decide
  · split at h
    · cases h
    · split at h
      · cases h
        show "body_too_long" ≠ "conflict"
        decide
      · cases h

theorem Request.start_ok (env : Env) (db : Db) (r : Request) : CallOk env db [] (r.start env) := by
  cases r with
  | sendMessage u req =>
    cases h : checkRequest env u req with
    | error e =>
      simp only [Request.start, h]
      exact ⟨rfl, checkRequest_error h⟩
    | ok _ =>
      simp only [Request.start, h]
      exact ⟨checkRequest_ne h, rfl⟩
  | markDelivered u id => exact rfl
  | markRead u cid upTo => exact rfl

/-- What a step of the system is. -/
inductive Steps (env : Env) (s : Sys) : Input → Sys → Prop where
  | start (c : CallId) (r : Request) : s.calls c = .idle →
      Steps env s (.start c r) { s with calls := Function.update s.calls c (r.start env) }
  | act (c : CallId) (a : Action) (l : Call) (e : Effect) :
      (s.calls c).step env (s.view c) (store.blocked s.pending c) a = some (l, e) →
      Steps env s (.act c a) (s.settle c l e)

theorem Sys.step_cases {env : Env} {s t : Sys} {i : Input} (h : s.step env i = some t) :
    Steps env s i t := by
  cases i with
  | start c r =>
    simp only [Sys.step] at h
    split at h
    · rename_i idle
      cases h
      exact .start c r idle
    · cases h
  | act c a =>
    obtain ⟨⟨l, e⟩, hk, rfl⟩ := Option.map_eq_some_iff.mp h
    exact .act c a l e hk

theorem Sys.Inv.init (env : Env) : Sys.init.Inv env :=
  ⟨Db.Sound.empty, Semantics.Isolated.empty _, fun _ => rfl⟩

/-- The commit of a call is one valid change of the committed tables. -/
theorem Sys.Inv.commit_change {env : Env} {s : Sys} (inv : s.Inv env) {c : CallId} {a : Action}
    {l : Call} (h : (s.calls c).step env (s.view c) (store.blocked s.pending c) a = some (l, .commit)) :
    ∃ ch, s.change (.act c a) = some ch ∧ ch.Valid s.db ∧
      store.commit s.db (s.pending.own c) = ch.apply env s.db := by
  obtain ⟨rfl, commits⟩ := Call.step_commit h
  exact commits.change inv.sound.keys (inv.isolated.own_fits c) (inv.isolated.own_apart c) (inv.calls c)

theorem Sys.Inv.step {env : Env} {s t : Sys} {i : Input} (inv : s.Inv env)
    (h : s.step env i = some t) : t.Inv env := by
  cases Sys.step_cases h with
  | start c r idle =>
    refine ⟨inv.sound, inv.isolated, fun d => ?_⟩
    have calls := inv.calls
    by_cases same : d = c
    · subst d
      have empty : s.pending.own c = [] := by
        have ok := calls c
        rwa [idle] at ok
      simpa [empty] using Request.start_ok env s.db r
    · simpa [Function.update_of_ne same] using calls d
  | act c a l e hk =>
    have after := Call.step_ok (inv.around c) (inv.calls c) hk
    refine ⟨?_, ?_, fun d => ?_⟩
    · cases e with
      | stage ws => exact inv.sound
      | rollback => exact inv.sound
      | commit =>
        obtain ⟨ch, _, valid, eq⟩ := inv.commit_change hk
        have sound : (store.commit s.db (s.pending.own c)).Sound := eq ▸ Change.sound valid inv.sound
        exact sound
    · cases e with
      | stage ws =>
        have staged := after.2
        exact inv.isolated.stage c ws staged.fits staged.free staged.apart
      | rollback => exact inv.isolated.drop c
      | commit => exact inv.isolated.commit c
    · rw [settle_calls]
      by_cases same : d = c
      · subst d
        rw [settle_own_self, Function.update_self]
        cases e with
        | stage ws => exact after.1
        | rollback => exact after
        | commit => exact after
      · rw [settle_own_other s l e same, Function.update_of_ne same]
        cases e with
        | stage ws => exact inv.calls d
        | rollback => exact inv.calls d
        | commit => exact (inv.calls d).grows (Grows.commit inv.isolated inv.sound.keys c)

theorem chat_inv (env : Env) (is : List Input) : ((chat env).run is).Inv env :=
  (chat env).run_invariant (Sys.Inv env) (Sys.Inv.init env) (fun _ _ _ inv h => inv.step h) is

theorem Sys.change_none {env : Env} {s : Sys} {c : CallId} {a : Action} {l : Call} {e : Effect}
    (h : (s.calls c).step env (s.view c) (store.blocked s.pending c) a = some (l, e))
    (ne : e ≠ .commit) : s.change (.act c a) = none := by
  cases change : s.change (.act c a) with
  | none => rfl
  | some ch =>
    unfold Sys.change at change
    split at change
    · rename_i hi
      cases hi
      obtain ⟨l', hc⟩ := Call.step_of_change change
      rw [h] at hc
      cases hc
      exact absurd rfl ne
    · cases change

/-- A step commits a change exactly when it is about to. -/
theorem Sys.Inv.step_change {env : Env} {s t : Sys} {i : Input} (inv : s.Inv env)
    (h : s.step env i = some t) :
    match s.change i with
    | none => t.db = s.db
    | some ch => ch.Valid s.db ∧ t.db = ch.apply env s.db := by
  cases Sys.step_cases h with
  | start c r idle => rfl
  | act c a l e hk =>
    cases e with
    | commit =>
      obtain ⟨ch, change, valid, eq⟩ := inv.commit_change hk
      rw [change]
      exact ⟨valid, eq⟩
    | stage ws =>
      rw [Sys.change_none hk (by simp)]
      rfl
    | rollback =>
      rw [Sys.change_none hk (by simp)]
      rfl

theorem chat_refines_ledger (env : Env) :
    Machine.Refines (chat env) (ledger env) (Sys.Inv env) Sys.db Sys.change where
  initial := Sys.Inv.init env
  keep _ _ _ inv h := inv.step h
  init := rfl
  quiet s i t inv h none := by
    have := inv.step_change h
    rwa [none] at this
  visible s i t ch inv h some := by
    have := inv.step_change h
    rw [some] at this
    exact ledger_step.mpr this

end ChatBackend

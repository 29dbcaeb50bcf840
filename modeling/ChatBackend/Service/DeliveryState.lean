import ChatBackend.Service.Refinement

/-! The delivery state machine: `sent → delivered → read`, each receipt time written once,
and only at the recipient's request. -/

namespace ChatBackend

open Lib

def MessageStatus.rank : MessageStatus → Nat
  | .sent => 0
  | .delivered => 1
  | .read => 2

/-- The status is determined by which of the two times are set. -/
structure Message.Consistent (m : Message) : Prop where
  sent : m.status = .sent ↔ m.deliveredAt = none ∧ m.readAt = none
  delivered : m.status = .delivered ↔ m.deliveredAt ≠ none ∧ m.readAt = none
  read : m.status = .read ↔ m.deliveredAt ≠ none ∧ m.readAt ≠ none

/-- A later version of a row. -/
structure Later (m n : Message) : Prop where
  same : SameColumns m n
  status : m.status.rank ≤ n.status.rank
  deliveredAt : ∀ t, m.deliveredAt = some t → n.deliveredAt = some t
  readAt : ∀ t, m.readAt = some t → n.readAt = some t

theorem Later.refl (m : Message) : Later m m :=
  ⟨SameColumns.refl m, le_rfl, fun _ h => h, fun _ h => h⟩

theorem Later.trans {m n k : Message} (h : Later m n) (g : Later n k) : Later m k where
  same := h.same.trans g.same
  status := h.status.trans g.status
  deliveredAt t ht := g.deliveredAt t (h.deliveredAt t ht)
  readAt t ht := g.readAt t (h.readAt t ht)

theorem Touch.consistent {ch : Change} {m n : Message} (h : Touch ch m n) (ok : m.Consistent) :
    n.Consistent := by
  cases h with
  | kept => exact ok
  | delivered _ now sent =>
    have clear := (ok.sent.mp sent).2
    constructor <;> simp [deliverSet, clear]
  | read _ _ ids now mem inside unread => constructor <;> simp [readSet]

theorem Touch.later {ch : Change} {m n : Message} (h : Touch ch m n) (ok : m.Consistent) :
    Later m n := by
  cases h with
  | kept => exact Later.refl m
  | delivered _ now sent =>
    have clear := ok.sent.mp sent
    refine ⟨(Receipt.delivered m now sent).same, ?_, ?_, ?_⟩
    · simp [sent, MessageStatus.rank]
    · simp [clear.1]
    · simp [clear.2]
  | read _ _ ids now mem inside unread =>
    have unset : m.readAt = none := by
      by_contra set
      have read := ok.read
      by_cases delivered : m.deliveredAt = none
      · cases status : m.status with
        | sent => exact set (ok.sent.mp status).2
        | delivered => exact (ok.delivered.mp status).1 delivered
        | read => exact unread status
      · exact unread (read.mpr ⟨delivered, set⟩)
    refine ⟨(Receipt.read m now unread).same, ?_, ?_, ?_⟩
    · cases m.status <;> simp [readSet, MessageStatus.rank]
    · intro t ht
      simp [readSet, ht]
    · simp [unset]

/-- Rows are never deleted, and each row only gets later versions. -/
def Db.Progress (a b : Db) : Prop :=
  ∀ m ∈ a.messages, ∃ n ∈ b.messages, n.id = m.id ∧ Later m n

def Db.Consistent (db : Db) : Prop := ∀ m ∈ db.messages, m.Consistent

theorem Db.Progress.refl (db : Db) : db.Progress db := fun m h => ⟨m, h, rfl, Later.refl m⟩

theorem Db.Progress.trans {a b c : Db} (h : a.Progress b) (g : b.Progress c) : a.Progress c := by
  intro m hm
  obtain ⟨n, hn, mn, later⟩ := h m hm
  obtain ⟨k, hk, nk, then_⟩ := g n hn
  exact ⟨k, hk, nk.trans mn, later.trans then_⟩

section Ledger

variable {env : Env} {a : Db} {ch : Change}

theorem Change.consistent (sound : a.Sound) (valid : ch.Valid a) (ok : a.Consistent) :
    (ch.apply env a).Consistent := by
  intro n hn
  rcases Change.mem_messages.mp hn with ⟨m, hm, rfl⟩ | hn
  · exact (Change.touch sound.keys valid hm).consistent (ok m hm)
  · cases ch with
    | sent opened m =>
      obtain rfl := List.mem_singleton.mp hn
      obtain ⟨status, delivered, read⟩ := valid.status
      constructor <;> simp [status, delivered, read]
    | delivered u old now => cases hn
    | read c u ids now => cases hn

theorem Change.progress (sound : a.Sound) (valid : ch.Valid a) (ok : a.Consistent) :
    a.Progress (ch.apply env a) := by
  intro m hm
  have later := (Change.touch sound.keys valid hm).later (ok m hm)
  exact ⟨ch.update m, Change.mem_messages.mpr (.inl ⟨m, hm, rfl⟩), ch.update_id m, later⟩

end Ledger

section Service

variable {env : Env} {s t : Sys} {i : Input}

/-- Whose receipt a call is. -/
def Call.receiptBy : Call → Option UserId
  | .deliver u _ _ => some u
  | .read u _ _ _ => some u
  | _ => none

theorem Sys.Inv.consistent_step (inv : s.Inv env) (ok : s.db.Consistent) (h : s.step env i = some t) :
    t.db.Consistent := by
  have step := inv.step_change h
  cases change : s.change i with
  | none =>
    rw [change] at step
    rwa [step]
  | some ch =>
    rw [change] at step
    rw [step.2]
    exact Change.consistent inv.sound step.1 ok

theorem Sys.Inv.progress_step (inv : s.Inv env) (ok : s.db.Consistent) (h : s.step env i = some t) :
    s.db.Progress t.db := by
  have step := inv.step_change h
  cases change : s.change i with
  | none =>
    rw [change] at step
    rw [step]
    exact Db.Progress.refl _
  | some ch =>
    rw [change] at step
    rw [step.2]
    exact Change.progress inv.sound step.1 ok

theorem Call.change_receiptBy {k : Call} {own : List Write} {ch : Change} {m n : Message}
    (h : k.change own = some ch) (touch : Touch ch m n) (ne : n ≠ m) :
    k.receiptBy = some m.recipientId := by
  cases touch with
  | kept => exact absurd rfl ne
  | delivered _ now sent =>
    unfold Call.change at h
    split at h <;> cases h
    rfl
  | read _ _ ids now mem inside unread =>
    unfold Call.change at h
    split at h <;> cases h
    rfl

/-- Only a receipt of the recipient makes a new version of a row. -/
theorem Sys.Inv.recipient_step (inv : s.Inv env) (h : s.step env i = some t) {m n : Message}
    (hm : m ∈ s.db.messages) (hn : n ∈ t.db.messages) (id : n.id = m.id) (ne : n ≠ m) :
    (s.calls i.call).receiptBy = some m.recipientId := by
  have keys := (inv.step h).sound.keys
  have step := inv.step_change h
  cases change : s.change i with
  | none =>
    rw [change] at step
    rw [step] at hn
    exact absurd (inv.sound.keys.message_unique hn hm id) ne
  | some ch =>
    rw [change] at step
    obtain ⟨valid, eq⟩ := step
    have mem : ch.update m ∈ t.db.messages := by
      rw [eq]
      exact Change.mem_messages.mpr (.inl ⟨m, hm, rfl⟩)
    obtain rfl := keys.message_unique hn mem (by rw [id, Change.update_id])
    have touch := Change.touch inv.sound.keys valid hm
    unfold Sys.change at change
    split at change
    · exact Call.change_receiptBy change touch ne
    · cases change

theorem chat_consistent (env : Env) (is : List Input) :
    ((chat env).run is).Inv env ∧ ((chat env).run is).db.Consistent :=
  (chat env).run_invariant (fun s => s.Inv env ∧ s.db.Consistent)
    ⟨Sys.Inv.init env, by simp [Db.Consistent, chat, Sys.init, Db.empty]⟩
    (fun _ _ _ h step => ⟨h.1.step step, h.1.consistent_step h.2 step⟩) is

theorem chat_progress (env : Env) (is js : List Input) :
    ((chat env).run is).db.Progress ((chat env).run (is ++ js)).db := by
  rw [Machine.run, Machine.run, Machine.exec_append]
  exact (chat env).exec_relation (fun s => s.Inv env ∧ s.db.Consistent)
    (fun s t => s.db.Progress t.db) (fun s => Db.Progress.refl s.db) (fun _ _ _ h g => h.trans g)
    (fun _ _ _ h step => ⟨h.1.step step, h.1.consistent_step h.2 step⟩)
    (fun _ _ _ h step => h.1.progress_step h.2 step) _ (chat_consistent env is) js

end Service

/-- In every reachable state the status says which times are set; along every run no row is lost
or goes back; and a row changes only in a commit of its recipient's receipt. -/
theorem delivery_state_machine (env : Env) (is : List Input) :
    (∀ m ∈ ((chat env).run is).db.messages, m.Consistent) ∧
    (∀ js, ∀ m ∈ ((chat env).run is).db.messages,
      ∃ n ∈ ((chat env).run (is ++ js)).db.messages, n.id = m.id ∧ Later m n) ∧
    (∀ js, ∀ m ∈ ((chat env).run is).db.messages, ∀ n ∈ ((chat env).run (is ++ js)).db.messages,
      n.id = m.id → Later m n) ∧
    (∀ x ∈ (chat env).history is, ∀ m ∈ x.before.db.messages, ∀ n ∈ x.after.db.messages,
      n.id = m.id → n ≠ m → (x.before.calls x.action.call).receiptBy = some m.recipientId) := by
  refine ⟨(chat_consistent env is).2, chat_progress env is, ?_, ?_⟩
  · intro js m hm n hn id
    obtain ⟨k, hk, same, later⟩ := chat_progress env is js m hm
    have keys := (chat_inv env (is ++ js)).sound.keys
    obtain rfl := keys.message_unique hn hk (id.trans same.symm)
    exact later
  · intro x hx m hm n hn id ne
    obtain ⟨bs, -, before, step⟩ := (chat env).mem_history hx
    have inv : x.before.Inv env := before ▸ chat_inv env bs
    exact inv.recipient_step step hm hn id ne

end ChatBackend

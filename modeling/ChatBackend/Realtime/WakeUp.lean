import ChatBackend.Realtime.RelayRun

/-! No wake-up of the relay gets lost. While the flag is down, the rows that were told of had been
committed when the SELECT looked; it takes what it does not skip, and it stops short of a full batch
only when nothing is left. -/

namespace ChatBackend

open Lib

/-! What a step of a relay does to the rows that wait. -/

namespace Relays

variable {batchSize retention : Nat} {s t : Relays} {r : RelayId} {i : RelayInput}

/-- A row that waits goes on waiting until a batch marks it. -/
theorem Waits.step {id : Nat} (waits : s.Waits id) (inv : s.Inv)
    (step : Steps batchSize retention s i t) : t.Waits id ∨ id ∈ s.marks i := by
  obtain ⟨x, hx, same, none⟩ := waits
  cases step with
  | inserted rows distinct new => exact .inl ⟨x, List.mem_append_left _ hx, same, none⟩
  | committed r now rows pc =>
    by_cases mine : x.id ∈ rows.map OutboxRow.id
    · right
      rw [marks, pc, ← same]
      exact mine
    · exact .inl ⟨x, List.mem_map.mpr ⟨x, hx, if_neg mine⟩, same, none⟩
  | swept r now victims pc =>
    have ok := inv.relayAt pc
    refine .inl ⟨x, List.mem_filter.mpr ⟨hx, decide_eq_true fun victim => ?_⟩, same, none⟩
    obtain ⟨y, hy, id, published⟩ := ok.victims x.id victim
    rw [inv.unique hy hx id] at published
    exact published none
  | began | sweeps | skipped | took | spared | doomed | empty | selected | published | raised
  | executed | marked | failed => exact .inl ⟨x, hx, same, none⟩

/-- No step makes a published row wait again. -/
theorem settled_step {id : Nat} (known : id ∈ s.committed.map Prod.fst) (settled : ¬ s.Waits id)
    (step : Steps batchSize retention s i t) : ¬ t.Waits id := by
  rintro ⟨x, hx, same, none⟩
  cases step with
  | inserted rows distinct new =>
    rcases List.mem_append.mp hx with old | fresh
    · exact settled ⟨x, old, same, none⟩
    · obtain ⟨o, ho, rfl⟩ := List.mem_map.mp fresh
      obtain rfl : o.1 = id := same
      exact new o ho known
  | committed r now rows pc =>
    obtain ⟨y, hy, rfl⟩ := List.mem_map.mp hx
    rw [markPublished_id] at same
    unfold markPublished at none
    split at none
    · cases none
    · exact settled ⟨y, hy, same, none⟩
  | swept r now victims pc => exact settled ⟨x, List.mem_of_mem_filter hx, same, none⟩
  | began | sweeps | skipped | took | spared | doomed | empty | selected | published | raised
  | executed | marked | failed => exact settled ⟨x, hx, same, none⟩

/-- A commit marks all that its batch holds. -/
theorem marks_settled {id : Nat} (inv : s.Inv) (step : Steps batchSize retention s i t)
    (mem : id ∈ s.marks i) : id ∈ s.committed.map Prod.fst ∧ ¬ t.Waits id := by
  cases step with
  | committed r now rows pc =>
    have ok := inv.relayAt pc
    rw [marks, pc] at mem
    obtain ⟨x, hx, rfl⟩ := List.mem_map.mp mem
    refine ⟨List.mem_map.mpr ⟨_, inv.rows x (ok.batch x hx).1, rfl⟩, ?_⟩
    rintro ⟨y, hy, same, none⟩
    obtain ⟨z, hz, rfl⟩ := List.mem_map.mp hy
    rw [markPublished_id] at same
    rw [markPublished, if_pos (same ▸ mem)] at none
    cases none
  | swept r now victims pc =>
    rw [marks, pc] at mem
    cases mem
  | inserted | began | sweeps | skipped | took | spared | doomed | empty | selected | published
  | raised | executed | marked | failed => cases mem

/-- What the SELECT skips as locked is in another batch, unless it is published. -/
theorem locked_waits {id : Nat} (inv : s.Inv) (locked : s.lockedByOther r id = true)
    (waits : s.Waits id) : s.lockedByBatch r id = true := by
  obtain ⟨l, hl, at_id⟩ := List.any_eq_true.mp locked
  simp only [ne_eq, Bool.and_eq_true, decide_eq_true_eq, beq_iff_eq] at at_id
  obtain ⟨other, rfl⟩ := at_id
  have held : l.2 ∈ (s.pcs l.1).held := by
    rw [← (inv.relays l.1).held]
    exact Pending.mem_own.mpr hl
  refine List.any_eq_true.mpr ⟨l, hl, ?_⟩
  rcases List.mem_append.mp held with batch | victim
  · simpa [other] using batch
  · obtain ⟨x, hx, same, none⟩ := waits
    obtain ⟨y, hy, id, published⟩ := (inv.relays l.1).victims l.2 victim
    rw [inv.unique hy hx (id.trans same.symm)] at published
    exact absurd none published

/-- The SELECT ends at its LIMIT or at the end of its snapshot. -/
theorem selected_full {now : Timestamp} {todo : List Nat} {rows : List OutboxRow}
    (pc : s.pcs r = .selecting now todo rows) (made : s.selected batchSize r = some t) :
    (todo = [] ∨ batchSize ≤ rows.length) ∧
      (rows = [] ∧ t = s.finish r s.outbox ∨
        rows ≠ [] ∧ t = s.goto r (.publishing now [] rows false)) := by
  unfold Relays.selected at made
  simp only [pc] at made
  split at made
  · rename_i ended
    refine ⟨ended, ?_⟩
    split at made
    · rename_i none
      cases made
      exact .inl ⟨none, rfl⟩
    · rename_i some
      cases made
      exact .inr ⟨some, rfl⟩
  · cases made

/-- A relay moves no other relay. -/
theorem pcs_step (step : Steps batchSize retention s i t) :
    ∀ q, some q ≠ i.relay? → t.pcs q = s.pcs q := by
  intro q other
  have ne : ∀ r, i.relay? = some r → q ≠ r := by
    rintro r mine rfl
    exact other mine.symm
  cases step with
  | inserted => rfl
  | began | sweeps | skipped | took | spared | doomed | empty | selected | published | raised
  | executed | marked | committed | swept | failed => exact Function.update_of_ne (ne _ rfl) _ _

end Relays

/-! Where the loop stands, and what it still owes to the rows that it saw. -/

@[simp] theorem Relays.goto_self (s : Relays) (r : RelayId) (pc : RelayPc) : (s.goto r pc).pcs r = pc := by
  simp only [Relays.goto, Function.update_self]

@[simp] theorem Relays.finish_self (s : Relays) (r : RelayId) (outbox : List OutboxRow) :
    (s.finish r outbox).pcs r = .idle := by
  simp only [Relays.finish, Function.update_self]

/-- The places of the loop at which nothing is owed. -/
def RelayRunPc.rests : RelayRunPc → Bool
  | .top | .publishing | .backoff | .stopped => true
  | _ => false

namespace Waking

variable {cfg : LoopConfig} {s t : Waking}

/-- All that the last SELECT saw is marked, passed or left to do. -/
def Covers (s : Waking) (left : List Nat) : Prop :=
  ∃ items, s.flag.seen = some items ∧ ∀ id ∈ items, id ∈ s.marked ∨ id ∈ s.passed ∨ id ∈ left

/-- A batch of `n` rows owes nothing if it is full: the loop then goes round again. -/
def Owes (cfg : LoopConfig) (s : Waking) (n : Nat) (left : List Nat) : Prop :=
  n < cfg.batchSize → s.Covers left

inductive Located (cfg : LoopConfig) (s : Waking) : RelayRunPc → RelayPc → Prop where
  | resting {pc : RelayRunPc} : pc.rests = true → Located cfg s pc .idle
  | selecting {now : Timestamp} {todo : List Nat} {rows : List OutboxRow} :
      s.Covers (todo ++ rows.map OutboxRow.id) → Located cfg s .publishing (.selecting now todo rows)
  | publishing {now : Timestamp} {done todo : List OutboxRow} {failed : Bool} :
      s.Owes cfg (done ++ todo).length ((done ++ todo).map OutboxRow.id) →
      Located cfg s .publishing (.publishing now done todo failed)
  | marking {now : Timestamp} {rows : List OutboxRow} :
      s.Owes cfg rows.length (rows.map OutboxRow.id) → Located cfg s .publishing (.marking now rows)
  | committing {now : Timestamp} {rows : List OutboxRow} :
      s.Owes cfg rows.length (rows.map OutboxRow.id) → Located cfg s .publishing (.committing now rows)
  | returned {n : Nat} : s.Owes cfg n [] → Located cfg s (.returned n) .idle
  | counting {n now : Nat} : s.Owes cfg n [] → Located cfg s (.counting n now) .idle
  | sweeps {n now : Nat} : s.Owes cfg n [] → Located cfg s (.sweeping n now) .idle
  | sweeping {n now : Nat} {time : Timestamp} {todo victims : List Nat} : s.Owes cfg n [] →
      Located cfg s (.sweeping n now) (.sweeping time todo victims)
  | parked : s.Covers [] → Located cfg s .parked .idle

theorem Covers.next {left rest : List Nat} (covers : s.Covers left) (seen : t.flag.seen = s.flag.seen)
    (kept : ∀ items ∈ s.flag.seen, ∀ id ∈ items, id ∈ s.marked ∨ id ∈ s.passed ∨ id ∈ left →
      id ∈ t.marked ∨ id ∈ t.passed ∨ id ∈ rest) : t.Covers rest := by
  obtain ⟨items, looked, all⟩ := covers
  exact ⟨items, seen.trans looked, fun id hid => kept items looked id hid (all id hid)⟩

/-- The rows that were marked or passed stay so. -/
structure Keeps (s t : Waking) : Prop where
  seen : t.flag.seen = s.flag.seen
  marked : ∀ id ∈ s.marked, id ∈ t.marked
  passed : ∀ id ∈ s.passed, id ∈ t.passed

theorem Covers.keep {left : List Nat} (covers : s.Covers left) (keeps : Keeps s t) : t.Covers left :=
  covers.next keeps.seen fun _ _ id _ h => h.imp (keeps.marked id) (Or.imp_left (keeps.passed id))

theorem Owes.keep {n : Nat} {left : List Nat} (owes : s.Owes cfg n left) (keeps : Keeps s t) :
    t.Owes cfg n left :=
  fun short => (owes short).keep keeps

theorem Located.keep {l : RelayRunPc} {pc : RelayPc} (here : Located cfg s l pc) (keeps : Keeps s t) :
    Located cfg t l pc := by
  cases here with
  | resting calm => exact .resting calm
  | selecting covers => exact .selecting (covers.keep keeps)
  | publishing owes => exact .publishing (owes.keep keeps)
  | marking owes => exact .marking (owes.keep keeps)
  | committing owes => exact .committing (owes.keep keeps)
  | returned owes => exact .returned (owes.keep keeps)
  | counting owes => exact .counting (owes.keep keeps)
  | sweeps owes => exact .sweeps (owes.keep keeps)
  | sweeping owes => exact .sweeping (owes.keep keeps)
  | parked covers => exact .parked (covers.keep keeps)

theorem Located.same {l : RelayRunPc} {pc : RelayPc} (here : Located cfg s l pc)
    (seen : t.flag.seen = s.flag.seen) (marked : t.marked = s.marked) (passed : t.passed = s.passed) :
    Located cfg t l pc :=
  here.keep ⟨seen, fun _ h => marked ▸ h, fun _ h => passed ▸ h⟩

section Cycle

variable {n now : Nat} {l : RelayRun}

/-- The loop waits only after a batch that was not full. -/
theorem Located.finish (owes : s.Owes cfg n []) : Located cfg s (l.finish cfg n).pc .idle := by
  unfold RelayRun.finish
  split
  · exact .resting rfl
  · rename_i short
    exact .parked (owes (Nat.lt_of_not_le short))

theorem Located.checkSweep (owes : s.Owes cfg n []) :
    Located cfg s (l.checkSweep cfg n now).pc .idle := by
  unfold RelayRun.checkSweep
  split
  · exact .sweeps owes
  · exact .finish owes

theorem Located.checkBacklog (owes : s.Owes cfg n []) :
    Located cfg s (l.checkBacklog cfg n now).pc .idle := by
  unfold RelayRun.checkBacklog
  split
  · exact .counting owes
  · exact .checkSweep owes

end Cycle

structure Inv (cfg : LoopConfig) (s : Waking) : Prop where
  relays : s.relays.Inv
  flag : s.flag.Ok
  awaiting : ∀ ids ∈ s.awaiting, ∀ id ∈ ids, id ∈ s.flag.posted
  rows : ∀ id ∈ s.flag.posted, id ∈ s.marked ∨ s.relays.Waits id
  settled : ∀ id ∈ s.marked, id ∈ s.relays.committed.map Prod.fst ∧ ¬ s.relays.Waits id
  here : Located cfg s s.run.pc (s.relays.pcs cfg.me)

theorem Inv.init (cfg : LoopConfig) : (Waking.init cfg).Inv cfg where
  relays := Relays.Inv.init
  flag := .init
  awaiting _ h := nomatch h
  rows _ h := nomatch h
  settled _ h := nomatch h
  here := .resting rfl

/-! A step of `publish_batch`. -/

section Own

variable {i : RelayInput} {relays : Relays} {run : RelayRun}

theorem Inv.hereAt (inv : s.Inv cfg) {l : RelayRunPc} {pc : RelayPc} (at_loop : s.run.pc = l)
    (at_relay : s.relays.pcs cfg.me = pc) : Located cfg s l pc := by
  rw [← at_loop, ← at_relay]
  exact inv.here

theorem keeps_acted (fresh : ∀ now, i ≠ .publishBatch cfg.me now) : Keeps s (s.acted cfg i relays run) := by
  have kept : (s.looks cfg i = s.flag) ∧ ∀ id ∈ s.passed, id ∈ s.passes cfg i := by
    cases i with
    | publishBatch r now =>
      have other : r ≠ cfg.me := by
        rintro rfl
        exact fresh now rfl
      refine ⟨if_neg other, fun id mem => ?_⟩
      rw [passes, if_neg other]
      exact mem
    | visit r =>
      refine ⟨rfl, fun id mem => ?_⟩
      simp only [passes]
      split
      · split
        · exact List.mem_append_left _ mem
        · exact mem
      · exact mem
    | insert | sweep | selected | publish | executed | mark | commit | fail =>
      exact ⟨rfl, fun id mem => mem⟩
  exact ⟨congrArg EventFlag.seen kept.1, fun id mem => List.mem_append_left _ mem, kept.2⟩

/-- The SELECT begins: whatever was committed is marked or in its snapshot. -/
theorem Inv.began (inv : s.Inv cfg) (now : Timestamp) :
    (s.acted cfg (.publishBatch cfg.me now) relays run).Covers s.relays.unpublished := by
  refine ⟨s.flag.posted, by simp [acted, looks, EventFlag.look], fun id posted => ?_⟩
  rcases inv.rows id posted with marked | waits
  · exact .inl (List.mem_append_left _ marked)
  · exact .inr (.inr (Relays.mem_unpublished.mpr waits))

/-- The SELECT comes to a row that it skips or takes. -/
theorem Inv.visited (inv : s.Inv cfg) {now : Timestamp} {id : Nat} {todo : List Nat}
    {rows : List OutboxRow} (pc : s.relays.pcs cfg.me = .selecting now (id :: todo) rows)
    (covers : s.Covers (id :: todo ++ rows.map OutboxRow.id))
    (made : s.relays.visit cfg.batchSize cfg.retention cfg.me = some relays) :
    Located cfg (s.acted cfg (.visit cfg.me) relays run) .publishing (relays.pcs cfg.me) := by
  have keeps : Keeps s (s.acted cfg (.visit cfg.me) relays run) :=
    keeps_acted nofun
  rcases Relays.visit_selecting inv.relays pc made with ⟨rfl, skipped⟩ | ⟨-, v, -, -, rfl, rfl⟩
  · rw [Relays.goto_self]
    refine .selecting (covers.next keeps.seen fun items seen a ha done => ?_)
    rcases done with marked | passed | left
    · exact .inl (keeps.marked a marked)
    · exact .inr (.inl (keeps.passed a passed))
    · rcases List.mem_cons.mp left with rfl | left
      · -- the row itself: marked, or in the batch of another
        rcases inv.rows a (inv.flag.past items seen a ha) with marked | waits
        · exact .inl (keeps.marked a marked)
        · rcases skipped with locked | ⟨-, settled⟩
          · have batch := Relays.locked_waits inv.relays locked waits
            refine .inr (.inl ?_)
            show a ∈ s.passes cfg (.visit cfg.me)
            simp only [passes, pc, batch, and_self, if_true]
            exact List.mem_append_right _ (List.mem_singleton_self a)
          · exact absurd waits settled
      · exact .inr (.inr left)
  · rw [show Relays.pcs _ cfg.me = _ from Relays.goto_self _ _ _]
    refine .selecting (covers.next keeps.seen fun items seen a ha done => ?_)
    rcases done with marked | passed | left
    · exact .inl (keeps.marked a marked)
    · exact .inr (.inl (keeps.passed a passed))
    · refine .inr (.inr ?_)
      simp only [List.cons_append, List.mem_cons, List.mem_append, List.map_append, List.map_cons,
        List.map_nil, List.not_mem_nil, or_false] at left ⊢
      tauto

/-- The SELECT returns: if it stopped below its LIMIT, nothing of its snapshot is left. -/
theorem Inv.returned (inv : s.Inv cfg) {now : Timestamp} {todo : List Nat} {rows : List OutboxRow}
    (at_loop : s.run.pc = .publishing) (pc : s.relays.pcs cfg.me = .selecting now todo rows)
    (made : s.relays.selected cfg.batchSize cfg.me = some relays)
    (ran : s.run.inBatch (.selecting now todo rows) (relays.pcs cfg.me) (.selected cfg.me) = some run) :
    Located cfg (s.acted cfg (.selected cfg.me) relays run) run.pc (relays.pcs cfg.me) := by
  have keeps : Keeps s (s.acted cfg (.selected cfg.me) relays run) := keeps_acted nofun
  have here := inv.hereAt at_loop pc
  cases here with
  | selecting covers =>
    obtain ⟨ended, ⟨rfl, rfl⟩ | ⟨some, rfl⟩⟩ := Relays.selected_full pc made
    · rw [Relays.finish_self] at ran ⊢
      cases ran
      refine .returned fun short => ?_
      have empty := ended.resolve_right (Nat.not_le_of_lt short)
      rw [empty] at covers
      exact covers.keep keeps
    · rw [Relays.goto_self] at ran ⊢
      cases ran
      rw [at_loop]
      refine .publishing fun short => ?_
      have empty := ended.resolve_right (Nat.not_le_of_lt short)
      rw [empty] at covers
      exact covers.keep keeps

/-- The batch commits: what it held is marked. -/
theorem Inv.marked (inv : s.Inv cfg) {now : Timestamp} {rows : List OutboxRow}
    (at_loop : s.run.pc = .publishing) (pc : s.relays.pcs cfg.me = .committing now rows) :
    (s.acted cfg (.commit cfg.me) relays run).Owes cfg rows.length [] := by
  cases inv.hereAt at_loop pc with
  | committing owes =>
    refine fun short => (owes short).next rfl fun items seen id hid done => ?_
    rcases done with marked | passed | batch
    · exact .inl (List.mem_append_left _ marked)
    · exact .inr (.inl passed)
    · refine .inl (List.mem_append_right _ ?_)
      rw [Relays.marks, pc]
      exact batch

/-- A step of `publish_batch`. -/
theorem Inv.inBatch (inv : s.Inv cfg) (mine : i.relay? = some cfg.me)
    (made : s.relays.step cfg.batchSize cfg.retention i = some relays)
    (at_loop : s.run.pc = .publishing)
    (ran : s.run.inBatch (s.relays.pcs cfg.me) (relays.pcs cfg.me) i = some run) :
    Located cfg (s.acted cfg i relays run) run.pc (relays.pcs cfg.me) := by
  have keeps : (∀ now, i ≠ .publishBatch cfg.me now) → Keeps s (s.acted cfg i relays run) := keeps_acted
  cases i with
  | insert rows => cases mine
  | sweep r now => cases ran
  | publishBatch r now =>
    cases mine
    cases Relays.step_cases made with
    | began _ _ pc =>
      cases ran
      rw [Relays.goto_self, at_loop]
      exact .selecting (by simpa using inv.began now)
  | visit r =>
    cases mine
    cases ran
    rw [at_loop]
    cases Relays.step_cases made with
    | skipped _ now id todo rows pc =>
      cases inv.hereAt at_loop pc with
      | selecting covers => exact inv.visited pc covers made
    | took _ now id todo rows x pc =>
      cases inv.hereAt at_loop pc with
      | selecting covers => exact inv.visited pc covers made
    | spared _ now id todo victims pc => cases inv.hereAt at_loop pc
    | doomed _ now id todo victims x pc => cases inv.hereAt at_loop pc
  | selected r =>
    cases mine
    cases Relays.step_cases made with
    | empty _ now todo pc =>
      rw [pc] at ran
      exact inv.returned at_loop pc made ran
    | selected _ now todo rows pc =>
      rw [pc] at ran
      exact inv.returned at_loop pc made ran
  | publish r accepted =>
    cases mine
    cases Relays.step_cases made with
    | published _ now done todo x failed _ pc =>
      cases ran
      rw [show Relays.pcs _ cfg.me = _ from Relays.goto_self _ _ _, at_loop]
      cases inv.hereAt at_loop pc with
      | publishing owes =>
        rw [List.append_cons] at owes
        exact .publishing (owes.keep (keeps nofun))
  | executed r =>
    cases mine
    cases Relays.step_cases made with
    | raised _ now done pc =>
      rw [Relays.finish_self] at ran ⊢
      cases ran
      exact .resting rfl
    | executed _ now done pc =>
      rw [Relays.goto_self] at ran ⊢
      cases ran
      rw [at_loop]
      cases inv.hereAt at_loop pc with
      | publishing owes =>
        rw [List.append_nil] at owes
        exact .marking (owes.keep (keeps nofun))
  | mark r =>
    cases mine
    cases Relays.step_cases made with
    | marked _ now rows pc =>
      cases ran
      rw [Relays.goto_self, at_loop]
      cases inv.hereAt at_loop pc with
      | marking owes => exact .committing (owes.keep (keeps nofun))
  | commit r =>
    cases mine
    cases Relays.step_cases made with
    | committed _ now rows pc =>
      cases ran
      rw [Relays.finish_self, pc]
      exact .returned (inv.marked at_loop pc)
    | swept _ now victims pc => cases inv.hereAt at_loop pc
  | fail r =>
    cases mine
    cases Relays.step_cases made with
    | failed =>
      cases ran
      rw [Relays.finish_self]
      exact .resting rfl

/-- A step of `_sweep`. -/
theorem Inv.inSweep (inv : s.Inv cfg) {n now : Nat} (mine : i.relay? = some cfg.me)
    (made : s.relays.step cfg.batchSize cfg.retention i = some relays)
    (at_loop : s.run.pc = .sweeping n now) (ran : s.run.inSweep cfg n now i = some run) :
    Located cfg (s.acted cfg i relays run) run.pc (relays.pcs cfg.me) := by
  have owes : s.Owes cfg n [] := by
    have here := inv.here
    rw [at_loop] at here
    generalize s.relays.pcs cfg.me = pc at here
    cases here with
    | resting calm => cases calm
    | sweeps owes => exact owes
    | sweeping owes => exact owes
  have kept : (∀ now, i ≠ .publishBatch cfg.me now) → (s.acted cfg i relays run).Owes cfg n [] :=
    fun fresh => owes.keep (keeps_acted fresh)
  cases i with
  | sweep r time =>
    cases mine
    cases Relays.step_cases made with
    | sweeps _ _ pc =>
      cases ran
      rw [Relays.goto_self, at_loop]
      exact .sweeping (kept nofun)
  | visit r =>
    cases mine
    cases ran
    rw [at_loop]
    cases Relays.step_cases made with
    | skipped _ now id todo rows pc => cases inv.hereAt at_loop pc
    | took _ now id todo rows x pc => cases inv.hereAt at_loop pc
    | spared _ now id todo victims pc =>
      rw [Relays.goto_self]
      exact .sweeping (kept nofun)
    | doomed _ now id todo victims x pc =>
      rw [show Relays.pcs _ cfg.me = _ from Relays.goto_self _ _ _]
      exact .sweeping (kept nofun)
  | commit r =>
    cases mine
    cases Relays.step_cases made with
    | committed _ now rows pc => cases inv.hereAt at_loop pc
    | swept _ now victims pc =>
      cases ran
      rw [Relays.finish_self]
      exact .finish (kept nofun)
  | fail r =>
    cases mine
    cases Relays.step_cases made with
    | failed =>
      cases ran
      rw [Relays.finish_self]
      exact .resting rfl
  | insert | publishBatch | selected | publish | executed | mark => cases ran

/-- The relay of this loop moves. -/
theorem Inv.own (inv : s.Inv cfg) (mine : i.relay? = some cfg.me)
    (made : s.relays.step cfg.batchSize cfg.retention i = some relays)
    (ran : s.run.own cfg (s.relays.pcs cfg.me) (relays.pcs cfg.me) i = some run) :
    Located cfg (s.acted cfg i relays run) run.pc (relays.pcs cfg.me) := by
  unfold RelayRun.own at ran
  split at ran
  · rename_i at_loop
    exact inv.inBatch mine made at_loop ran
  · rename_i n now at_loop
    exact inv.inSweep mine made at_loop ran
  · cases ran

end Own

/-! Every step of the system. -/

theorem relay_cases {i : RelayInput} (step : s.relay cfg i = some t) :
    ∃ r relays run, i.relay? = some r ∧ s.relays.step cfg.batchSize cfg.retention i = some relays ∧
      s.ran cfg r relays i = some run ∧ t = s.acted cfg i relays run := by
  simp only [relay, Option.bind_eq_bind, Option.bind_eq_some_iff] at step
  obtain ⟨r, mover, relays, made, run, ran, eq⟩ := step
  cases eq
  exact ⟨r, relays, run, mover, made, ran, rfl⟩

theorem looks_ok (cfg : LoopConfig) (ok : s.flag.Ok) (i : RelayInput) :
    (s.looks cfg i).Ok ∧ (s.looks cfg i).posted = s.flag.posted := by
  unfold looks
  split
  · split
    · exact ⟨ok.look, rfl⟩
    · exact ⟨ok, rfl⟩
  · exact ⟨ok, rfl⟩

theorem Inv.relay {i : RelayInput} (inv : s.Inv cfg) (step : s.relay cfg i = some t) : t.Inv cfg := by
  obtain ⟨r, relays, run, mover, made, ran, rfl⟩ := relay_cases step
  have steps := Relays.step_cases made
  obtain ⟨flag, posted⟩ := looks_ok cfg inv.flag i
  refine ⟨inv.relays.step steps, flag, ?_, ?_, fun id mem => ?_, ?_⟩
  · show ∀ ids ∈ s.awaiting, ∀ id ∈ ids, id ∈ (s.looks cfg i).posted
    rw [posted]
    exact inv.awaiting
  · show ∀ id ∈ (s.looks cfg i).posted, id ∈ s.marked ++ s.relays.marks i ∨ relays.Waits id
    rw [posted]
    intro id mem
    rcases inv.rows id mem with marked | waits
    · exact .inl (List.mem_append_left _ marked)
    · rcases waits.step inv.relays steps with waits | marks
      · exact .inr waits
      · exact .inl (List.mem_append_right _ marks)
  · have more : ∀ {id}, id ∈ s.relays.committed.map Prod.fst → id ∈ relays.committed.map Prod.fst :=
      fun known => List.map_subset _ (Relays.committed_step steps) known
    rcases List.mem_append.mp mem with old | new
    · obtain ⟨known, settled⟩ := inv.settled id old
      exact ⟨more known, Relays.settled_step known settled steps⟩
    · obtain ⟨known, settled⟩ := Relays.marks_settled inv.relays steps new
      exact ⟨more known, settled⟩
  · unfold Waking.ran at ran
    split at ran
    · rename_i mine
      subst mine
      exact inv.own mover made ran
    · rename_i other
      cases ran
      have still := Relays.pcs_step steps cfg.me (by simpa [mover] using Ne.symm other)
      show Located cfg _ s.run.pc (relays.pcs cfg.me)
      rw [still]
      refine inv.here.keep (keeps_acted fun now eq => other ?_)
      rw [eq] at mover
      exact (Option.some.inj mover).symm

/-- Rows are committed, here or elsewhere. -/
theorem Inv.posted (inv : s.Inv cfg) {rows : List (Nat × Outbox)} {relays : Relays}
    {awaiting : List (List Nat)} (made : s.relays.insert rows = some relays)
    (known : ∀ ids ∈ awaiting, ids ∈ s.awaiting ∨ ids = Waking.ids rows) :
    Inv cfg { s with relays := relays, flag := s.flag.post (ids rows), awaiting := awaiting } := by
  have step : s.relays.step cfg.batchSize cfg.retention (.insert rows) = some relays := made
  have steps := Relays.step_cases step
  refine ⟨inv.relays.step steps, inv.flag.post _, fun new mem id hid => ?_, fun id mem => ?_,
    fun id mem => ?_, ?_⟩
  · rcases known new mem with old | rfl
    · exact List.mem_append_left _ (inv.awaiting new old id hid)
    · exact List.mem_append_right _ hid
  · rcases List.mem_append.mp mem with old | new
    · exact (inv.rows id old).imp_right fun waits =>
        (waits.step inv.relays steps).resolve_right List.not_mem_nil
    · obtain ⟨o, ho, rfl⟩ := List.mem_map.mp new
      cases steps with
      | inserted =>
        exact .inr ⟨_, List.mem_append_right _ (List.mem_map.mpr ⟨o, ho, rfl⟩), rfl, rfl⟩
  · obtain ⟨old, settled⟩ := inv.settled id mem
    exact ⟨List.map_subset _ (Relays.committed_step steps) old, Relays.settled_step old settled steps⟩
  · show Located cfg _ s.run.pc (relays.pcs cfg.me)
    rw [Relays.pcs_step steps cfg.me nofun]
    exact inv.here.same rfl rfl rfl

/-- The loop moves and its relay does not. -/
theorem Inv.moved (inv : s.Inv cfg) {run : RelayRun}
    (here : Located cfg s run.pc (s.relays.pcs cfg.me)) : Inv cfg { s with run := run } :=
  ⟨inv.relays, inv.flag, inv.awaiting, inv.rows, inv.settled, here.same rfl rfl rfl⟩

/-- Outside its transactions the relay is idle. -/
theorem Located.idle {l : RelayRunPc} {pc : RelayPc} (here : Located cfg s l pc)
    (publishing : l ≠ .publishing) (sweeping : ∀ n now, l ≠ .sweeping n now) : pc = .idle := by
  cases here with
  | resting | returned | counting | sweeps | parked => rfl
  | selecting | publishing | marking | committing => exact absurd rfl publishing
  | sweeping => exact absurd rfl (sweeping _ _)

theorem Inv.idleAt (inv : s.Inv cfg) {l : RelayRunPc} (at_loop : s.run.pc = l)
    (publishing : l ≠ .publishing) (sweeping : ∀ n now, l ≠ .sweeping n now) :
    s.relays.pcs cfg.me = .idle := by
  subst at_loop
  exact inv.here.idle publishing sweeping

/-- The loop goes where it owes nothing. -/
theorem Inv.rest (inv : s.Inv cfg) {run : RelayRun} (pc : s.relays.pcs cfg.me = .idle)
    (calm : run.pc.rests = true) : Inv cfg { s with run := run } := by
  refine inv.moved ?_
  rw [pc]
  exact .resting calm

theorem Inv.cleared (inv : s.Inv cfg) (at_loop : s.run.pc = .top) :
    Inv cfg { s with flag := s.flag.clear, run := s.run.goto .publishing } := by
  refine ⟨inv.relays, inv.flag.clear, inv.awaiting, inv.rows, inv.settled, ?_⟩
  show Located cfg _ .publishing (s.relays.pcs cfg.me)
  rw [inv.idleAt at_loop nofun nofun]
  exact .resting rfl

theorem Inv.resumed (inv : s.Inv cfg) {n : Nat} (at_loop : s.run.pc = .returned n) (now : Nat) :
    Inv cfg { s with run := s.run.checkBacklog cfg n now } := by
  have pc := inv.idleAt at_loop nofun nofun
  refine inv.moved ?_
  rw [pc]
  cases inv.hereAt at_loop pc with
  | resting calm => cases calm
  | returned owes => exact .checkBacklog owes

theorem Inv.counted (inv : s.Inv cfg) {n now : Nat} (at_loop : s.run.pc = .counting n now)
    (run : RelayRun) : Inv cfg { s with run := run.checkSweep cfg n now } := by
  have pc := inv.idleAt at_loop nofun nofun
  refine inv.moved ?_
  rw [pc]
  cases inv.hereAt at_loop pc with
  | resting calm => cases calm
  | counting owes => exact .checkSweep owes

/-- Whether or not the loop hears of it, a commit ends the transaction. -/
theorem Inv.lost (inv : s.Inv cfg) (made : s.relay cfg (.commit cfg.me) = some t) :
    Inv cfg { t with run := s.run.raise } := by
  have next := inv.relay made
  obtain ⟨r, relays, run, -, committed, -, rfl⟩ := relay_cases made
  have ended : relays.pcs cfg.me = .idle := by
    cases Relays.step_cases committed with
    | committed | swept => exact Relays.finish_self _ _ _
  exact next.rest ended rfl

theorem Inv.step {i : WakingInput} (inv : s.Inv cfg) (step : s.step cfg i = some t) : t.Inv cfg := by
  cases i with
  | commit rows =>
    obtain ⟨relays, made, rfl⟩ := Option.map_eq_some_iff.mp step
    refine inv.posted made fun new mem => ?_
    exact (List.mem_append.mp mem).imp_right List.mem_singleton.mp
  | notify ids =>
    obtain ⟨mem, eq⟩ := Option.ite_none_right_eq_some.mp step
    cases eq
    refine ⟨inv.relays, inv.flag.announce (inv.awaiting ids mem), fun a ha => ?_, inv.rows, inv.settled, ?_⟩
    · exact inv.awaiting a (List.mem_of_mem_erase ha)
    · exact inv.here.same rfl rfl rfl
  | elsewhere rows =>
    obtain ⟨relays, made, rfl⟩ := Option.map_eq_some_iff.mp step
    exact inv.posted made fun _ mem => .inl mem
  | relay i => exact inv.relay step
  | clear =>
    simp only [Waking.step] at step
    split at step
    · rename_i at_loop
      cases step
      exact inv.cleared at_loop
    · cases step
  | resume now =>
    simp only [Waking.step] at step
    split at step
    · rename_i n at_loop
      cases step
      exact inv.resumed at_loop now
    · cases step
  | counted =>
    simp only [Waking.step] at step
    split at step
    · rename_i n now at_loop
      cases step
      exact inv.counted at_loop _
    · cases step
  | raise =>
    simp only [Waking.step] at step
    split at step
    · rename_i pc
      cases step
      exact inv.rest pc rfl
    · rename_i pc
      cases step
      exact inv.rest pc rfl
    · rename_i pc
      cases step
      exact inv.rest pc rfl
    · cases step
  | lost =>
    obtain ⟨u, made, rfl⟩ := Option.map_eq_some_iff.mp step
    exact inv.lost made
  | slept =>
    simp only [Waking.step] at step
    split at step
    · rename_i at_loop
      cases step
      exact inv.rest (inv.idleAt at_loop nofun nofun) rfl
    · cases step
  | woken =>
    simp only [Waking.step] at step
    split at step
    · rename_i at_loop
      obtain ⟨-, eq⟩ := Option.ite_none_right_eq_some.mp step
      cases eq
      exact inv.rest (inv.idleAt at_loop nofun nofun) rfl
    · cases step
  | timeout =>
    simp only [Waking.step] at step
    split at step
    · rename_i at_loop
      cases step
      exact inv.rest (inv.idleAt at_loop nofun nofun) rfl
    · cases step
  | cancel =>
    cases step
    refine ⟨inv.relays.abort cfg.me, inv.flag, inv.awaiting, inv.rows, inv.settled, ?_⟩
    show Located cfg _ .stopped ((s.relays.finish cfg.me s.relays.outbox).pcs cfg.me)
    rw [Relays.finish_self]
    exact .resting rfl

theorem Inv.noneLost (inv : s.Inv cfg) : s.NoneLost := by
  intro at_loop down id told
  have here := inv.here
  rw [at_loop] at here
  generalize s.relays.pcs cfg.me = pc at here
  cases here with
  | resting calm => cases calm
  | parked covers =>
    obtain ⟨items, seen, all⟩ := covers
    rcases all id (inv.flag.seen down items seen id told) with marked | passed | left
    · exact .inl marked
    · exact .inr passed
    · cases left

end Waking

theorem waking_inv (cfg : LoopConfig) (is : List WakingInput) : ((waking cfg).run is).Inv cfg :=
  (waking cfg).run_invariant (Waking.Inv cfg) (Waking.Inv.init cfg) (fun _ _ _ inv step => inv.step step) is

/-- A marked row is never published again: if it is still in the outbox, it is there as published. -/
theorem marked_is_published (cfg : LoopConfig) (is : List WakingInput) {id : Nat}
    (mem : id ∈ ((waking cfg).run is).marked) : ∀ x ∈ ((waking cfg).run is).relays.outbox, x.id = id →
      x.publishedAt ≠ none := by
  intro x hx same unpublished
  exact ((waking_inv cfg is).settled id mem).2 ⟨x, hx, same, unpublished⟩

theorem no_lost_wake_up (cfg : LoopConfig) (is : List WakingInput) : ((waking cfg).run is).NoneLost :=
  (waking_inv cfg is).noneLost

/-- A row is committed and told of after the SELECT of a full batch of one row: the loop goes round
twice more before it waits. -/
example :
    let row : Outbox := ⟨userTopic "alice", .messageDelivered 1 2 "m1" 3⟩
    let batch : List WakingInput := [.relay (.publishBatch 0 0), .relay (.visit 0),
      .relay (.selected 0), .relay (.publish 0 true), .relay (.executed 0), .relay (.mark 0),
      .relay (.commit 0)]
    let first : List WakingInput := [.commit [(1, row)], .notify [1], .clear]
    let second : List WakingInput := [.commit [(2, row)], .notify [2], .resume 0, .counted,
      .relay (.sweep 0 0), .relay (.commit 0), .clear]
    let last : List WakingInput := [.resume 1, .clear, .relay (.publishBatch 0 0),
      .relay (.selected 0), .resume 2]
    let s := (waking ⟨0, 1, 3600000000, 500000⟩).run
      (List.flatten [first, batch, second, batch, last])
    s.run.pc = .parked ∧ s.flag.raised = false ∧ s.flag.announced = [1, 2] ∧ s.marked = [1, 2] := by
  decide +kernel

end ChatBackend

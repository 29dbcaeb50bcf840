import ChatBackend.Lib.Settling
import ChatBackend.Lib.Paging
import ChatBackend.Realtime.WakeUp

/-! The backlog is drained. Left to itself, with a link that holds, the loop of one relay hands every
row that waits to Redis, in the order of the ids and each once, and then waits for the flag. -/

namespace ChatBackend

open Lib

/-! The rows that wait, as a list. -/

namespace Relays

variable {s : Relays} {r : RelayId}

theorem unpublished_strict (inv : s.Inv) : s.unpublished.Pairwise (fun x y => x < y) := by
  have distinct : ((s.outbox.filter (fun x => x.publishedAt = none)).map OutboxRow.id).Nodup :=
    inv.keys.sublist (List.filter_sublist.map _)
  exact List.pairwise_map.mpr (byKey_strict distinct)

/-- The list is known by its members. -/
theorem unpublished_eq (inv : s.Inv) {ids : List Nat} (strict : ids.Pairwise (fun x y => x < y))
    (same : ∀ id, s.Waits id ↔ id ∈ ids) : s.unpublished = ids := by
  have rows : s.unpublished.Pairwise (fun x y => id x < id y) := unpublished_strict inv
  exact strict_ext rows strict fun id => mem_unpublished.trans (same id)

theorem unpublished_length : s.unpublished.length ≤ s.outbox.length := by
  rw [unpublished, List.length_map, byKey, List.length_insertionSort]
  exact List.length_filter_le _ _

/-- A commit of a batch takes its rows off the front. -/
theorem unpublished_committed {now : Timestamp} {rows : List OutboxRow} {rest : List Nat}
    (inv : s.Inv) (pc : s.pcs r = .committing now rows)
    (front : s.unpublished = rows.map OutboxRow.id ++ rest) :
    (s.finish r (s.outbox.map (markPublished now (rows.map OutboxRow.id)))).unpublished = rest := by
  have step : Steps 0 0 s (.commit r) _ := .committed r now rows pc
  have strict := unpublished_strict inv
  rw [front] at strict
  have apart := List.pairwise_append.mp strict
  refine unpublished_eq (inv.step step) apart.2.1 fun id => ?_
  constructor
  · intro waits
    have known : s.Waits id ∧ id ∉ rows.map OutboxRow.id := by
      obtain ⟨x, hx, same, none⟩ := waits
      obtain ⟨y, hy, rfl⟩ := List.mem_map.mp hx
      rw [markPublished_id] at same
      unfold markPublished at none
      split at none
      · cases none
      · rename_i away
        exact ⟨⟨y, hy, same, none⟩, same ▸ away⟩
    have mem := mem_unpublished.mpr known.1
    rw [front] at mem
    exact (List.mem_append.mp mem).resolve_left known.2
  · intro mem
    have waits : s.Waits id := mem_unpublished.mp (front ▸ List.mem_append_right _ mem)
    refine (waits.step inv step).resolve_right fun marked => ?_
    rw [marks, pc] at marked
    exact absurd (apart.2.2 id marked id mem) (lt_irrefl id)

/-- A sweep deletes none of them. -/
theorem unpublished_swept {now : Timestamp} {victims : List Nat} (inv : s.Inv)
    (pc : s.pcs r = .sweeping now [] victims) :
    (s.finish r (s.outbox.filter (fun x => x.id ∉ victims))).unpublished = s.unpublished := by
  have step : Steps 0 0 s (.commit r) _ := .swept r now victims pc
  refine unpublished_eq (inv.step step) (unpublished_strict inv) fun id => ?_
  rw [mem_unpublished]
  constructor
  · rintro ⟨x, hx, same, none⟩
    exact ⟨x, List.mem_of_mem_filter hx, same, none⟩
  · intro waits
    refine (waits.step inv step).resolve_right fun marked => ?_
    rw [marks, pc] at marked
    cases marked

/-- Where no other relay is at work, no other holds a lock. -/
theorem alone_free (inv : s.Inv) (alone : ∀ q ≠ r, s.pcs q = .idle) (id : Nat) :
    s.lockedByOther r id = false := by
  refine Bool.eq_false_iff.mpr fun locked => ?_
  obtain ⟨l, hl, at_id⟩ := List.any_eq_true.mp locked
  simp only [ne_eq, Bool.and_eq_true, decide_eq_true_eq, beq_iff_eq] at at_id
  have held : l.2 ∈ (s.pcs l.1).held := by
    rw [← (inv.relays l.1).held]
    exact Pending.mem_own.mpr hl
  rw [alone l.1 at_id.1] at held
  cases held

end Relays

/-! The loop on its own. -/

/-- What the loop itself does when nothing fails, and Redis takes every command. -/
def WakingInput.isSmooth (me : RelayId) : WakingInput → Bool
  | .clear | .resume _ | .counted => true
  | .relay (.fail _) => false
  | .relay (.publish r accepted) => r == me && accepted
  | .relay i => i.relay? == some me
  | _ => false

namespace Waking

variable {cfg : LoopConfig} {s t : Waking}

/-- A batch is full, or leaves nothing that waits. -/
def Takes (cfg : LoopConfig) (waiting : List Nat) (rows : List OutboxRow) : Prop :=
  rows ≠ [] ∧ ∃ rest, waiting = rows.map OutboxRow.id ++ rest ∧
    (cfg.batchSize ≤ rows.length ∨ rest = [])

/-- Where the loop and its relay stand in a cycle, and the rows that wait. -/
inductive Stage (cfg : LoopConfig) (waiting : List Nat) : RelayRunPc → RelayPc → Prop where
  | top : Stage cfg waiting .top .idle
  | begins : Stage cfg waiting .publishing .idle
  | selecting (now : Timestamp) (todo : List Nat) (rows : List OutboxRow) :
      waiting = rows.map OutboxRow.id ++ todo →
      Stage cfg waiting .publishing (.selecting now todo rows)
  | publishing (now : Timestamp) (done todo : List OutboxRow) : Takes cfg waiting (done ++ todo) →
      Stage cfg waiting .publishing (.publishing now done todo false)
  | marking (now : Timestamp) (rows : List OutboxRow) : Takes cfg waiting rows →
      Stage cfg waiting .publishing (.marking now rows)
  | committing (now : Timestamp) (rows : List OutboxRow) : Takes cfg waiting rows →
      Stage cfg waiting .publishing (.committing now rows)
  | returned (n : Nat) : cfg.batchSize ≤ n ∨ waiting = [] → Stage cfg waiting (.returned n) .idle
  | counting (n now : Nat) : cfg.batchSize ≤ n ∨ waiting = [] →
      Stage cfg waiting (.counting n now) .idle
  | sweeps (n now : Nat) : cfg.batchSize ≤ n ∨ waiting = [] →
      Stage cfg waiting (.sweeping n now) .idle
  | sweeping (n now : Nat) (time : Timestamp) (todo victims : List Nat) :
      cfg.batchSize ≤ n ∨ waiting = [] →
      Stage cfg waiting (.sweeping n now) (.sweeping time todo victims)
  | parked : waiting = [] → Stage cfg waiting .parked .idle

/-- What Redis has taken since `start`, with what of the waiting rows is still to be handed over, is what
waited at the start. -/
def Told (start s : Relays) (handed : Nat) : Prop :=
  ∃ more, s.handed = start.handed ++ more ∧ (∀ p ∈ more, p.accepted = true) ∧
    more.map Handed.rowId ++ s.unpublished.drop handed = start.unpublished

theorem Told.hand {start a b : Relays} {n : Nat} (told : Told start a n) {p : Handed} {rest : List Nat}
    (next : a.unpublished.drop n = p.rowId :: rest) (waiting : b.unpublished = a.unpublished)
    (handed : b.handed = a.handed ++ [p]) (took : p.accepted = true) : Told start b (n + 1) := by
  obtain ⟨more, grown, accepted, rows⟩ := told
  refine ⟨more ++ [p], by rw [handed, grown, List.append_assoc], fun q mem => ?_, ?_⟩
  · rcases List.mem_append.mp mem with old | new
    · exact accepted q old
    · exact List.mem_singleton.mp new ▸ took
  · rw [waiting, ← List.tail_drop, next, List.map_append, List.append_assoc, ← rows, next]
    rfl

theorem Told.commit {start a b : Relays} {front rest : List Nat} (told : Told start a front.length)
    (waiting : a.unpublished = front ++ rest) (left : b.unpublished = rest)
    (handed : b.handed = a.handed) : Told start b 0 := by
  obtain ⟨more, grown, accepted, rows⟩ := told
  refine ⟨more, handed.trans grown, accepted, ?_⟩
  rw [left, List.drop_zero, ← rows, waiting, List.drop_left]

structure Draining (cfg : LoopConfig) (start : Relays) (s : Waking) : Prop where
  positive : 0 < cfg.batchSize
  inv : s.Inv cfg
  alone : ∀ r ≠ cfg.me, s.relays.pcs r = .idle
  size : s.relays.outbox.length ≤ start.outbox.length
  told : Told start s.relays (s.relays.pcs cfg.me).handed.length
  here : Stage cfg s.relays.unpublished s.run.pc (s.relays.pcs cfg.me)

/-- The steps that are left of a cycle over at most `size` rows. -/
def cycle (size : Nat) : Nat := 4 * size + 20

/-- A full batch is followed by another cycle. -/
def again (cfg : LoopConfig) (size n : Nat) : Nat := if cfg.batchSize ≤ n then cycle size else 0

def place (cfg : LoopConfig) (size : Nat) : RelayRunPc → RelayPc → Nat
  | .top, _ => cycle size
  | .publishing, .idle => 4 * size + 19
  | .publishing, .selecting _ todo rows => 2 * todo.length + rows.length + size + 14
  | .publishing, .publishing _ _ todo _ => todo.length + size + 13
  | .publishing, .marking _ _ => size + 12
  | .publishing, .committing _ _ => size + 11
  | .returned n, _ => again cfg size n + size + 10
  | .counting n _, _ => again cfg size n + size + 9
  | .sweeping n _, .sweeping _ todo _ => again cfg size n + todo.length + 7
  | .sweeping n _, _ => again cfg size n + size + 8
  | _, _ => 0

def left (cfg : LoopConfig) (size : Nat) (s : Waking) : Nat :=
  s.relays.unpublished.length * cycle size + place cfg size s.run.pc (s.relays.pcs cfg.me)

def Advances (cfg : LoopConfig) (start : Relays) (s t : Waking) : Prop :=
  Draining cfg start t ∧ t.left cfg start.outbox.length < s.left cfg start.outbox.length

section Steps

variable {start : Relays}

theorem Draining.reaches {l : RelayRunPc} {pc : RelayPc} (before : Draining cfg start s)
    (inv : t.Inv cfg) (alone : ∀ r ≠ cfg.me, t.relays.pcs r = s.relays.pcs r)
    (size : t.relays.outbox.length ≤ s.relays.outbox.length) (at_loop : t.run.pc = l)
    (at_relay : t.relays.pcs cfg.me = pc) (told : Told start t.relays pc.handed.length)
    (here : Stage cfg t.relays.unpublished l pc)
    (less : t.relays.unpublished.length * cycle start.outbox.length +
      place cfg start.outbox.length l pc < s.left cfg start.outbox.length) : Advances cfg start s t := by
  subst at_loop at_relay
  exact ⟨⟨before.positive, inv, fun r other => (alone r other).trans (before.alone r other),
    Nat.le_trans size before.size, told, here⟩, less⟩

/-- A step that leaves the rows alone. -/
theorem Draining.onward {l l' : RelayRunPc} {pc pc' : RelayPc} (before : Draining cfg start s)
    (inv : t.Inv cfg) (alone : ∀ r ≠ cfg.me, t.relays.pcs r = s.relays.pcs r)
    (outbox : t.relays.outbox = s.relays.outbox) (handed : t.relays.handed = s.relays.handed)
    (at_loop : s.run.pc = l) (at_relay : s.relays.pcs cfg.me = pc)
    (loop_moved : t.run.pc = l') (relay_moved : t.relays.pcs cfg.me = pc')
    (count : pc'.handed.length = pc.handed.length) (here : Stage cfg s.relays.unpublished l' pc')
    (less : place cfg start.outbox.length l' pc' < place cfg start.outbox.length l pc) :
    Advances cfg start s t := by
  have waiting : t.relays.unpublished = s.relays.unpublished := by
    rw [Relays.unpublished, outbox]
    rfl
  refine before.reaches inv alone (le_of_eq (congrArg List.length outbox)) loop_moved relay_moved ?_
    (waiting ▸ here) ?_
  · obtain ⟨more, grown, accepted, rows⟩ := before.told
    rw [at_relay] at rows
    exact ⟨more, handed.trans grown, accepted, by rw [count, waiting]; exact rows⟩
  · rw [left, waiting, at_loop, at_relay]
    exact Nat.add_lt_add_left less _

/-! The end of a cycle. -/

section Cycle

variable (size : Nat) (l : RelayRun) {n : Nat} {waiting : List Nat}

theorem Stage.finish (owes : cfg.batchSize ≤ n ∨ waiting = []) :
    Stage cfg waiting (l.finish cfg n).pc .idle ∧
      place cfg size (l.finish cfg n).pc .idle ≤ again cfg size n := by
  unfold RelayRun.finish again
  split
  · exact ⟨.top, le_rfl⟩
  · rename_i short
    exact ⟨.parked (owes.resolve_left short), le_rfl⟩

theorem Stage.checkSweep (now : Nat) (owes : cfg.batchSize ≤ n ∨ waiting = []) :
    Stage cfg waiting (l.checkSweep cfg n now).pc .idle ∧
      place cfg size (l.checkSweep cfg n now).pc .idle ≤ again cfg size n + size + 8 := by
  unfold RelayRun.checkSweep
  split
  · exact ⟨.sweeps n now owes, le_rfl⟩
  · obtain ⟨here, least⟩ := Stage.finish size l owes
    exact ⟨here, by omega⟩

theorem Stage.checkBacklog (now : Nat) (owes : cfg.batchSize ≤ n ∨ waiting = []) :
    Stage cfg waiting (l.checkBacklog cfg n now).pc .idle ∧
      place cfg size (l.checkBacklog cfg n now).pc .idle ≤ again cfg size n + size + 9 := by
  unfold RelayRun.checkBacklog
  split
  · exact ⟨.counting n now owes, le_rfl⟩
  · obtain ⟨here, least⟩ := Stage.checkSweep size l now owes
    exact ⟨here, by omega⟩

end Cycle

theorem Draining.stageAt (before : Draining cfg start s) {l : RelayRunPc} {pc : RelayPc}
    (at_loop : s.run.pc = l) (at_relay : s.relays.pcs cfg.me = pc) :
    Stage cfg s.relays.unpublished l pc := by
  rw [← at_loop, ← at_relay]
  exact before.here

theorem Draining.clear (before : Draining cfg start s) (step : s.step cfg .clear = some t) :
    Advances cfg start s t := by
  have inv := before.inv.step step
  simp only [Waking.step] at step
  split at step
  · rename_i at_loop
    cases step
    have idle := before.inv.idleAt at_loop (by simp) (by simp)
    refine before.onward inv (fun _ _ => rfl) rfl rfl at_loop idle
      (rfl : (s.run.goto .publishing).pc = .publishing) idle rfl .begins ?_
    simp only [place, cycle, RelayRun.goto]
    omega
  · cases step

theorem Draining.resume {now : Nat} (before : Draining cfg start s)
    (step : s.step cfg (.resume now) = some t) : Advances cfg start s t := by
  have inv := before.inv.step step
  simp only [Waking.step] at step
  split at step
  · rename_i n at_loop
    cases step
    have idle := before.inv.idleAt at_loop (by simp) (by simp)
    cases before.stageAt at_loop idle with
    | returned _ owes =>
      obtain ⟨here, least⟩ := Stage.checkBacklog start.outbox.length s.run now owes
      exact before.onward inv (fun _ _ => rfl) rfl rfl at_loop idle rfl idle rfl here
        (Nat.lt_of_le_of_lt least (Nat.lt_succ_self _))
  · cases step

theorem Draining.counted (before : Draining cfg start s) (step : s.step cfg .counted = some t) :
    Advances cfg start s t := by
  have inv := before.inv.step step
  simp only [Waking.step] at step
  split at step
  · rename_i n now at_loop
    cases step
    have idle := before.inv.idleAt at_loop (by simp) (by simp)
    cases before.stageAt at_loop idle with
    | counting _ _ owes =>
      obtain ⟨here, least⟩ := Stage.checkSweep start.outbox.length
        { s.run with nextBacklog := now + backlogRefresh } now owes
      exact before.onward inv (fun _ _ => rfl) rfl rfl at_loop idle rfl idle rfl here
        (Nat.lt_of_le_of_lt least (Nat.lt_succ_self _))
  · cases step

/-! The steps of the relay. -/

section Relay

variable {i : RelayInput} {relays : Relays} {run : RelayRun}

/-- What `relay_cases` says of a step of the loop's own relay. -/
structure Own (cfg : LoopConfig) (s : Waking) (i : RelayInput) (relays : Relays) (run : RelayRun) :
    Prop where
  inv : (s.acted cfg i relays run).Inv cfg
  made : s.relays.step cfg.batchSize cfg.retention i = some relays
  others : ∀ q ≠ cfg.me, relays.pcs q = s.relays.pcs q

/-- The loop stays in `publish_batch`, whose relay moves on without touching the rows. -/
theorem Draining.works (before : Draining cfg start s) (own : Own cfg s i relays s.run)
    {pc next : RelayPc} (at_loop : s.run.pc = .publishing) (at_relay : s.relays.pcs cfg.me = pc)
    (moved : relays.pcs cfg.me = next) (outbox : relays.outbox = s.relays.outbox)
    (handed : relays.handed = s.relays.handed) (count : next.handed.length = pc.handed.length)
    (here : Stage cfg s.relays.unpublished .publishing next)
    (less : place cfg start.outbox.length .publishing next <
      place cfg start.outbox.length .publishing pc) :
    Advances cfg start s (s.acted cfg i relays s.run) :=
  before.onward own.inv own.others outbox handed at_loop at_relay at_loop moved count here less

/-- Some of a list at its front. -/
theorem Takes.front {waiting : List Nat} {rows : List OutboxRow} (takes : Takes cfg waiting rows) :
    ∃ rest, waiting = rows.map OutboxRow.id ++ rest := by
  obtain ⟨-, rest, front, -⟩ := takes
  exact ⟨rest, front⟩

theorem Draining.publishBatch {now : Timestamp} (before : Draining cfg start s)
    (own : Own cfg s (.publishBatch cfg.me now) relays s.run) (at_loop : s.run.pc = .publishing) :
    Advances cfg start s (s.acted cfg (.publishBatch cfg.me now) relays s.run) := by
  cases Relays.step_cases own.made with
  | began _ _ pc =>
    refine before.works own at_loop pc (Relays.goto_self _ _ _) rfl rfl rfl
      (.selecting now _ [] rfl) ?_
    have size := Nat.le_trans Relays.unpublished_length before.size
    simp only [place, List.length_nil]
    omega

/-- The SELECT comes to a row of its snapshot, which nobody else holds. -/
theorem Draining.visited {now : Timestamp} {id : Nat} {todo : List Nat} {rows : List OutboxRow}
    (before : Draining cfg start s) (own : Own cfg s (.visit cfg.me) relays s.run)
    (at_loop : s.run.pc = .publishing) (pc : s.relays.pcs cfg.me = .selecting now (id :: todo) rows) :
    Advances cfg start s (s.acted cfg (.visit cfg.me) relays s.run) := by
  have ok := before.inv.relays
  cases before.stageAt at_loop pc with
  | selecting _ _ _ waiting =>
    rcases Relays.visit_selecting ok pc own.made with ⟨rfl, locked | ⟨-, settled⟩⟩ |
      ⟨-, x, -, -, same, rfl⟩
    · rw [Relays.alone_free ok before.alone] at locked
      cases locked
    · refine absurd (Relays.mem_unpublished.mp ?_) settled
      rw [waiting]
      exact List.mem_append_right _ List.mem_cons_self
    · refine before.works own at_loop pc (Relays.goto_self _ _ _) rfl rfl rfl
        (.selecting now todo _ ?_) ?_
      · rw [waiting, List.map_append, List.append_assoc, ← same]
        rfl
      · simp only [place, List.length_cons, List.length_append, List.length_nil]
        omega

theorem Draining.visit (before : Draining cfg start s)
    (own : Own cfg s (.visit cfg.me) relays s.run) (at_loop : s.run.pc = .publishing) :
    Advances cfg start s (s.acted cfg (.visit cfg.me) relays s.run) := by
  cases Relays.step_cases own.made with
  | skipped _ now id todo rows pc => exact before.visited own at_loop pc
  | took _ now id todo rows x pc => exact before.visited own at_loop pc
  | spared _ now id todo victims pc => cases before.stageAt at_loop pc
  | doomed _ now id todo victims x pc => cases before.stageAt at_loop pc

/-- The SELECT returns rows. -/
theorem Draining.selects {now : Timestamp} {todo : List Nat} {rows : List OutboxRow}
    (before : Draining cfg start s) (own : Own cfg s (.selected cfg.me) relays s.run)
    (at_loop : s.run.pc = .publishing) (pc : s.relays.pcs cfg.me = .selecting now todo rows)
    (ended : todo = [] ∨ cfg.batchSize ≤ rows.length) (some : rows ≠ [])
    (next : relays = s.relays.goto cfg.me (.publishing now [] rows false)) :
    Advances cfg start s (s.acted cfg (.selected cfg.me) relays s.run) := by
  subst next
  cases before.stageAt at_loop pc with
  | selecting _ _ _ waiting =>
    refine before.works own at_loop pc (Relays.goto_self _ _ _) rfl rfl rfl
      (.publishing now [] rows ⟨some, todo, waiting, ended.symm⟩) ?_
    simp only [place]
    omega

/-- The SELECT returns no row. -/
theorem Draining.selectsNone {now : Timestamp} {todo : List Nat} (before : Draining cfg start s)
    (own : Own cfg s (.selected cfg.me) relays (s.run.goto (.returned 0)))
    (at_loop : s.run.pc = .publishing) (pc : s.relays.pcs cfg.me = .selecting now todo [])
    (ended : todo = [] ∨ cfg.batchSize ≤ 0)
    (next : relays = s.relays.finish cfg.me s.relays.outbox) :
    Advances cfg start s (s.acted cfg (.selected cfg.me) relays (s.run.goto (.returned 0))) := by
  subst next
  have empty := ended.resolve_right (Nat.not_le_of_lt before.positive)
  have short : again cfg start.outbox.length 0 = 0 := if_neg (Nat.not_le_of_lt before.positive)
  cases before.stageAt at_loop pc with
  | selecting _ _ _ waiting =>
    have idle := Relays.finish_self s.relays cfg.me s.relays.outbox
    refine before.onward own.inv own.others rfl rfl at_loop pc
      (rfl : (s.run.goto (.returned 0)).pc = .returned 0) idle rfl
      (.returned 0 (.inr (by rw [waiting, empty]; rfl))) ?_
    simp only [place, RelayRun.goto, short]
    omega

/-- Redis takes the next command of the batch. -/
theorem Draining.publish (before : Draining cfg start s)
    (own : Own cfg s (.publish cfg.me true) relays s.run) (at_loop : s.run.pc = .publishing) :
    Advances cfg start s (s.acted cfg (.publish cfg.me true) relays s.run) := by
  cases Relays.step_cases own.made with
  | published _ now done todo x failed _ pc =>
    cases before.stageAt at_loop pc with
    | publishing _ _ _ takes =>
      obtain ⟨rest, front⟩ := takes.front
      have told := before.told
      rw [pc] at told
      refine before.reaches own.inv own.others le_rfl at_loop (Relays.goto_self _ _ _) ?_
        (.publishing now _ todo (by rwa [List.append_assoc, List.singleton_append])) ?_
      · have next : s.relays.unpublished.drop done.length =
            x.id :: (todo.map OutboxRow.id ++ rest) := by
          rw [front, List.map_append, List.append_assoc, List.drop_left' (List.length_map _)]
          rfl
        rw [RelayPc.handed, List.length_append]
        exact told.hand (p := ⟨x.id, topicChannel x.topic, x.payload, true⟩) next rfl rfl rfl
      · show s.relays.unpublished.length * _ + _ < _
        rw [left, at_loop, pc]
        simp only [place, List.length_cons]
        omega

/-- A batch that Redis has taken is committed. -/
theorem Draining.commits {n : Nat} (before : Draining cfg start s)
    (own : Own cfg s (.commit cfg.me) relays (s.run.goto (.returned n)))
    (at_loop : s.run.pc = .publishing) (count : n = (s.relays.pcs cfg.me).batch.length) :
    Advances cfg start s (s.acted cfg (.commit cfg.me) relays (s.run.goto (.returned n))) := by
  cases Relays.step_cases own.made with
  | committed _ now rows pc =>
    cases before.stageAt at_loop pc with
    | committing _ _ takes =>
      rw [pc] at count
      have told := before.told
      rw [pc] at told
      obtain ⟨some, rest, front, ended⟩ := takes
      have after := Relays.unpublished_committed before.inv.relays pc front
      have idle := Relays.finish_self s.relays cfg.me
        (s.relays.outbox.map (Relays.markPublished now (rows.map OutboxRow.id)))
      have owes : cfg.batchSize ≤ n ∨ rest = [] := count ▸ ended
      refine before.reaches own.inv own.others (by simp [acted, Relays.finish])
        (rfl : (s.run.goto (.returned n)).pc = .returned n) idle ?_
        (.returned n (after.symm ▸ owes)) ?_
      · have all : (RelayPc.committing now rows).handed.length = (rows.map OutboxRow.id).length :=
          (List.length_map _).symm
        rw [all] at told
        exact told.commit front after rfl
      · -- the rows of the batch pay for the cycle that follows a full one
        have batch : 1 ≤ rows.length := List.length_pos_iff.mpr some
        have most : again cfg start.outbox.length n ≤ rows.length * cycle start.outbox.length := by
          unfold again
          split
          · exact Nat.le_mul_of_pos_left _ batch
          · exact Nat.zero_le _
        refine lt_of_eq_of_lt (congrArg (fun ids : List Nat => ids.length * _ + _) after) ?_
        rw [left, at_loop, pc, front, List.length_append, List.length_map, Nat.add_mul]
        simp only [place, RelayRun.goto]
        omega
  | swept _ now victims pc => cases before.stageAt at_loop pc

theorem Draining.execute (before : Draining cfg start s)
    (own : Own cfg s (.executed cfg.me) relays s.run) (at_loop : s.run.pc = .publishing) :
    Advances cfg start s (s.acted cfg (.executed cfg.me) relays s.run) := by
  cases Relays.step_cases own.made with
  | raised _ now done pc => cases before.stageAt at_loop pc
  | executed _ now done pc =>
    cases before.stageAt at_loop pc with
    | publishing _ _ _ takes =>
      rw [List.append_nil] at takes
      refine before.works own at_loop pc (Relays.goto_self _ _ _) rfl rfl rfl
        (.marking now done takes) ?_
      simp only [place]
      omega

theorem Draining.mark (before : Draining cfg start s)
    (own : Own cfg s (.mark cfg.me) relays s.run) (at_loop : s.run.pc = .publishing) :
    Advances cfg start s (s.acted cfg (.mark cfg.me) relays s.run) := by
  cases Relays.step_cases own.made with
  | marked _ now rows pc =>
    cases before.stageAt at_loop pc with
    | marking _ _ takes =>
      refine before.works own at_loop pc (Relays.goto_self _ _ _) rfl rfl rfl
        (.committing now rows takes) ?_
      simp only [place]
      omega

/-! The sweep. -/

/-- Its snapshot is no longer than the table. -/
theorem Draining.sweep {now : Timestamp} (before : Draining cfg start s)
    (own : Own cfg s (.sweep cfg.me now) relays s.run) {n at_ : Nat}
    (at_loop : s.run.pc = .sweeping n at_) :
    Advances cfg start s (s.acted cfg (.sweep cfg.me now) relays s.run) := by
  cases Relays.step_cases own.made with
  | sweeps _ _ pc =>
    cases before.stageAt at_loop pc with
    | sweeps _ _ owes =>
      refine before.onward own.inv own.others rfl rfl at_loop pc at_loop (Relays.goto_self _ _ _) rfl
        (.sweeping n at_ now _ [] owes) ?_
      have some := List.length_filter_le (Relays.expired cfg.retention now) s.relays.outbox
      have size := before.size
      simp only [place, List.length_map]
      omega

theorem Draining.sweepVisit (before : Draining cfg start s)
    (own : Own cfg s (.visit cfg.me) relays s.run) {n at_ : Nat} (at_loop : s.run.pc = .sweeping n at_) :
    Advances cfg start s (s.acted cfg (.visit cfg.me) relays s.run) := by
  cases Relays.step_cases own.made with
  | skipped _ now id todo rows pc => cases before.stageAt at_loop pc
  | took _ now id todo rows x pc => cases before.stageAt at_loop pc
  | spared _ now id todo victims pc =>
    cases before.stageAt at_loop pc with
    | sweeping _ _ _ _ _ owes =>
      refine before.onward own.inv own.others rfl rfl at_loop pc at_loop (Relays.goto_self _ _ _) rfl
        (.sweeping n at_ now todo victims owes) ?_
      simp only [place, List.length_cons]
      omega
  | doomed _ now id todo victims x pc =>
    cases before.stageAt at_loop pc with
    | sweeping _ _ _ _ _ owes =>
      refine before.onward own.inv own.others rfl rfl at_loop pc at_loop (Relays.goto_self _ _ _) rfl
        (.sweeping n at_ now todo _ owes) ?_
      simp only [place, List.length_cons]
      omega

/-- The deletion is committed, and the cycle ends. -/
theorem Draining.sweepCommits {l : RelayRun} {n at_ : Nat} (before : Draining cfg start s)
    (own : Own cfg s (.commit cfg.me) relays (l.finish cfg n)) (at_loop : s.run.pc = .sweeping n at_) :
    Advances cfg start s (s.acted cfg (.commit cfg.me) relays (l.finish cfg n)) := by
  cases Relays.step_cases own.made with
  | committed _ now rows pc => cases before.stageAt at_loop pc
  | swept _ now victims pc =>
    cases before.stageAt at_loop pc with
    | sweeping _ _ _ _ _ owes =>
      have after := Relays.unpublished_swept before.inv.relays pc
      have idle := Relays.finish_self s.relays cfg.me
        (s.relays.outbox.filter (fun x => x.id ∉ victims))
      obtain ⟨here, least⟩ := Stage.finish start.outbox.length l owes
      have told := before.told
      rw [pc] at told
      obtain ⟨more, grown, accepted, rows⟩ := told
      refine before.reaches own.inv own.others (List.length_filter_le _ _) rfl idle ?_
        (after ▸ here) ?_
      · exact ⟨more, grown, accepted, (congrArg (_ ++ List.drop 0 ·) after).trans rows⟩
      · refine lt_of_eq_of_lt (congrArg (fun ids : List Nat => ids.length * _ + _) after) ?_
        rw [left, at_loop, pc]
        exact Nat.add_lt_add_left (Nat.lt_of_le_of_lt least (by simp [place])) _

/-- A step of `publish_batch`. -/
theorem Draining.inBatch (before : Draining cfg start s) (own : Own cfg s i relays run)
    (smooth : WakingInput.isSmooth cfg.me (.relay i) = true) (at_loop : s.run.pc = .publishing)
    (ran : s.run.inBatch (s.relays.pcs cfg.me) (relays.pcs cfg.me) i = some run) :
    Advances cfg start s (s.acted cfg i relays run) := by
  cases i with
  | insert rows => cases smooth
  | sweep r now => cases ran
  | fail r => cases smooth
  | publishBatch r now =>
    obtain rfl : r = cfg.me := by simpa [WakingInput.isSmooth, RelayInput.relay?] using smooth
    cases ran
    exact before.publishBatch own at_loop
  | visit r =>
    obtain rfl : r = cfg.me := by simpa [WakingInput.isSmooth, RelayInput.relay?] using smooth
    cases ran
    exact before.visit own at_loop
  | selected r =>
    obtain rfl : r = cfg.me := by simpa [WakingInput.isSmooth, RelayInput.relay?] using smooth
    have returned : ∀ now todo rows, s.relays.pcs cfg.me = .selecting now todo rows →
        Advances cfg start s (s.acted cfg (.selected cfg.me) relays run) := by
      intro now todo rows pc
      obtain ⟨ended, ⟨rfl, rfl⟩ | ⟨some, rfl⟩⟩ := Relays.selected_full pc own.made
      · rw [Relays.finish_self] at ran
        cases ran
        exact before.selectsNone own at_loop pc ended rfl
      · rw [Relays.goto_self] at ran
        cases ran
        exact before.selects own at_loop pc ended some rfl
    cases Relays.step_cases own.made with
    | empty _ now todo pc => exact returned now todo [] pc
    | selected _ now todo rows pc => exact returned now todo rows pc
  | publish r accepted =>
    obtain ⟨rfl, rfl⟩ : r = cfg.me ∧ accepted = true := by
      simpa [WakingInput.isSmooth] using smooth
    cases ran
    exact before.publish own at_loop
  | executed r =>
    obtain rfl : r = cfg.me := by simpa [WakingInput.isSmooth, RelayInput.relay?] using smooth
    cases Relays.step_cases own.made with
    | raised _ now done pc => cases before.stageAt at_loop pc
    | executed _ now done pc =>
      rw [Relays.goto_self] at ran
      cases ran
      exact before.execute own at_loop
  | mark r =>
    obtain rfl : r = cfg.me := by simpa [WakingInput.isSmooth, RelayInput.relay?] using smooth
    cases ran
    exact before.mark own at_loop
  | commit r =>
    obtain rfl : r = cfg.me := by simpa [WakingInput.isSmooth, RelayInput.relay?] using smooth
    cases ran
    exact before.commits own at_loop rfl

/-- A step of `_sweep`. -/
theorem Draining.inSweep {n now : Nat} (before : Draining cfg start s) (own : Own cfg s i relays run)
    (smooth : WakingInput.isSmooth cfg.me (.relay i) = true) (at_loop : s.run.pc = .sweeping n now)
    (ran : s.run.inSweep cfg n now i = some run) : Advances cfg start s (s.acted cfg i relays run) := by
  cases i with
  | sweep r time =>
    obtain rfl : r = cfg.me := by simpa [WakingInput.isSmooth, RelayInput.relay?] using smooth
    cases ran
    exact before.sweep own at_loop
  | visit r =>
    obtain rfl : r = cfg.me := by simpa [WakingInput.isSmooth, RelayInput.relay?] using smooth
    cases ran
    exact before.sweepVisit own at_loop
  | commit r =>
    obtain rfl : r = cfg.me := by simpa [WakingInput.isSmooth, RelayInput.relay?] using smooth
    cases ran
    exact before.sweepCommits own at_loop
  | fail r => cases smooth
  | insert | publishBatch | selected | publish | executed | mark => cases ran

theorem smooth_relay {i : RelayInput} {me r : RelayId}
    (smooth : WakingInput.isSmooth me (.relay i) = true) (mover : i.relay? = some r) : r = me := by
  cases i with
  | insert => cases mover
  | fail => cases smooth
  | publish =>
    cases mover
    exact beq_iff_eq.mp (Bool.and_eq_true _ _ ▸ smooth).1
  | publishBatch | sweep | visit | selected | executed | mark | commit =>
    cases mover
    simpa [WakingInput.isSmooth, RelayInput.relay?] using smooth

theorem Draining.step {i : WakingInput} (before : Draining cfg start s)
    (smooth : i.isSmooth cfg.me = true) (step : s.step cfg i = some t) : Advances cfg start s t := by
  cases i with
  | clear => exact before.clear step
  | resume now => exact before.resume step
  | counted => exact before.counted step
  | relay i =>
    have inv := before.inv.relay step
    obtain ⟨r, relays, run, mover, made, ran, rfl⟩ := relay_cases step
    obtain rfl := smooth_relay smooth mover
    have others : ∀ q ≠ cfg.me, relays.pcs q = s.relays.pcs q := fun q ne =>
      Relays.pcs_step (Relays.step_cases made) q (by simpa [mover] using ne)
    rw [Waking.ran, if_pos rfl] at ran
    unfold RelayRun.own at ran
    split at ran
    · rename_i at_loop
      exact before.inBatch ⟨inv, made, others⟩ smooth at_loop ran
    · rename_i n now at_loop
      exact before.inSweep ⟨inv, made, others⟩ smooth at_loop ran
    · cases ran
  | commit | notify | elsewhere | raise | lost | slept | woken | timeout | cancel => cases smooth

/-! Something can be done until the loop waits. -/

theorem relay_enabled (mover : i.relay? = some cfg.me)
    (made : (s.relays.step cfg.batchSize cfg.retention i).isSome = true)
    (ran : ∀ next, (s.run.own cfg (s.relays.pcs cfg.me) next i).isSome = true) :
    (s.step cfg (.relay i)).isSome = true := by
  obtain ⟨relays, made⟩ := Option.isSome_iff_exists.mp made
  obtain ⟨run, ran⟩ := Option.isSome_iff_exists.mp (ran (relays.pcs cfg.me))
  simp [Waking.step, Waking.relay, mover, made, Waking.ran, ran]

theorem visit_enabled {now : Timestamp} {id : Nat} {todo : List Nat} {rows : List OutboxRow}
    (before : Draining cfg start s) (pc : s.relays.pcs cfg.me = .selecting now (id :: todo) rows)
    (room : ¬ cfg.batchSize ≤ rows.length) :
    (s.relays.visit cfg.batchSize cfg.retention cfg.me).isSome = true := by
  have free := Relays.alone_free before.inv.relays before.alone id
  simp only [Relays.visit, pc, if_neg room, free]
  split
  · rfl
  · split <;> rfl

theorem sweep_enabled {now : Timestamp} {id : Nat} {todo victims : List Nat}
    (before : Draining cfg start s) (pc : s.relays.pcs cfg.me = .sweeping now (id :: todo) victims) :
    (s.relays.visit cfg.batchSize cfg.retention cfg.me).isSome = true := by
  have free := Relays.alone_free before.inv.relays before.alone id
  simp only [Relays.visit, pc, free]
  split
  · contradiction
  · split <;> rfl

/-- Until the loop waits, it has something to do. -/
theorem Draining.goes (before : Draining cfg start s) : s.run.pc = .parked ∨
    ∃ a, a.isSmooth cfg.me = true ∧ (s.step cfg a).isSome = true := by
  have here := before.here
  generalize at_loop : s.run.pc = l at here
  generalize at_relay : s.relays.pcs cfg.me = pc at here
  cases here with
  | top => exact .inr ⟨.clear, rfl, by simp [Waking.step, at_loop]⟩
  | begins =>
    refine .inr ⟨.relay (.publishBatch cfg.me 0), by simp [WakingInput.isSmooth, RelayInput.relay?],
      relay_enabled rfl ?_ fun next => ?_⟩
    · simp [Relays.step, Relays.publishBatch, at_relay]
    · simp [RelayRun.own, at_loop, RelayRun.inBatch]
  | selecting now todo rows waiting =>
    by_cases ended : todo = [] ∨ cfg.batchSize ≤ rows.length
    · refine .inr ⟨.relay (.selected cfg.me), by simp [WakingInput.isSmooth, RelayInput.relay?],
        relay_enabled rfl ?_ fun next => ?_⟩
      · simp only [Relays.step, Relays.selected, at_relay, if_pos ended]
        split <;> rfl
      · rw [RelayRun.own, at_loop]
        cases next <;> rfl
    · obtain ⟨some, room⟩ := not_or.mp ended
      obtain ⟨id, rest, rfl⟩ := List.exists_cons_of_ne_nil some
      refine .inr ⟨.relay (.visit cfg.me), by simp [WakingInput.isSmooth, RelayInput.relay?],
        relay_enabled rfl (visit_enabled before at_relay room) fun next => ?_⟩
      simp [RelayRun.own, at_loop, RelayRun.inBatch]
  | publishing now done todo takes =>
    cases todo with
    | nil =>
      refine .inr ⟨.relay (.executed cfg.me), by simp [WakingInput.isSmooth, RelayInput.relay?],
        relay_enabled rfl ?_ fun next => ?_⟩
      · simp [Relays.step, Relays.executed, at_relay]
      · rw [RelayRun.own, at_loop]
        cases next <;> rfl
    | cons x todo =>
      refine .inr ⟨.relay (.publish cfg.me true), by simp [WakingInput.isSmooth],
        relay_enabled rfl ?_ fun next => ?_⟩
      · simp [Relays.step, Relays.publish, at_relay]
      · simp [RelayRun.own, at_loop, RelayRun.inBatch]
  | marking now rows takes =>
    refine .inr ⟨.relay (.mark cfg.me), by simp [WakingInput.isSmooth, RelayInput.relay?],
      relay_enabled rfl ?_ fun next => ?_⟩
    · simp [Relays.step, Relays.mark, at_relay]
    · simp [RelayRun.own, at_loop, RelayRun.inBatch]
  | committing now rows takes =>
    refine .inr ⟨.relay (.commit cfg.me), by simp [WakingInput.isSmooth, RelayInput.relay?],
      relay_enabled rfl ?_ fun next => ?_⟩
    · simp [Relays.step, Relays.commit, at_relay]
    · simp [RelayRun.own, at_loop, RelayRun.inBatch]
  | returned n owes => exact .inr ⟨.resume 0, rfl, by simp [Waking.step, at_loop]⟩
  | counting n now owes => exact .inr ⟨.counted, rfl, by simp [Waking.step, at_loop]⟩
  | sweeps n now owes =>
    refine .inr ⟨.relay (.sweep cfg.me 0), by simp [WakingInput.isSmooth, RelayInput.relay?],
      relay_enabled rfl ?_ fun next => ?_⟩
    · simp [Relays.step, Relays.sweep, at_relay]
    · simp [RelayRun.own, at_loop, RelayRun.inSweep]
  | sweeping n now time todo victims owes =>
    cases todo with
    | nil =>
      refine .inr ⟨.relay (.commit cfg.me), by simp [WakingInput.isSmooth, RelayInput.relay?],
        relay_enabled rfl ?_ fun next => ?_⟩
      · simp [Relays.step, Relays.commit, at_relay]
      · simp [RelayRun.own, at_loop, RelayRun.inSweep]
    | cons id todo =>
      refine .inr ⟨.relay (.visit cfg.me), by simp [WakingInput.isSmooth, RelayInput.relay?],
        relay_enabled rfl (sweep_enabled before at_relay) fun next => ?_⟩
      simp [RelayRun.own, at_loop, RelayRun.inSweep]
  | parked none => exact .inl rfl

end Relay

theorem settles (cfg : LoopConfig) (start : Relays) : Machine.Settles (waking cfg)
    (fun _ i => i.isSmooth cfg.me = true) (Draining cfg start) (fun s => s.run.pc = .parked)
    (left cfg start.outbox.length) where
  lowers _ _ _ before smooth step := before.step smooth step
  goes s before := by
    refine before.goes.imp_right fun ⟨a, smooth, enabled⟩ => ?_
    obtain ⟨t, step⟩ := Option.isSome_iff_exists.mp enabled
    exact ⟨a, t, smooth, step⟩

/-- A cycle begins while no other relay is at work. -/
theorem Draining.begin (positive : 0 < cfg.batchSize) (inv : s.Inv cfg) (at_loop : s.run.pc = .top)
    (alone : ∀ r ≠ cfg.me, s.relays.pcs r = .idle) : Draining cfg s.relays s := by
  have idle := inv.idleAt at_loop (by simp) (by simp)
  refine ⟨positive, inv, alone, le_rfl, ⟨[], (List.append_nil _).symm, fun p mem => ?_, ?_⟩, ?_⟩
  · cases mem
  · rw [idle]
    rfl
  · rw [at_loop, idle]
    exact .top

end Steps

/-- The loop waits, no row does, and since `start` Redis took each row that waited then, once and in the
order of the ids, and nothing else. -/
structure Drained (start s : Waking) : Prop where
  parked : s.run.pc = .parked
  none : s.relays.unpublished = []
  handed : ∃ more, s.relays.handed = start.relays.handed ++ more ∧
    (∀ p ∈ more, p.accepted = true) ∧ more.map Handed.rowId = start.relays.unpublished

theorem Draining.drained {start : Waking} (draining : Draining cfg start.relays s)
    (parked : s.run.pc = .parked) : Drained start s := by
  have idle := draining.inv.idleAt parked (by simp) (by simp)
  obtain ⟨more, grown, accepted, rows⟩ := draining.told
  cases draining.stageAt parked idle with
  | parked none =>
    rw [none, List.drop_nil, List.append_nil] at rows
    exact ⟨parked, none, more, grown, accepted, rows⟩

end Waking

/-- From the top of a cycle on, with no other relay at work, no new rows and nothing that fails, the
loop drains the backlog: in a bounded number of steps, whatever the clocks say, and it cannot stop before
the backlog is drained. -/
theorem backlog_drains (cfg : LoopConfig) (positive : 0 < cfg.batchSize) (is : List WakingInput)
    (at_top : ((waking cfg).run is).run.pc = .top)
    (alone : ∀ r ≠ cfg.me, ((waking cfg).run is).relays.pcs r = .idle) :
    (∀ js, (∀ i ∈ js, i.isSmooth cfg.me = true) →
      ((waking cfg).moves ((waking cfg).run is) js).length ≤
        (((waking cfg).run is).relays.unpublished.length + 1) *
          (4 * ((waking cfg).run is).relays.outbox.length + 20)) ∧
    (∀ js, (∀ i ∈ js, i.isSmooth cfg.me = true) →
      (∀ i, i.isSmooth cfg.me = true → (waking cfg).step ((waking cfg).run (is ++ js)) i = none) →
      Waking.Drained ((waking cfg).run is) ((waking cfg).run (is ++ js))) ∧
    ∃ js, (∀ x ∈ (waking cfg).moves ((waking cfg).run is) js, x.action.isSmooth cfg.me = true) ∧
      Waking.Drained ((waking cfg).run is) ((waking cfg).run (is ++ js)) := by
  let m := waking cfg
  have settles := Waking.settles cfg (m.run is).relays
  have start := Waking.Draining.begin positive (waking_inv cfg is) at_top alone
  have calm : ∀ js : List WakingInput, (∀ i ∈ js, i.isSmooth cfg.me = true) →
      m.Calm (fun _ i => i.isSmooth cfg.me = true) (m.run is) js :=
    fun js all x mem => all x.action (m.action_mem mem)
  simp only [Machine.run_append]
  refine ⟨fun js all => ?_, fun js all stuck => ?_, ?_⟩
  · have count := (settles.bounded start (calm js all)).2
    have bound : (m.run is).left cfg (m.run is).relays.outbox.length =
        ((m.run is).relays.unpublished.length + 1) * (4 * (m.run is).relays.outbox.length + 20) := by
      rw [Waking.left, at_top, Nat.add_mul, Nat.one_mul]
      rfl
    exact bound ▸ Nat.le_trans (Nat.le_add_right _ _) count
  · have after := (settles.bounded start (calm js all)).1
    exact after.drained (settles.stops start (calm js all) stuck)
  · obtain ⟨js, all, parked⟩ := settles.reaches start
    exact ⟨js, all, (settles.bounded start all).1.drained parked⟩

/-- Two rows and batches of one. -/
theorem two_rows_drain :
    let cfg : LoopConfig := ⟨0, 1, 3600000000, 500000⟩
    let row : Outbox := ⟨userTopic "alice", .messageDelivered 1 2 "m1" 3⟩
    let commits : List WakingInput := [.commit [(2, row), (1, row)], .notify [2, 1]]
    let start := (waking cfg).run commits
    start.relays.unpublished = [1, 2] ∧
      ∃ js, (∀ x ∈ (waking cfg).moves start js, x.action.isSmooth cfg.me = true) ∧
        Waking.Drained start ((waking cfg).run (commits ++ js)) := by
  intro cfg row commits start
  refine ⟨by decide +kernel, ?_⟩
  have at_top : start.run.pc = .top := by decide +kernel
  exact (backlog_drains cfg (by decide) _ at_top fun r other => rfl).2.2

end ChatBackend

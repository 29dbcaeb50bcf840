import ChatBackend.Lib.Keyset
import ChatBackend.Lib.Machine
import ChatBackend.Realtime.Hub

/-! The outbox relays of all replicas over one outbox table. A batch selects and locks rows one by
one from the snapshot of its SELECT, hands them to Redis, marks them and commits; the sweep deletes.
Other replicas, new rows, errors and crashes come in between any two of these. A hand-over to the
client counts once, whatever the client repeats on the wire. -/

namespace ChatBackend

open Lib

structure OutboxRow extends Outbox where
  id : Nat
  publishedAt : Option Timestamp
  deriving DecidableEq

abbrev RelayId := Nat

/-- One command of a Redis pipeline, and whether Redis took it. -/
structure Handed where
  rowId : Nat
  channel : String
  payload : Event
  accepted : Bool
  deriving DecidableEq

/-- Where a relay stands in `publish_batch` or in `_sweep`. `now` is the time of its transaction.
`todo` is what is left of a snapshot or of a pipeline. -/
inductive RelayPc where
  | idle
  | selecting (now : Timestamp) (todo : List Nat) (rows : List OutboxRow)
  | publishing (now : Timestamp) (done todo : List OutboxRow) (failed : Bool)
  | marking (now : Timestamp) (rows : List OutboxRow)
  | committing (now : Timestamp) (rows : List OutboxRow)
  | sweeping (now : Timestamp) (todo victims : List Nat)

/-- The rows that a batch has selected, all of them locked. -/
def RelayPc.batch : RelayPc → List OutboxRow
  | .selecting _ _ rows => rows
  | .publishing _ done todo _ => done ++ todo
  | .marking _ rows => rows
  | .committing _ rows => rows
  | _ => []

def RelayPc.victims : RelayPc → List Nat
  | .sweeping _ _ victims => victims
  | _ => []

/-- What is left of the snapshot of the statement. -/
def RelayPc.todo : RelayPc → List Nat
  | .selecting _ todo _ => todo
  | .sweeping _ todo _ => todo
  | _ => []

def RelayPc.held (pc : RelayPc) : List Nat := pc.batch.map OutboxRow.id ++ pc.victims

/-- The rows that a batch has handed to Redis. -/
def RelayPc.handed : RelayPc → List OutboxRow
  | .publishing _ done _ _ => done
  | .marking _ rows => rows
  | .committing _ rows => rows
  | _ => []

/-- `committed` remembers every row that a transaction of the application has added. -/
structure Relays where
  outbox : List OutboxRow
  committed : List (Nat × Outbox)
  locks : Pending RelayId Nat
  pcs : RelayId → RelayPc
  handed : List Handed

inductive RelayInput where
  | insert (rows : List (Nat × Outbox))
  | publishBatch (r : RelayId) (now : Timestamp)
  | sweep (r : RelayId) (now : Timestamp)
  | visit (r : RelayId)
  | selected (r : RelayId)
  | publish (r : RelayId) (accepted : Bool)
  | executed (r : RelayId)
  | mark (r : RelayId)
  | commit (r : RelayId)
  | fail (r : RelayId)

namespace Relays

def init : Relays := ⟨[], [], [], fun _ => .idle, []⟩

def lockedByOther (s : Relays) (r : RelayId) (id : Nat) : Bool :=
  s.locks.any (fun l => l.1 ≠ r && l.2 == id)

def row (s : Relays) (id : Nat) : Option OutboxRow := s.outbox.find? (fun x => x.id == id)

def goto (s : Relays) (r : RelayId) (pc : RelayPc) : Relays :=
  { s with pcs := Function.update s.pcs r pc }

/-- The transaction ends, and so do its locks. -/
def finish (s : Relays) (r : RelayId) (outbox : List OutboxRow) : Relays :=
  { s with outbox := outbox, locks := s.locks.drop r, pcs := Function.update s.pcs r .idle }

/-- `id` is the identity column: a sequence, never used twice. -/
def insert (s : Relays) (rows : List (Nat × Outbox)) : Option Relays :=
  if (rows.map Prod.fst).Nodup ∧ ∀ o ∈ rows, o.1 ∉ s.committed.map Prod.fst then
    some { s with
      outbox := s.outbox ++ rows.map (fun o => ⟨o.2, o.1, none⟩)
      committed := s.committed ++ rows }
  else none

def unpublished (s : Relays) : List Nat :=
  (byKey OutboxRow.id (s.outbox.filter (fun x => x.publishedAt = none))).map OutboxRow.id

/-- The SELECT of `publish_batch` begins: its snapshot, in the order of the ids. -/
def publishBatch (s : Relays) (r : RelayId) (now : Timestamp) : Option Relays :=
  match s.pcs r with
  | .idle => some (s.goto r (.selecting now s.unpublished []))
  | _ => none

/-- `published_at < now() - retention`. -/
def expired (retention : Nat) (now : Timestamp) (x : OutboxRow) : Bool :=
  x.publishedAt.any (fun t => t.val + retention < now.val)

def sweep (retention : Nat) (s : Relays) (r : RelayId) (now : Timestamp) : Option Relays :=
  match s.pcs r with
  | .idle =>
    some (s.goto r (.sweeping now ((s.outbox.filter (expired retention now)).map OutboxRow.id) []))
  | _ => none

/-- The statement comes to the next row of its snapshot. The SELECT skips a locked row and the DELETE
waits for it; both look again at the version they lock. -/
def visit (batchSize retention : Nat) (s : Relays) (r : RelayId) : Option Relays :=
  match s.pcs r with
  | .selecting now (id :: todo) rows =>
    if batchSize ≤ rows.length then none
    else if s.lockedByOther r id then some (s.goto r (.selecting now todo rows))
    else
      match (s.row id).filter (fun x => x.publishedAt = none) with
      | none => some (s.goto r (.selecting now todo rows))
      | some x =>
        some { s.goto r (.selecting now todo (rows ++ [x])) with locks := s.locks.stage r [id] }
  | .sweeping now (id :: todo) victims =>
    if s.lockedByOther r id then none
    else if (s.row id).any (expired retention now) then
      some { s.goto r (.sweeping now todo (victims ++ [id])) with locks := s.locks.stage r [id] }
    else some (s.goto r (.sweeping now todo victims))
  | _ => none

/-- The SELECT returns. Without rows the transaction ends here. -/
def selected (batchSize : Nat) (s : Relays) (r : RelayId) : Option Relays :=
  match s.pcs r with
  | .selecting now todo rows =>
    if todo = [] ∨ batchSize ≤ rows.length then
      if rows = [] then some (s.finish r s.outbox) else some (s.goto r (.publishing now [] rows false))
    else none
  | _ => none

/-- Redis answers the next command of the pipeline. -/
def publish (s : Relays) (r : RelayId) (accepted : Bool) : Option Relays :=
  match s.pcs r with
  | .publishing now done (x :: todo) failed =>
    some { s.goto r (.publishing now (done ++ [x]) todo (failed || !accepted)) with
      handed := s.handed ++ [⟨x.id, topicChannel x.topic, x.payload, accepted⟩] }
  | _ => none

/-- `pipe.execute()` ends; it raises if a command failed. -/
def executed (s : Relays) (r : RelayId) : Option Relays :=
  match s.pcs r with
  | .publishing now done [] failed =>
    if failed then some (s.finish r s.outbox) else some (s.goto r (.marking now done))
  | _ => none

def mark (s : Relays) (r : RelayId) : Option Relays :=
  match s.pcs r with
  | .marking now rows => some (s.goto r (.committing now rows))
  | _ => none

def markPublished (now : Timestamp) (ids : List Nat) (x : OutboxRow) : OutboxRow :=
  if x.id ∈ ids then { x with publishedAt := some now } else x

def commit (s : Relays) (r : RelayId) : Option Relays :=
  match s.pcs r with
  | .committing now rows =>
    some (s.finish r (s.outbox.map (markPublished now (rows.map OutboxRow.id))))
  | .sweeping _ [] victims => some (s.finish r (s.outbox.filter (fun x => x.id ∉ victims)))
  | _ => none

/-- A crash, an error or a failed commit. -/
def fail (s : Relays) (r : RelayId) : Option Relays :=
  match s.pcs r with
  | .idle => none
  | _ => some (s.finish r s.outbox)

def step (batchSize retention : Nat) (s : Relays) : RelayInput → Option Relays
  | .insert rows => s.insert rows
  | .publishBatch r now => s.publishBatch r now
  | .sweep r now => s.sweep retention r now
  | .visit r => s.visit batchSize retention r
  | .selected r => s.selected batchSize r
  | .publish r accepted => s.publish r accepted
  | .executed r => s.executed r
  | .mark r => s.mark r
  | .commit r => s.commit r
  | .fail r => s.fail r

/-- All that one step can do. -/
inductive Steps (batchSize retention : Nat) (s : Relays) : RelayInput → Relays → Prop where
  | inserted (rows : List (Nat × Outbox)) : (rows.map Prod.fst).Nodup →
      (∀ o ∈ rows, o.1 ∉ s.committed.map Prod.fst) →
      Steps batchSize retention s (.insert rows)
        { s with
          outbox := s.outbox ++ rows.map (fun o => ⟨o.2, o.1, none⟩)
          committed := s.committed ++ rows }
  | began (r : RelayId) (now : Timestamp) : s.pcs r = .idle →
      Steps batchSize retention s (.publishBatch r now) (s.goto r (.selecting now s.unpublished []))
  | sweeps (r : RelayId) (now : Timestamp) : s.pcs r = .idle →
      Steps batchSize retention s (.sweep r now)
        (s.goto r (.sweeping now ((s.outbox.filter (expired retention now)).map OutboxRow.id) []))
  | skipped (r : RelayId) (now : Timestamp) (id : Nat) (todo : List Nat) (rows : List OutboxRow) :
      s.pcs r = .selecting now (id :: todo) rows →
      Steps batchSize retention s (.visit r) (s.goto r (.selecting now todo rows))
  | took (r : RelayId) (now : Timestamp) (id : Nat) (todo : List Nat) (rows : List OutboxRow)
      (x : OutboxRow) : s.pcs r = .selecting now (id :: todo) rows →
      s.lockedByOther r id = false → s.row id = some x → x.publishedAt = none →
      Steps batchSize retention s (.visit r)
        { s.goto r (.selecting now todo (rows ++ [x])) with locks := s.locks.stage r [id] }
  | spared (r : RelayId) (now : Timestamp) (id : Nat) (todo victims : List Nat) :
      s.pcs r = .sweeping now (id :: todo) victims →
      Steps batchSize retention s (.visit r) (s.goto r (.sweeping now todo victims))
  | doomed (r : RelayId) (now : Timestamp) (id : Nat) (todo victims : List Nat) (x : OutboxRow) :
      s.pcs r = .sweeping now (id :: todo) victims → s.lockedByOther r id = false →
      s.row id = some x → expired retention now x = true →
      Steps batchSize retention s (.visit r)
        { s.goto r (.sweeping now todo (victims ++ [id])) with locks := s.locks.stage r [id] }
  | empty (r : RelayId) (now : Timestamp) (todo : List Nat) : s.pcs r = .selecting now todo [] →
      Steps batchSize retention s (.selected r) (s.finish r s.outbox)
  | selected (r : RelayId) (now : Timestamp) (todo : List Nat) (rows : List OutboxRow) :
      s.pcs r = .selecting now todo rows →
      Steps batchSize retention s (.selected r) (s.goto r (.publishing now [] rows false))
  | published (r : RelayId) (now : Timestamp) (done todo : List OutboxRow) (x : OutboxRow)
      (failed accepted : Bool) : s.pcs r = .publishing now done (x :: todo) failed →
      Steps batchSize retention s (.publish r accepted)
        { s.goto r (.publishing now (done ++ [x]) todo (failed || !accepted)) with
          handed := s.handed ++ [⟨x.id, topicChannel x.topic, x.payload, accepted⟩] }
  | raised (r : RelayId) (now : Timestamp) (done : List OutboxRow) :
      s.pcs r = .publishing now done [] true →
      Steps batchSize retention s (.executed r) (s.finish r s.outbox)
  | executed (r : RelayId) (now : Timestamp) (done : List OutboxRow) :
      s.pcs r = .publishing now done [] false →
      Steps batchSize retention s (.executed r) (s.goto r (.marking now done))
  | marked (r : RelayId) (now : Timestamp) (rows : List OutboxRow) : s.pcs r = .marking now rows →
      Steps batchSize retention s (.mark r) (s.goto r (.committing now rows))
  | committed (r : RelayId) (now : Timestamp) (rows : List OutboxRow) :
      s.pcs r = .committing now rows →
      Steps batchSize retention s (.commit r)
        (s.finish r (s.outbox.map (markPublished now (rows.map OutboxRow.id))))
  | swept (r : RelayId) (now : Timestamp) (victims : List Nat) : s.pcs r = .sweeping now [] victims →
      Steps batchSize retention s (.commit r)
        (s.finish r (s.outbox.filter (fun x => x.id ∉ victims)))
  | failed (r : RelayId) : Steps batchSize retention s (.fail r) (s.finish r s.outbox)

section Inversion

variable {batchSize retention : Nat} {s t : Relays} {r : RelayId}

theorem visit_cases (step : s.visit batchSize retention r = some t) :
    Steps batchSize retention s (.visit r) t := by
  unfold visit at step
  split at step
  · rename_i now id todo rows pc
    split at step
    · cases step
    · split at step
      · cases step
        exact .skipped r now id todo rows pc
      · rename_i free
        split at step
        · cases step
          exact .skipped r now id todo rows pc
        · rename_i x found
          cases step
          obtain ⟨row, unpublished⟩ := Option.filter_eq_some_iff.mp found
          exact .took r now id todo rows x pc (by simpa using free) row (by simpa using unpublished)
  · rename_i now id todo victims pc
    split at step
    · cases step
    · rename_i free
      split at step
      · rename_i old
        cases step
        obtain ⟨x, row, old⟩ := (Option.any_eq_true _ _).mp old
        exact .doomed r now id todo victims x pc (by simpa using free) row old
      · cases step
        exact .spared r now id todo victims pc
  · cases step

theorem selected_cases (step : s.selected batchSize r = some t) :
    Steps batchSize retention s (.selected r) t := by
  unfold Relays.selected at step
  split at step
  · rename_i now todo rows pc
    split at step
    · split at step
      · rename_i none
        cases step
        rw [none] at pc
        exact .empty r now todo pc
      · cases step
        exact .selected r now todo rows pc
    · cases step
  · cases step

theorem executed_cases (step : s.executed r = some t) :
    Steps batchSize retention s (.executed r) t := by
  unfold Relays.executed at step
  split at step
  · rename_i now done failed pc
    split at step
    · rename_i bad
      cases step
      rw [bad] at pc
      exact .raised r now done pc
    · rename_i good
      cases step
      rw [Bool.eq_false_iff.mpr good] at pc
      exact .executed r now done pc
  · cases step

theorem commit_cases (step : s.commit r = some t) : Steps batchSize retention s (.commit r) t := by
  unfold commit at step
  split at step
  · rename_i now rows pc
    cases step
    exact .committed r now rows pc
  · rename_i now victims pc
    cases step
    exact .swept r now victims pc
  · cases step

theorem step_cases {i : RelayInput} (step : s.step batchSize retention i = some t) :
    Steps batchSize retention s i t := by
  cases i with
  | insert rows =>
    obtain ⟨fresh, eq⟩ := Option.ite_none_right_eq_some.mp step
    cases eq
    exact .inserted rows fresh.1 fresh.2
  | publishBatch r now =>
    simp only [Relays.step, publishBatch] at step
    split at step
    · rename_i pc
      cases step
      exact .began r now pc
    · cases step
  | sweep r now =>
    simp only [Relays.step, sweep] at step
    split at step
    · rename_i pc
      cases step
      exact .sweeps r now pc
    · cases step
  | visit r => exact visit_cases step
  | selected r => exact selected_cases step
  | publish r accepted =>
    simp only [Relays.step, publish] at step
    split at step
    · rename_i now done x todo failed pc
      cases step
      exact .published r now done todo x failed accepted pc
    · cases step
  | executed r => exact executed_cases step
  | mark r =>
    simp only [Relays.step, mark] at step
    split at step
    · rename_i now rows pc
      cases step
      exact .marked r now rows pc
    · cases step
  | commit r => exact commit_cases step
  | fail r =>
    simp only [Relays.step, fail] at step
    split at step
    · cases step
    · cases step
      exact .failed r

end Inversion

end Relays

/-- `batchSize` and `retention` are those of the relays, the latter in microseconds. -/
def relays (batchSize retention : Nat) : Machine Relays RelayInput :=
  ⟨Relays.init, Relays.step batchSize retention⟩

end ChatBackend

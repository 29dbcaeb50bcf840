import ChatBackend.Lib.EventFlag
import ChatBackend.Realtime.RelaySafety

/-! The loop of one relay and the flag that wakes it. Between any two of its awaits transactions of
the same replica commit and notify, other replicas commit and run their relays, and any statement of
the loop may fail. -/

namespace ChatBackend

open Lib

/-- The relay whose loop this is, and its parameters. Times are in microseconds. -/
structure LoopConfig where
  me : RelayId
  batchSize : Nat
  retention : Nat
  pollInterval : Nat

def backlogRefresh : Nat := 5000000

def retentionSweep : Nat := 60000000

def maxDelay : Nat := 5000000

/-- Where `_run` stands. `published` is what `publish_batch` returned, `now` the time read after it. -/
inductive RelayRunPc where
  | top
  | publishing
  | returned (published : Nat)
  | counting (published now : Nat)
  | sweeping (published now : Nat)
  | backoff
  | parked
  | stopped
  deriving DecidableEq

structure RelayRun where
  pc : RelayRunPc
  delay : Nat
  nextBacklog : Nat
  nextSweep : Nat

namespace RelayRun

variable (cfg : LoopConfig) (l : RelayRun)

def start : RelayRun := ⟨.top, cfg.pollInterval, 0, 0⟩

def goto (pc : RelayRunPc) : RelayRun := { l with pc := pc }

/-- The end of the cycle: go on at once after a full batch, wait for the flag otherwise. -/
def finish (published : Nat) : RelayRun :=
  { l with
    delay := cfg.pollInterval
    pc := if published ≥ cfg.batchSize then .top else .parked }

def checkSweep (published now : Nat) : RelayRun :=
  if now ≥ l.nextSweep then l.goto (.sweeping published now) else l.finish cfg published

def checkBacklog (published now : Nat) : RelayRun :=
  if now ≥ l.nextBacklog then l.goto (.counting published now) else l.checkSweep cfg published now

/-- The handler of an exception in the cycle. -/
def raise : RelayRun :=
  { l with pc := .backoff, nextBacklog := 0, delay := min (l.delay * 2) maxDelay }

/-- After a step of `publish_batch`, which takes its transaction from `pc` to `next`. -/
def inBatch (pc next : RelayPc) : RelayInput → Option RelayRun
  | .selected _ =>
    match next with
    | .idle => some (l.goto (.returned 0))
    | _ => some l
  | .executed _ =>
    match next with
    | .idle => some l.raise
    | _ => some l
  | .commit _ => some (l.goto (.returned pc.batch.length))
  | .fail _ => some l.raise
  | .publishBatch _ _ | .visit _ | .publish _ _ | .mark _ => some l
  | .insert _ | .sweep _ _ => none

/-- After a step of `_sweep`. -/
def inSweep (published now : Nat) : RelayInput → Option RelayRun
  | .sweep _ _ | .visit _ => some l
  | .commit _ => some ({ l with nextSweep := now + retentionSweep }.finish cfg published)
  | .fail _ => some l.raise
  | _ => none

def own (pc next : RelayPc) (i : RelayInput) : Option RelayRun :=
  match l.pc with
  | .publishing => l.inBatch pc next i
  | .sweeping published now => l.inSweep cfg published now i
  | _ => none

end RelayRun

/-- `awaiting` are the rows of transactions that have committed and not yet called `notify`;
`marked`, the rows whose marking some batch has committed; `passed`, the rows that this relay's last
SELECT found locked by the batch of another. -/
structure Waking where
  relays : Relays
  flag : EventFlag Nat
  run : RelayRun
  awaiting : List (List Nat)
  marked : List Nat
  passed : List Nat

/-- `lost`: a transaction of the relay commits and the answer does not arrive. -/
inductive WakingInput where
  | commit (rows : List (Nat × Outbox))
  | notify (ids : List Nat)
  | elsewhere (rows : List (Nat × Outbox))
  | relay (i : RelayInput)
  | clear
  | resume (now : Nat)
  | counted
  | raise
  | lost
  | slept
  | woken
  | timeout
  | cancel

/-- The relay that takes the step; none does an insert. -/
def RelayInput.relay? : RelayInput → Option RelayId
  | .insert _ => none
  | .publishBatch r _ => some r
  | .sweep r _ => some r
  | .visit r => some r
  | .selected r => some r
  | .publish r _ => some r
  | .executed r => some r
  | .mark r => some r
  | .commit r => some r
  | .fail r => some r

namespace Relays

/-- Another replica's `publish_batch` holds the row. -/
def lockedByBatch (s : Relays) (r : RelayId) (id : Nat) : Bool :=
  s.locks.any (fun l => l.1 ≠ r && l.2 == id && ((s.pcs l.1).batch.map OutboxRow.id).contains id)

/-- The rows that the step marks as published. -/
def marks (s : Relays) : RelayInput → List Nat
  | .commit r => (s.pcs r).batch.map OutboxRow.id
  | _ => []

end Relays

namespace Waking

def init (cfg : LoopConfig) : Waking := ⟨Relays.init, .init, .start cfg, [], [], []⟩

def ids (rows : List (Nat × Outbox)) : List Nat := rows.map Prod.fst

def looks (cfg : LoopConfig) (s : Waking) : RelayInput → EventFlag Nat
  | .publishBatch r _ => if r = cfg.me then s.flag.look else s.flag
  | _ => s.flag

/-- What a step of the relays leaves of the rows that the last SELECT passed over. -/
def passes (cfg : LoopConfig) (s : Waking) : RelayInput → List Nat
  | .publishBatch r _ => if r = cfg.me then [] else s.passed
  | .visit r =>
    match s.relays.pcs r with
    | .selecting _ (id :: _) _ =>
      if r = cfg.me ∧ s.relays.lockedByBatch r id then s.passed ++ [id] else s.passed
    | _ => s.passed
  | _ => s.passed

def acted (cfg : LoopConfig) (s : Waking) (i : RelayInput) (relays : Relays) (run : RelayRun) : Waking :=
  { s with
    relays := relays
    flag := s.looks cfg i
    run := run
    marked := s.marked ++ s.relays.marks i
    passed := s.passes cfg i }

/-- The loop follows its own relay and no other. -/
def ran (cfg : LoopConfig) (s : Waking) (r : RelayId) (relays : Relays) (i : RelayInput) :
    Option RelayRun :=
  if r = cfg.me then s.run.own cfg (s.relays.pcs r) (relays.pcs r) i else some s.run

def relay (cfg : LoopConfig) (s : Waking) (i : RelayInput) : Option Waking := do
  let r ← i.relay?
  let relays ← s.relays.step cfg.batchSize cfg.retention i
  let run ← s.ran cfg r relays i
  some (s.acted cfg i relays run)

def step (cfg : LoopConfig) (s : Waking) : WakingInput → Option Waking
  | .commit rows => (s.relays.insert rows).map fun relays => { s with
      relays := relays
      flag := s.flag.post (ids rows)
      awaiting := s.awaiting ++ [ids rows] }
  | .notify ids =>
    if ids ∈ s.awaiting then
      some { s with flag := s.flag.announce ids, awaiting := s.awaiting.erase ids }
    else none
  | .elsewhere rows => (s.relays.insert rows).map fun relays => { s with
      relays := relays
      flag := s.flag.post (ids rows) }
  | .relay i => s.relay cfg i
  | .clear =>
    match s.run.pc with
    | .top => some { s with flag := s.flag.clear, run := s.run.goto .publishing }
    | _ => none
  | .resume now =>
    match s.run.pc with
    | .returned published => some { s with run := s.run.checkBacklog cfg published now }
    | _ => none
  | .counted =>
    match s.run.pc with
    | .counting published now => some { s with
        run := { s.run with nextBacklog := now + backlogRefresh }.checkSweep cfg published now }
    | _ => none
  | .raise =>
    match s.run.pc, s.relays.pcs cfg.me with
    | .publishing, .idle | .counting _ _, .idle | .sweeping _ _, .idle =>
      some { s with run := s.run.raise }
    | _, _ => none
  | .lost => (s.relay cfg (.commit cfg.me)).map fun t => { t with run := s.run.raise }
  | .slept =>
    match s.run.pc with
    | .backoff => some { s with run := s.run.goto .top }
    | _ => none
  | .woken =>
    match s.run.pc with
    | .parked => if s.flag.raised then some { s with run := s.run.goto .top } else none
    | _ => none
  | .timeout =>
    match s.run.pc with
    | .parked => some { s with run := s.run.goto .top }
    | _ => none
  | .cancel => some { s with
      relays := s.relays.finish cfg.me s.relays.outbox
      run := s.run.goto .stopped }

end Waking

def waking (cfg : LoopConfig) : Machine Waking WakingInput := ⟨Waking.init cfg, Waking.step cfg⟩

/-- While the relay waits with its flag down, every row that it was told of has been marked, or was
in the batch of another replica when the relay last looked. -/
def Waking.NoneLost (s : Waking) : Prop :=
  s.run.pc = .parked → s.flag.raised = false →
    ∀ id ∈ s.flag.announced, id ∈ s.marked ∨ id ∈ s.passed

end ChatBackend

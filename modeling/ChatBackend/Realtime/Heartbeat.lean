import Mathlib.Algebra.Order.Field.Rat
import Mathlib.Tactic.Linarith
import ChatBackend.Realtime.Session

/-! The heartbeat with its clock. Time passes between any two steps, and a task that has slept its
time may still be woken late. A frame that has come waits until the reader is back from the one before
it. -/

namespace ChatBackend

open Lib

variable {ε : Type}

structure HeartbeatSettings where
  wsHeartbeatSeconds : ℚ
  wsIdleTimeoutSeconds : ℚ

/-- `wakeAt` is when the heartbeat is to go on. `waiting` are the times at which the frames came that the
reader has yet to receive, the first one first, and `handling` says that it is in `_handle`. The other
lists are there to speak about a run, the last time first: `arrived` when frames came, `heard` when the
session was opened and when it received them, `owed` the pings queued since a frame last came and
`unseen` those since one was received. -/
structure TimedSession (ε : Type) where
  session : SocketSession ε
  now : ℚ
  lastSeen : ℚ
  wakeAt : ℚ
  waiting : List ℚ
  handling : Bool
  arrived : List ℚ
  heard : List ℚ
  owed : List ℚ
  unseen : List ℚ

/-- `receives`: `ws.receive` returns a frame. What the reader does with it shows as other inputs, and
`handled` is when it asks for the next one. -/
inductive TimedInput (ε : Type) where
  | pass (seconds : ℚ)
  | arrives
  | receives
  | handled
  | beat
  | other (i : SessionInput ε)

def SessionInput.isBeat : SessionInput ε → Bool
  | .beat _ => true
  | _ => false

namespace TimedSession

def init (opened : ℚ) : TimedSession ε where
  session := SocketSession.init
  now := opened
  lastSeen := opened
  wakeAt := opened
  waiting := []
  handling := false
  arrived := []
  heard := [opened]
  owed := []
  unseen := []

section Steps

variable (cfg : HeartbeatSettings) (hello ping : ε) (s : TimedSession ε)

def isIdle : Bool := cfg.wsIdleTimeoutSeconds < s.now - s.lastSeen

def arrives : TimedSession ε :=
  { s with waiting := s.waiting ++ [s.now], arrived := s.now :: s.arrived, owed := [] }

def receives (rest : List ℚ) : TimedSession ε :=
  { s with
    lastSeen := s.now
    waiting := rest
    handling := true
    heard := s.now :: s.heard
    unseen := [] }

/-- The heartbeat sleeps again, unless it has ended. -/
def woken (k : SocketSession ε) : TimedSession ε :=
  { s with session := k, wakeAt := s.now + cfg.wsHeartbeatSeconds }

def pinged (k : SocketSession ε) : TimedSession ε :=
  { s.woken cfg k with owed := s.now :: s.owed, unseen := s.now :: s.unseen }

/-- A beat that finds the client idle closes, any other one pings, and the first one only looks at the
flag. A ping that was not queued leaves the connection closing and ends the heartbeat. -/
def beat : Option (TimedSession ε) :=
  if s.now < s.wakeAt then none
  else (s.session.step hello ping (.beat (s.isIdle cfg))).map (fun k =>
    if s.session.heartbeat = .sleeping ∧ k.heartbeat = .sleeping then s.pinged cfg k else s.woken cfg k)

def step : TimedInput ε → Option (TimedSession ε)
  | .pass seconds => if 0 ≤ seconds then some { s with now := s.now + seconds } else none
  | .arrives => some s.arrives
  | .receives =>
    match s.waiting with
    | [] => none
    | _ :: rest =>
      if s.session.run = .waiting ∧ s.session.readerDone = false ∧ s.handling = false then
        some (s.receives rest)
      else none
  | .handled => if s.handling then some { s with handling := false } else none
  | .beat => s.beat cfg hello ping
  | .other i =>
    if i.isBeat then none
    else (s.session.step hello ping i).map (fun t => { s with session := t })

end Steps

end TimedSession

def timedSession (cfg : HeartbeatSettings) (hello ping : ε) (opened : ℚ) :
    Machine (TimedSession ε) (TimedInput ε) :=
  ⟨TimedSession.init opened, TimedSession.step cfg hello ping⟩

namespace SocketSession

/-- The heartbeat sleeps, in a session that is not over. -/
def Beating (s : SocketSession ε) : Prop := s.heartbeat = .sleeping ∧ s.run.isOver = false

instance decidableBeating (s : SocketSession ε) : Decidable s.Beating :=
  inferInstanceAs (Decidable (s.heartbeat = .sleeping ∧ s.run.isOver = false))

variable {hello ping : ε} {s t : SocketSession ε}

/-- Nobody else moves the heartbeat. -/
theorem heartbeat_other {i : SessionInput ε} (other : i.isBeat = false)
    (step : s.step hello ping i = some t) : t.heartbeat = s.heartbeat := by
  cases step_cases step with
  | send | close | launched | readerEnds | takeEvent | takeClose | sent | closed | sendFails
  | cancel => rfl
  | finish =>
    unfold finish
    split <;> rfl
  | starts | idles | pings => cases other

theorem heartbeat_woken {idle : Bool} (step : s.step hello ping (.beat idle) = some t) :
    t.heartbeat ≠ .start := by
  cases step_cases step with
  | starts waiting => by_cases closing : s.feed.conn.closing = true <;> simp [closing]
  | idles f waiting sleeping fed => simp
  | pings f waiting sleeping fed => by_cases closing : f.conn.closing = true <;> simp [closing]

theorem Beating.of_beat {idle : Bool} (asleep : s.heartbeat = .sleeping)
    (step : s.step hello ping (.beat idle) = some t) : s.Beating := by
  obtain ⟨waiting, -⟩ := Option.ite_none_right_eq_some.mp step
  exact ⟨asleep, by rw [waiting]; rfl⟩

theorem over_stays {i : SessionInput ε} (ended : s.run.isOver = true)
    (step : s.step hello ping i = some t) : t.run.isOver = true := by
  cases step_cases step with
  | send | close => exact ended
  | launched f fresh =>
    rw [fresh] at ended
    cases ended
  | cancel => rfl
  | finish =>
    unfold finish
    split <;> rfl
  | readerEnds waiting | takeEvent e f waiting | takeClose code reason f waiting | sent e waiting
  | closed waiting | sendFails e lost waiting | starts idle waiting | idles f waiting
  | pings f waiting => exact absurd ended (not_over waiting)

theorem Beating.before {i : SessionInput ε} (other : i.isBeat = false)
    (step : s.step hello ping i = some t) (beating : t.Beating) : s.Beating := by
  refine ⟨(heartbeat_other other step).symm.trans beating.1, Bool.eq_false_iff.mpr fun ended => ?_⟩
  exact Bool.false_ne_true (beating.2.symm.trans (over_stays ended step))

/-- The beat that finds the client idle asks for the close and is the last one. -/
theorem idle_closes (pc : s.heartbeat = .sleeping) (step : s.step hello ping (.beat true) = some t) :
    t.heartbeat = .done ∧ t.feed.conn = s.feed.conn.close closeIdle.1 closeIdle.2 := by
  obtain ⟨waiting, eq⟩ := Option.ite_none_right_eq_some.mp step
  simp only [beat, pc, if_true] at eq
  obtain ⟨f, fed, rfl⟩ := Option.map_eq_some_iff.mp eq
  cases fed
  exact ⟨rfl, rfl⟩

end SocketSession

namespace TimedSession

variable {cfg : HeartbeatSettings} {hello ping : ε} {s t : TimedSession ε} {late r opened : ℚ}

inductive Steps (cfg : HeartbeatSettings) (hello ping : ε) (s : TimedSession ε) :
    TimedInput ε → TimedSession ε → Prop where
  | passed (seconds : ℚ) : 0 ≤ seconds →
      Steps cfg hello ping s (.pass seconds) { s with now := s.now + seconds }
  | arrives : Steps cfg hello ping s .arrives s.arrives
  | receives (f : ℚ) (rest : List ℚ) : s.waiting = f :: rest →
      Steps cfg hello ping s .receives (s.receives rest)
  | handled : Steps cfg hello ping s .handled { s with handling := false }
  | starts (k : SocketSession ε) : s.wakeAt ≤ s.now → s.session.heartbeat = .start →
      s.session.step hello ping (.beat (s.isIdle cfg)) = some k →
      Steps cfg hello ping s .beat (s.woken cfg k)
  | idles (k : SocketSession ε) : s.wakeAt ≤ s.now → s.session.heartbeat = .sleeping →
      cfg.wsIdleTimeoutSeconds < s.now - s.lastSeen → s.session.step hello ping (.beat true) = some k →
      Steps cfg hello ping s .beat (s.woken cfg k)
  | pings (k : SocketSession ε) : s.wakeAt ≤ s.now → s.session.heartbeat = .sleeping →
      s.now - s.lastSeen ≤ cfg.wsIdleTimeoutSeconds → s.session.step hello ping (.beat false) = some k →
      k.heartbeat = .sleeping → Steps cfg hello ping s .beat (s.pinged cfg k)
  | refused (k : SocketSession ε) : s.wakeAt ≤ s.now → s.session.heartbeat = .sleeping →
      s.now - s.lastSeen ≤ cfg.wsIdleTimeoutSeconds → s.session.step hello ping (.beat false) = some k →
      k.heartbeat ≠ .sleeping → Steps cfg hello ping s .beat (s.woken cfg k)
  | other (i : SessionInput ε) (k : SocketSession ε) : i.isBeat = false →
      s.session.step hello ping i = some k → Steps cfg hello ping s (.other i) { s with session := k }

theorem step_cases {i : TimedInput ε} (h : s.step cfg hello ping i = some t) :
    Steps cfg hello ping s i t := by
  cases i with
  | pass seconds =>
    obtain ⟨forward, eq⟩ := Option.ite_none_right_eq_some.mp h
    cases eq
    exact .passed seconds forward
  | arrives =>
    cases h
    exact .arrives
  | receives =>
    simp only [step] at h
    split at h
    · cases h
    · rename_i f rest queue
      obtain ⟨-, eq⟩ := Option.ite_none_right_eq_some.mp h
      cases eq
      exact .receives f rest queue
  | handled =>
    obtain ⟨-, eq⟩ := Option.ite_none_right_eq_some.mp h
    cases eq
    exact .handled
  | beat =>
    obtain ⟨due, eq⟩ := Option.ite_none_left_eq_some.mp h
    have due : s.wakeAt ≤ s.now := not_lt.mp due
    obtain ⟨k, step, rfl⟩ := Option.map_eq_some_iff.mp eq
    cases pc : s.session.heartbeat with
    | start =>
      rw [if_neg (fun both => by cases both.1)]
      exact .starts k due pc step
    | sleeping =>
      cases idle : s.isIdle cfg with
      | true =>
        rw [idle] at step
        have ended := (SocketSession.idle_closes pc step).1
        rw [if_neg (fun both => by rw [ended] at both; cases both.2)]
        exact .idles k due pc (of_decide_eq_true idle) step
      | false =>
        rw [idle] at step
        have seen := not_lt.mp (of_decide_eq_false idle)
        by_cases on : k.heartbeat = .sleeping
        · rw [if_pos ⟨rfl, on⟩]
          exact .pings k due pc seen step on
        · rw [if_neg (fun both => on both.2)]
          exact .refused k due pc seen step on
    | done =>
      obtain ⟨waiting, eq⟩ := Option.ite_none_right_eq_some.mp step
      rw [SocketSession.beat, pc] at eq
      cases eq
  | other i =>
    obtain ⟨other, eq⟩ := Option.ite_none_left_eq_some.mp h
    obtain ⟨k, step, rfl⟩ := Option.map_eq_some_iff.mp eq
    exact .other i k (Bool.eq_false_iff.mpr other) step

/-! Without its clock a timed session is a session. -/

def emit (cfg : HeartbeatSettings) (s : TimedSession ε) : TimedInput ε → Option (SessionInput ε)
  | .pass _ | .arrives | .receives | .handled => none
  | .beat => some (.beat (s.isIdle cfg))
  | .other i => some i

theorem refines (cfg : HeartbeatSettings) (hello ping : ε) (opened : ℚ) :
    Machine.Refines (timedSession cfg hello ping opened) (socketSession hello ping) (fun _ => True)
      TimedSession.session (emit cfg) where
  initial := trivial
  keep _ _ _ _ _ := trivial
  init := rfl
  quiet s i t _ step silent := by
    cases step_cases step with
    | passed | arrives | receives | handled => rfl
    | starts | idles | pings | refused | other => cases silent
  visible s i t j _ step said := by
    cases step_cases step with
    | passed | arrives | receives | handled => cases said
    | starts k due pc beat =>
      cases said
      exact beat
    | idles k due pc idle beat =>
      cases said
      rw [show s.isIdle cfg = true from decide_eq_true idle]
      exact beat
    | pings k due pc seen beat | refused k due pc seen beat =>
      cases said
      rw [show s.isIdle cfg = false from decide_eq_false (not_lt.mpr seen)]
      exact beat
    | other i k other moved =>
      cases said
      exact moved

/-! The frames between their coming and their receipt. -/

structure Queued (s : TimedSession ε) : Prop where
  past : ∀ f ∈ s.waiting, f ≤ s.now
  sorted : s.waiting.Pairwise (· ≤ ·)
  accounted : ∀ a ∈ s.arrived, a ≤ s.lastSeen ∨ a ∈ s.waiting
  seen : s.lastSeen ≤ s.now
  last : s.lastSeen ∈ s.heard
  earlier : ∀ t ∈ s.heard, t ≤ s.lastSeen
  pings : ∀ p ∈ s.owed, p ≤ s.now

theorem Queued.init : Queued (init opened : TimedSession ε) where
  past := List.forall_mem_nil _
  sorted := .nil
  accounted := List.forall_mem_nil _
  seen := le_rfl
  last := List.mem_singleton_self _
  earlier _ mem := (List.mem_singleton.mp mem).le
  pings := List.forall_mem_nil _

theorem Queued.step {i : TimedInput ε} (queued : s.Queued) (step : Steps cfg hello ping s i t) :
    t.Queued := by
  obtain ⟨past, sorted, accounted, seen, last, earlier, pings⟩ := queued
  cases step with
  | passed seconds forward =>
    exact ⟨fun f mem => (past f mem).trans (by simpa using forward), sorted, accounted,
      seen.trans (by simpa using forward), last, earlier,
      fun p mem => (pings p mem).trans (by simpa using forward)⟩
  | arrives =>
    refine ⟨?_, ?_, ?_, seen, last, earlier, List.forall_mem_nil _⟩
    · exact List.forall_mem_append.mpr ⟨past, List.forall_mem_singleton.mpr le_rfl⟩
    · refine List.pairwise_append.mpr ⟨sorted, List.pairwise_singleton .., fun f mem g new => ?_⟩
      rw [List.mem_singleton.mp new]
      exact past f mem
    · refine List.forall_mem_cons.mpr ⟨.inr ?_, fun a mem => ?_⟩
      · exact List.mem_append_right _ (List.mem_singleton_self _)
      · exact (accounted a mem).imp_right (List.mem_append_left _)
  | receives f rest queue =>
    rw [queue] at past sorted accounted
    obtain ⟨came, past⟩ := List.forall_mem_cons.mp past
    refine ⟨past, (List.pairwise_cons.mp sorted).2, fun a mem => ?_, le_rfl, List.mem_cons_self, ?_,
      pings⟩
    · rcases accounted a mem with old | waits
      · exact .inl (old.trans seen)
      · rcases List.mem_cons.mp waits with rfl | waits
        · exact .inl came
        · exact .inr waits
    · exact List.forall_mem_cons.mpr ⟨le_rfl, fun h mem => (earlier h mem).trans seen⟩
  | handled | starts | idles | refused | other =>
    exact ⟨past, sorted, accounted, seen, last, earlier, pings⟩
  | pings k due pc heard beat =>
    exact ⟨past, sorted, accounted, seen, last, earlier, List.forall_mem_cons.mpr ⟨le_rfl, pings⟩⟩

theorem queued (cfg : HeartbeatSettings) (hello ping : ε) (opened : ℚ) (is : List (TimedInput ε)) :
    ((timedSession cfg hello ping opened).run is).Queued :=
  (timedSession cfg hello ping opened).run_invariant Queued Queued.init
    (fun _ _ _ queued step => queued.step (step_cases step)) is

/-! A silent client is found out. -/

/-- The heartbeat goes on at most so long after its time. -/
def Prompt (late : ℚ) (x : Move (TimedSession ε) (TimedInput ε)) : Prop :=
  match x.action with
  | .beat => x.before.now ≤ x.before.wakeAt + late
  | _ => True

/-- The beat that finds the client idle. -/
def Idles (cfg : HeartbeatSettings) (x : Move (TimedSession ε) (TimedInput ε)) : Prop :=
  match x.action with
  | .beat => x.before.session.heartbeat = .sleeping ∧ x.before.isIdle cfg = true
  | _ => False

/-- The reader comes for a frame at most so long after the frame has come or the last one was
received. -/
def Attends (h : ℚ) (x : Move (TimedSession ε) (TimedInput ε)) : Prop :=
  match x.action with
  | .beat => ∀ f ∈ x.before.waiting.head?, x.before.now ≤ max f x.before.lastSeen + h
  | _ => True

instance decidablePrompt (late : ℚ) (x : Move (TimedSession ε) (TimedInput ε)) :
    Decidable (Prompt late x) :=
  match x with
  | ⟨s, .beat, _⟩ => inferInstanceAs (Decidable (s.now ≤ s.wakeAt + late))
  | ⟨_, .pass _, _⟩ | ⟨_, .arrives, _⟩ | ⟨_, .receives, _⟩ | ⟨_, .handled, _⟩ | ⟨_, .other _, _⟩ =>
    .isTrue trivial

instance decidableIdles (cfg : HeartbeatSettings) (x : Move (TimedSession ε) (TimedInput ε)) :
    Decidable (Idles cfg x) :=
  match x with
  | ⟨s, .beat, _⟩ => inferInstanceAs (Decidable (s.session.heartbeat = .sleeping ∧ s.isIdle cfg = true))
  | ⟨_, .pass _, _⟩ | ⟨_, .arrives, _⟩ | ⟨_, .receives, _⟩ | ⟨_, .handled, _⟩ | ⟨_, .other _, _⟩ =>
    .isFalse id

instance decidableAttends (h : ℚ) (x : Move (TimedSession ε) (TimedInput ε)) :
    Decidable (Attends h x) :=
  match x with
  | ⟨s, .beat, _⟩ =>
    inferInstanceAs (Decidable (∀ f ∈ s.waiting.head?, s.now ≤ max f s.lastSeen + h))
  | ⟨_, .pass _, _⟩ | ⟨_, .arrives, _⟩ | ⟨_, .receives, _⟩ | ⟨_, .handled, _⟩ | ⟨_, .other _, _⟩ =>
    .isTrue trivial

/-- Where nothing was received for so long, whatever waits came just now. -/
theorem Queued.silent (queued : s.Queued) {idle h : ℚ} (silence : idle < s.now - s.lastSeen)
    (patient : h ≤ idle) (attends : ∀ f ∈ s.waiting.head?, s.now ≤ max f s.lastSeen + h) :
    ∀ a ∈ s.arrived, idle < s.now - a ∨ s.now ≤ a + h := by
  intro a mem
  rcases queued.accounted a mem with old | waits
  · left
    linarith
  · right
    cases queue : s.waiting with
    | nil =>
      rw [queue] at waits
      cases waits
    | cons f rest =>
      have attended := attends f (by rw [queue, List.head?_cons]; rfl)
      have first : f ≤ a := by
        have sorted := queued.sorted
        rw [queue] at sorted waits
        rcases List.mem_cons.mp waits with rfl | later
        · exact le_rfl
        · exact (List.pairwise_cons.mp sorted).1 a later
      rcases max_choice f s.lastSeen with new | old
      · rw [new] at attended
        linarith
      · rw [old] at attended
        linarith

structure Watched (cfg : HeartbeatSettings) (s : TimedSession ε) : Prop where
  queue : s.Queued
  start : s.session.heartbeat = .start → s.wakeAt ≤ s.lastSeen ∧ s.unseen = []
  asleep : s.session.heartbeat = .sleeping →
    s.wakeAt ≤ s.lastSeen + cfg.wsIdleTimeoutSeconds + cfg.wsHeartbeatSeconds
  apart : s.unseen ≠ [] → s.lastSeen + s.unseen.length * cfg.wsHeartbeatSeconds ≤ s.wakeAt
  few : s.unseen.length * cfg.wsHeartbeatSeconds ≤ cfg.wsIdleTimeoutSeconds + cfg.wsHeartbeatSeconds

theorem Watched.init (often : 0 ≤ cfg.wsHeartbeatSeconds) (patient : 0 ≤ cfg.wsIdleTimeoutSeconds) :
    Watched cfg (init opened : TimedSession ε) where
  queue := Queued.init
  start _ := ⟨le_rfl, rfl⟩
  asleep asleep := by cases asleep
  apart some := absurd rfl some
  few := by
    simp only [TimedSession.init, List.length_nil]
    push_cast
    linarith

theorem Watched.step {i : TimedInput ε} (often : 0 ≤ cfg.wsHeartbeatSeconds)
    (patient : 0 ≤ cfg.wsIdleTimeoutSeconds) (within : late ≤ cfg.wsIdleTimeoutSeconds)
    (watched : s.Watched cfg) (prompt : Prompt late ⟨s, i, t⟩) (step : Steps cfg hello ping s i t) :
    t.Watched cfg := by
  have queue := watched.queue.step step
  obtain ⟨⟨-, -, -, seen, -, -, -⟩, start, asleep, apart, few⟩ := watched
  cases step with
  | passed | arrives | handled => exact ⟨queue, start, asleep, apart, few⟩
  | receives f rest waits =>
    refine ⟨queue, fun pc => ⟨(start pc).1.trans seen, rfl⟩, fun pc => ?_,
      fun some => absurd rfl some, ?_⟩
    · have before := asleep pc
      dsimp only [TimedSession.receives]
      linarith
    · simp only [TimedSession.receives, List.length_nil]
      push_cast
      linarith
  | starts k due pc beat =>
    obtain ⟨soon, none⟩ := start pc
    have now : s.now ≤ s.wakeAt + late := prompt
    refine ⟨queue, fun again => absurd again (SocketSession.heartbeat_woken beat), fun _ => ?_,
      fun some => absurd none some, few⟩
    dsimp only [woken]
    linarith
  | idles k due pc idle beat =>
    have ended := (SocketSession.idle_closes pc beat).1
    refine ⟨queue, fun pc => ?_, fun pc => ?_, fun some => ?_, few⟩
    · rw [show k.heartbeat = _ from pc] at ended
      cases ended
    · rw [show k.heartbeat = _ from pc] at ended
      cases ended
    · have before := apart some
      dsimp only [woken]
      linarith
  | refused k due pc heard beat off =>
    refine ⟨queue, fun again => absurd again (SocketSession.heartbeat_woken beat),
      fun on => absurd on off, fun some => ?_, few⟩
    have before := apart some
    dsimp only [woken]
    linarith
  | pings k due pc heard beat =>
    -- the earlier pings have been slept through one after the other
    have slept : s.lastSeen + s.unseen.length * cfg.wsHeartbeatSeconds ≤ s.now := by
      by_cases none : s.unseen = []
      · simpa [none] using seen
      · exact (apart none).trans due
    refine ⟨queue, fun again => absurd again (SocketSession.heartbeat_woken beat), fun _ => ?_,
      fun _ => ?_, ?_⟩
    · dsimp only [pinged, woken]
      linarith
    · simp only [pinged, woken, List.length_cons]
      push_cast
      linarith
    · simp only [pinged, List.length_cons]
      push_cast
      linarith
  | other i k other step =>
    have same := SocketSession.heartbeat_other other step
    exact ⟨queue, fun pc => start (same ▸ pc), fun pc => asleep (same ▸ pc), apart, few⟩

/-! A client that answers is kept. -/

/-- No ping waits longer for a frame to come, while there is a heartbeat to hear it. -/
def Answers (r : ℚ) (x : Move (TimedSession ε) (TimedInput ε)) : Prop :=
  x.before.session.Beating → ∀ p ∈ x.before.owed, x.before.now ≤ p + r

instance decidableAnswers (r : ℚ) (x : Move (TimedSession ε) (TimedInput ε)) : Decidable (Answers r x) :=
  inferInstanceAs (Decidable (x.before.session.Beating → ∀ p ∈ x.before.owed, x.before.now ≤ p + r))

/-- `first`: the frame that waits has come in time, or the heartbeat will see it in time. -/
structure Heard (cfg : HeartbeatSettings) (late r : ℚ) (s : TimedSession ε) : Prop where
  queue : s.Queued
  start : s.session.heartbeat = .start → s.wakeAt ≤ s.lastSeen ∧ s.owed = []
  slept : s.session.heartbeat = .sleeping → s.wakeAt ≤ s.now + cfg.wsHeartbeatSeconds
  fresh : s.session.Beating → s.waiting = [] → s.owed = [] →
    s.wakeAt ≤ s.lastSeen + late + cfg.wsHeartbeatSeconds
  owed : s.session.Beating → s.waiting = [] → s.owed ≠ [] →
    ∃ p ∈ s.owed, p ≤ s.lastSeen + cfg.wsHeartbeatSeconds + 2 * late
  first : s.session.Beating → ∀ f ∈ s.waiting.head?,
    f ≤ s.lastSeen + r + cfg.wsHeartbeatSeconds + 2 * late ∨
      s.wakeAt ≤ s.lastSeen + late + cfg.wsHeartbeatSeconds

theorem Heard.init : Heard cfg late r (init opened : TimedSession ε) where
  queue := Queued.init
  start _ := ⟨le_rfl, rfl⟩
  slept asleep := by cases asleep
  fresh beating := by cases beating.1
  owed beating := by cases beating.1
  first beating := by cases beating.1

section Responsive

variable {h : ℚ} (wait : 0 ≤ r) (busy : 0 ≤ h) (delay : 0 ≤ late)
  (often : 0 ≤ cfg.wsHeartbeatSeconds)

include wait busy delay often in
/-- However long ago the last frame was received, the next one or the oldest ping since is younger. -/
theorem Heard.not_idle
    (responsive : r + h + cfg.wsHeartbeatSeconds + 2 * late ≤ cfg.wsIdleTimeoutSeconds)
    (heard : s.Heard cfg late r) (beating : s.session.Beating)
    (prompt : s.now ≤ s.wakeAt + late) (answers : ∀ p ∈ s.owed, s.now ≤ p + r)
    (attends : ∀ f ∈ s.waiting.head?, s.now ≤ max f s.lastSeen + h) :
    s.now - s.lastSeen ≤ cfg.wsIdleTimeoutSeconds := by
  cases queue : s.waiting with
  | nil =>
    by_cases none : s.owed = []
    · have fresh := heard.fresh beating queue none
      linarith
    · obtain ⟨p, mem, young⟩ := heard.owed beating queue none
      have answered := answers p mem
      linarith
  | cons f rest =>
    have head : f ∈ s.waiting.head? := by rw [queue]; rfl
    have attended := attends f head
    rcases max_choice f s.lastSeen with new | old
    · rw [new] at attended
      rcases heard.first beating f head with soon | seen
      · linarith
      · linarith
    · rw [old] at attended
      linarith

theorem Heard.arrives (heard : s.Heard cfg late r) (queue : s.arrives.Queued)
    (answers : s.session.Beating → ∀ p ∈ s.owed, s.now ≤ p + r) : s.arrives.Heard cfg late r where
  queue := queue
  start pc := ⟨(heard.start pc).1, rfl⟩
  slept := heard.slept
  fresh _ none := by simp [TimedSession.arrives] at none
  owed _ none := by simp [TimedSession.arrives] at none
  first beating := by
    cases queue : s.waiting with
    | nil =>
      have head : s.arrives.waiting.head? = some s.now := by
        rw [TimedSession.arrives, queue]
        rfl
      rw [head]
      rintro f ⟨⟩
      by_cases none : s.owed = []
      · exact .inr (heard.fresh beating queue none)
      · obtain ⟨p, mem, young⟩ := heard.owed beating queue none
        have answered := answers beating p mem
        left
        dsimp only [TimedSession.arrives]
        linarith
    | cons g rest =>
      have head : s.arrives.waiting.head? = s.waiting.head? := by
        rw [TimedSession.arrives, queue]
        rfl
      rw [head]
      exact heard.first beating

include wait delay often in
theorem Heard.receives {f : ℚ} {rest : List ℚ} (heard : s.Heard cfg late r)
    (queue : (s.receives rest).Queued) (waits : s.waiting = f :: rest) :
    (s.receives rest).Heard cfg late r where
  queue := queue
  start pc := ⟨(heard.start pc).1.trans heard.queue.seen, (heard.start pc).2⟩
  slept := heard.slept
  fresh beating _ _ := by
    have before := heard.slept beating.1
    dsimp only [TimedSession.receives]
    linarith
  owed _ _ some := by
    obtain ⟨p, mem⟩ := List.exists_mem_of_ne_nil _ some
    have past := heard.queue.pings p mem
    refine ⟨p, mem, ?_⟩
    dsimp only [TimedSession.receives]
    linarith
  first _ g next := by
    have past : g ≤ s.now := heard.queue.past g (by
      rw [waits]
      exact List.mem_cons_of_mem f (List.mem_of_mem_head? next))
    left
    dsimp only [TimedSession.receives]
    linarith

include wait delay often in
theorem Heard.step {i : TimedInput ε} (heard : s.Heard cfg late r) (prompt : Prompt late ⟨s, i, t⟩)
    (answers : Answers r ⟨s, i, t⟩) (step : Steps cfg hello ping s i t) : t.Heard cfg late r := by
  have queue := heard.queue.step step
  cases step with
  | passed seconds forward =>
    refine ⟨queue, heard.start, fun pc => ?_, heard.fresh, heard.owed, heard.first⟩
    have before := heard.slept pc
    dsimp only
    linarith
  | arrives => exact heard.arrives queue answers
  | receives f rest waits => exact heard.receives wait delay often queue waits
  | handled => exact ⟨queue, heard.start, heard.slept, heard.fresh, heard.owed, heard.first⟩
  | starts k due pc beat =>
    obtain ⟨soon, none⟩ := heard.start pc
    have now : s.now ≤ s.wakeAt + late := prompt
    refine ⟨queue, fun again => absurd again (SocketSession.heartbeat_woken beat), fun _ => le_rfl,
      fun _ _ _ => ?_, fun _ _ some => absurd none some, fun _ f head => .inr ?_⟩
    all_goals
      dsimp only [woken]
      linarith
  | idles k due pc idle beat =>
    have ended := (SocketSession.idle_closes pc beat).1
    have off : k.heartbeat ≠ .sleeping := by
      rw [ended]
      decide
    exact ⟨queue, fun again => absurd again (SocketSession.heartbeat_woken beat),
      fun on => absurd on off, fun on => absurd on.1 off, fun on => absurd on.1 off,
      fun on => absurd on.1 off⟩
  | refused k due pc seen beat off =>
    exact ⟨queue, fun again => absurd again (SocketSession.heartbeat_woken beat),
      fun on => absurd on off, fun on => absurd on.1 off, fun on => absurd on.1 off,
      fun on => absurd on.1 off⟩
  | pings k due pc seen beat =>
    have beating := SocketSession.Beating.of_beat pc beat
    have now : s.now ≤ s.wakeAt + late := prompt
    refine ⟨queue, fun again => absurd again (SocketSession.heartbeat_woken beat), fun _ => le_rfl,
      fun _ _ none => absurd none (List.cons_ne_nil _ _), fun _ empty _ => ?_, fun _ f head => ?_⟩
    · by_cases none : s.owed = []
      · have before := heard.fresh beating empty none
        refine ⟨s.now, List.mem_cons_self, ?_⟩
        dsimp only [pinged, woken]
        linarith
      · obtain ⟨p, mem, young⟩ := heard.owed beating empty none
        exact ⟨p, List.mem_cons_of_mem _ mem, young⟩
    · left
      rcases heard.first beating f head with soon | before
      · exact soon
      · have past := heard.queue.past f (List.mem_of_mem_head? head)
        dsimp only [pinged, woken]
        linarith
  | other i k other step =>
    have same := SocketSession.heartbeat_other other step
    exact ⟨queue, fun pc => heard.start (same ▸ pc), fun pc => heard.slept (same ▸ pc),
      fun on => heard.fresh (on.before other step), fun on => heard.owed (on.before other step),
      fun on => heard.first (on.before other step)⟩

end Responsive

theorem beating_of_beat (asleep : s.session.heartbeat = .sleeping)
    (step : s.step cfg hello ping .beat = some t) : s.session.Beating := by
  cases step_cases step with
  | starts k due pc beat | idles k due pc idle beat | pings k due pc seen beat
  | refused k due pc seen beat => exact .of_beat asleep beat

end TimedSession

/-- A client is closed as idle only when the session has received nothing for longer than the timeout, so
that nothing had come either but for what the reader had no time for. While the heartbeat goes on nothing
is missing for longer than the timeout, one interval and the delay, and the pings since a frame was last
received are an interval apart. -/
theorem silence_is_found_out (cfg : HeartbeatSettings) (hello ping : ε) (opened late : ℚ)
    (often : 0 ≤ cfg.wsHeartbeatSeconds) (delay : 0 ≤ late) (within : late ≤ cfg.wsIdleTimeoutSeconds)
    (is : List (TimedInput ε))
    (prompt : ∀ x ∈ (timedSession cfg hello ping opened).history is, TimedSession.Prompt late x) :
    (∀ x ∈ (timedSession cfg hello ping opened).history is, TimedSession.Idles cfg x →
      (∀ t ∈ x.before.heard, cfg.wsIdleTimeoutSeconds < x.before.now - t) ∧
      (∀ h, h ≤ cfg.wsIdleTimeoutSeconds → TimedSession.Attends h x → ∀ a ∈ x.before.arrived,
        cfg.wsIdleTimeoutSeconds < x.before.now - a ∨ x.before.now ≤ a + h) ∧
      x.after.session.heartbeat = .done ∧
      x.after.session.feed.conn = x.before.session.feed.conn.close closeIdle.1 closeIdle.2) ∧
    (((timedSession cfg hello ping opened).run is).session.heartbeat = .sleeping →
      ((timedSession cfg hello ping opened).run is).now ≤
        ((timedSession cfg hello ping opened).run is).wakeAt + late →
      ∃ t ∈ ((timedSession cfg hello ping opened).run is).heard,
        ((timedSession cfg hello ping opened).run is).now - t ≤
          cfg.wsIdleTimeoutSeconds + cfg.wsHeartbeatSeconds + late) ∧
    ((timedSession cfg hello ping opened).run is).unseen.length * cfg.wsHeartbeatSeconds ≤
      cfg.wsIdleTimeoutSeconds + cfg.wsHeartbeatSeconds := by
  have patient := delay.trans within
  have watched : ((timedSession cfg hello ping opened).run is).Watched cfg :=
    (timedSession cfg hello ping opened).exec_guarded (TimedSession.Prompt late)
      (TimedSession.Watched cfg)
      (fun s i t watched ok step =>
        watched.step often patient within ok (TimedSession.step_cases step))
      _ (TimedSession.Watched.init often patient) is prompt
  refine ⟨fun x mem idles => ?_, fun asleep soon => ?_, watched.few⟩
  · obtain ⟨bs, -, before, step⟩ := (timedSession cfg hello ping opened).mem_history mem
    have queued : x.before.Queued := before ▸ TimedSession.queued cfg hello ping opened bs
    obtain ⟨s, i, t⟩ := x
    have steps : TimedSession.Steps cfg hello ping s i t := TimedSession.step_cases step
    cases steps with
    | passed | arrives | receives | handled | other => cases idles
    | starts k due pc beat =>
      have asleep : s.session.heartbeat = .sleeping := idles.1
      rw [pc] at asleep
      cases asleep
    | idles k due pc idle beat =>
      refine ⟨fun t mem => ?_, fun h small attends => queued.silent idle small attends,
        SocketSession.idle_closes pc beat⟩
      have before := queued.earlier t mem
      dsimp only
      linarith
    | pings k due pc heard beat | refused k due pc heard beat =>
      exact absurd (of_decide_eq_true idles.2) (not_lt.mpr heard)
  · have bound := watched.asleep asleep
    refine ⟨_, watched.queue.last, ?_⟩
    linarith

/-- The defaults of the settings. -/
def defaultHeartbeat : HeartbeatSettings := ⟨20, 60⟩

/-- Its last frame comes while the reader is still busy with the one before. -/
def silentClient : List (TimedInput String) :=
  [.other .launch, .beat, .pass 1, .arrives, .receives, .pass 19, .beat, .pass 20, .beat, .pass 20, .beat,
    .pass 20, .arrives, .beat]

theorem silent_client_closed :
    (∃ x ∈ (timedSession defaultHeartbeat "hello" "ping" 0).history silentClient,
      TimedSession.Idles defaultHeartbeat x) ∧
    ∀ x ∈ (timedSession defaultHeartbeat "hello" "ping" 0).history silentClient,
      TimedSession.Idles defaultHeartbeat x →
      (∀ t ∈ x.before.heard, 60 < x.before.now - t) ∧
      (∀ h, h ≤ 60 → TimedSession.Attends h x → ∀ a ∈ x.before.arrived,
        60 < x.before.now - a ∨ x.before.now ≤ a + h) ∧
      x.after.session.heartbeat = .done ∧
      x.after.session.feed.conn = x.before.session.feed.conn.close closeIdle.1 closeIdle.2 :=
  ⟨by decide +kernel, (silence_is_found_out defaultHeartbeat "hello" "ping" 0 1 (by decide +kernel)
    (by decide +kernel) (by decide +kernel) silentClient (by decide +kernel)).1⟩

/-- A client that sends a frame in time after each ping is not closed as idle, by a reader that is not
away for too long. -/
theorem responsive_client_stays (cfg : HeartbeatSettings) (hello ping : ε) (opened late r h : ℚ)
    (often : 0 ≤ cfg.wsHeartbeatSeconds) (delay : 0 ≤ late) (wait : 0 ≤ r) (busy : 0 ≤ h)
    (responsive : r + h + cfg.wsHeartbeatSeconds + 2 * late ≤ cfg.wsIdleTimeoutSeconds)
    (is : List (TimedInput ε))
    (prompt : ∀ x ∈ (timedSession cfg hello ping opened).history is, TimedSession.Prompt late x)
    (answers : ∀ x ∈ (timedSession cfg hello ping opened).history is, TimedSession.Answers r x)
    (attends : ∀ x ∈ (timedSession cfg hello ping opened).history is, TimedSession.Attends h x) :
    ∀ x ∈ (timedSession cfg hello ping opened).history is, ¬ TimedSession.Idles cfg x := by
  have both := (timedSession cfg hello ping opened).history_invariant
    (fun past s => (∀ x ∈ past, TimedSession.Prompt late x ∧ TimedSession.Answers r x ∧
        TimedSession.Attends h x) →
      s.Heard cfg late r ∧ ∀ x ∈ past, ¬ TimedSession.Idles cfg x)
    (fun _ => ⟨TimedSession.Heard.init, fun x mem => absurd mem List.not_mem_nil⟩)
    ?_ is
  · exact (both fun x mem => ⟨prompt x mem, answers x mem, attends x mem⟩).2
  · intro past s i t before step ok
    obtain ⟨heard, kept⟩ := before fun x mem => ok x (List.mem_append_left _ mem)
    obtain ⟨prompt, answers, attends⟩ := ok _ (List.mem_append_right _ (List.mem_singleton_self _))
    refine ⟨heard.step wait delay often prompt answers (TimedSession.step_cases step), fun x mem => ?_⟩
    rcases List.mem_append.mp mem with old | new
    · exact kept x old
    · obtain rfl := List.mem_singleton.mp new
      cases i with
      | beat =>
        rintro ⟨asleep, idle⟩
        have beating : s.session.Beating := TimedSession.beating_of_beat asleep step
        have seen := heard.not_idle wait busy delay often responsive beating prompt (answers beating)
          attends
        exact absurd (of_decide_eq_true idle) (not_lt.mpr seen)
      | pass | arrives | receives | handled | other => exact id

/-- It answers within twenty seconds, and the reader is away for five. -/
def answeringClient : List (TimedInput String) :=
  [.other .launch, .beat, .pass 20, .beat, .pass 5, .arrives, .receives, .pass 4, .arrives, .pass 1,
    .handled, .receives, .handled, .pass 11, .beat, .pass 18, .arrives, .pass 2, .receives, .beat]

theorem answering_client_stays :
    ((timedSession defaultHeartbeat "hello" "ping" 0).history answeringClient).length = 20 ∧
    ∀ x ∈ (timedSession defaultHeartbeat "hello" "ping" 0).history answeringClient,
      ¬ TimedSession.Idles defaultHeartbeat x :=
  ⟨by decide +kernel, responsive_client_stays defaultHeartbeat "hello" "ping" 0 5 20 5
    (by decide +kernel) (by decide +kernel) (by decide +kernel) (by decide +kernel) (by decide +kernel)
    answeringClient (by decide +kernel) (by decide +kernel) (by decide +kernel)⟩

end ChatBackend

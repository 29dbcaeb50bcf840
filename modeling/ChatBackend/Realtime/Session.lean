import ChatBackend.Realtime.Queue

/-! `SocketSession.run`: three tasks and the task that waits for the first of them to end. What a
task does between two awaits is one step, and the steps interleave with calls of `send_nowait` and
`close` from anywhere, which can come before `run` begins. What the reader does with a frame shows
here as such calls only. -/

namespace ChatBackend

open Lib

variable {ε : Type}

/-- `done` has returned after the close request, `failed` has raised; the socket may be `lost` then. -/
inductive WriterPc (ε : Type) where
  | getting
  | sending (e : ε)
  | closing
  | done
  | failed (lost : Bool)

/-- The writer has taken the close request and has called `ws.close` with it. -/
def WriterPc.hasTaken : WriterPc ε → Bool
  | .closing | .done => true
  | _ => false

def WriterPc.ended : WriterPc ε → Bool
  | .done | .failed _ => true
  | _ => false

def WriterPc.hasLost : WriterPc ε → Bool
  | .failed lost => lost
  | _ => false

inductive HeartbeatPc where
  | start
  | sleeping
  | done
  deriving DecidableEq

/-- `registered` is before `run` begins; `cancelled` has cancelled the tasks and waits for them. -/
inductive RunPc where
  | registered
  | waiting
  | cancelled
  | ended
  deriving DecidableEq

def RunPc.isOver : RunPc → Bool
  | .registered | .waiting => false
  | .cancelled | .ended => true

/-- `frames` is what the server has put on the socket. -/
structure SocketSession (ε : Type) where
  feed : Feed ε
  readerDone : Bool
  writer : WriterPc ε
  heartbeat : HeartbeatPc
  run : RunPc
  frames : List (Item ε)

/-- `readerEnds`: the client has disconnected, or a frame has made the reader raise. -/
inductive SessionInput (ε : Type) where
  | send (e : ε)
  | close (code : Nat) (reason : String)
  | launch
  | readerEnds
  | take
  | sent
  | sendFails (lost : Bool)
  | beat (idle : Bool)
  | cancel
  | finish
  deriving DecidableEq

def closeIdle : Nat × String := (4408, "idle timeout")

/-- `ws.close()` with its defaults. -/
def closeDefault : Nat × String := (1000, "")

def Item.isClose : Item ε → Bool
  | .event _ => false
  | .close _ _ => true

namespace SocketSession

/-- The connection is registered, so the hub knows it before `run` begins. -/
def init : SocketSession ε where
  feed := Feed.init
  readerDone := false
  writer := .getting
  heartbeat := .start
  run := .registered
  frames := []

section Tasks

variable (hello ping : ε) (s : SocketSession ε)

/-- `run`, up to its wait for the tasks it has created. -/
def launch : Option (SocketSession ε) :=
  (s.feed.step (.sendNowait hello)).map (fun f => { s with feed := f, run := .waiting })

/-- `_writer`, from `next_event` to the call that sends what it returned. -/
def take : Option (SocketSession ε) :=
  match s.writer, s.feed.conn.queue with
  | .getting, .event e :: _ =>
    (s.feed.step .nextEvent).map (fun f => { s with feed := f, writer := .sending e })
  | .getting, .close code reason :: _ =>
    (s.feed.step .nextEvent).map (fun f =>
      { s with feed := f, writer := .closing, frames := s.frames ++ [.close code reason] })
  | _, _ => none

/-- The writer's call has sent its frame. -/
def sent : Option (SocketSession ε) :=
  match s.writer with
  | .sending e => some { s with writer := .getting, frames := s.frames ++ [.event e] }
  | .closing => some { s with writer := .done }
  | _ => none

/-- A failure of the connection leaves the websocket disconnected, one of the text does not. -/
def sendFails (lost : Bool) : Option (SocketSession ε) :=
  match s.writer with
  | .sending _ => some { s with writer := .failed lost }
  | _ => none

/-- `_heartbeat`, from one look at the flag to the next. -/
def beat (idle : Bool) : Option (SocketSession ε) :=
  match s.heartbeat with
  | .start => some { s with heartbeat := if s.feed.conn.closing then .done else .sleeping }
  | .sleeping =>
    if idle then
      (s.feed.step (.close closeIdle.1 closeIdle.2)).map (fun f =>
        { s with feed := f, heartbeat := .done })
    else
      (s.feed.step (.sendNowait ping)).map (fun f =>
        { s with feed := f, heartbeat := if f.conn.closing then .done else .sleeping })
  | .done => none

def someDone : Bool :=
  s.readerDone || s.writer.ended || s.heartbeat == .done

/-- The `finally` of `run`, once the tasks have been gathered. -/
def finish : SocketSession ε :=
  if s.frames.any Item.isClose || s.writer.hasLost then { s with run := .ended }
  else
    { s with run := .ended, frames := s.frames ++ [.close closeDefault.1 closeDefault.2] }

/-- A cancelled task takes no further step. -/
def step : SessionInput ε → Option (SocketSession ε)
  | .send e => (s.feed.step (.sendNowait e)).map (fun f => { s with feed := f })
  | .close code reason => (s.feed.step (.close code reason)).map (fun f => { s with feed := f })
  | .launch => if s.run = .registered then s.launch hello else none
  | .readerEnds => if s.run = .waiting then some { s with readerDone := true } else none
  | .take => if s.run = .waiting then s.take else none
  | .sent => if s.run = .waiting then s.sent else none
  | .sendFails lost => if s.run = .waiting then s.sendFails lost else none
  | .beat idle => if s.run = .waiting then s.beat ping idle else none
  | .cancel => if s.run = .waiting ∧ s.someDone then some { s with run := .cancelled } else none
  | .finish => if s.run = .cancelled then some s.finish else none

end Tasks

end SocketSession

def socketSession (hello ping : ε) : Machine (SocketSession ε) (SessionInput ε) :=
  ⟨SocketSession.init, SocketSession.step hello ping⟩

namespace SocketSession

/-- What a step does. The queue moves as the feed does. -/
inductive Steps (hello ping : ε) (s : SocketSession ε) : SessionInput ε → SocketSession ε → Prop
    where
  | send (e : ε) (f : Feed ε) : s.feed.step (.sendNowait e) = some f →
      Steps hello ping s (.send e) { s with feed := f }
  | close (code : Nat) (reason : String) (f : Feed ε) : s.feed.step (.close code reason) = some f →
      Steps hello ping s (.close code reason) { s with feed := f }
  | launched (f : Feed ε) : s.run = .registered → s.feed.step (.sendNowait hello) = some f →
      Steps hello ping s .launch { s with feed := f, run := .waiting }
  | readerEnds : s.run = .waiting → Steps hello ping s .readerEnds { s with readerDone := true }
  | takeEvent (e : ε) (f : Feed ε) : s.run = .waiting → s.writer = .getting →
      s.feed.step .nextEvent = some f → f.handed = s.feed.handed ++ [.event e] →
      Steps hello ping s .take { s with feed := f, writer := .sending e }
  | takeClose (code : Nat) (reason : String) (f : Feed ε) : s.run = .waiting → s.writer = .getting →
      s.feed.step .nextEvent = some f → f.handed = s.feed.handed ++ [.close code reason] →
      Steps hello ping s .take
        { s with feed := f, writer := .closing, frames := s.frames ++ [.close code reason] }
  | sent (e : ε) : s.run = .waiting → s.writer = .sending e →
      Steps hello ping s .sent { s with writer := .getting, frames := s.frames ++ [.event e] }
  | closed : s.run = .waiting → s.writer = .closing →
      Steps hello ping s .sent { s with writer := .done }
  | sendFails (e : ε) (lost : Bool) : s.run = .waiting → s.writer = .sending e →
      Steps hello ping s (.sendFails lost) { s with writer := .failed lost }
  | starts (idle : Bool) : s.run = .waiting → Steps hello ping s (.beat idle)
      { s with heartbeat := if s.feed.conn.closing then .done else .sleeping }
  | idles (f : Feed ε) : s.run = .waiting → s.heartbeat = .sleeping →
      s.feed.step (.close closeIdle.1 closeIdle.2) = some f →
      Steps hello ping s (.beat true) { s with feed := f, heartbeat := .done }
  | pings (f : Feed ε) : s.run = .waiting → s.heartbeat = .sleeping →
      s.feed.step (.sendNowait ping) = some f →
      Steps hello ping s (.beat false)
        { s with feed := f, heartbeat := if f.conn.closing then .done else .sleeping }
  | cancel : s.run = .waiting → s.someDone = true →
      Steps hello ping s .cancel { s with run := .cancelled }
  | finish : s.run = .cancelled → Steps hello ping s .finish s.finish

theorem step_cases {hello ping : ε} {s t : SocketSession ε} {i : SessionInput ε}
    (h : s.step hello ping i = some t) : Steps hello ping s i t := by
  cases i with
  | send e =>
    simp only [SocketSession.step] at h
    obtain ⟨f, step, rfl⟩ := Option.map_eq_some_iff.mp h
    exact .send e f step
  | close code reason =>
    simp only [SocketSession.step] at h
    obtain ⟨f, step, rfl⟩ := Option.map_eq_some_iff.mp h
    exact .close code reason f step
  | launch =>
    obtain ⟨registered, eq⟩ := Option.ite_none_right_eq_some.mp h
    obtain ⟨f, step, rfl⟩ := Option.map_eq_some_iff.mp eq
    exact .launched f registered step
  | readerEnds =>
    obtain ⟨waiting, eq⟩ := Option.ite_none_right_eq_some.mp h
    cases eq
    exact .readerEnds waiting
  | take =>
    obtain ⟨waiting, eq⟩ := Option.ite_none_right_eq_some.mp h
    unfold take at eq
    split at eq
    · rename_i e rest getting queue
      obtain ⟨f, step, rfl⟩ := Option.map_eq_some_iff.mp eq
      refine .takeEvent e f waiting getting step ?_
      simp only [Feed.step, queue, Option.some.injEq] at step
      rw [← step]
    · rename_i code reason rest getting queue
      obtain ⟨f, step, rfl⟩ := Option.map_eq_some_iff.mp eq
      refine .takeClose code reason f waiting getting step ?_
      simp only [Feed.step, queue, Option.some.injEq] at step
      rw [← step]
    · cases eq
  | sent =>
    obtain ⟨waiting, eq⟩ := Option.ite_none_right_eq_some.mp h
    unfold sent at eq
    split at eq
    · rename_i e sending
      cases eq
      exact .sent e waiting sending
    · rename_i closing
      cases eq
      exact .closed waiting closing
    · cases eq
  | sendFails lost =>
    obtain ⟨waiting, eq⟩ := Option.ite_none_right_eq_some.mp h
    unfold sendFails at eq
    split at eq
    · rename_i e sending
      cases eq
      exact .sendFails e lost waiting sending
    · cases eq
  | beat idle =>
    obtain ⟨waiting, eq⟩ := Option.ite_none_right_eq_some.mp h
    unfold beat at eq
    split at eq
    · cases eq
      exact .starts idle waiting
    · rename_i sleeping
      cases idle with
      | true =>
        rw [if_pos rfl] at eq
        obtain ⟨f, step, rfl⟩ := Option.map_eq_some_iff.mp eq
        exact .idles f waiting sleeping step
      | false =>
        rw [if_neg (by decide)] at eq
        obtain ⟨f, step, rfl⟩ := Option.map_eq_some_iff.mp eq
        exact .pings f waiting sleeping step
    · cases eq
  | cancel =>
    obtain ⟨⟨waiting, ended⟩, eq⟩ := Option.ite_none_right_eq_some.mp h
    cases eq
    exact .cancel waiting ended
  | finish =>
    obtain ⟨cancelled, eq⟩ := Option.ite_none_right_eq_some.mp h
    cases eq
    exact .finish cancelled

/-! How the queue moves. -/

/-- The close request that an input queues when it is the first to close. -/
def asks : SessionInput ε → Nat × String
  | .close code reason => (code, reason)
  | .beat true => closeIdle
  | _ => slowConsumer

theorem Steps.feed_moves {hello ping : ε} {s t : SocketSession ε} {i : SessionInput ε}
    (h : Steps hello ping s i t) :
    t.feed = s.feed ∨
    ∃ j, Feed.Steps s.feed j t.feed ∧ (j = .nextEvent ∨ Feed.asks j = asks i) := by
  cases h with
  | send e f step => exact .inr ⟨_, Feed.step_cases step, .inr rfl⟩
  | close code reason f step => exact .inr ⟨_, Feed.step_cases step, .inr rfl⟩
  | launched f _ step => exact .inr ⟨_, Feed.step_cases step, .inr rfl⟩
  | takeEvent e f _ _ step _ => exact .inr ⟨_, Feed.step_cases step, .inl rfl⟩
  | takeClose code reason f _ _ step _ => exact .inr ⟨_, Feed.step_cases step, .inl rfl⟩
  | idles f _ _ step => exact .inr ⟨_, Feed.step_cases step, .inr rfl⟩
  | pings f _ _ step => exact .inr ⟨_, Feed.step_cases step, .inr rfl⟩
  | readerEnds _ => exact .inl rfl
  | sent e _ _ => exact .inl rfl
  | closed _ _ => exact .inl rfl
  | sendFails e _ _ _ => exact .inl rfl
  | starts idle _ => exact .inl rfl
  | cancel _ _ => exact .inl rfl
  | finish _ =>
    left
    unfold SocketSession.finish
    split <;> rfl

/-- What the first close asked for is what the queue holds from then on, behind what was queued
before it. -/
theorem asked (hello ping : ε) (as : List (SessionInput ε)) :
    let s := (socketSession hello ping).run as
    s.feed.Inv ∧ ∀ x ∈ (socketSession hello ping).history as,
      x.before.feed.conn.closing = false → x.after.feed.conn.closing = true →
      s.feed.conn.closing = true ∧ s.feed.closes = [asks x.action] ∧
        s.feed.accepted = x.before.feed.accepted := by
  apply (socketSession hello ping).history_invariant (fun h s => s.feed.Inv ∧ ∀ x ∈ h,
    x.before.feed.conn.closing = false → x.after.feed.conn.closing = true →
    s.feed.conn.closing = true ∧ s.feed.closes = [asks x.action] ∧
      s.feed.accepted = x.before.feed.accepted)
  · refine ⟨Feed.Inv.init, ?_⟩
    intro x hx
    cases hx
  · rintro h s i t ⟨inv, past⟩ step
    have moves := (step_cases step).feed_moves
    refine ⟨?_, ?_⟩
    · rcases moves with same | ⟨j, fed, _⟩
      · rw [same]
        exact inv
      · exact inv.step fed
    · intro x hx open_ closing
      rcases List.mem_append.mp hx with old | new
      · obtain ⟨flag, ends, events⟩ := past x old open_ closing
        rcases moves with same | ⟨j, fed, _⟩
        · rw [same]
          exact ⟨flag, ends, events⟩
        · obtain ⟨flag', ends', events'⟩ := fed.stays flag
          exact ⟨flag', ends'.trans ends, events'.trans events⟩
      · obtain rfl := List.mem_singleton.mp new
        rcases moves with same | ⟨j, fed, asked⟩
        · rw [same, open_] at closing
          cases closing
        · obtain ⟨ends, events⟩ := fed.decides inv open_ closing
          rcases asked with rfl | asked
          · rw [fed.next_flag, open_] at closing
            cases closing
          · exact ⟨closing, asked ▸ ends, events⟩

/-! What goes onto the socket. -/

/-- The client neither leaves nor makes a task fail. -/
def Stays (x : Move (SocketSession ε) (SessionInput ε)) : Prop :=
  x.action ≠ .readerEnds ∧ ∀ lost, x.action ≠ .sendFails lost

/-- `run` cancels the tasks after the writer took the close request. -/
def InTime (x : Move (SocketSession ε) (SessionInput ε)) : Prop :=
  x.action = .cancel → x.before.writer.hasTaken = true

/-- The frames are what was handed to the writer, less what it is sending or has failed to send. -/
structure Good (s : SocketSession ε) : Prop where
  getting : s.writer = .getting → s.frames = s.feed.handed
  sending : ∀ e, s.writer = .sending e → s.feed.handed = s.frames ++ [.event e]
  failed : ∀ lost, s.writer = .failed lost → ∃ e, s.feed.handed = s.frames ++ [.event e]
  taken : s.writer.hasTaken = true → s.frames = s.feed.handed ∧ s.frames.any Item.isClose = true
  stopped : s.run.isOver = true → s.writer.hasTaken = true

theorem feed_handed {s f : Feed ε} {i : FeedInput ε} (h : s.step i = some f) (ne : i ≠ .nextEvent) :
    f.handed = s.handed := by
  cases i with
  | sendNowait e => cases h; rfl
  | close code reason => cases h; rfl
  | nextEvent => exact absurd rfl ne

/-- A call on the connection from outside moves no task. -/
theorem Good.fed {s : SocketSession ε} (good : s.Good) {f : Feed ε} {i : FeedInput ε}
    (h : s.feed.step i = some f) (ne : i ≠ .nextEvent) : Good { s with feed := f } := by
  have handed := feed_handed h ne
  exact {
    getting := fun pc => (good.getting pc).trans handed.symm
    sending := fun e pc => handed.trans (good.sending e pc)
    failed := fun lost pc => handed ▸ good.failed lost pc
    taken := fun pc => ⟨(good.taken pc).1.trans handed.symm, (good.taken pc).2⟩
    stopped := good.stopped }

theorem not_over {s : SocketSession ε} (waiting : s.run = .waiting) : ¬ s.run.isOver = true := by
  rw [waiting]
  decide

theorem Good.step {hello ping : ε} {s t : SocketSession ε} {i : SessionInput ε} (good : s.Good)
    (intime : InTime ⟨s, i, t⟩) (h : Steps hello ping s i t) : t.Good := by
  cases h with
  | send e f step => exact good.fed step (by nofun)
  | close code reason f step => exact good.fed step (by nofun)
  | launched f registered step =>
    have fed := good.fed step (by nofun)
    exact ⟨fed.getting, fed.sending, fed.failed, fed.taken, nofun⟩
  | readerEnds waiting => exact ⟨good.getting, good.sending, good.failed, good.taken, good.stopped⟩
  | takeEvent e f waiting getting step handed =>
    have frames := good.getting getting
    exact {
      getting := nofun
      sending := by
        intro e' pc
        cases pc
        rw [handed, frames]
      failed := nofun
      taken := nofun
      stopped := fun stopped => absurd stopped (not_over waiting) }
  | takeClose code reason f waiting getting step handed =>
    have frames := good.getting getting
    exact {
      getting := nofun
      sending := nofun
      failed := nofun
      taken := fun _ => ⟨by rw [handed, frames], by simp [Item.isClose]⟩
      stopped := fun stopped => absurd stopped (not_over waiting) }
  | sent e waiting sending =>
    exact {
      getting := fun _ => (good.sending e sending).symm
      sending := nofun
      failed := nofun
      taken := nofun
      stopped := fun stopped => absurd stopped (not_over waiting) }
  | closed waiting closing =>
    have taken := good.taken (by rw [closing]; rfl)
    exact ⟨nofun, nofun, nofun, fun _ => taken, fun stopped => absurd stopped (not_over waiting)⟩
  | sendFails e lost waiting sending =>
    have unsent := good.sending e sending
    exact ⟨nofun, nofun, fun _ _ => ⟨e, unsent⟩, nofun,
      fun stopped => absurd stopped (not_over waiting)⟩
  | starts idle waiting =>
    exact ⟨good.getting, good.sending, good.failed, good.taken, good.stopped⟩
  | idles f waiting sleeping step =>
    have fed := good.fed step (by nofun)
    exact ⟨fed.getting, fed.sending, fed.failed, fed.taken, fed.stopped⟩
  | pings f waiting sleeping step =>
    have fed := good.fed step (by nofun)
    exact ⟨fed.getting, fed.sending, fed.failed, fed.taken, fed.stopped⟩
  | cancel waiting ended =>
    exact ⟨good.getting, good.sending, good.failed, good.taken, fun _ => intime rfl⟩
  | finish cancelled =>
    have taken := good.stopped (by rw [cancelled]; rfl)
    have closed := (good.taken taken).2
    rw [SocketSession.finish, if_pos (by rw [closed, Bool.true_or])]
    exact ⟨good.getting, good.sending, good.failed, good.taken, fun _ => taken⟩

theorem Good.init : (SocketSession.init : SocketSession ε).Good where
  getting _ := rfl
  sending := nofun
  failed := nofun
  taken := nofun
  stopped := nofun

theorem Good.frames_handed {s : SocketSession ε} (good : s.Good) :
    ∃ more, s.feed.handed = s.frames ++ more := by
  cases pc : s.writer with
  | getting => exact ⟨[], by rw [good.getting pc, List.append_nil]⟩
  | sending e => exact ⟨[.event e], good.sending e pc⟩
  | failed lost =>
    obtain ⟨e, unsent⟩ := good.failed lost pc
    exact ⟨[.event e], unsent⟩
  | closing => exact ⟨[], by rw [(good.taken (by rw [pc]; rfl)).1, List.append_nil]⟩
  | done => exact ⟨[], by rw [(good.taken (by rw [pc]; rfl)).1, List.append_nil]⟩

/-- The close frame that the client gets is what the first close asked for, after everything
queued before it; when the session is over the client has got it. -/
def Told (x : Move (SocketSession ε) (SessionInput ε)) (s : SocketSession ε) : Prop :=
  (∀ front code reason back, s.frames = front ++ .close code reason :: back →
    (code, reason) = asks x.action ∧ front = x.before.feed.accepted.map .event ∧ back = []) ∧
  (s.run = .ended → .close (asks x.action).1 (asks x.action).2 ∈ s.frames)

theorem Good.close_frame {s : SocketSession ε} (good : s.Good) (inv : s.feed.Inv)
    {a : Nat × String} (ends : s.feed.closes = [a]) {front back : List (Item ε)} {code : Nat}
    {reason : String} (eq : s.frames = front ++ .close code reason :: back) :
    (code, reason) = a ∧ front = s.feed.accepted.map .event ∧ back = [] := by
  obtain ⟨more, handed⟩ := good.frames_handed
  have whole : s.feed.queued = front ++ .close code reason :: (back ++ (more ++ s.feed.conn.queue)) := by
    simp [Feed.queued, handed, eq]
  have nothing := inv.nothing_behind (by rw [ends]; exact le_rfl) whole
  have order := inv.order
  rw [whole, nothing, ends, List.map_singleton] at order
  obtain ⟨events, last⟩ := List.append_inj' order rfl
  cases List.singleton_inj.mp last
  exact ⟨rfl, events, (List.append_eq_nil_iff.mp nothing).1⟩

end SocketSession

/-- In every run in which `run` never cancels the writer before that has taken the close request: the
client is told why it was closed. -/
theorem client_told_why (hello ping : ε) (as : List (SessionInput ε))
    (ok : ∀ x ∈ (socketSession hello ping).history as, SocketSession.InTime x) :
    ∀ x ∈ (socketSession hello ping).history as,
      x.before.feed.conn.closing = false → x.after.feed.conn.closing = true →
      SocketSession.Told x ((socketSession hello ping).run as) := by
  intro x hx open_ closing
  obtain ⟨inv, asked⟩ := SocketSession.asked hello ping as
  obtain ⟨_, ends, events⟩ := asked x hx open_ closing
  have good : ((socketSession hello ping).run as).Good :=
    (socketSession hello ping).exec_guarded SocketSession.InTime SocketSession.Good
      (fun s i t good now step => good.step now (SocketSession.step_cases step)) _
      SocketSession.Good.init as ok
  refine ⟨?_, ?_⟩
  · intro front code reason back eq
    rw [← events]
    exact good.close_frame inv ends eq
  · intro ended
    have taken := good.taken (good.stopped (by rw [ended]; rfl))
    obtain ⟨item, mem, close⟩ := List.any_eq_true.mp taken.2
    obtain ⟨front, back, eq⟩ := List.append_of_mem mem
    cases item with
    | event e => cases close
    | close code reason =>
      have same := (good.close_frame inv ends eq).1
      rw [← same]
      exact mem

/-- A server restart reaches an idle writer before the heartbeat wakes up. -/
def promptClose : List (SessionInput String) :=
  [.launch, .beat false, .take, .sent, .close 1012 "server restarting", .take, .beat false, .sent,
    .cancel, .finish]

theorem told_after_restart :
    let chat := socketSession "hello" "ping"
    ∃ x ∈ chat.history promptClose, SocketSession.asks x.action = (1012, "server restarting") ∧
      SocketSession.Told x (chat.run promptClose) := by
  intro chat
  have ok : ∀ x ∈ chat.history promptClose, SocketSession.InTime x := by
    simp only [SocketSession.InTime]
    decide
  have asking : ∃ x ∈ chat.history promptClose, SocketSession.asks x.action = (1012, "server restarting") ∧
      x.before.feed.conn.closing = false ∧ x.after.feed.conn.closing = true := by decide
  obtain ⟨x, hx, asked, open_, closing⟩ := asking
  exact ⟨x, hx, asked, client_told_why "hello" "ping" promptClose ok x hx open_ closing⟩

/-- The same while the writer is still sending the hello to a slow client: the heartbeat sees the
flag and ends, and `run` cancels the writer and closes with the default code. -/
def slowClose : List (SessionInput String) :=
  [.launch, .beat false, .take, .close 1012 "server restarting", .beat false, .cancel, .finish]

theorem slow_client_not_told :
    let chat := socketSession "hello" "ping"
    (∀ x ∈ chat.history slowClose, SocketSession.Stays x) ∧
    (chat.run slowClose).frames = [.close 1000 ""] ∧
    ∃ x ∈ chat.history slowClose, SocketSession.asks x.action = (1012, "server restarting") ∧
      x.before.feed.conn.closing = false ∧ x.after.feed.conn.closing = true ∧
      ¬ SocketSession.Told x (chat.run slowClose) := by
  intro chat
  have frames : (chat.run slowClose).frames = [.close 1000 ""] := by
    simp only [chat, slowClose, Machine.run, Machine.exec_cons, Machine.exec_nil]
    rfl
  have stays : ∀ x ∈ chat.history slowClose, SocketSession.Stays x := by
    simp only [SocketSession.Stays]
    decide
  have asking : ∃ x ∈ chat.history slowClose, SocketSession.asks x.action = (1012, "server restarting") ∧
      x.before.feed.conn.closing = false ∧ x.after.feed.conn.closing = true := by decide
  obtain ⟨x, hx, asked, open_, closing⟩ := asking
  refine ⟨stays, frames, x, hx, asked, open_, closing, ?_⟩
  rintro ⟨same, _⟩
  have told := (same [] 1000 "" [] frames).1
  rw [asked] at told
  cases told

end ChatBackend

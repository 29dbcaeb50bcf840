import ChatBackend.Lib.Receiver
import ChatBackend.Realtime.Deployment

/-! The client of the demo page. Events come from whichever socket is open and answers to its own
requests in between, and either may come first; what was shown once is not shown again. -/

namespace ChatBackend

open Lib

/-- The span `.tick` of an outgoing message. `read` is whether it has that class. -/
structure Tick where
  text : String
  read : Bool
  deriving DecidableEq

inductive TickState where
  | sent
  | delivered
  | read
  deriving DecidableEq

def TickState.tick : TickState → Tick
  | .sent => ⟨"✓", false⟩
  | .delivered => ⟨"✓✓", false⟩
  | .read => ⟨"✓✓", true⟩

/-- A `div.msg`. `data` is what it was rendered from; the body of an error has no id. -/
structure Bubble where
  data : Option MessageOut
  tick : Option Tick

def Bubble.id (b : Bubble) : Option Uuid := b.data.map MessageOut.id

/-- What the pane sends of itself when it is told a message. -/
inductive PaneEvent where
  | ack (messageId : Uuid)
  | read (conversationId upToMessageId : Uuid)

/-- `byClientId` has the places of its `div`s in the log, where nothing is ever removed. -/
structure Pane where
  seen : List (Option Uuid)
  byClientId : String → Option Nat
  convId : Option Uuid
  log : List Bubble
  sent : List PaneEvent

/-- `answered`: the JSON that a POST of a message came back with, or an error body. -/
inductive PaneInput where
  | arrives (p : Push)
  | answered (clientId : String) (out : Option MessageOut)

namespace Pane

def init : Pane := ⟨[], fun _ => none, none, [], []⟩

def render (p : Pane) (data : Option MessageOut) (clientId : String) (outgoing : Bool) : Pane :=
  let id := data.map MessageOut.id
  if id ∈ p.seen then p
  else
    { p with
      seen := p.seen ++ [id]
      log := p.log ++ [⟨data, if outgoing then some ⟨"", false⟩ else none⟩]
      byClientId := if outgoing && clientId ≠ "" then
          Function.update p.byClientId clientId (some p.log.length)
        else p.byClientId }

def setTick (p : Pane) (i : Nat) (state : TickState) : Pane :=
  { p with log := p.log.modify i fun b => { b with tick := b.tick.map fun _ => state.tick } }

/-- `setTick(byClientId.get(clientId), state)`. -/
def setTickOf (p : Pane) (clientId : String) (state : TickState) : Pane :=
  match p.byClientId clientId with
  | some i => p.setTick i state
  | none => p

def mark (p : Pane) (clientId : String) (data : Option MessageOut) (state : TickState) : Pane :=
  match if clientId = "" then none else p.byClientId clientId, data with
  | some i, _ => p.setTick i state
  | none, some d => (p.render (some d) clientId true).setTickOf clientId state
  | none, none => p

def markById (p : Pane) (id : Uuid) (state : TickState) : Pane :=
  match p.log.findIdx? fun b => b.id = some id with
  | some i => p.setTick i state
  | none => p

def onEvent (user : UserId) (p : Pane) : Push → Pane
  | .message (.messageNew d) =>
    let q := { p with convId := some d.conversationId }
    if d.senderId = user then q.mark d.clientMsgId (some d) .sent
    else
      let shown := q.render (some d) d.clientMsgId false
      { shown with sent := shown.sent ++ [.ack d.id, .read d.conversationId d.id] }
  | .message (.messageDelivered _ _ clientMsgId _) => p.mark clientMsgId none .delivered
  | .message (.messageRead _ _ messageIds _) => messageIds.foldl (fun p id => p.markById id .read) p
  | .typing _ => p
  | .own _ => p

/-- The end of `send` and of `sendAttachment`. -/
def onAnswer (p : Pane) (clientId : String) (out : Option MessageOut) : Pane :=
  (p.render out clientId true).setTickOf clientId .sent

def step (user : UserId) (p : Pane) : PaneInput → Pane
  | .arrives e => p.onEvent user e
  | .answered clientId out => p.onAnswer clientId out

def run (user : UserId) (xs : List PaneInput) : Pane := xs.foldl (step user) init

end Pane

/-! What the pane was told, without any of its state. -/

namespace PaneInput

/-- The message that is told, and whether it is told as one of the user's own. -/
def tells (user : UserId) : PaneInput → Option (MessageOut × Bool)
  | .arrives (.message (.messageNew d)) => some (d, d.senderId = user)
  | .answered _ (some d) => some (d, true)
  | _ => none

/-- What is said of the message of this id. -/
def mentions (id : Uuid) : PaneInput → Option TickState
  | .arrives (.message (.messageNew d)) => if d.id = id then some .sent else none
  | .arrives (.message (.messageDelivered messageId ..)) =>
    if messageId = id then some .delivered else none
  | .arrives (.message (.messageRead _ _ messageIds _)) =>
    if id ∈ messageIds then some .read else none
  | .answered _ (some d) => if d.id = id then some .sent else none
  | _ => none

/-- The events that the input is answered with. -/
def replies (user : UserId) : PaneInput → List PaneEvent
  | .arrives (.message (.messageNew d)) =>
    if d.senderId = user then [] else [.ack d.id, .read d.conversationId d.id]
  | _ => []

end PaneInput

namespace Pane

def told (user : UserId) (xs : List PaneInput) : List (MessageOut × Bool) :=
  firsts (fun e => e.1.id) (xs.filterMap (PaneInput.tells user))

/-- The last that was said of a message. -/
def lastOf (xs : List PaneInput) (id : Uuid) : Option TickState :=
  (xs.filterMap (PaneInput.mentions id)).getLast?

/-- How a message looks of which this was said last. -/
def bubble (last : Uuid → Option TickState) (e : MessageOut × Bool) : Bubble :=
  ⟨some e.1, if e.2 then some ((last e.1.id).elim ⟨"", false⟩ TickState.tick) else none⟩

section Last

variable {xs : List PaneInput} {x : PaneInput} {user : UserId} {id : Uuid}

theorem lastOf_concat : lastOf (xs ++ [x]) id = (x.mentions id).or (lastOf xs id) := by
  rw [lastOf, List.filterMap_append, List.getLast?_append, lastOf]
  cases said : x.mentions id with
  | none => rw [List.filterMap_cons_none said]; rfl
  | some state => rw [List.filterMap_cons_some said]; rfl

theorem lastOf_quiet (quiet : ∀ id, x.mentions id = none) : lastOf (xs ++ [x]) = lastOf xs := by
  funext id
  rw [lastOf_concat, quiet id, Option.none_or]

theorem lastOf_said {state : TickState}
    (said : ∀ k, x.mentions k = if id = k then some state else none) :
    lastOf (xs ++ [x]) = Function.update (lastOf xs) id (some state) := by
  funext k
  rw [lastOf_concat, said k]
  by_cases same : id = k
  · rw [if_pos same, same, Function.update_self, Option.some_or]
  · rw [if_neg same, Function.update_of_ne (Ne.symm same), Option.none_or]

theorem told_quiet (quiet : x.tells user = none) : told user (xs ++ [x]) = told user xs := by
  rw [told, List.filterMap_append, List.filterMap_cons_none quiet, List.filterMap_nil, List.append_nil]
  rfl

theorem told_concat {e : MessageOut × Bool} (tells : x.tells user = some e) :
    told user (xs ++ [x]) = keepFirst (fun e => e.1.id) (told user xs) e := by
  rw [told, List.filterMap_append, List.filterMap_cons_some tells, List.filterMap_nil, firsts_concat]
  rfl

end Last

/-! Ticks. -/

section Ticks

variable {p : Pane} {L : List (MessageOut × Bool)} {last : Uuid → Option TickState} {id : Uuid}
  {state : TickState}

/-- The place of a message in the log. -/
def place (L : List (MessageOut × Bool)) (id : Uuid) : Option Nat := L.findIdx? fun e => e.1.id = id

theorem place_none : place L id = none ↔ id ∉ L.map fun e => e.1.id := by
  rw [place, List.findIdx?_eq_none_iff, List.mem_map]
  constructor
  · rintro away ⟨e, mem, same⟩
    exact of_decide_eq_false (away e mem) same
  · exact fun away e mem => decide_eq_false fun same => away ⟨e, mem, same⟩

theorem place_concat {e : MessageOut × Bool} :
    place (L ++ [e]) id = (place L id).or (if e.1.id = id then some L.length else none) := by
  rw [place, List.findIdx?_append, List.findIdx?_singleton, place]
  by_cases same : e.1.id = id
  · simp [same]
  · simp [same]

theorem bubble_absent {value : Option TickState} (away : id ∉ L.map fun e => e.1.id) :
    L.map (bubble (Function.update last id value)) = L.map (bubble last) := by
  refine List.map_congr_left fun e mem => ?_
  rw [bubble, bubble, Function.update_of_ne]
  rintro same
  exact away (same ▸ List.mem_map_of_mem mem)

theorem setTick_log (nodup : (L.map fun e => e.1.id).Nodup) (log : p.log = L.map (bubble last))
    {i : Nat} (found : place L id = some i) :
    (p.setTick i state).log = L.map (bubble (Function.update last id (some state))) := by
  rw [setTick, log]
  refine modify_shown nodup found (fun e mem same => ?_) fun e mem other => ?_
  · cases own : e.2 with
    | true => simp [bubble, own, same]
    | false => simp [bubble, own]
  · rw [bubble, bubble, Function.update_of_ne other]

theorem markById_log (nodup : (L.map fun e => e.1.id).Nodup) (log : p.log = L.map (bubble last)) :
    (p.markById id state).log = L.map (bubble (Function.update last id (some state))) := by
  have same : (p.log.findIdx? fun b => b.id = some id) = place L id := by
    rw [log, List.findIdx?_map, place]
    congr 1
    funext e
    simp [Bubble.id, bubble]
  rw [markById, same]
  cases found : place L id with
  | none =>
    rw [bubble_absent (place_none.mp found)]
    exact log
  | some i => exact setTick_log nodup log found

/-- What was said of a received message is not shown. -/
theorem bubble_received {value : Option TickState} (received : ∀ e ∈ L, e.1.id = id → e.2 = false) :
    L.map (bubble (Function.update last id value)) = L.map (bubble last) := by
  refine List.map_congr_left fun e mem => ?_
  by_cases same : e.1.id = id
  · simp [bubble, received e mem same]
  · rw [bubble, bubble, Function.update_of_ne same]

/-- Everything but the log. -/
structure SameRest (p q : Pane) : Prop where
  seen : q.seen = p.seen
  byClientId : q.byClientId = p.byClientId
  sent : q.sent = p.sent

theorem markById_rest : SameRest p (p.markById id state) := by
  unfold markById
  split
  · exact ⟨rfl, rfl, rfl⟩
  · exact ⟨rfl, rfl, rfl⟩

theorem markAll_log {ids : List Uuid} (nodup : (L.map fun e => e.1.id).Nodup)
    (log : p.log = L.map (bubble last)) :
    (ids.foldl (fun p id => p.markById id state) p).log =
      L.map (bubble fun id => if id ∈ ids then some state else last id) ∧
    SameRest p (ids.foldl (fun p id => p.markById id state) p) := by
  induction ids generalizing p last with
  | nil =>
    refine ⟨?_, rfl, rfl, rfl⟩
    simpa using log
  | cons id ids ih =>
    have marked : (p.markById id state).log = _ := markById_log nodup log
    have first : SameRest p (p.markById id state) := markById_rest
    obtain ⟨shown, rest⟩ := ih marked
    refine ⟨?_, rest.seen.trans first.seen, rest.byClientId.trans first.byClientId,
      rest.sent.trans first.sent⟩
    rw [List.foldl_cons, shown]
    congr 2
    funext k
    by_cases later : k ∈ ids
    · rw [if_pos later, if_pos (List.mem_cons_of_mem id later)]
    · by_cases now : k = id
      · rw [if_neg later, now, Function.update_self, if_pos List.mem_cons_self]
      · rw [if_neg later, Function.update_of_ne now, if_neg (by simp [later, now])]

end Ticks

/-! What the log shows is what the pane was told. -/

/-- The message table, as far as the pane relies on it. -/
structure Rows (ms : List Message) : Prop where
  ids : ∀ m ∈ ms, ∀ n ∈ ms, m.id = n.id → m = n
  clients : ∀ m ∈ ms, ∀ n ∈ ms, m.clientKey = n.clientKey → m = n
  named : ∀ m ∈ ms, m.clientMsgId ≠ ""

/-- What comes is about rows of the table, and no answer is an error. -/
def Told (user : UserId) (ms : List Message) : PaneInput → Prop
  | .arrives (.message (.messageNew d)) =>
    ∃ m ∈ ms, d.id = m.id ∧ d.senderId = m.senderId ∧ d.clientMsgId = m.clientMsgId
  | .arrives (.message (.messageDelivered messageId _ clientMsgId _)) =>
    ∃ m ∈ ms, m.id = messageId ∧ m.senderId = user ∧ m.clientMsgId = clientMsgId
  | .answered clientId out =>
    ∃ d, out = some d ∧ ∃ m ∈ ms, d.id = m.id ∧ m.senderId = user ∧ m.clientMsgId = clientId
  | _ => True

structure Shows (user : UserId) (ms : List Message) (xs : List PaneInput) (p : Pane) : Prop where
  log : p.log = (told user xs).map (bubble (lastOf xs))
  seen : p.seen = (told user xs).map fun e => some e.1.id
  known : ∀ e ∈ told user xs, ∃ m ∈ ms, e.1.id = m.id ∧ (e.2 = true ↔ m.senderId = user)
  byClient : ∀ m ∈ ms, m.senderId = user → p.byClientId m.clientMsgId = place (told user xs) m.id
  sent : p.sent = xs.flatMap (PaneInput.replies user)

namespace Shows

variable {user : UserId} {ms : List Message} {xs : List PaneInput} {x : PaneInput} {p : Pane}
  {m : Message} {d : MessageOut} {id : Uuid} {state : TickState}

theorem init : Shows user ms [] Pane.init where
  log := rfl
  seen := rfl
  known _ mem := absurd mem List.not_mem_nil
  byClient _ _ _ := rfl
  sent := rfl

theorem seen_iff (shows : Shows user ms xs p) :
    some id ∈ p.seen ↔ id ∈ (told user xs).map fun e => e.1.id := by
  rw [shows.seen]
  simp

/-- Something is said that tells no message. -/
theorem said (shows : Shows user ms xs p) {q : Pane} (quiet : x.tells user = none)
    (silent : x.replies user = []) (log : q.log = (told user xs).map (bubble (lastOf (xs ++ [x]))))
    (rest : SameRest p q) : Shows user ms (xs ++ [x]) q := by
  have same : told user (xs ++ [x]) = told user xs := told_quiet quiet
  refine ⟨by rw [same, log], by rw [same, rest.seen, shows.seen], by rw [same]; exact shows.known,
    by rw [same, rest.byClientId]; exact shows.byClient, ?_⟩
  rw [rest.sent, shows.sent, List.flatMap_append, List.flatMap_singleton, silent, List.append_nil]

/-- One of the user's own messages is told again. -/
theorem again (shows : Shows user ms xs p) (inside : m ∈ ms) (own : m.senderId = user)
    (tells : x.tells user = some (d, true)) (id : d.id = m.id) (silent : x.replies user = [])
    (said : ∀ k, x.mentions k = if m.id = k then some .sent else none)
    (known : m.id ∈ (told user xs).map fun e => e.1.id) :
    Shows user ms (xs ++ [x])
      ((p.render (some d) m.clientMsgId true).setTickOf m.clientMsgId .sent) := by
  have same : told user (xs ++ [x]) = told user xs := by
    rw [told_concat tells, keepFirst, if_pos (id ▸ known)]
  have kept : p.render (some d) m.clientMsgId true = p := by
    rw [render]
    exact if_pos (shows.seen_iff.mpr (id ▸ known))
  obtain ⟨i, found⟩ := Option.ne_none_iff_exists'.mp fun none => place_none.mp none known
  rw [kept, setTickOf, shows.byClient m inside own, found]
  refine ⟨?_, by rw [same]; exact shows.seen, by rw [same]; exact shows.known,
    by rw [same]; exact shows.byClient, ?_⟩
  · rw [same, lastOf_said said]
    exact setTick_log (firsts_nodup ..) shows.log found
  · rw [List.flatMap_append, List.flatMap_singleton, silent, List.append_nil]
    exact shows.sent

/-- One of the user's own messages is told for the first time. -/
theorem new (shows : Shows user ms xs p) (rows : Rows ms) (inside : m ∈ ms) (own : m.senderId = user)
    (tells : x.tells user = some (d, true)) (id : d.id = m.id) (silent : x.replies user = [])
    (said : ∀ k, x.mentions k = if m.id = k then some .sent else none)
    (unknown : m.id ∉ (told user xs).map fun e => e.1.id) :
    Shows user ms (xs ++ [x])
      ((p.render (some d) m.clientMsgId true).setTickOf m.clientMsgId .sent) := by
  have grown : told user (xs ++ [x]) = told user xs ++ [(d, true)] := by
    rw [told_concat tells, keepFirst, if_neg (id ▸ unknown)]
  have length : p.log.length = (told user xs).length := by rw [shows.log, List.length_map]
  have unseen : some d.id ∉ p.seen := fun mem => unknown (id ▸ shows.seen_iff.mp mem)
  have rendered : p.render (some d) m.clientMsgId true =
      { p with
        seen := p.seen ++ [some d.id]
        log := p.log ++ [⟨some d, some ⟨"", false⟩⟩]
        byClientId := Function.update p.byClientId m.clientMsgId (some p.log.length) } := by
    rw [render]
    simp only [Option.map_some, if_neg unseen, Bool.true_and, rows.named m inside, ne_eq,
      not_false_eq_true, decide_true, if_true]
  have nodup : ((told user xs ++ [(d, true)]).map fun e => e.1.id).Nodup := by
    rw [← grown]
    exact firsts_nodup ..
  have found : place (told user xs ++ [(d, true)]) m.id = some (told user xs).length := by
    rw [place_concat, place_none.mpr unknown, if_pos id, Option.none_or]
  have shown : p.log ++ [⟨some d, some ⟨"", false⟩⟩] =
      (told user xs ++ [(d, true)]).map (bubble (Function.update (lastOf xs) m.id none)) := by
    rw [List.map_append, bubble_absent unknown, ← shows.log, List.map_singleton]
    simp [bubble, id]
  rw [rendered, setTickOf]
  simp only [Function.update_self]
  refine ⟨?_, ?_, ?_, fun n mem mine => ?_, ?_⟩
  · have twice : Function.update (Function.update (lastOf xs) m.id none) m.id (some .sent) =
        Function.update (lastOf xs) m.id (some TickState.sent) := Function.update_idem ..
    rw [grown, lastOf_said said, length, ← twice]
    exact setTick_log nodup shown found
  · rw [grown, List.map_append, ← shows.seen]
    rfl
  · rw [grown]
    intro e mem
    rcases List.mem_append.mp mem with old | last
    · exact shows.known e old
    · rw [List.mem_singleton.mp last]
      exact ⟨m, inside, id, fun _ => own, fun _ => rfl⟩
  · rw [grown, setTick]
    dsimp only
    by_cases same : n.clientMsgId = m.clientMsgId
    · obtain rfl := rows.clients n mem m inside (Prod.ext (mine.trans own.symm) same)
      rw [found, Function.update_self, length]
    · have apart : d.id ≠ n.id := by
        intro eq
        exact same (congrArg Message.clientMsgId (rows.ids n mem m inside (eq.symm.trans id)))
      rw [Function.update_of_ne same, shows.byClient n mem mine, place_concat, if_neg apart,
        Option.or_none]
  · rw [List.flatMap_append, List.flatMap_singleton, silent, List.append_nil]
    exact shows.sent

theorem mine (shows : Shows user ms xs p) (rows : Rows ms) (inside : m ∈ ms) (own : m.senderId = user)
    (tells : x.tells user = some (d, true)) (id : d.id = m.id) (silent : x.replies user = [])
    (said : ∀ k, x.mentions k = if m.id = k then some .sent else none) :
    Shows user ms (xs ++ [x])
      ((p.render (some d) m.clientMsgId true).setTickOf m.clientMsgId .sent) := by
  by_cases known : m.id ∈ (told user xs).map fun e => e.1.id
  · exact shows.again inside own tells id silent said known
  · exact shows.new rows inside own tells id silent said known

/-- `mark` renders what has no `div` yet. -/
theorem mark_eq (shows : Shows user ms xs p) (rows : Rows ms) (inside : m ∈ ms)
    (own : m.senderId = user) (id : d.id = m.id) :
    p.mark m.clientMsgId (some d) .sent =
      (p.render (some d) m.clientMsgId true).setTickOf m.clientMsgId .sent := by
  have by_ := shows.byClient m inside own
  unfold mark
  rw [if_neg (rows.named m inside), by_]
  cases found : place (told user xs) m.id with
  | none => rfl
  | some i =>
    have known : d.id ∈ (told user xs).map fun e => e.1.id := by
      by_contra unknown
      rw [place_none.mpr (id ▸ unknown)] at found
      cases found
    have kept : p.render (some d) m.clientMsgId true = p := by
      rw [render]
      exact if_pos (shows.seen_iff.mpr known)
    rw [kept, setTickOf, by_, found]

/-- A message of the other side comes, for the first time or again. -/
theorem received (shows : Shows user ms xs p) (rows : Rows ms) (inside : m ∈ ms)
    (other : m.senderId ≠ user) (tells : x.tells user = some (d, false)) (id : d.id = m.id)
    (said : ∀ k, x.mentions k = if m.id = k then some .sent else none) {es : List PaneEvent}
    (replies : x.replies user = es) :
    Shows user ms (xs ++ [x])
      { p.render (some d) d.clientMsgId false with
        sent := (p.render (some d) d.clientMsgId false).sent ++ es } := by
  have foreign : ∀ e ∈ told user xs, e.1.id = m.id → e.2 = false := by
    intro e mem same
    obtain ⟨n, there, eq, own⟩ := shows.known e mem
    obtain rfl := rows.ids n there m inside (eq.symm.trans same)
    exact Bool.eq_false_iff.mpr fun mine => other (own.mp mine)
  have sent : p.sent ++ es = (xs ++ [x]).flatMap (PaneInput.replies user) := by
    rw [List.flatMap_append, List.flatMap_singleton, replies, shows.sent]
  have log : p.log = (told user xs).map (bubble (lastOf (xs ++ [x]))) := by
    rw [lastOf_said said, bubble_received foreign]
    exact shows.log
  by_cases known : m.id ∈ (told user xs).map fun e => e.1.id
  · have same : told user (xs ++ [x]) = told user xs := by
      rw [told_concat tells, keepFirst, if_pos (id ▸ known)]
    have kept : p.render (some d) d.clientMsgId false = p := by
      rw [render]
      exact if_pos (shows.seen_iff.mpr (id ▸ known))
    rw [kept]
    exact ⟨by rw [same]; exact log, by rw [same]; exact shows.seen, by rw [same]; exact shows.known,
      by rw [same]; exact shows.byClient, sent⟩
  · have grown : told user (xs ++ [x]) = told user xs ++ [(d, false)] := by
      rw [told_concat tells, keepFirst, if_neg (id ▸ known)]
    have unseen : some d.id ∉ p.seen := fun mem => known (id ▸ shows.seen_iff.mp mem)
    have rendered : p.render (some d) d.clientMsgId false =
        { p with seen := p.seen ++ [some d.id], log := p.log ++ [⟨some d, none⟩] } := by
      rw [render]
      simp only [Option.map_some, if_neg unseen, Bool.false_and, Bool.false_eq_true, if_false]
    rw [rendered]
    refine ⟨?_, ?_, ?_, fun n mem mine => ?_, sent⟩
    · rw [grown, List.map_append, ← log]
      rfl
    · rw [grown, List.map_append, ← shows.seen]
      rfl
    · rw [grown]
      intro e mem
      rcases List.mem_append.mp mem with old | last
      · exact shows.known e old
      · rw [List.mem_singleton.mp last]
        exact ⟨m, inside, id, fun no => Bool.noConfusion no, fun own => absurd own other⟩
    · have apart : d.id ≠ n.id := by
        intro eq
        exact other (rows.ids m inside n mem (id.symm.trans eq) ▸ mine)
      rw [grown, place_concat, if_neg apart, Option.or_none]
      exact shows.byClient n mem mine

theorem talk (shows : Shows user ms xs p) (c : Option Uuid) : Shows user ms xs { p with convId := c } :=
  ⟨shows.log, shows.seen, shows.known, shows.byClient, shows.sent⟩

theorem step (shows : Shows user ms xs p) (rows : Rows ms) (about : Told user ms x) :
    Shows user ms (xs ++ [x]) (p.step user x) := by
  have quiet : ∀ {x : PaneInput}, (∀ id, x.mentions id = none) →
      (told user xs).map (bubble (lastOf xs)) = (told user xs).map (bubble (lastOf (xs ++ [x]))) :=
    fun none => by rw [lastOf_quiet none]
  cases x with
  | answered clientId out =>
    obtain ⟨d, rfl, m, inside, id, own, rfl⟩ := about
    exact shows.mine rows inside own rfl id rfl fun k => by rw [← id]; rfl
  | arrives e =>
    cases e with
    | typing e => exact shows.said rfl rfl (shows.log.trans (quiet fun _ => rfl)) ⟨rfl, rfl, rfl⟩
    | own r => exact shows.said rfl rfl (shows.log.trans (quiet fun _ => rfl)) ⟨rfl, rfl, rfl⟩
    | message e =>
      cases e with
      | messageNew d =>
        obtain ⟨m, inside, id, sender, client⟩ := about
        have said : ∀ k, (PaneInput.arrives (.message (.messageNew d))).mentions k =
            if m.id = k then some .sent else none := fun k => by rw [← id]; rfl
        by_cases own : d.senderId = user
        · have tells : (PaneInput.arrives (.message (.messageNew d))).tells user = some (d, true) := by
            rw [PaneInput.tells, decide_eq_true own]
          have replies : (PaneInput.arrives (.message (.messageNew d))).replies user = [] := if_pos own
          have mine : m.senderId = user := sender ▸ own
          have shows := shows.talk (some d.conversationId)
          rw [Pane.step, onEvent, if_pos own, client, shows.mark_eq rows inside mine id]
          exact shows.mine rows inside mine tells id replies said
        · have tells : (PaneInput.arrives (.message (.messageNew d))).tells user = some (d, false) := by
            rw [PaneInput.tells, decide_eq_false own]
          have shows := shows.talk (some d.conversationId)
          rw [Pane.step, onEvent, if_neg own]
          exact shows.received rows inside (sender ▸ own) tells id said (if_neg own)
      | messageDelivered messageId conversationId clientMsgId deliveredAt =>
        obtain ⟨m, inside, rfl, own, rfl⟩ := about
        have later : lastOf (xs ++ [.arrives (.message (.messageDelivered m.id conversationId
            m.clientMsgId deliveredAt))]) = Function.update (lastOf xs) m.id (some .delivered) :=
          lastOf_said fun k => rfl
        rw [Pane.step, onEvent]
        unfold mark
        rw [if_neg (rows.named m inside), shows.byClient m inside own]
        cases found : place (told user xs) m.id with
        | none =>
          refine shows.said rfl rfl ?_ ⟨rfl, rfl, rfl⟩
          rw [later, bubble_absent (place_none.mp found)]
          exact shows.log
        | some i =>
          refine shows.said rfl rfl ?_ ⟨rfl, rfl, rfl⟩
          rw [later]
          exact setTick_log (firsts_nodup ..) shows.log found
      | messageRead conversationId readerId messageIds readAt =>
        obtain ⟨log, rest⟩ := markAll_log (firsts_nodup ..) shows.log
        refine shows.said rfl rfl (log.trans ?_) rest
        congr 2
        funext id
        rw [lastOf_concat, PaneInput.mentions]
        by_cases inside : id ∈ messageIds
        · rw [if_pos inside, if_pos inside, Option.some_or]
        · rw [if_neg inside, if_neg inside, Option.none_or]

end Shows

theorem run_shows {user : UserId} {ms : List Message} (rows : Rows ms) {xs : List PaneInput}
    (about : ∀ x ∈ xs, Told user ms x) : Shows user ms xs (run user xs) := by
  induction xs using List.reverseRecOn with
  | nil => exact Shows.init
  | append_singleton xs x ih =>
    rw [run, List.foldl_append]
    exact (ih fun y mem => about y (List.mem_append_left _ mem)).step rows
      (about x (List.mem_append_right xs (List.mem_singleton_self x)))

end Pane

/-- The body of an error takes the place of the message that was stored all the same. -/
example : (Pane.run "a" [.answered "1" none, .arrives (.message (.messageNew
    (toOut .plain (newMessage "a" .helloB (some "hello") none 10 11 1))))]).log.map Bubble.id = [none] := by decide

end ChatBackend

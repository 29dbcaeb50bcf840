import ChatBackend.Realtime.CausalOrder
import ChatBackend.Realtime.Dispatch
import ChatBackend.Service.OutboxAgreement
import ChatBackend.Service.Privacy

/-! The whole backend: the calls of the service over one database, the relays of all replicas over its
outbox, and the hub of each replica. A commit adds its rows to the outbox that the relays work on;
a command that Redis takes from a relay or from a session reaches every hub that is subscribed. -/

namespace ChatBackend

open Lib

abbrev ReplicaId := Nat

/-- The events that a client is sent. `own` are those its session makes: hello, ping, pong, error. -/
inductive Push where
  | message (e : Event)
  | typing (e : TypingEvent)
  | own (r : Json)

def HubInput.isLocal : HubInput Push → Bool
  | .publish _ => false
  | .send _ (.own _) => true
  | .send _ _ => false
  | _ => true

/-- PUBLISH, as one hub sees it. -/
def Hub.hear {ε : Type} (h : Hub ε) (m : Publication ε) : Hub ε :=
  if m.channel ∈ h.subscribed then { h with inbox := h.inbox ++ [m] } else h

structure Deployment where
  sys : Sys
  peers : List (Session × Uuid × UserId)
  typing : List (UserId × TypingEvent)
  relays : Relays
  hubs : ReplicaId → Hub Push

/-- `ids` are the outbox ids that a commit has taken. `repeated`: Redis takes the next command of a
pipeline and the client does not hear of it. `reached`: Redis took the command. -/
inductive DeploymentInput where
  | call (i : Input) (ids : List Nat)
  | relay (i : RelayInput)
  | repeated (r : RelayId)
  | typing (session : Session) (conversationId : Uuid) (isTyping reached : Bool)
  | hub (q : ReplicaId) (i : HubInput Push)

/-- `user` is the `user_id` of each connection of each replica. -/
structure DeploymentConfig where
  env : Env
  batchSize : Nat
  retention : Nat
  user : ReplicaId → ConnId → UserId
  name : ReplicaId → String

namespace Deployment

def init : Deployment := ⟨Sys.init, [], [], Relays.init, fun _ => Hub.init⟩

/-- What the sessions see. -/
def service (s : Deployment) : Service := ⟨s.sys.db, s.peers, s.typing⟩

def broadcast (s : Deployment) (channel : String) (p : Push) : Deployment :=
  { s with hubs := fun q => (s.hubs q).hear ⟨channel, some p⟩ }

/-- The row whose command is the next of the pipeline. -/
def pending (s : Deployment) (r : RelayId) : Option OutboxRow :=
  match s.relays.pcs r with
  | .publishing _ _ (x :: _) _ => some x
  | _ => none

/-- The row whose command Redis takes and answers. -/
def taken (s : Deployment) : RelayInput → Option OutboxRow
  | .publish r true => s.pending r
  | _ => none

def deliver (s : Deployment) (x : OutboxRow) : Deployment :=
  s.broadcast (topicChannel x.topic) (.message x.payload)

def step (cfg : DeploymentConfig) (s : Deployment) : DeploymentInput → Option Deployment
  | .call i ids => do
    let sys ← s.sys.step cfg.env i
    let rows := sys.db.outbox.drop s.sys.db.outbox.length
    if ids.length = rows.length then
      (s.relays.insert (ids.zip rows)).map fun relays => { s with sys := sys, relays := relays }
    else none
  | .relay i =>
    if i.isInsert then none
    else (s.relays.step cfg.batchSize cfg.retention i).map fun relays =>
      match s.taken i with
      | some x => { s with relays := relays }.deliver x
      | none => { s with relays := relays }
  | .repeated r => (s.pending r).map s.deliver
  | .typing session conversationId isTyping reached =>
    let r := sendTyping s.service session conversationId isTyping
    match reached, r.1.typing.drop s.typing.length with
    | true, (peer, e) :: _ =>
      some ({ s with peers := r.1.peers, typing := r.1.typing }.broadcast
        (userChannel peer) (.typing e))
    | _, _ => some { s with peers := r.1.peers }
  | .hub q i =>
    if i.isLocal then
      ((s.hubs q).step (cfg.user q) (controlChannel (cfg.name q)) i).map fun h =>
        { s with hubs := Function.update s.hubs q h }
    else none

end Deployment

def deployment (cfg : DeploymentConfig) : Machine Deployment DeploymentInput :=
  ⟨Deployment.init, Deployment.step cfg⟩

namespace Deployment

/-- All that one step can do. -/
inductive Steps (cfg : DeploymentConfig) (s : Deployment) : DeploymentInput → Deployment → Prop where
  | called (i : Input) (ids : List Nat) (sys : Sys) (relays : Relays) :
      s.sys.step cfg.env i = some sys →
      ids.length = (sys.db.outbox.drop s.sys.db.outbox.length).length →
      s.relays.step cfg.batchSize cfg.retention
        (.insert (ids.zip (sys.db.outbox.drop s.sys.db.outbox.length))) = some relays →
      Steps cfg s (.call i ids) { s with sys := sys, relays := relays }
  | relayed (i : RelayInput) (relays : Relays) : i.isInsert = false → s.taken i = none →
      s.relays.step cfg.batchSize cfg.retention i = some relays →
      Steps cfg s (.relay i) { s with relays := relays }
  | published (i : RelayInput) (relays : Relays) (x : OutboxRow) : i.isInsert = false →
      s.taken i = some x → s.relays.step cfg.batchSize cfg.retention i = some relays →
      Steps cfg s (.relay i) ({ s with relays := relays }.deliver x)
  | repeated (r : RelayId) (x : OutboxRow) : s.pending r = some x →
      Steps cfg s (.repeated r) (s.deliver x)
  | typed (session : Session) (conversationId : Uuid) (isTyping : Bool) (peer : UserId)
      (e : TypingEvent) (rest : List (UserId × TypingEvent)) :
      (sendTyping s.service session conversationId isTyping).1.typing.drop s.typing.length =
        (peer, e) :: rest →
      Steps cfg s (.typing session conversationId isTyping true)
        ({ s with
          peers := (sendTyping s.service session conversationId isTyping).1.peers
          typing := (sendTyping s.service session conversationId isTyping).1.typing }.broadcast
            (userChannel peer) (.typing e))
  | cached (session : Session) (conversationId : Uuid) (isTyping reached : Bool) :
      (reached = true →
        (sendTyping s.service session conversationId isTyping).1.typing.drop s.typing.length = []) →
      Steps cfg s (.typing session conversationId isTyping reached)
        { s with peers := (sendTyping s.service session conversationId isTyping).1.peers }
  | local_ (q : ReplicaId) (i : HubInput Push) (h : Hub Push) : i.isLocal = true →
      (s.hubs q).step (cfg.user q) (controlChannel (cfg.name q)) i = some h →
      Steps cfg s (.hub q i) { s with hubs := Function.update s.hubs q h }

theorem step_cases {cfg : DeploymentConfig} {s t : Deployment} {i : DeploymentInput}
    (step : s.step cfg i = some t) : Steps cfg s i t := by
  cases i with
  | call i ids =>
    simp only [Deployment.step, Option.bind_eq_bind, Option.bind_eq_some_iff] at step
    obtain ⟨sys, ran, step⟩ := step
    obtain ⟨enough, made⟩ := Option.ite_none_right_eq_some.mp step
    obtain ⟨relays, inserted, eq⟩ := Option.map_eq_some_iff.mp made
    cases eq
    exact .called i ids sys relays ran enough inserted
  | relay i =>
    simp only [Deployment.step] at step
    split at step
    · cases step
    · rename_i own
      obtain ⟨relays, ran, eq⟩ := Option.map_eq_some_iff.mp step
      split at eq
      · rename_i x took
        cases eq
        exact .published i relays x (Bool.eq_false_iff.mpr own) took ran
      · rename_i none
        cases eq
        exact .relayed i relays (Bool.eq_false_iff.mpr own) none ran
  | repeated r =>
    obtain ⟨x, next, eq⟩ := Option.map_eq_some_iff.mp step
    cases eq
    exact .repeated r x next
  | typing session conversationId isTyping reached =>
    simp only [Deployment.step] at step
    split at step
    · rename_i peer e rest sent
      cases step
      exact .typed session conversationId isTyping peer e rest sent
    · rename_i unsent
      cases step
      refine .cached session conversationId isTyping _ fun yes => ?_
      cases sent : (sendTyping s.service session conversationId isTyping).1.typing.drop s.typing.length with
      | nil => rfl
      | cons e rest => exact absurd sent (unsent e.1 e.2 rest yes)
  | hub q i =>
    obtain ⟨own, made⟩ := Option.ite_none_right_eq_some.mp step
    obtain ⟨h, ran, eq⟩ := Option.map_eq_some_iff.mp made
    cases eq
    exact .local_ q i h own ran

end Deployment

/-! What a hub hands out it has heard on the channel of the connection's user. -/

namespace Hub

variable {ε : Type} {user : ConnId → UserId} {control : String}

/-- Whatever waits in the buffer or was put in a queue is `due` on its channel. -/
structure Carries (due : String → ε → Prop) (user : ConnId → UserId) (h : Hub ε) : Prop where
  inbox : ∀ m ∈ h.inbox, ∀ e ∈ m.data, due m.channel e
  put : ∀ c, ∀ e ∈ (h.conns c).put, due (userChannel (user c)) e

variable {due : String → ε → Prop}

theorem Carries.init : Carries due user (Hub.init : Hub ε) :=
  ⟨fun _ mem => absurd mem List.not_mem_nil, fun _ _ mem => absurd mem List.not_mem_nil⟩

theorem Carries.mono {due' : String → ε → Prop} {h : Hub ε} (carries : Carries due user h)
    (le : ∀ channel e, due channel e → due' channel e) : Carries due' user h :=
  ⟨fun m mem e some => le _ e (carries.inbox m mem e some),
    fun c e mem => le _ e (carries.put c e mem)⟩

theorem Carries.hear {h : Hub ε} (carries : Carries due user h) {m : Publication ε}
    (good : ∀ e ∈ m.data, due m.channel e) : Carries due user (h.hear m) := by
  unfold Hub.hear
  split
  · refine ⟨fun n mem => ?_, carries.put⟩
    cases List.mem_append.mp mem with
    | inl old => exact carries.inbox n old
    | inr new => exact List.mem_singleton.mp new ▸ good
  · exact carries

/-- A dispatch puts an event in the queues of those whose channel it came on. -/
theorem put_dispatch {h : Hub ε} (registry : Registry user h) (m : Publication ε) {c : ConnId} {e : ε}
    (mem : e ∈ ((h.dispatch m).conns c).put) :
    e ∈ (h.conns c).put ∨ m.channel = userChannel (user c) ∧ m.data = some e := by
  unfold dispatch at mem
  split at mem
  · exact .inl mem
  · rename_i u owner
    split at mem
    · exact .inl mem
    · rename_i conns found
      split at mem
      · exact .inl mem
      · rename_i event data
        dsimp only at mem
        split at mem
        · rename_i inside
          obtain old | rfl := Connection.mem_sendNowait mem
          · exact .inl old
          · have same := ((registry.members u conns found).2.2 c inside).1
            exact .inr ⟨same ▸ channelUser_some owner, data⟩
        · exact .inl mem

theorem Carries.update {h t : Hub ε} (carries : Carries due user h) (inbox : t.inbox ⊆ h.inbox)
    {c : ConnId} {conn : Connection ε} (conns : t.conns = Function.update h.conns c conn)
    (good : ∀ e ∈ conn.put, due (userChannel (user c)) e) : Carries due user t := by
  refine ⟨fun m mem => carries.inbox m (inbox mem), fun d e mem => ?_⟩
  rw [conns] at mem
  by_cases same : d = c
  · subst same
    rw [Function.update_self] at mem
    exact good e mem
  · rw [Function.update_of_ne same] at mem
    exact carries.put d e mem

theorem Carries.step {h t : Hub ε} {i : HubInput ε} (carries : Carries due user h)
    (registry : Registry user h) (step : Steps user control h i t)
    (sends : ∀ c e, i = .send c e → due (userChannel (user c)) e)
    (publishes : ∀ m, i = .publish m → ∀ e ∈ m.data, due m.channel e) : Carries due user t := by
  have same : t.inbox = h.inbox → t.conns = h.conns → Carries due user t := fun inbox conns =>
    ⟨by rw [inbox]; exact carries.inbox, by rw [conns]; exact carries.put⟩
  cases step with
  | first | joins | last | leaves | resumed | timedOut | looked | slept => exact same rfl rfl
  | dropped m away => exact carries
  | published m here =>
    have heard := carries.hear (publishes m rfl)
    rwa [Hub.hear, if_pos here] at heard
  | connected channels pc => exact same (by simp) (by simp)
  | applied r pc => exact same (by simp) (by simp)
  | quiet pc => exact same (by simp) (by simp)
  | failed pc => exact ⟨fun m mem => absurd mem List.not_mem_nil, carries.put⟩
  | failedApplying r pc => exact ⟨fun m mem => absurd mem List.not_mem_nil, carries.put⟩
  | received m rest pc some =>
    have inside : ∀ n ∈ rest, n ∈ h.inbox := fun n mem => some ▸ List.mem_cons_of_mem m mem
    have frame := dispatch_eq { h with inbox := rest } m
    refine ⟨fun n mem => ?_, fun c e mem => ?_⟩
    · rw [applyRequests_inbox, frame] at mem
      exact carries.inbox n (inside n mem)
    · rw [applyRequests_conns] at mem
      have registry : Registry user { h with inbox := rest } := registry.congr rfl fun _ => Iff.rfl
      obtain old | ⟨channel, data⟩ := put_dispatch registry m mem
      · exact carries.put c e old
      · exact channel ▸ carries.inbox m (some ▸ List.mem_cons_self) e data
  | sent c e =>
    refine carries.update (List.Subset.refl _) rfl fun x mem => ?_
    obtain old | rfl := Connection.mem_sendNowait mem
    · exact carries.put c x old
    · exact sends c x rfl
  | closed c code reason =>
    refine carries.update (List.Subset.refl _) rfl fun x mem => carries.put c x ?_
    rwa [Connection.put_close] at mem
  | taken c => exact carries.update (List.Subset.refl _) rfl (carries.put c)

end Hub

/-! What may be pushed on a channel, by the database alone. -/

/-- A change that is durable, or that a member of the conversation is typing. -/
def Due (db : Db) (channel : String) : Push → Prop
  | .message e => ∃ row ∈ db.outbox, topicChannel row.topic = channel ∧ row.payload = e
  | .typing e => ∃ c ∈ db.conversations, c.id = e.conversationId ∧ c.hasMember e.userId = true ∧
      channel = userChannel (c.peerOf e.userId)
  | .own _ => True

theorem Due.grows {a b : Db} (outbox : ∀ row ∈ a.outbox, row ∈ b.outbox)
    (conversations : ∀ c ∈ a.conversations, c ∈ b.conversations) {channel : String} {p : Push}
    (due : Due a channel p) : Due b channel p := by
  cases p with
  | message e =>
    obtain ⟨row, mem, same⟩ := due
    exact ⟨row, outbox row mem, same⟩
  | typing e =>
    obtain ⟨c, mem, same⟩ := due
    exact ⟨c, conversations c mem, same⟩
  | own r => trivial

/-- Every row that a call has committed is a row of the relays' table, in the same order. -/
structure Deployment.Inv (cfg : DeploymentConfig) (s : Deployment) : Prop where
  reached : ∃ is, s.sys = (chat cfg.env).run is
  service : s.service.Inv
  relays : s.relays.Inv
  logged : s.relays.Logged
  handedOver : s.relays.committed.map Prod.snd = s.sys.db.outbox
  registry : ∀ q, (s.hubs q).Registry (cfg.user q)
  carries : ∀ q, (s.hubs q).Carries (Due s.sys.db) (cfg.user q)

namespace Deployment

variable {cfg : DeploymentConfig} {s t : Deployment}

theorem Inv.init : Deployment.init.Inv cfg where
  reached := ⟨[], rfl⟩
  service := Service.Inv.init
  relays := Relays.Inv.init
  logged := Relays.Logged.init
  handedOver := rfl
  registry _ := Hub.Registry.init
  carries _ := Hub.Carries.init

/-- A step of a call adds rows and conversations and takes none away. -/
theorem Inv.grown {i : Input} {sys : Sys} (inv : s.Inv cfg) (ran : s.sys.step cfg.env i = some sys) :
    (∃ rows, sys.db.outbox = s.sys.db.outbox ++ rows) ∧
      (∀ c ∈ s.sys.db.conversations, c ∈ sys.db.conversations) ∧ sys.db.Sound := by
  obtain ⟨is, same⟩ := inv.reached
  have before : s.sys.Inv cfg.env := same ▸ chat_inv cfg.env is
  have change := before.step_change ran
  have sound := (before.step ran).sound
  split at change
  · rw [change]
    exact ⟨⟨[], (List.append_nil _).symm⟩, fun c mem => mem, before.sound⟩
  · rename_i ch _
    refine ⟨⟨ch.rows cfg.env, by rw [change.2]; rfl⟩, fun c mem => ?_, sound⟩
    rw [change.2]
    exact List.mem_append_left _ mem

theorem service_grows {a b : Db} {peers : List (Session × Uuid × UserId)}
    {typing : List (UserId × TypingEvent)} (inv : Service.Inv ⟨a, peers, typing⟩) (sound : b.Sound)
    (conversations : ∀ c ∈ a.conversations, c ∈ b.conversations) :
    Service.Inv ⟨b, peers, typing⟩ := by
  refine ⟨sound, fun e mem => ?_, fun e mem => ?_⟩
  · obtain ⟨c, inside, same⟩ := inv.peers e mem
    exact ⟨c, conversations c inside, same⟩
  · obtain ⟨c, inside, same⟩ := inv.typing e mem
    exact ⟨c, conversations c inside, same⟩

theorem hear_registry {h : Hub Push} {user : ConnId → UserId} (registry : h.Registry user)
    (m : Publication Push) : (h.hear m).Registry user := by
  unfold Hub.hear
  split
  · exact registry.congr rfl fun _ => Iff.rfl
  · exact registry

/-- The row of a command is a row of the outbox. -/
theorem Inv.pending {r : RelayId} {x : OutboxRow} (inv : s.Inv cfg) (next : s.pending r = some x) :
    x.toOutbox ∈ s.sys.db.outbox := by
  unfold Deployment.pending at next
  split at next
  · rename_i now done y todo failed pc
    cases next
    have held := ((inv.relays.relayAt pc).batch x (by simp [RelayPc.batch])).1
    rw [← inv.handedOver]
    exact List.mem_map.mpr ⟨_, inv.relays.rows x held, rfl⟩
  · cases next

theorem taken_some {i : RelayInput} {x : OutboxRow} (took : s.taken i = some x) :
    ∃ r, i = .publish r true ∧ s.pending r = some x := by
  unfold Deployment.taken at took
  split at took
  · rename_i r
    exact ⟨r, rfl, took⟩
  · cases took

/-- A hub hears of a row of the outbox. -/
theorem Inv.carries_hear (inv : s.Inv cfg) {x : OutboxRow} (row : x.toOutbox ∈ s.sys.db.outbox)
    (q : ReplicaId) :
    ((s.hubs q).hear ⟨topicChannel x.topic, some (.message x.payload)⟩).Carries (Due s.sys.db)
      (cfg.user q) := by
  refine (inv.carries q).hear fun e some => ?_
  cases some
  exact ⟨x.toOutbox, row, rfl, rfl⟩

theorem relays_committed {batchSize retention : Nat} {a b : Relays} {i : RelayInput}
    (own : i.isInsert = false) (ran : a.step batchSize retention i = some b) :
    b.committed = a.committed := by
  cases Relays.step_cases ran with
  | inserted => cases own
  | began | sweeps | skipped | took | spared | doomed | empty | selected | published | raised
  | executed | marked | committed | swept | failed => rfl

theorem Inv.step {i : DeploymentInput} (inv : s.Inv cfg) (step : Steps cfg s i t) : t.Inv cfg := by
  cases step with
  | called i ids sys relays ran enough inserted =>
    obtain ⟨⟨rows, grown⟩, conversations, sound⟩ := inv.grown ran
    have added : ids.zip (sys.db.outbox.drop s.sys.db.outbox.length) = ids.zip rows := by
      rw [grown, List.drop_left]
    have length : ids.length = rows.length := by rw [enough, grown, List.drop_left]
    have rows_mem : ∀ row ∈ s.sys.db.outbox, row ∈ sys.db.outbox := by
      rw [grown]
      exact fun row mem => List.mem_append_left _ mem
    obtain ⟨is, same⟩ := inv.reached
    have cases_ := Relays.step_cases inserted
    refine ⟨⟨is ++ [i], ?_⟩, service_grows inv.service sound conversations, inv.relays.step cases_,
      inv.logged.step inv.relays cases_, ?_, inv.registry, fun q => ?_⟩
    · rw [Machine.run_concat, ← same]
      exact (Machine.next_of_step _ ran).symm
    · cases cases_ with
      | inserted rows nodup fresh =>
        rw [List.map_append, inv.handedOver, added, grown, List.map_snd_zip (by omega)]
    · exact (inv.carries q).mono fun channel p due => due.grows rows_mem conversations
  | relayed i relays own none ran =>
    have cases_ := Relays.step_cases ran
    exact ⟨inv.reached, inv.service, inv.relays.step cases_, inv.logged.step inv.relays cases_,
      by rw [relays_committed own ran]; exact inv.handedOver, inv.registry, inv.carries⟩
  | published i relays x own took ran =>
    have cases_ := Relays.step_cases ran
    obtain ⟨r, _, next⟩ := taken_some took
    have committed : relays.committed.map Prod.snd = s.sys.db.outbox := by
      rw [relays_committed own ran]
      exact inv.handedOver
    exact ⟨inv.reached, inv.service, inv.relays.step cases_, inv.logged.step inv.relays cases_,
      committed, fun q => hear_registry (inv.registry q) _, inv.carries_hear (inv.pending next)⟩
  | repeated r x next =>
    exact ⟨inv.reached, inv.service, inv.relays, inv.logged, inv.handedOver,
      fun q => hear_registry (inv.registry q) _, inv.carries_hear (inv.pending next)⟩
  | typed session conversationId isTyping peer e rest sent =>
    have kept := inv.service.sendTyping session conversationId isTyping
    have db := sendTyping_db s.service session conversationId isTyping
    have after : Service.Inv ⟨s.sys.db,
        (sendTyping s.service session conversationId isTyping).1.peers,
        (sendTyping s.service session conversationId isTyping).1.typing⟩ := by
      have same : (sendTyping s.service session conversationId isTyping).1.db = s.sys.db := db
      rw [← same]
      exact kept
    refine ⟨inv.reached, after, inv.relays, inv.logged, inv.handedOver,
      fun q => hear_registry (inv.registry q) _, fun q => (inv.carries q).hear ?_⟩
    intro p some
    cases some
    have mem : (peer, e) ∈ (sendTyping s.service session conversationId isTyping).1.typing :=
      List.mem_of_mem_drop (sent ▸ List.mem_cons_self)
    obtain ⟨c, inside, id, member, same⟩ := after.typing _ mem
    exact ⟨c, inside, id, member, congrArg userChannel same⟩
  | cached session conversationId isTyping reached unsent =>
    have kept := inv.service.sendTyping session conversationId isTyping
    have db : (sendTyping s.service session conversationId isTyping).1.db = s.sys.db :=
      sendTyping_db s.service session conversationId isTyping
    refine ⟨inv.reached, ⟨inv.service.sound, fun e mem => ?_, inv.service.typing⟩, inv.relays,
      inv.logged, inv.handedOver, inv.registry, inv.carries⟩
    obtain ⟨c, inside, same⟩ := kept.peers e mem
    rw [db] at inside
    exact ⟨c, inside, same⟩
  | local_ q i h own ran =>
    have cases_ := Hub.step_cases ran
    refine ⟨inv.reached, inv.service, inv.relays, inv.logged, inv.handedOver,
      fun p => ?_, fun p => ?_⟩
    · by_cases same : p = q
      · subst same
        simpa using (inv.registry p).step cases_
      · simpa [same] using inv.registry p
    · by_cases same : p = q
      · subst same
        have carried : h.Carries (Due s.sys.db) (cfg.user p) := by
          refine (inv.carries p).step (inv.registry p) cases_ (fun c e sends => ?_) fun m publishes => ?_
          · subst sends
            cases e with
            | own r => trivial
            | message e => cases own
            | typing e => cases own
          · subst publishes
            cases own
        simpa using carried
      · simpa [same] using inv.carries p

theorem inv (cfg : DeploymentConfig) (is : List DeploymentInput) : ((deployment cfg).run is).Inv cfg :=
  (deployment cfg).run_invariant (Inv cfg) Inv.init (fun _ _ _ inv step => inv.step (step_cases step)) is

end Deployment

end ChatBackend

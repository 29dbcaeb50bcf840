import ChatBackend.Demo.Pane
import ChatBackend.Realtime.EndToEnd

/-! From the tables to the screen: the backend tells a message at least once, and the pane shows it
once. -/

namespace ChatBackend

open Lib

/-- A row that is added was composed from a request. -/
theorem Sys.Inv.added_composed {env : Env} {s : Sys} (inv : s.Inv env) {i : Input} {ch : Change}
    (h : s.change i = some ch) : ∀ m ∈ ch.added, ∃ u req, Composed u req m := by
  intro m hm
  unfold Sys.change at h
  split at h
  · rename_i c
    have ok := inv.calls c
    unfold Call.change at h
    split at h
    · rename_i u req n calls
      cases h
      rw [calls] at ok
      obtain rfl := List.mem_singleton.mp hm
      exact ⟨u, req, ok.2.1⟩
    · cases h
      cases hm
    · cases h
      cases hm
    · cases h
  · cases h

/-- Every stored message has the id that its client gave it. -/
theorem chat_named (env : Env) (is : List Input) :
    ∀ m ∈ ((chat env).run is).db.messages, m.clientMsgId ≠ "" := by
  have all := (chat env).run_invariant
    (fun s => s.Inv env ∧ ∀ m ∈ s.db.messages, m.clientMsgId ≠ "") ?_ ?_ is
  · exact all.2
  · exact ⟨Sys.Inv.init env, fun m mem => absurd mem List.not_mem_nil⟩
  · rintro s i t ⟨inv, named⟩ step
    refine ⟨inv.step step, fun n mem => ?_⟩
    have change := inv.step_change step
    cases e : s.change i with
    | none =>
      rw [e] at change
      rw [change] at mem
      exact named n mem
    | some ch =>
      rw [e] at change
      obtain ⟨valid, db⟩ := change
      rw [db] at mem
      rcases Change.mem_messages.mp mem with ⟨m, old, rfl⟩ | new
      · rw [(Change.touch inv.sound.keys valid old).same.clientMsgId]
        exact named m old
      · obtain ⟨u, req, body, mime, cid, id, now, -, rfl⟩ := inv.added_composed e n new
        intro empty
        have length := req.clientMsgIdLength.1
        rw [show req.clientMsgId = "" from empty] at length
        cases length

namespace Deployment

/-- A POST of the user came back with a message. -/
def Answers (s : Deployment) (user : UserId) (clientId : String) (out : MessageOut) : Prop :=
  ∃ c req created, req.clientMsgId = clientId ∧
    (s.sys.calls c = .send user req (.done (.applied (out, created))) ∨
      s.sys.calls c = .send user req (.done (.noop (out, created))))

variable {cfg : DeploymentConfig} {s : Deployment} {user : UserId}

theorem Inv.rows (inv : s.Inv cfg) : Pane.Rows s.sys.db.messages := by
  have keys := inv.service.sound.keys
  obtain ⟨is, same⟩ := inv.reached
  refine ⟨fun m hm n hn eq => keys.message_unique hm hn eq,
    fun m hm n hn eq => keys.client_unique hm hn eq, ?_⟩
  rw [same]
  exact chat_named cfg.env is

theorem Inv.stored (inv : s.Inv cfg) {clientId : String} {out : MessageOut}
    (answers : s.Answers user clientId out) :
    ∃ m ∈ s.sys.db.messages, out.id = m.id ∧ m.senderId = user ∧ m.clientMsgId = clientId := by
  obtain ⟨is, same⟩ := inv.reached
  obtain ⟨c, req, created, rfl, ended⟩ := answers
  have ok := (chat_inv cfg.env is).calls c
  rw [← same] at ok
  have stored : Stored s.sys.db user req out := by
    rcases ended with call | call
    · rw [call] at ok
      exact ok.2.2
    · rw [call] at ok
      exact ok.2.2
  obtain ⟨m, mem, id, key, -⟩ := stored
  exact ⟨m, mem, id.symm, congrArg Prod.fst key, congrArg Prod.snd key⟩

theorem Inv.tells (inv : s.Inv cfg) {q : ReplicaId} {c : ConnId} {p : Push}
    (put : p ∈ ((s.hubs q).conns c).put) : Tells cfg.env s.sys.db (cfg.user q c) p := by
  obtain ⟨calls, same⟩ := inv.reached
  have agrees := chat_agrees cfg.env calls
  rw [← same] at agrees
  exact agrees.tells ((inv.carries q).put c p put)

theorem Inv.told (inv : s.Inv cfg) {q : ReplicaId} {c : ConnId} {p : Push}
    (put : p ∈ ((s.hubs q).conns c).put) : Pane.Told (cfg.user q c) s.sys.db.messages (.arrives p) := by
  have tells := inv.tells put
  cases p with
  | typing e => trivial
  | own r => trivial
  | message e =>
    cases e with
    | messageNew d =>
      obtain ⟨m, mem, -, rfl⟩ := tells
      exact ⟨m, mem, rfl, rfl, rfl⟩
    | messageDelivered messageId conversationId clientMsgId t =>
      obtain ⟨m, mem, sender, id, -, client, -⟩ := tells
      exact ⟨m, mem, id, sender.symm, client⟩
    | messageRead conversationId readerId messageIds t => trivial

/-- All that a pane of the user can be given: what was queued for the user's sockets, wherever they
are, and what the user's own requests came back with. No answer is an error. -/
structure Gives (cfg : DeploymentConfig) (s : Deployment) (user : UserId) (xs : List PaneInput) :
    Prop where
  arrives : ∀ p, .arrives p ∈ xs → ∃ q c, cfg.user q c = user ∧ p ∈ ((s.hubs q).conns c).put
  answered : ∀ clientId out, .answered clientId out ∈ xs →
    ∃ d, out = some d ∧ s.Answers user clientId d

theorem Inv.about (inv : s.Inv cfg) {xs : List PaneInput} (gives : Gives cfg s user xs) :
    ∀ x ∈ xs, Pane.Told user s.sys.db.messages x := by
  intro x mem
  cases x with
  | arrives p =>
    obtain ⟨q, c, rfl, put⟩ := gives.arrives p mem
    exact inv.told put
  | answered clientId out =>
    obtain ⟨d, same, answers⟩ := gives.answered clientId out mem
    exact ⟨d, same, inv.stored answers⟩

/-- What is told is a message of the user's. -/
theorem Inv.member (inv : s.Inv cfg) {xs : List PaneInput} (gives : Gives cfg s user xs)
    {e : MessageOut × Bool} (told : e ∈ Pane.told user xs) :
    ∃ m ∈ s.sys.db.messages, e.1.id = m.id ∧ (user = m.senderId ∨ user = m.recipientId) := by
  obtain ⟨x, mem, tells⟩ := List.mem_filterMap.mp ((firsts_sublist _ _).subset told)
  cases x with
  | answered clientId out =>
    obtain ⟨d, rfl, answers⟩ := gives.answered clientId out mem
    obtain rfl := Option.some.inj tells
    obtain ⟨m, inside, id, sender, -⟩ := inv.stored answers
    exact ⟨m, inside, id, .inl sender.symm⟩
  | arrives p =>
    obtain ⟨q, c, rfl, put⟩ := gives.arrives p mem
    have true_ := inv.tells put
    cases p with
    | typing e => cases tells
    | own r => cases tells
    | message p =>
      cases p with
      | messageNew d =>
        obtain rfl := Option.some.inj tells
        obtain ⟨m, inside, member, rfl⟩ := true_
        exact ⟨m, inside, rfl, member⟩
      | messageDelivered messageId conversationId clientMsgId t => cases tells
      | messageRead conversationId readerId messageIds t => cases tells

/-- What a row says of the move that is mentioned. -/
def Moved (m : Message) : TickState → Prop
  | .sent => True
  | .delivered => ∃ t, m.deliveredAt = some t
  | .read => m.status = .read

theorem Inv.moved (inv : s.Inv cfg) {xs : List PaneInput} (gives : Gives cfg s user xs) {m : Message}
    (inside : m ∈ s.sys.db.messages) {state : TickState} (last : Pane.lastOf xs m.id = some state) :
    Moved m state := by
  have keys := inv.service.sound.keys
  obtain ⟨x, mem, said⟩ := List.mem_filterMap.mp (List.mem_of_getLast? last)
  unfold PaneInput.mentions at said
  split at said
  · obtain ⟨-, same⟩ := Option.ite_none_right_eq_some.mp said
    cases same
    trivial
  · obtain ⟨same, moved⟩ := Option.ite_none_right_eq_some.mp said
    cases moved
    obtain ⟨q, c, -, put⟩ := gives.arrives _ mem
    obtain ⟨n, there, -, id, -, -, at_⟩ := inv.tells put
    obtain rfl := keys.message_unique there inside (id.trans same)
    exact ⟨_, at_⟩
  · obtain ⟨listed, moved⟩ := Option.ite_none_right_eq_some.mp said
    cases moved
    obtain ⟨q, c, -, put⟩ := gives.arrives _ mem
    obtain ⟨n, there, id, -, -, -, read, -⟩ := (inv.tells put).2 _ listed
    obtain rfl := keys.message_unique there inside id
    exact read
  · obtain ⟨-, same⟩ := Option.ite_none_right_eq_some.mp said
    cases same
    trivial
  · cases said

end Deployment

/-- What a pane shows that was given `xs`. -/
structure Screen (db : Db) (user : UserId) (xs : List PaneInput) (p : Pane) : Prop where
  once : (p.log.map Bubble.id).Nodup
  shown : ∀ id, some id ∈ p.log.map Bubble.id ↔ ∃ x ∈ xs, ∃ e, x.tells user = some e ∧ e.1.id = id
  order : p.log.map Bubble.data = (Pane.told user xs).map fun e => some e.1
  bubbles : ∀ b ∈ p.log, ∃ m ∈ db.messages, b.id = some m.id ∧
    (user = m.senderId ∨ user = m.recipientId) ∧
    b.tick = if m.senderId = user then (Pane.lastOf xs m.id).map TickState.tick else none
  honest : ∀ m ∈ db.messages, ∀ state, Pane.lastOf xs m.id = some state → Deployment.Moved m state
  replies : p.sent = xs.flatMap (PaneInput.replies user)

/-- A message that was told was mentioned. -/
theorem mentions_told {user : UserId} {xs : List PaneInput} {e : MessageOut × Bool}
    (told : e ∈ Pane.told user xs) : ∃ state, Pane.lastOf xs e.1.id = some state := by
  obtain ⟨x, mem, tells⟩ := List.mem_filterMap.mp ((firsts_sublist _ _).subset told)
  have said : x.mentions e.1.id = some .sent := by
    unfold PaneInput.tells at tells
    split at tells
    · obtain rfl := Option.some.inj tells
      exact if_pos rfl
    · obtain rfl := Option.some.inj tells
      exact if_pos rfl
    · cases tells
  have some := List.ne_nil_of_mem (List.mem_filterMap.mpr ⟨x, mem, said⟩)
  exact ⟨_, List.getLast?_eq_getLast_of_ne_nil some⟩

theorem Pane.Shows.screen {db : Db} {user : UserId} {xs : List PaneInput} {p : Pane}
    (shows : Pane.Shows user db.messages xs p) (rows : Pane.Rows db.messages)
    (members : ∀ e ∈ Pane.told user xs, ∃ m ∈ db.messages, e.1.id = m.id ∧
      (user = m.senderId ∨ user = m.recipientId))
    (honest : ∀ m ∈ db.messages, ∀ state, Pane.lastOf xs m.id = some state →
      Deployment.Moved m state) : Screen db user xs p := by
  have ids : p.log.map Bubble.id = (Pane.told user xs).map fun e => some e.1.id := by
    rw [shows.log, List.map_map]
    rfl
  refine ⟨?_, fun id => ?_, ?_, fun b mem => ?_, honest, shows.sent⟩
  · have nodup := (firsts_nodup (fun e : MessageOut × Bool => e.1.id)
      (xs.filterMap (PaneInput.tells user))).map (Option.some_injective Uuid)
    rw [List.map_map] at nodup
    rw [ids]
    exact nodup
  · have keys : id ∈ (Pane.told user xs).map (fun e => e.1.id) ↔ _ := mem_firsts_keys
    rw [← shows.seen_iff, shows.seen, List.mem_map] at keys
    rw [ids, List.mem_map, keys]
    simp only [List.mem_map, List.mem_filterMap]
    constructor
    · rintro ⟨e, ⟨x, inside, tells⟩, same⟩
      exact ⟨x, inside, e, tells, same⟩
    · rintro ⟨x, inside, e, tells, same⟩
      exact ⟨e, ⟨x, inside, tells⟩, same⟩
  · rw [shows.log, List.map_map]
    rfl
  · rw [shows.log] at mem
    obtain ⟨e, told, rfl⟩ := List.mem_map.mp mem
    obtain ⟨m, inside, id, member⟩ := members e told
    obtain ⟨n, there, same, own⟩ := shows.known e told
    obtain rfl := rows.ids n there m inside (same.symm.trans id)
    obtain ⟨state, last⟩ := mentions_told told
    refine ⟨n, inside, congrArg some id, member, ?_⟩
    rw [Pane.bubble, ← id, last]
    by_cases mine : n.senderId = user
    · rw [if_pos mine, if_pos (own.mpr mine)]
      rfl
    · rw [if_neg mine, if_neg fun yes => mine (own.mp yes)]

/-- In every run of the whole backend, whatever of its pushes and answers gets to a pane, by whatever
sockets, in whatever order and however often: the pane shows each message once that it was told of, and
of the user's own what it was told last, which the row bears out. -/
theorem shown_exactly_once (cfg : DeploymentConfig) (is : List DeploymentInput) (user : UserId)
    (xs : List PaneInput) (gives : Deployment.Gives cfg ((deployment cfg).run is) user xs) :
    Screen ((deployment cfg).run is).sys.db user xs (Pane.run user xs) := by
  have inv := Deployment.inv cfg is
  exact (Pane.run_shows inv.rows (inv.about gives)).screen inv.rows
    (fun e told => inv.member gives told) fun m mem state last => inv.moved gives mem last

/-- `a` writes to `b`, whose socket is told twice. -/
theorem hello_shown_once :
    let is : List DeploymentInput :=
      [.hub 0 .proceed, .hub 0 .proceed, .hub 0 (.register 0), .hub 0 .quiet, .hub 0 .proceed] ++
      (sendSteps 0 "a" .helloB 11 1).map (.call · []) ++ [.call (.act 0 .commit) [1, 2],
        .relay (.publishBatch 0 1), .relay (.visit 0), .relay (.visit 0), .relay (.selected 0),
        .repeated 0, .relay (.publish 0 true), .hub 0 .proceed, .hub 0 .proceed]
    let s := (deployment oneReplica).run is
    let xs := ((s.hubs 0).conns 0).put.map PaneInput.arrives
    (xs.length = 2 ∧ (Pane.run "b" xs).log.length = 1) ∧ Screen s.sys.db "b" xs (Pane.run "b" xs) := by
  intro is s xs
  refine ⟨by decide +kernel,
    shown_exactly_once oneReplica is "b" xs ⟨fun p mem => ?_, fun k out mem => ?_⟩⟩
  · obtain ⟨e, put, same⟩ := List.mem_map.mp mem
    cases same
    exact ⟨0, 0, rfl, put⟩
  · obtain ⟨e, put, same⟩ := List.mem_map.mp mem
    cases same

end ChatBackend

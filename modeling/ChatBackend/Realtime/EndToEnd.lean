import ChatBackend.Realtime.Deployment

/-! From the tables to the sockets: what is pushed was committed, what is committed is announced, and
a socket that its hub covers is handed all that Redis takes for its user. -/

namespace ChatBackend

open Lib

/-- What a user may be told: of a message of theirs what its row says, and that the other member of
one of their conversations is typing. -/
def Tells (env : Env) (db : Db) (u : UserId) : Push → Prop
  | .message (.messageNew data) => ∃ m ∈ db.messages, (u = m.senderId ∨ u = m.recipientId) ∧
      data = toOut env m.asSent
  | .message (.messageDelivered messageId conversationId clientMsgId t) => ∃ m ∈ db.messages,
      u = m.senderId ∧ m.id = messageId ∧ m.conversationId = conversationId ∧
      m.clientMsgId = clientMsgId ∧ m.deliveredAt = some t
  | .message (.messageRead conversationId readerId messageIds t) => messageIds ≠ [] ∧
      ∀ id ∈ messageIds, ∃ m ∈ db.messages, m.id = id ∧ m.conversationId = conversationId ∧
        u = m.senderId ∧ readerId = m.recipientId ∧ m.status = .read ∧ m.readAt = some t
  | .typing e => ∃ c ∈ db.conversations, c.id = e.conversationId ∧ c.hasMember e.userId = true ∧
      u = c.peerOf e.userId
  | .own _ => True

theorem topicChannel_injective {u v : UserId} (h : topicChannel (userTopic u) = userChannel v) :
    u = v := by
  have lists := congrArg String.toList h
  simp only [topicChannel, userTopic, userChannel, String.toList_append, List.append_assoc,
    List.append_cancel_left_eq] at lists
  exact String.toList_injective lists

theorem mem_announcing {p : Event → Bool} {rows : List Outbox} {row : Outbox} :
    row ∈ announcing p rows ↔ row ∈ rows ∧ p row.payload = true := List.mem_filter

/-- What is due on the channel of a user is true, and about messages of theirs. -/
theorem Agrees.tells {env : Env} {moved : Uuid → Nat} {db : Db} (agrees : Agrees env moved db)
    {u : UserId} {p : Push} (due : Due db (userChannel u) p) : Tells env db u p := by
  cases p with
  | own r => trivial
  | typing e =>
    obtain ⟨c, inside, id, member, same⟩ := due
    exact ⟨c, inside, id, member, userChannel_injective same⟩
  | message e =>
    obtain ⟨row, mem, channel, rfl⟩ := due
    obtain ⟨topic, payload⟩ := row
    have known := agrees.accounted _ mem
    cases payload with
    | messageNew data =>
      obtain ⟨m, hm, id⟩ := known
      have said := mem_announcing.mpr
        ⟨mem, show Event.announcesNew m.id _ = true from beq_iff_eq.mpr id.symm⟩
      rw [(agrees.announced m hm).new] at said
      rcases List.mem_pair.mp said with row | row
      · cases row
        exact ⟨m, hm, .inr (topicChannel_injective channel).symm, rfl⟩
      · cases row
        exact ⟨m, hm, .inl (topicChannel_injective channel).symm, rfl⟩
    | messageDelivered messageId conversationId clientMsgId t =>
      obtain ⟨m, hm, id⟩ := known
      have said := mem_announcing.mpr
        ⟨mem, show Event.announcesDelivered m.id _ = true from beq_iff_eq.mpr id.symm⟩
      rcases (agrees.announced m hm).delivered with ⟨_, none⟩ | ⟨_, t', at_, rows⟩
      · rw [none] at said
        cases said
      · rw [rows] at said
        cases List.mem_singleton.mp said
        exact ⟨m, hm, (topicChannel_injective channel).symm, rfl, rfl, rfl, at_⟩
    | messageRead conversationId readerId messageIds t =>
      refine ⟨known.1, fun id inside => ?_⟩
      obtain ⟨m, hm, rfl⟩ := known.2 id inside
      have said := mem_announcing.mpr
        ⟨mem, show Event.announcesRead m.id _ = true from List.contains_iff_mem.mpr inside⟩
      rcases (agrees.announced m hm).read with ⟨_, none⟩ | ⟨read, ids, t', at_, _, rows⟩
      · rw [none] at said
        cases said
      · rw [rows] at said
        cases List.mem_singleton.mp said
        exact ⟨m, hm, rfl, rfl, (topicChannel_injective channel).symm, rfl, read, at_⟩

/-- Whatever the calls, the relays, the sessions and the hubs of all replicas do, in whatever order:
each event that waits for a client or was queued for one, those its own session makes apart, tells of
a committed change of a message of its user, as the message table has it, or that the other member of
a conversation is typing. -/
theorem only_committed_is_pushed (cfg : DeploymentConfig) (is : List DeploymentInput) (q : ReplicaId)
    (c : ConnId) :
    (∀ p ∈ (((deployment cfg).run is).hubs q |>.conns c).put,
      Tells cfg.env ((deployment cfg).run is).sys.db (cfg.user q c) p) ∧
    ∀ m ∈ (((deployment cfg).run is).hubs q).inbox, m.channel = userChannel (cfg.user q c) →
      ∀ p ∈ m.data, Tells cfg.env ((deployment cfg).run is).sys.db (cfg.user q c) p := by
  have inv := Deployment.inv cfg is
  obtain ⟨calls, same⟩ := inv.reached
  have agrees := chat_agrees cfg.env calls
  rw [← same] at agrees
  exact ⟨fun p put => agrees.tells ((inv.carries q).put c p put),
    fun m waits channel p data => agrees.tells (channel ▸ (inv.carries q).inbox m waits p data)⟩

/-! A change that is committed is announced, and the announcement is taken by Redis or waits. -/

/-- A message that is `delivered` has made that move. -/
theorem delivered_counted (env : Env) (is : List Input) :
    ∀ m ∈ ((chat env).run is).db.messages, m.status = .delivered →
      deliveries ((chat env).history is) m.id ≠ 0 := by
  have all := (chat env).history_invariant
    (fun h s => s.Inv env ∧ ∀ m ∈ s.db.messages, m.status = .delivered → deliveries h m.id ≠ 0)
    ?_ ?_ is
  · exact all.2
  · exact ⟨chat_inv env [], fun m mem => absurd mem List.not_mem_nil⟩
  · rintro h s i t ⟨inv, counted⟩ step
    refine ⟨inv.step step, fun n mem delivered => ?_⟩
    have db := inv.step_change step
    have count : deliveries (h ++ [⟨s, i, t⟩]) n.id =
        deliveries h n.id + (if deliveredIn s.db t.db n.id = true then 1 else 0) := by
      rw [deliveries, List.countP_append, List.countP_singleton]
      rfl
    rw [count]
    cases change : s.change i with
    | none =>
      rw [change] at db
      rw [db] at mem
      have before := counted n mem delivered
      omega
    | some ch =>
      rw [change] at db
      obtain ⟨valid, db⟩ := db
      have old_or_new := mem
      rw [db] at old_or_new
      rcases Change.mem_messages.mp old_or_new with ⟨m, hm, same⟩ | new
      · have id : n.id = m.id := same ▸ ch.update_id m
        have move := deliveredIn_eq inv.sound.keys (inv.step step).sound.keys hm mem id
        rw [← id, delivered] at move
        have touch := Change.touch inv.sound.keys valid hm
        generalize ch.update m = k at touch same
        subst same
        cases touch with
        | kept =>
          have before := counted n hm delivered
          omega
        | delivered _ now sent =>
          rw [move, sent]
          simp
        | read => cases delivered
      · cases ch with
        | sent opened m =>
          obtain rfl := List.mem_singleton.mp new
          rw [valid.status.1] at delivered
          cases delivered
        | delivered u old now => cases new
        | read c u ids now => cases new

namespace Relays

/-- The row was committed, and if it does not wait, Redis has taken it. -/
def Bound (s : Relays) (row : Outbox) : Prop :=
  ∃ id, (id, row) ∈ s.committed ∧ (s.Waits id ∨ ∃ p ∈ s.handed, p.rowId = id ∧
    p.channel = topicChannel row.topic ∧ p.payload = row.payload ∧ p.accepted = true)

theorem bound {s : Relays} (inv : s.Inv) (logged : s.Logged) {row : Outbox}
    (mem : row ∈ s.committed.map Prod.snd) : s.Bound row := by
  obtain ⟨⟨id, row⟩, committed, rfl⟩ := List.mem_map.mp mem
  refine ⟨id, committed, ?_⟩
  by_cases waits : s.Waits id
  · exact .inl waits
  · have settled : ∀ x ∈ s.outbox, x.id = id → x.publishedAt ≠ none :=
      fun x hx same none => waits ⟨x, hx, same, none⟩
    obtain ⟨p, hp, same, accepted⟩ := logged.done _ committed settled
    obtain ⟨c, hc, known, channel, payload⟩ := logged.sound p hp
    obtain rfl : c = (id, row) := List.inj_on_of_nodup_map inv.ids hc committed (known.trans same)
    exact .inr ⟨p, hp, same, channel, payload, accepted⟩

end Relays

/-- The rows of the outbox that announce a stored message are bound for Redis. -/
theorem Deployment.Inv.announced {cfg : DeploymentConfig} {s : Deployment} (inv : s.Inv cfg)
    {p : Event → Bool} {row : Outbox} (said : row ∈ announcing p s.sys.db.outbox) :
    s.relays.Bound row := by
  refine Relays.bound inv.relays inv.logged ?_
  rw [inv.handedOver]
  exact (mem_announcing.mp said).1

theorem Deployment.Inv.bound_new {cfg : DeploymentConfig} {s : Deployment} (inv : s.Inv cfg)
    {m : Message} (mem : m ∈ s.sys.db.messages) {u : UserId}
    (member : u = m.senderId ∨ u = m.recipientId) :
    s.relays.Bound (newRow cfg.env m u) := by
  obtain ⟨calls, same⟩ := inv.reached
  have announced := (chat_agrees cfg.env calls).announced m (same ▸ mem)
  rw [← same] at announced
  refine inv.announced (p := Event.announcesNew m.id) ?_
  rw [announced.new]
  rcases member with rfl | rfl
  · exact List.mem_cons_of_mem _ List.mem_cons_self
  · exact List.mem_cons_self

/-- Of each stored message, the rows that tell both members of it, and the row that tells its sender
how it stands by now, were committed, and each of them either waits for a relay or was taken by
Redis. Of a message that is read by now that is the row of the reading, not one of its delivery. -/
theorem no_change_escapes (cfg : DeploymentConfig) (is : List DeploymentInput) :
    ∀ m ∈ ((deployment cfg).run is).sys.db.messages,
      (∀ u, u = m.senderId ∨ u = m.recipientId →
        ((deployment cfg).run is).relays.Bound (newRow cfg.env m u)) ∧
      (m.status = .delivered → ∃ t, m.deliveredAt = some t ∧
        ((deployment cfg).run is).relays.Bound (deliveredRow m t)) ∧
      (m.status = .read → ∃ ids t, m.readAt = some t ∧ m.id ∈ ids ∧
        ((deployment cfg).run is).relays.Bound (readRow m ids t)) := by
  intro m mem
  have inv := Deployment.inv cfg is
  obtain ⟨calls, same⟩ := inv.reached
  have announced := (chat_agrees cfg.env calls).announced m (same ▸ mem)
  have counted := delivered_counted cfg.env calls m (same ▸ mem)
  rw [← same] at announced
  refine ⟨fun u member => inv.bound_new mem member, fun delivered => ?_, fun read => ?_⟩
  · rcases announced.delivered with ⟨none, _⟩ | ⟨_, t, at_, rows⟩
    · exact absurd none (counted delivered)
    · have announces := rows ▸ List.mem_singleton_self (deliveredRow m t)
      exact ⟨t, at_, inv.announced (p := Event.announcesDelivered m.id) announces⟩
  · rcases announced.read with ⟨unread, _⟩ | ⟨_, ids, t, at_, once, rows⟩
    · exact absurd read unread
    · have inside : m.id ∈ ids := List.count_pos_iff.mp (once ▸ Nat.one_pos)
      have announces := rows ▸ List.mem_singleton_self (readRow m ids t)
      exact ⟨ids, t, at_, inside, inv.announced (p := Event.announcesRead m.id) announces⟩

/-- One replica, with a socket of `b`. -/
def oneReplica : DeploymentConfig := ⟨.plain, 100, 0, fun _ _ => "b", fun _ => "1"⟩

/-- `a` writes to `b`, and no relay has come to it yet. -/
theorem hello_does_not_escape :
    let is : List DeploymentInput :=
      (sendSteps 0 "a" .helloB 11 1).map (.call · []) ++ [.call (.act 0 .commit) [1, 2]]
    let s := (deployment oneReplica).run is
    ∃ m ∈ s.sys.db.messages, ∀ u, u = m.senderId ∨ u = m.recipientId →
      s.relays.Bound (newRow oneReplica.env m u) := by
  intro is s
  obtain ⟨m, mem⟩ := List.exists_mem_of_ne_nil s.sys.db.messages (by decide +kernel)
  exact ⟨m, mem, (no_change_escapes oneReplica is m mem).1⟩

/-! A socket that its hub covers hears what Redis takes. -/

namespace Deployment

def publication (x : OutboxRow) : Publication Push :=
  ⟨topicChannel x.topic, some (.message x.payload)⟩

/-- What an enabled step has Redis publish. -/
def publishes (s : Deployment) : DeploymentInput → List (Publication Push)
  | .relay i => (s.taken i).toList.map publication
  | .repeated r => (s.pending r).toList.map publication
  | .typing session conversationId isTyping true =>
    (((sendTyping s.service session conversationId isTyping).1.typing.drop s.typing.length).take 1).map
      (fun e => ⟨userChannel e.1, some (.typing e.2)⟩)
  | _ => []

/-- What an enabled step is to the hub of a replica. -/
def hubInputs (s : Deployment) (q : ReplicaId) : DeploymentInput → List (HubInput Push)
  | .hub p i => if p = q then [i] else []
  | i => (s.publishes i).map .publish

/-- The replica covers the connection in this step. -/
def Covers (cfg : DeploymentConfig) (q : ReplicaId) (c : ConnId) (s : Deployment)
    (i : DeploymentInput) : Prop :=
  ∀ j ∈ s.hubInputs q i, Hub.Covered (cfg.user q) c (s.hubs q) j

variable {cfg : DeploymentConfig} {s t : Deployment}

theorem hear_steps {h : Hub Push} {user : ConnId → UserId} {control : String} (m : Publication Push) :
    Hub.Steps user control h (.publish m) (h.hear m) := by
  unfold Hub.hear
  split
  · rename_i here
    exact .published m here
  · rename_i away
    exact .dropped m away

/-- A step leaves a hub alone or is one step of it. -/
theorem hub_step {i : DeploymentInput} (step : Steps cfg s i t) (q : ReplicaId) :
    s.hubInputs q i = [] ∧ s.publishes i = [] ∧ t.hubs q = s.hubs q ∨
      ∃ j, s.hubInputs q i = [j] ∧ s.publishes i = j.publishes ∧
        Hub.Steps (cfg.user q) (controlChannel (cfg.name q)) (s.hubs q) j (t.hubs q) := by
  have heard : ∀ {m : Publication Push}, s.publishes i = [m] → s.hubInputs q i = [.publish m] →
      t.hubs q = (s.hubs q).hear m → ∃ j, s.hubInputs q i = [j] ∧ s.publishes i = j.publishes ∧
        Hub.Steps (cfg.user q) (controlChannel (cfg.name q)) (s.hubs q) j (t.hubs q) :=
    fun published input eq => ⟨_, input, published, eq ▸ hear_steps _⟩
  cases step with
  | called => exact .inl ⟨rfl, rfl, rfl⟩
  | relayed i relays own none ran =>
    have silent : s.publishes (.relay i) = [] := by simp [publishes, none]
    exact .inl ⟨by simp [hubInputs, silent], silent, rfl⟩
  | published i relays x own took ran =>
    have said : s.publishes (.relay i) = [publication x] := by simp [publishes, took]
    exact .inr (heard said (by simp [hubInputs, said]) rfl)
  | repeated r x next =>
    have said : s.publishes (.repeated r) = [publication x] := by simp [publishes, next]
    exact .inr (heard said (by simp [hubInputs, said]) rfl)
  | typed session conversationId isTyping peer e rest sent =>
    have said : s.publishes (.typing session conversationId isTyping true) =
        [⟨userChannel peer, some (.typing e)⟩] := by simp [publishes, sent]
    exact .inr (heard said (by simp [hubInputs, said]) rfl)
  | cached session conversationId isTyping reached unsent =>
    have silent : s.publishes (.typing session conversationId isTyping reached) = [] := by
      cases reached with
      | false => rfl
      | true => simp [publishes, unsent rfl]
    exact .inl ⟨by simp [hubInputs, silent], silent, rfl⟩
  | local_ p i h own ran =>
    by_cases same : p = q
    · subst same
      have silent : i.publishes = [] := by
        cases i with
        | publish m => cases own
        | register | unregister | resume | timeout | proceed | quiet | fail | send | close | next => rfl
      exact .inr ⟨i, by simp [hubInputs], silent.symm, by simpa using Hub.step_cases ran⟩
    · exact .inl ⟨by simp [hubInputs, same], rfl, by simp [Function.update_of_ne (Ne.symm same)]⟩

/-- What Redis took on a channel, in the order in which it answered. -/
def takenOn (channel : String) (handed : List Handed) : List Push :=
  (handed.filter (fun p => p.accepted && p.channel == channel)).map (fun p => .message p.payload)

theorem takenOn_append (channel : String) (xs ys : List Handed) :
    takenOn channel (xs ++ ys) = takenOn channel xs ++ takenOn channel ys := by
  rw [takenOn, List.filter_append, List.map_append]
  rfl

theorem takenOn_refused (channel : String) {p : Handed} (refused : p.accepted = false) :
    takenOn channel [p] = [] := by simp [takenOn, refused]

theorem takenOn_publication (channel : String) (x : OutboxRow) :
    takenOn channel [⟨x.id, topicChannel x.topic, x.payload, true⟩] =
      Hub.eventsOn channel [publication x] := by
  by_cases mine : topicChannel x.topic = channel <;> simp [takenOn, Hub.eventsOn, publication, mine]

/-- A relay hands over nothing, or the next command of its pipeline. -/
theorem relay_handed {batchSize retention : Nat} {a b : Relays} {i : RelayInput}
    (step : Relays.Steps batchSize retention a i b) : b.handed = a.handed ∨
      ∃ r now done todo x failed accepted, i = .publish r accepted ∧
        a.pcs r = .publishing now done (x :: todo) failed ∧
        b.handed = a.handed ++ [⟨x.id, topicChannel x.topic, x.payload, accepted⟩] := by
  cases step with
  | published r now done todo x failed accepted pc =>
    exact .inr ⟨r, now, done, todo, x, failed, accepted, rfl, pc, rfl⟩
  | inserted | began | sweeps | skipped | took | spared | doomed | empty | selected | raised
  | executed | marked | committed | swept | failed => exact .inl rfl

/-- Whatever Redis takes from a relay in a step, it publishes in that step. -/
theorem step_handed {i : DeploymentInput} (step : Steps cfg s i t) (channel : String) :
    ∃ more, t.relays.handed = s.relays.handed ++ more ∧
      (takenOn channel more).Sublist (Hub.eventsOn channel (s.publishes i)) := by
  have same : t.relays.handed = s.relays.handed →
      ∃ more, t.relays.handed = s.relays.handed ++ more ∧
        (takenOn channel more).Sublist (Hub.eventsOn channel (s.publishes i)) :=
    fun eq => ⟨[], by rw [eq, List.append_nil], List.nil_sublist _⟩
  cases step with
  | called i ids sys relays ran enough inserted =>
    rcases relay_handed (Relays.step_cases inserted) with eq | ⟨_, _, _, _, _, _, _, input, _⟩
    · exact same eq
    · cases input
  | relayed i relays own none ran =>
    rcases relay_handed (Relays.step_cases ran) with eq | ⟨r, now, done, todo, x, failed, accepted,
      rfl, pc, eq⟩
    · exact same eq
    · cases accepted with
      | true => simp [taken, pending, pc] at none
      | false => exact ⟨_, eq, by simp [takenOn_refused]⟩
  | published i relays x own took ran =>
    obtain ⟨r, rfl, next⟩ := taken_some took
    rcases relay_handed (Relays.step_cases ran) with eq | ⟨q, now, done, todo, y, failed, accepted,
      input, pc, eq⟩
    · exact same eq
    · cases input
      have head : y = x := by simpa [pending, pc] using next
      subst head
      refine ⟨_, eq, ?_⟩
      rw [takenOn_publication]
      simp [publishes, took]
  | repeated | typed | cached | local_ => exact same rfl

/-- What a stretch of a run publishes on a channel. -/
def publishedOn (channel : String) (xs : List (Move Deployment DeploymentInput)) : List Push :=
  Hub.eventsOn channel (xs.flatMap (fun x => x.before.publishes x.action))

theorem publishedOn_concat (channel : String) (xs : List (Move Deployment DeploymentInput))
    (x : Move Deployment DeploymentInput) : publishedOn channel (xs ++ [x]) =
      publishedOn channel xs ++ Hub.eventsOn channel (x.before.publishes x.action) := by
  rw [publishedOn, List.flatMap_append, Hub.eventsOn_append, List.flatMap_singleton]
  rfl

/-- How a connection stands after a stretch `xs` of a run from `start`. -/
structure Follows (cfg : DeploymentConfig) (q : ReplicaId) (c : ConnId) (start : Deployment)
    (xs : List (Move Deployment DeploymentInput)) (s : Deployment) : Prop where
  inv : s.Inv cfg
  begun : (s.hubs q).calls (.register c) ≠ .idle
  handed : ∃ more, s.relays.handed = start.relays.handed ++ more ∧
    (takenOn (userChannel (cfg.user q c)) more).Sublist (publishedOn (userChannel (cfg.user q c)) xs)
  kept : (∀ x ∈ xs, Covers cfg q c x.before x.action) → (s.hubs q).isRegistered c →
    (s.hubs q).Kept (userChannel (cfg.user q c)) c ((start.hubs q).conns c).put
      (publishedOn (userChannel (cfg.user q c)) xs)

theorem Follows.step {q : ReplicaId} {c : ConnId} {start : Deployment}
    {xs : List (Move Deployment DeploymentInput)} {i : DeploymentInput}
    (follows : Follows cfg q c start xs s) (step : Steps cfg s i t) :
    Follows cfg q c start (xs ++ [⟨s, i, t⟩]) t := by
  refine ⟨follows.inv.step step, ?_, ?_, fun all later => ?_⟩
  · rcases hub_step step q with ⟨_, _, same⟩ | ⟨j, _, _, moved⟩
    · rw [same]
      exact follows.begun
    · exact fun idle => follows.begun (moved.begun idle)
  · obtain ⟨past, old, sub⟩ := follows.handed
    obtain ⟨more, new, sub'⟩ := step_handed step (userChannel (cfg.user q c))
    refine ⟨past ++ more, by rw [new, old, List.append_assoc], ?_⟩
    rw [takenOn_append, publishedOn_concat]
    exact sub.append sub'
  · have past := fun reg => follows.kept (fun x hx => all x (List.mem_append_left _ hx)) reg
    have now := all ⟨s, i, t⟩ (List.mem_append_right _ (List.mem_singleton_self _))
    rw [publishedOn_concat]
    rcases hub_step step q with ⟨_, quiet, same⟩ | ⟨j, input, said, moved⟩
    · rw [same] at later ⊢
      rw [quiet]
      simpa [Hub.eventsOn] using past later
    · have reg := moved.registered follows.begun later
      rw [said]
      have covered := now j (input ▸ List.mem_singleton_self _)
      exact (past reg).step (follows.inv.registry q) reg covered moved

/-- All that Redis took on the user's channel since `start` is queued for the connection or still to be
handed out by its hub, in that order, or the connection is closing. So a message of the user waits in
the outbox, was taken by Redis before, or is among those. -/
def Heard (cfg : DeploymentConfig) (q : ReplicaId) (c : ConnId) (start s : Deployment) : Prop :=
  ((s.hubs q).conns c).closing = true ∨ ∃ handed put,
    s.relays.handed = start.relays.handed ++ handed ∧
    ((s.hubs q).conns c).put = ((start.hubs q).conns c).put ++ put ∧
    (takenOn (userChannel (cfg.user q c)) handed).Sublist
      (put ++ Hub.eventsOn (userChannel (cfg.user q c)) (s.hubs q).inbox) ∧
    ∀ m ∈ s.sys.db.messages, cfg.user q c = m.senderId ∨ cfg.user q c = m.recipientId →
      ∃ id, (id, newRow cfg.env m (cfg.user q c)) ∈ s.relays.committed ∧
        (s.relays.Waits id ∨ Relays.Accepted start.relays.handed id ∨
          .message (.messageNew (toOut cfg.env m.asSent)) ∈
            put ++ Hub.eventsOn (userChannel (cfg.user q c)) (s.hubs q).inbox)

end Deployment

instance Deployment.decidableCovers (cfg : DeploymentConfig) (q : ReplicaId) (c : ConnId)
    (s : Deployment) (i : DeploymentInput) : Decidable (Deployment.Covers cfg q c s i) :=
  inferInstanceAs (Decidable (∀ j ∈ s.hubInputs q i, Hub.Covered (cfg.user q) c (s.hubs q) j))

end ChatBackend

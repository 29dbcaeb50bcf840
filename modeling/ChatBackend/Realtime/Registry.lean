import ChatBackend.Realtime.Hub

/-! Subscriptions follow the registry. The requests that have not taken effect, replayed on what is
subscribed, give what the registry wants; replayed on what it wants, they change nothing. -/

namespace ChatBackend

open Lib

theorem userChannel_injective {u v : UserId} (h : userChannel u = userChannel v) : u = v := by
  have lists := congrArg String.toList h
  simp only [userChannel, String.toList_append, List.append_cancel_left_eq] at lists
  exact String.toList_injective lists

theorem controlChannel_ne (replicaId : String) (u : UserId) : controlChannel replicaId ≠ userChannel u := by
  intro h
  have lists := congrArg String.toList h
  simp [controlChannel, userChannel, channelPrefix, String.toList_append] at lists

namespace Hub

variable {ε : Type} {user : ConnId → UserId} {replicaId control : String}

/-- `register` was called for the connection and no `unregister` has taken it out again. -/
def isRegistered (h : Hub ε) (c : ConnId) : Prop :=
  h.calls (.register c) ≠ .idle ∧ h.calls (.unregister c) = .idle

instance (h : Hub ε) (c : ConnId) : Decidable (h.isRegistered c) := by
  unfold isRegistered
  infer_instance

/-- `_local` holds the registered connections, each under its user, and no empty set. -/
structure Registry (user : ConnId → UserId) (h : Hub ε) : Prop where
  order : ∀ c, h.calls (.register c) = .idle → h.calls (.unregister c) = .idle
  members : ∀ u conns, h.localUsers.lookup u = some conns →
    conns ≠ [] ∧ conns.Nodup ∧ ∀ c ∈ conns, user c = u ∧ h.isRegistered c
  known : ∀ c, h.isRegistered c → ∃ conns, h.localUsers.lookup (user c) = some conns ∧ c ∈ conns

theorem Registry.init : Registry user (Hub.init : Hub ε) where
  order _ _ := rfl
  members u conns some := by simp [Hub.init] at some
  known c registered := absurd rfl registered.1

/-- The registry only looks at who is in a call, not at how far the call is. -/
theorem Registry.congr {h t : Hub ε} (inv : Registry user h) (users : t.localUsers = h.localUsers)
    (calls : ∀ call, t.calls call = .idle ↔ h.calls call = .idle) : Registry user t := by
  have same : ∀ c, t.isRegistered c ↔ h.isRegistered c :=
    fun c => and_congr (not_congr (calls _)) (calls _)
  refine ⟨fun c fresh => (calls _).mpr (inv.order c ((calls _).mp fresh)), fun u conns some => ?_,
    fun c registered => ?_⟩
  · rw [users] at some
    obtain ⟨ne, nodup, members⟩ := inv.members u conns some
    exact ⟨ne, nodup, fun c hc => ⟨(members c hc).1, (same c).mpr (members c hc).2⟩⟩
  · rw [users]
    exact inv.known c ((same c).mp registered)

theorem update_idle {calls : HubCall → WaitStatus} {call : HubCall} {now : WaitStatus}
    (busy : calls call ≠ .idle) (still : now ≠ .idle) (other : HubCall) :
    Function.update calls call now other = .idle ↔ calls other = .idle := by
  by_cases eq : other = call
  · simp [eq, busy, still]
  · rw [Function.update_of_ne eq]

theorem Registry.add {h t : Hub ε} {c : ConnId} {conns : List ConnId} {now : WaitStatus}
    (inv : Registry user h) (fresh : h.calls (.register c) = .idle)
    (had : (h.localUsers.lookup (user c)).getD [] = conns) (still : now ≠ .idle)
    (users : t.localUsers = h.localUsers.insert (user c) (conns.insert c))
    (calls : t.calls = Function.update h.calls (.register c) now) : Registry user t := by
  have registered : ∀ d, t.isRegistered d ↔ d = c ∨ h.isRegistered d := by
    intro d
    by_cases eq : d = c
    · simp [isRegistered, calls, eq, still, inv.order c fresh]
    · simp [isRegistered, calls, Function.update_of_ne, eq]
  have past : conns.Nodup ∧ ∀ d ∈ conns, user d = user c ∧ h.isRegistered d := by
    cases found : h.localUsers.lookup (user c) with
    | none =>
      rw [found] at had
      simp [← had]
    | some old =>
      rw [found] at had
      obtain rfl : old = conns := had
      exact (inv.members (user c) old found).2
  refine ⟨fun d idle => ?_, fun u rest some => ?_, fun d reg => ?_⟩
  · rw [calls] at idle ⊢
    rw [Function.update_of_ne (by simp)]
    by_cases eq : d = c
    · simp [eq, still] at idle
    · rw [Function.update_of_ne (by simpa using eq)] at idle
      exact inv.order d idle
  · rw [users] at some
    by_cases here : u = user c
    · rw [here, AList.lookup_insert] at some
      obtain rfl := Option.some.inj some
      refine ⟨List.ne_nil_of_mem (List.mem_insert_self), past.1.insert, fun d hd => ?_⟩
      rw [registered, here]
      rcases List.mem_insert_iff.mp hd with rfl | old
      · exact ⟨rfl, .inl rfl⟩
      · exact ⟨(past.2 d old).1, .inr (past.2 d old).2⟩
    · rw [AList.lookup_insert_ne here] at some
      obtain ⟨ne, nodup, members⟩ := inv.members u rest some
      exact ⟨ne, nodup, fun d hd => ⟨(members d hd).1, (registered d).mpr (.inr (members d hd).2)⟩⟩
  · rw [users]
    rcases (registered d).mp reg with rfl | old
    · exact ⟨_, AList.lookup_insert _, List.mem_insert_self⟩
    · obtain ⟨rest, found, mem⟩ := inv.known d old
      by_cases here : user d = user c
      · rw [here] at found ⊢
        rw [found] at had
        obtain rfl : rest = conns := had
        exact ⟨_, AList.lookup_insert _, List.mem_insert_of_mem mem⟩
      · exact ⟨rest, by rw [AList.lookup_insert_ne here, found], mem⟩

theorem Registry.remove {h t : Hub ε} {c : ConnId} {conns : List ConnId} {now : WaitStatus}
    (inv : Registry user h) (had : h.localUsers.lookup (user c) = some conns) (member : c ∈ conns)
    (still : now ≠ .idle) (gone : conns.erase c = [] → t.localUsers = h.localUsers.erase (user c))
    (kept : conns.erase c ≠ [] → t.localUsers = h.localUsers.insert (user c) (conns.erase c))
    (calls : t.calls = Function.update h.calls (.unregister c) now) : Registry user t := by
  obtain ⟨_, nodup, members⟩ := inv.members (user c) conns had
  have registered : ∀ d, t.isRegistered d ↔ d ≠ c ∧ h.isRegistered d := by
    intro d
    by_cases eq : d = c
    · simp [isRegistered, calls, eq, still]
    · simp [isRegistered, calls, Function.update_of_ne, eq]
  have elsewhere : ∀ u ≠ user c, t.localUsers.lookup u = h.localUsers.lookup u := by
    intro u ne
    by_cases empty : conns.erase c = []
    · rw [gone empty, AList.lookup_erase_ne ne]
    · rw [kept empty, AList.lookup_insert_ne ne]
  have here : t.localUsers.lookup (user c) =
      if conns.erase c = [] then none else some (conns.erase c) := by
    split
    · rename_i empty
      rw [gone empty, AList.lookup_erase]
    · rename_i some
      rw [kept some, AList.lookup_insert]
  refine ⟨fun d idle => ?_, fun u rest found => ?_, fun d reg => ?_⟩
  · rw [calls] at idle ⊢
    rw [Function.update_of_ne (by simp)] at idle
    by_cases eq : d = c
    · exact absurd (eq ▸ idle) (members c member).2.1
    · rw [Function.update_of_ne (by simpa using eq)]
      exact inv.order d idle
  · by_cases same : u = user c
    · rw [same, here] at found
      split at found
      · cases found
      · rename_i some
        obtain rfl := Option.some.inj found
        refine ⟨some, nodup.erase c, fun d hd => ?_⟩
        obtain ⟨ne, mem⟩ := (nodup.mem_erase_iff).mp hd
        rw [same, registered]
        exact ⟨(members d mem).1, ne, (members d mem).2⟩
    · rw [elsewhere u same] at found
      obtain ⟨ne, distinct, all⟩ := inv.members u rest found
      refine ⟨ne, distinct, fun d hd => ⟨(all d hd).1, (registered d).mpr ⟨?_, (all d hd).2⟩⟩⟩
      rintro rfl
      exact same (all d hd).1.symm
  · obtain ⟨ne, old⟩ := (registered d).mp reg
    obtain ⟨rest, found, mem⟩ := inv.known d old
    by_cases same : user d = user c
    · rw [same] at found ⊢
      rw [had] at found
      obtain rfl := Option.some.inj found
      have left : d ∈ conns.erase c := (nodup.mem_erase_iff).mpr ⟨ne, mem⟩
      exact ⟨conns.erase c, by rw [here, if_neg (List.ne_nil_of_mem left)], left⟩
    · exact ⟨rest, by rw [elsewhere _ same, found], mem⟩

theorem Registry.step {h t : Hub ε} {i : HubInput ε} (inv : Registry user h)
    (step : Steps user control h i t) : Registry user t := by
  cases step with
  | first c idle empty =>
    exact inv.add idle empty (by decide) rfl rfl
  | joins c conns idle some ne =>
    exact inv.add idle (by rw [some]; rfl) (by decide) rfl rfl
  | last c conns some mem empty =>
    exact inv.remove some mem (by decide) (fun _ => rfl) (fun ne => absurd empty ne) rfl
  | leaves c conns some mem ne =>
    exact inv.remove some mem (by decide) (fun empty => absurd empty ne) (fun _ => rfl) rfl
  | resumed call released =>
    exact inv.congr rfl (update_idle (by simp [released]) (by decide))
  | timedOut call waiting =>
    exact inv.congr rfl (update_idle (by simp [waiting]) (by decide))
  | published m mem => exact inv.congr rfl (fun _ => Iff.rfl)
  | dropped m away => exact inv
  | looked pc => exact inv.congr rfl (fun _ => Iff.rfl)
  | connected channels pc => exact inv.congr (by simp) (by simp)
  | applied r pc => exact inv.congr (by simp) (by simpa using setResult_idle r.future)
  | received m rest pc some =>
    rw [dispatch_eq]
    exact inv.congr (by simp) (by simp)
  | slept pc => exact inv.congr rfl (fun _ => Iff.rfl)
  | quiet pc => exact inv.congr (by simp) (by simp)
  | failed pc => exact inv.congr rfl (releaseAll_idle _)
  | failedApplying r pc =>
    exact inv.congr rfl (fun call => (releaseAll_idle _ call).trans (setResult_idle r.future call))
  | sent c e => exact inv.congr rfl (fun _ => Iff.rfl)
  | closed c code reason => exact inv.congr rfl (fun _ => Iff.rfl)
  | taken c => exact inv.congr rfl (fun _ => Iff.rfl)

theorem update_busy {calls : HubCall → WaitStatus} {call other : HubCall} {now : WaitStatus}
    (still : now ≠ .idle) (idle : Function.update calls call now other = .idle) : calls other = .idle := by
  by_cases eq : other = call
  · simp [eq, still] at idle
  · rwa [Function.update_of_ne eq] at idle

/-- A call that has begun does not begin again. -/
theorem Steps.begun {h t : Hub ε} {i : HubInput ε} (step : Steps user control h i t) {call : HubCall}
    (idle : t.calls call = .idle) : h.calls call = .idle := by
  cases step with
  | first c free empty => exact update_busy (by decide) idle
  | joins c conns free some ne => exact update_busy (by decide) idle
  | last c conns some mem empty => exact update_busy (by decide) idle
  | leaves c conns some mem ne => exact update_busy (by decide) idle
  | resumed other released => exact update_busy (by decide) idle
  | timedOut other waiting => exact update_busy (by decide) idle
  | connected channels pc => simpa using idle
  | applied r pc => exact (setResult_idle r.future call).mp (by simpa using idle)
  | received m rest pc some =>
    rw [dispatch_eq] at idle
    simpa using idle
  | quiet pc => simpa using idle
  | failed pc => exact (releaseAll_idle _ call).mp idle
  | failedApplying r pc => exact (setResult_idle r.future call).mp ((releaseAll_idle _ call).mp idle)
  | published m mem => exact idle
  | dropped m away => exact idle
  | looked pc => exact idle
  | slept pc => exact idle
  | sent c e => exact idle
  | closed c code reason => exact idle
  | taken c => exact idle

theorem Steps.registered {h t : Hub ε} {i : HubInput ε} (step : Steps user control h i t) {c : ConnId}
    (begun : h.calls (.register c) ≠ .idle) (registered : t.isRegistered c) : h.isRegistered c :=
  ⟨begun, step.begun registered.2⟩

/-- The keys of `_local` are the users with a registered connection. -/
theorem Registry.keys {h : Hub ε} (inv : Registry user h) (u : UserId) :
    u ∈ h.localUsers ↔ ∃ c, user c = u ∧ h.isRegistered c := by
  rw [← AList.lookup_isSome, Option.isSome_iff_exists]
  constructor
  · rintro ⟨conns, some⟩
    obtain ⟨ne, _, members⟩ := inv.members u conns some
    obtain ⟨c, hc⟩ := List.exists_mem_of_ne_nil conns ne
    exact ⟨c, members c hc⟩
  · rintro ⟨c, rfl, registered⟩
    obtain ⟨conns, some, _⟩ := inv.known c registered
    exact ⟨conns, some⟩

/-! The subscriptions. -/

/-- What the registry wants to be subscribed. -/
def wanted (control : String) (h : Hub ε) : Finset String :=
  (control :: h.localUsers.keys.map userChannel).toFinset

theorem mem_wanted {h : Hub ε} {channel : String} :
    channel ∈ wanted control h ↔ channel = control ∨ ∃ u ∈ h.localUsers, userChannel u = channel := by
  simp [wanted, AList.mem_keys]

theorem wanted_congr {h t : Hub ε} (users : ∀ u, u ∈ t.localUsers ↔ u ∈ h.localUsers) :
    wanted control t = wanted control h := by
  ext channel
  simp only [mem_wanted, users]

/-- A new set for a user that has one adds no key. -/
theorem mem_insert_known {users : AList (fun _ : UserId => List ConnId)} {u : UserId}
    {old new : List ConnId} (some : users.lookup u = some old) (v : UserId) :
    v ∈ users.insert u new ↔ v ∈ users := by
  have known : u ∈ users := AList.lookup_isSome.mp (by rw [some]; rfl)
  rw [AList.mem_insert]
  exact ⟨fun h => h.elim (fun eq => eq ▸ known) id, .inr⟩

theorem wanted_insert {h t : Hub ε} {u : UserId} {conns : List ConnId}
    (users : t.localUsers = h.localUsers.insert u conns) :
    wanted control t = (Edit.insert (userChannel u)).apply (wanted control h) := by
  ext channel
  simp only [Edit.apply, Finset.mem_insert, mem_wanted, users, AList.mem_insert]
  constructor
  · rintro (rfl | ⟨v, rfl | old, rfl⟩)
    · exact .inr (.inl rfl)
    · exact .inl rfl
    · exact .inr (.inr ⟨v, old, rfl⟩)
  · rintro (rfl | rfl | ⟨v, old, rfl⟩)
    · exact .inr ⟨u, .inl rfl, rfl⟩
    · exact .inl rfl
    · exact .inr ⟨v, .inr old, rfl⟩

theorem wanted_erase {h t : Hub ε} {u : UserId} (apart : control ≠ userChannel u)
    (users : t.localUsers = h.localUsers.erase u) :
    wanted control t = (Edit.erase (userChannel u)).apply (wanted control h) := by
  ext channel
  simp only [Edit.apply, Finset.mem_erase, mem_wanted, users, AList.mem_erase]
  constructor
  · rintro (rfl | ⟨v, ⟨ne, old⟩, rfl⟩)
    · exact ⟨apart, .inl rfl⟩
    · exact ⟨fun eq => ne (userChannel_injective eq), .inr ⟨v, old, rfl⟩⟩
  · rintro ⟨ne, rfl | ⟨v, old, rfl⟩⟩
    · exact .inl rfl
    · exact .inr ⟨v, ⟨fun eq => ne (eq ▸ rfl), old⟩, rfl⟩

/-- `copy` is what the loop works towards: the bulk subscription it waits for, or what is subscribed. -/
def copy (h : Hub ε) : Option (Finset String) :=
  match h.loop with
  | .connecting channels => some channels.toFinset
  | .applying _ | .receiving => some h.subscribed
  | _ => none

def edits (requests : List HubRequest) : List (Edit String) := requests.map HubRequest.edit

structure Subscriptions (control : String) (h : Hub ε) : Prop where
  settled : Edit.Settled (wanted control h) (edits h.requests)
  copy : ∀ s ∈ h.copy, Edit.replay s (edits h.pending) = wanted control h
  connected : h.connected = true ↔ h.loop = .receiving ∨ ∃ r, h.loop = .applying r

theorem Subscriptions.init : Subscriptions control (Hub.init : Hub ε) :=
  ⟨rfl, by simp [Hub.copy, Hub.init], by simp [Hub.init]⟩

theorem Subscriptions.congr {h t : Hub ε} (inv : Subscriptions control h)
    (users : ∀ u, u ∈ t.localUsers ↔ u ∈ h.localUsers) (requests : t.requests = h.requests)
    (loop : t.loop = h.loop) (subscribed : t.subscribed = h.subscribed)
    (connected : t.connected = h.connected) : Subscriptions control t := by
  have want : wanted control t = wanted control h := wanted_congr users
  refine ⟨by rw [want, requests]; exact inv.settled, fun s hs => ?_, ?_⟩
  · rw [Hub.copy, loop, subscribed] at hs
    rw [pending, loop, requests, want]
    exact inv.copy s hs
  · rw [loop, connected]
    exact inv.connected

theorem pending_concat {h t : Hub ε} {r : HubRequest} (requests : t.requests = h.requests ++ [r])
    (loop : t.loop = h.loop) : t.pending = h.pending ++ [r] := by
  rw [pending, pending, loop, requests]
  split <;> rfl

/-- A change of the registry with its request. -/
theorem Subscriptions.request {h t : Hub ε} {r : HubRequest} (inv : Subscriptions control h)
    (want : wanted control t = r.edit.apply (wanted control h))
    (requests : t.requests = h.requests ++ [r]) (loop : t.loop = h.loop)
    (subscribed : t.subscribed = h.subscribed) (connected : t.connected = h.connected) :
    Subscriptions control t := by
  refine ⟨?_, fun s hs => ?_, ?_⟩
  · rw [want, requests, edits, List.map_append]
    exact inv.settled.edit r.edit
  · rw [Hub.copy, loop, subscribed] at hs
    rw [pending_concat requests loop, edits, List.map_append, List.map_singleton, Edit.replay_concat,
      want]
    exact congrArg r.edit.apply (inv.copy s hs)
  · rw [loop, connected]
    exact inv.connected

theorem applyRequests_loop (h : Hub ε) :
    h.applyRequests.loop = .receiving ∨ ∃ r, h.applyRequests.loop = .applying r := by
  unfold applyRequests
  split
  · exact .inl rfl
  · rename_i r rest some
    exact .inr ⟨r, rfl⟩

/-- The loop goes on with the requests once the copy it has made is in force. -/
theorem Subscriptions.applyRequests {h : Hub ε}
    (settled : Edit.Settled (wanted control h) (edits h.requests))
    (copy : Edit.replay h.subscribed (edits h.requests) = wanted control h)
    (connected : h.connected = true) : Subscriptions control h.applyRequests := by
  have want : wanted control h.applyRequests = wanted control h := wanted_congr (by simp)
  refine ⟨?_, fun s hs => ?_, ?_⟩
  · rw [want]
    unfold Hub.applyRequests
    split
    · exact settled
    · rename_i r rest some
      rw [some] at settled
      exact settled.tail
  · have subscribed : s = h.subscribed := by
      rcases applyRequests_loop h with loop | ⟨r, loop⟩
      · simpa [Hub.copy, loop, eq_comm] using hs
      · simpa [Hub.copy, loop, eq_comm] using hs
    rw [applyRequests_pending, want, subscribed]
    exact copy
  · rw [applyRequests_connected]
    simp [connected, applyRequests_loop h]

theorem Subscriptions.lost {h : Hub ε} : Subscriptions control h.lost :=
  ⟨rfl, by simp [Hub.copy, Hub.lost], by simp [Hub.lost]⟩

theorem Subscriptions.step {h t : Hub ε} {i : HubInput ε} (apart : ∀ u, control ≠ userChannel u)
    (inv : Subscriptions control h) (step : Steps user control h i t) : Subscriptions control t := by
  cases step with
  | first c idle empty => exact inv.request (wanted_insert rfl) rfl rfl rfl rfl
  | last c conns some mem empty => exact inv.request (wanted_erase (apart _) rfl) rfl rfl rfl rfl
  | joins c conns idle some ne => exact inv.congr (mem_insert_known some) rfl rfl rfl rfl
  | leaves c conns some mem ne => exact inv.congr (mem_insert_known some) rfl rfl rfl rfl
  | looked pc =>
    refine ⟨inv.settled, fun s hs => ?_, ?_⟩
    · obtain rfl := Option.some.inj hs
      exact inv.settled
    · have off := inv.connected.not.mpr (by rcases pc with pc | pc <;> simp [pc])
      simpa using off
  | connected channels pc =>
    have made := inv.copy channels.toFinset (by simp [Hub.copy, pc])
    rw [pending, pc] at made
    exact Subscriptions.applyRequests inv.settled made rfl
  | applied r pc =>
    have made := inv.copy h.subscribed (by simp [Hub.copy, pc])
    rw [pending, pc] at made
    exact Subscriptions.applyRequests inv.settled made (inv.connected.mpr (.inr ⟨r, pc⟩))
  | received m rest pc some =>
    have made := inv.copy h.subscribed (by simp [Hub.copy, pc])
    rw [pending, pc] at made
    rw [dispatch_eq]
    exact Subscriptions.applyRequests inv.settled made (inv.connected.mpr (.inl pc))
  | quiet pc =>
    have made := inv.copy h.subscribed (by simp [Hub.copy, pc])
    rw [pending, pc] at made
    exact Subscriptions.applyRequests inv.settled made (inv.connected.mpr (.inl pc))
  | slept pc =>
    refine ⟨inv.settled, fun s hs => ?_, ?_⟩
    · cases hs
    · have off := inv.connected.not.mpr (by simp [pc])
      simpa using off
  | failed pc => exact Subscriptions.lost
  | failedApplying r pc => exact Subscriptions.lost
  | resumed call released => exact inv.congr (fun _ => Iff.rfl) rfl rfl rfl rfl
  | timedOut call waiting => exact inv.congr (fun _ => Iff.rfl) rfl rfl rfl rfl
  | published m mem => exact inv.congr (fun _ => Iff.rfl) rfl rfl rfl rfl
  | dropped m away => exact inv
  | sent c e => exact inv.congr (fun _ => Iff.rfl) rfl rfl rfl rfl
  | closed c code reason => exact inv.congr (fun _ => Iff.rfl) rfl rfl rfl rfl
  | taken c => exact inv.congr (fun _ => Iff.rfl) rfl rfl rfl rfl

end Hub

/-- In every run, `_local` has the users with a registered connection, and a connected loop with
nothing left to apply is subscribed to their channels and its own. -/
theorem subscriptions_follow_registry (ε : Type) (user : ConnId → UserId) (replicaId : String)
    (is : List (HubInput ε)) :
    (∀ u, u ∈ ((hub ε user replicaId).run is).localUsers ↔
      ∃ c, user c = u ∧ ((hub ε user replicaId).run is).isRegistered c) ∧
    (((hub ε user replicaId).run is).connected = true →
      ((hub ε user replicaId).run is).requests = [] →
      (∀ r, ((hub ε user replicaId).run is).loop ≠ .applying r) →
      ∀ channel, channel ∈ ((hub ε user replicaId).run is).subscribed ↔
        channel = controlChannel replicaId ∨
          ∃ u ∈ ((hub ε user replicaId).run is).localUsers, channel = userChannel u) := by
  have registry : Hub.Registry user ((hub ε user replicaId).run is) :=
    (hub ε user replicaId).run_invariant (Hub.Registry user) Hub.Registry.init
      (fun _ _ _ inv step => inv.step (Hub.step_cases step)) is
  have subs : Hub.Subscriptions (controlChannel replicaId) ((hub ε user replicaId).run is) :=
    (hub ε user replicaId).run_invariant (Hub.Subscriptions (controlChannel replicaId))
      Hub.Subscriptions.init
      (fun _ _ _ inv step => inv.step (controlChannel_ne replicaId) (Hub.step_cases step)) is
  refine ⟨registry.keys, fun connected drained free channel => ?_⟩
  have receiving : ((hub ε user replicaId).run is).loop = .receiving := by
    rcases subs.connected.mp connected with loop | ⟨r, loop⟩
    · exact loop
    · exact absurd loop (free r)
  have made := subs.copy ((hub ε user replicaId).run is).subscribed (by simp [Hub.copy, receiving])
  rw [Hub.pending, receiving, drained] at made
  rw [show ((hub ε user replicaId).run is).subscribed = _ from made, Hub.mem_wanted]
  simp only [eq_comm]

end ChatBackend

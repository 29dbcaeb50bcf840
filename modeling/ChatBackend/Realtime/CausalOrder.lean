import ChatBackend.Realtime.RelaySafety

/-! The order in which the rows of one topic reach Redis. A batch goes by the ids, but the batches
of two relays lock disjoint rows and run side by side: one that passes over a locked row may publish
a later row first. -/

namespace ChatBackend

open Lib

abbrev TxId := Nat

/-- A transaction of the application: the rows there were when it began, and the rows it has written. -/
structure Writing where
  seen : List Nat
  rows : List (Nat × Outbox)

/-- The relays and the transactions that write their outbox. `seen` remembers for each row what was
there when its transaction began; `passed`, which rows the last SELECT of a relay found locked. -/
structure Traffic where
  relays : Relays
  nextId : Nat
  writing : TxId → Option Writing
  seen : List (Nat × List Nat)
  passed : RelayId → List Nat

inductive TrafficInput where
  | begin (t : TxId)
  | write (t : TxId) (row : Outbox)
  | commit (t : TxId)
  | rollback (t : TxId)
  | relay (i : RelayInput)

def RelayInput.isInsert : RelayInput → Bool
  | .insert _ => true
  | _ => false

namespace Traffic

def init : Traffic := ⟨Relays.init, 1, fun _ => none, [], fun _ => []⟩

def ids (s : Traffic) : List Nat := s.relays.committed.map Prod.fst

/-- What a step of a relay adds to the rows its SELECT has passed over. -/
def passes (s : Traffic) : RelayInput → RelayId → List Nat
  | .publishBatch r _ => Function.update s.passed r []
  | .visit r =>
    match s.relays.pcs r with
    | .selecting _ (id :: _) _ =>
      if s.relays.lockedByOther r id then Function.update s.passed r (s.passed r ++ [id]) else s.passed
    | _ => s.passed
  | _ => s.passed

/-- `id` is taken from the sequence when the row is written; a rollback gives nothing back. -/
def step (batchSize retention : Nat) (s : Traffic) : TrafficInput → Option Traffic
  | .begin t =>
    match s.writing t with
    | some _ => none
    | none => some { s with writing := Function.update s.writing t (some ⟨s.ids, []⟩) }
  | .write t row =>
    (s.writing t).map fun w => { s with
      nextId := s.nextId + 1
      writing := Function.update s.writing t (some { w with rows := w.rows ++ [(s.nextId, row)] }) }
  | .commit t =>
    (s.writing t).bind fun w => (s.relays.insert w.rows).map fun relays => { s with
      relays := relays
      seen := s.seen ++ w.rows.map (fun o => (o.1, w.seen))
      writing := Function.update s.writing t none }
  | .rollback t => (s.writing t).map fun _ => { s with writing := Function.update s.writing t none }
  | .relay i =>
    if i.isInsert then none
    else (s.relays.step batchSize retention i).map fun relays =>
      { s with relays := relays, passed := s.passes i }

end Traffic

def traffic (batchSize retention : Nat) : Machine Traffic TrafficInput :=
  ⟨Traffic.init, Traffic.step batchSize retention⟩

namespace Relays

instance (handed : List Handed) (id : Nat) : Decidable (Accepted handed id) := by
  unfold Accepted
  infer_instance

end Relays

namespace Traffic

open Relays (Accepted)

/-- Of the rows of one topic, `x` had been committed when the transaction that wrote `y` began. -/
def Precedes (s : Traffic) (x y : Nat) : Prop :=
  (∃ e ∈ s.seen, e.1 = y ∧ x ∈ e.2) ∧
    ∃ o ∈ s.relays.committed, ∃ p ∈ s.relays.committed, o.1 = x ∧ p.1 = y ∧ o.2.topic = p.2.topic

instance (s : Traffic) (x y : Nat) : Decidable (s.Precedes x y) := by
  unfold Precedes
  infer_instance

/-- Whatever Redis has published, it had published before what precedes it. -/
def CausalOrder (s : Traffic) : Prop :=
  ∀ front p back, s.relays.handed = front ++ p :: back → p.accepted = true →
    ∀ x, s.Precedes x p.rowId → Accepted front x

/-- No batch takes a row over one that it has passed over, and Redis takes no command after one that
it has refused, while the one that precedes is unpublished. -/
def careful (s : Traffic) : TrafficInput → Bool
  | .relay (.visit r) =>
    match s.relays.pcs r with
    | .selecting _ (y :: _) _ =>
      s.relays.lockedByOther r y || (s.relays.row y).all (fun v => v.publishedAt ≠ none) ||
        decide (∀ x ∈ s.passed r, s.Precedes x y → Accepted s.relays.handed x)
    | _ => true
  | .relay (.publish r true) =>
    match s.relays.pcs r with
    | .publishing _ done (y :: _) true =>
      decide (∀ x ∈ done, s.Precedes x.id y.id → Accepted s.relays.handed x.id)
    | _ => true
  | _ => true

/-- All that one step can do. -/
inductive Steps (batchSize retention : Nat) (s : Traffic) : TrafficInput → Traffic → Prop where
  | began (t : TxId) : s.writing t = none → Steps batchSize retention s (.begin t)
      { s with writing := Function.update s.writing t (some ⟨s.ids, []⟩) }
  | wrote (t : TxId) (w : Writing) (row : Outbox) : s.writing t = some w →
      Steps batchSize retention s (.write t row)
        { s with
          nextId := s.nextId + 1
          writing := Function.update s.writing t (some { w with rows := w.rows ++ [(s.nextId, row)] }) }
  | committed (t : TxId) (w : Writing) (relays : Relays) : s.writing t = some w →
      s.relays.step batchSize retention (.insert w.rows) = some relays →
      Steps batchSize retention s (.commit t)
        { s with
          relays := relays
          seen := s.seen ++ w.rows.map (fun o => (o.1, w.seen))
          writing := Function.update s.writing t none }
  | rolledBack (t : TxId) (w : Writing) : s.writing t = some w →
      Steps batchSize retention s (.rollback t)
        { s with writing := Function.update s.writing t none }
  | relayed (i : RelayInput) (relays : Relays) : i.isInsert = false →
      s.relays.step batchSize retention i = some relays →
      Steps batchSize retention s (.relay i) { s with relays := relays, passed := s.passes i }

variable {batchSize retention : Nat} {s t : Traffic}

theorem step_cases {i : TrafficInput} (step : s.step batchSize retention i = some t) :
    Steps batchSize retention s i t := by
  cases i with
  | begin tx =>
    rw [Traffic.step] at step
    split at step
    · cases step
    · rename_i idle
      cases step
      exact .began tx idle
  | write tx row =>
    obtain ⟨w, found, eq⟩ := Option.map_eq_some_iff.mp step
    cases eq
    exact .wrote tx w row found
  | commit tx =>
    obtain ⟨w, found, inserted⟩ := Option.bind_eq_some_iff.mp step
    obtain ⟨relays, made, eq⟩ := Option.map_eq_some_iff.mp inserted
    cases eq
    exact .committed tx w relays found made
  | rollback tx =>
    obtain ⟨w, found, eq⟩ := Option.map_eq_some_iff.mp step
    cases eq
    exact .rolledBack tx w found
  | relay i =>
    rw [Traffic.step] at step
    split at step
    · cases step
    · rename_i own
      obtain ⟨relays, made, eq⟩ := Option.map_eq_some_iff.mp step
      cases eq
      exact .relayed i relays (by simpa using own) made

end Traffic

/-! Ids go up along every chain of transactions. -/

structure Writing.Ok (ids : List Nat) (nextId : Nat) (w : Writing) : Prop where
  known : ∀ x ∈ w.seen, x ∈ ids
  later : ∀ o ∈ w.rows, o.1 < nextId ∧ ∀ x ∈ w.seen, x < o.1

theorem Writing.Ok.grow {ids ids' : List Nat} {n n' : Nat} {w : Writing} (ok : w.Ok ids n)
    (more : ∀ x ∈ ids, x ∈ ids') (le : n ≤ n') : w.Ok ids' n' :=
  ⟨fun x hx => more x (ok.known x hx), fun o ho => ⟨Nat.lt_of_lt_of_le (ok.later o ho).1 le, (ok.later o ho).2⟩⟩

namespace Traffic
open Relays (Accepted)
variable {batchSize retention : Nat} {s t : Traffic}

structure Inv (s : Traffic) : Prop where
  relays : s.relays.Inv
  logged : s.relays.Logged
  below : ∀ id ∈ s.ids, id < s.nextId
  writing : ∀ tx, ∀ w ∈ s.writing tx, w.Ok s.ids s.nextId
  seen : ∀ e ∈ s.seen, e.1 ∈ s.ids ∧ ∀ x ∈ e.2, x ∈ s.ids ∧ x < e.1

theorem Inv.init : Traffic.init.Inv where
  relays := Relays.Inv.init
  logged := Relays.Logged.init
  below _ h := nomatch h
  writing _ _ h := nomatch h
  seen _ h := nomatch h

theorem Precedes.lt (inv : s.Inv) {x y : Nat} (h : s.Precedes x y) : x < y := by
  obtain ⟨⟨e, he, rfl, hx⟩, -⟩ := h
  exact ((inv.seen e he).2 x hx).2

theorem Precedes.mem_ids {x y : Nat} (h : s.Precedes x y) : x ∈ s.ids := by
  obtain ⟨-, o, ho, p, hp, rfl, -⟩ := h
  exact List.mem_map.mpr ⟨o, ho, rfl⟩

theorem committed_insert {rs relays : Relays} {rows : List (Nat × Outbox)}
    (made : rs.step batchSize retention (.insert rows) = some relays) :
    (∀ o ∈ rows, o.1 ∉ rs.committed.map Prod.fst) ∧ relays.committed = rs.committed ++ rows ∧
      relays.handed = rs.handed ∧ relays.pcs = rs.pcs := by
  cases Relays.step_cases made with
  | inserted rows distinct new => exact ⟨new, rfl, rfl, rfl⟩

theorem committed_relay {rs relays : Relays} {i : RelayInput} (own : i.isInsert = false)
    (made : rs.step batchSize retention i = some relays) : relays.committed = rs.committed := by
  cases Relays.step_cases made with
  | inserted => cases own
  | _ => rfl

/-- A transaction begins, writes or ends. -/
theorem Inv.update (inv : s.Inv) {tx : TxId} {w : Option Writing} {nextId : Nat}
    (le : s.nextId ≤ nextId) (ok : ∀ v ∈ w, v.Ok s.ids nextId) :
    Inv { s with nextId := nextId, writing := Function.update s.writing tx w } := by
  refine ⟨inv.relays, inv.logged, fun id mem => Nat.lt_of_lt_of_le (inv.below id mem) le, ?_, inv.seen⟩
  exact (Function.forall_update_iff s.writing (p := fun _ w => ∀ v ∈ w, v.Ok s.ids nextId)).mpr
    ⟨ok, fun q _ v hv => (inv.writing q v hv).grow (fun _ mem => mem) le⟩

theorem Inv.step {i : TrafficInput} (inv : s.Inv) (step : Steps batchSize retention s i t) : t.Inv := by
  cases step with
  | began tx idle =>
    refine inv.update (Nat.le_refl _) fun v hv => ?_
    cases hv
    exact ⟨fun x hx => hx, fun o ho => nomatch ho⟩
  | wrote tx w row found =>
    refine inv.update (Nat.le_succ _) fun v hv => ?_
    cases hv
    have ok := inv.writing tx w found
    refine ⟨ok.known, fun o ho => ?_⟩
    rcases List.mem_append.mp ho with old | new
    · exact ⟨Nat.lt_succ_of_lt (ok.later o old).1, (ok.later o old).2⟩
    · rw [List.mem_singleton.mp new]
      exact ⟨Nat.lt_succ_self _, fun x hx => inv.below x (ok.known x hx)⟩
  | rolledBack tx w found => exact inv.update (Nat.le_refl _) (fun v hv => nomatch hv)
  | committed tx w relays found made =>
    obtain ⟨-, committed, -, -⟩ := committed_insert made
    have ids : relays.committed.map Prod.fst = s.ids ++ w.rows.map Prod.fst := by
      rw [committed, List.map_append]
      rfl
    have old : ∀ x ∈ s.ids, x ∈ relays.committed.map Prod.fst := by
      intro x hx
      rw [ids]
      exact List.mem_append_left _ hx
    have ok := inv.writing tx w found
    refine ⟨inv.relays.step (Relays.step_cases made), inv.logged.step inv.relays (Relays.step_cases made),
      fun id mem => ?_, ?_, fun e he => ?_⟩
    · replace mem : id ∈ relays.committed.map Prod.fst := mem
      rw [ids] at mem
      rcases List.mem_append.mp mem with past | new
      · exact inv.below id past
      · obtain ⟨o, ho, rfl⟩ := List.mem_map.mp new
        exact (ok.later o ho).1
    · exact (Function.forall_update_iff s.writing (p := fun _ w => ∀ v ∈ w,
        v.Ok (relays.committed.map Prod.fst) s.nextId)).mpr
        ⟨fun _ hv => (nomatch hv), fun q _ v hv => (inv.writing q v hv).grow old (Nat.le_refl _)⟩
    · rcases List.mem_append.mp he with past | new
      · obtain ⟨mem, less⟩ := inv.seen e past
        exact ⟨old _ mem, fun x hx => ⟨old x (less x hx).1, (less x hx).2⟩⟩
      · obtain ⟨o, ho, rfl⟩ := List.mem_map.mp new
        refine ⟨?_, fun x hx => ⟨old x (ok.known x hx), (ok.later o ho).2 x hx⟩⟩
        show o.1 ∈ relays.committed.map Prod.fst
        rw [ids]
        exact List.mem_append_right _ (List.mem_map.mpr ⟨o, ho, rfl⟩)
  | relayed i relays own made =>
    have ids : ({ s with relays := relays, passed := s.passes i } : Traffic).ids = s.ids :=
      congrArg (List.map Prod.fst) (committed_relay own made)
    refine ⟨inv.relays.step (Relays.step_cases made), inv.logged.step inv.relays (Relays.step_cases made),
      ?_, ?_, ?_⟩
    · rw [ids]
      exact inv.below
    · rw [ids]
      exact inv.writing
    · rw [ids]
      exact inv.seen

/-- What precedes a row is settled when the row is committed. -/
theorem Steps.precedes {i : TrafficInput} (inv : s.Inv) (step : Steps batchSize retention s i t)
    {x y : Nat} (old : y ∈ s.ids) (h : t.Precedes x y) : s.Precedes x y := by
  cases step with
  | began | wrote | rolledBack => exact h
  | relayed i relays own made =>
    unfold Precedes at h ⊢
    rwa [show (({ s with relays := relays, passed := s.passes i } : Traffic).relays.committed) =
      s.relays.committed from committed_relay own made] at h
  | committed tx w relays found made =>
    obtain ⟨new, committed, -, -⟩ := committed_insert made
    obtain ⟨⟨e, he, rfl, hx⟩, o, ho, p, hp, rfl, same, topic⟩ := h
    have past : e ∈ s.seen := by
      rcases List.mem_append.mp he with past | fresh
      · exact past
      · obtain ⟨o, ho, rfl⟩ := List.mem_map.mp fresh
        exact absurd old (new o ho)
    have there : ∀ o ∈ relays.committed, o.1 ∈ s.ids → o ∈ s.relays.committed := by
      intro o ho mem
      rw [committed] at ho
      rcases List.mem_append.mp ho with past | fresh
      · exact past
      · exact absurd mem (new o fresh)
    exact ⟨⟨e, past, rfl, hx⟩, o, there o ho ((inv.seen e past).2 _ hx).1, p,
      there p hp (same ▸ old), rfl, same, topic⟩

end Traffic

/-! What a relay still has before it. -/

/-- The rows of the batch that are not published and those the SELECT has yet to visit, in order. -/
def RelayPc.plan : RelayPc → List Nat
  | .selecting _ todo rows => rows.map OutboxRow.id ++ todo
  | .publishing _ _ todo _ => todo.map OutboxRow.id
  | _ => []

/-- The two ways for `x` to drop out of the plan ahead of `y` without being published. -/
def RelayPc.Excused (passed : List Nat) (x y : Nat) : RelayPc → Prop
  | .selecting _ todo _ => x ∈ passed ∧ y ∈ todo
  | .publishing _ done _ failed => failed = true ∧ x ∈ done.map OutboxRow.id
  | _ => False

namespace Traffic

open Relays (Accepted)

variable {batchSize retention : Nat} {s t : Traffic}

/-- What precedes a row of the plan is published, or comes before it in the plan, or is excused. -/
structure Planned (s : Traffic) (passed : List Nat) (pc : RelayPc) : Prop where
  ascending : pc.plan.Pairwise (· < ·)
  known : ∀ y ∈ pc.plan, y ∈ s.ids
  ready : ∀ y ∈ pc.plan, ∀ x, s.Precedes x y →
    Accepted s.relays.handed x ∨ x ∈ pc.plan ∨ pc.Excused passed x y

theorem Planned.nothing {passed : List Nat} {pc : RelayPc} (none : pc.plan = []) :
    Planned s passed pc := by
  refine ⟨?_, ?_, ?_⟩ <;> rw [none]
  · exact List.Pairwise.nil
  · exact fun y hy => nomatch hy
  · exact fun y hy => nomatch hy

/-- The rest of the world only adds to what a plan relies on. -/
structure Grows (s t : Traffic) : Prop where
  ids : ∀ x ∈ s.ids, x ∈ t.ids
  precedes : ∀ x, ∀ y ∈ s.ids, t.Precedes x y → s.Precedes x y
  handed : s.relays.handed <+: t.relays.handed

theorem Grows.accepted (grows : Grows s t) {x : Nat} (h : Accepted s.relays.handed x) :
    Accepted t.relays.handed x := by
  obtain ⟨p, hp, same⟩ := h
  exact ⟨p, grows.handed.subset hp, same⟩

theorem Planned.grow {passed : List Nat} {pc : RelayPc} (plan : Planned s passed pc) (grows : Grows s t) :
    Planned t passed pc := by
  refine ⟨plan.ascending, fun y hy => grows.ids y (plan.known y hy), fun y hy x before => ?_⟩
  rcases plan.ready y hy x (grows.precedes x y (plan.known y hy) before) with done | ahead | excused
  · exact .inl (grows.accepted done)
  · exact .inr (.inl ahead)
  · exact .inr (.inr excused)

theorem handed_step {rs relays : Relays} {i : RelayInput}
    (step : Relays.Steps batchSize retention rs i relays) : rs.handed <+: relays.handed := by
  cases step with
  | published => exact List.prefix_append _ _
  | _ => exact List.prefix_refl _

theorem Steps.grows {i : TrafficInput} (inv : s.Inv) (step : Steps batchSize retention s i t) :
    Grows s t := by
  refine ⟨?_, fun x y old before => step.precedes inv old before, ?_⟩
  · cases step with
    | began | wrote | rolledBack => exact fun x hx => hx
    | committed tx w relays found made =>
      exact List.map_subset _ (Relays.committed_step (Relays.step_cases made))
    | relayed i relays own made =>
      exact List.map_subset _ (Relays.committed_step (Relays.step_cases made))
  · cases step with
    | began | wrote | rolledBack => exact List.prefix_refl _
    | committed tx w relays found made => exact handed_step (Relays.step_cases made)
    | relayed i relays own made => exact handed_step (Relays.step_cases made)

/-- A row that is not waiting in the outbox was published. -/
theorem Inv.settled (inv : s.Inv) {x : Nat} (known : x ∈ s.ids)
    (settled : ∀ v ∈ s.relays.outbox, v.id = x → v.publishedAt ≠ none) : Accepted s.relays.handed x := by
  obtain ⟨o, ho, rfl⟩ := List.mem_map.mp known
  exact inv.logged.done o ho settled

/-! The plan of the relay that acts. -/

theorem Planned.start (inv : s.Inv) (now : Timestamp) (passed : List Nat) :
    Planned s passed (.selecting now s.relays.unpublished []) := by
  refine ⟨?_, fun y hy => ?_, fun y hy x before => ?_⟩
  · have keys := inv.relays.keys.sublist
      ((List.filter_sublist (p := fun v => decide (v.publishedAt = none))).map OutboxRow.id)
    exact List.pairwise_map.mpr (byKey_strict keys)
  · obtain ⟨v, hv, rfl, -⟩ := Relays.mem_unpublished.mp hy
    exact List.mem_map.mpr ⟨_, inv.relays.rows v hv, rfl⟩
  · by_cases there : x ∈ s.relays.unpublished
    · exact .inr (.inl there)
    · refine .inl (inv.settled before.mem_ids fun v hv same unpublished => ?_)
      exact there (Relays.mem_unpublished.mpr ⟨v, hv, same, unpublished⟩)

theorem Planned.skip (inv : s.Inv) {now : Timestamp} {id : Nat} {todo : List Nat}
    {rows : List OutboxRow} {passed passed' : List Nat}
    (plan : Planned s passed (.selecting now (id :: todo) rows)) (more : ∀ x ∈ passed, x ∈ passed')
    (gone : Accepted s.relays.handed id ∨ id ∈ passed') :
    Planned s passed' (.selecting now todo rows) := by
  obtain ⟨ascending, known, ready⟩ := plan
  simp only [RelayPc.plan] at ascending known ready
  have fewer : (rows.map OutboxRow.id ++ todo).Sublist (rows.map OutboxRow.id ++ id :: todo) :=
    (List.sublist_cons_self id todo).append_left _
  have split := List.pairwise_append.mp ascending
  refine ⟨ascending.sublist fewer, fun y hy => known y (fewer.subset hy), fun y hy x before => ?_⟩
  have other : y ≠ id := by
    rintro rfl
    have nodup : (rows.map OutboxRow.id ++ y :: todo).Nodup := ascending.imp Nat.ne_of_lt
    exact (List.nodup_cons.mp (List.nodup_middle.mp nodup)).1 hy
  rcases ready y (fewer.subset hy) x before with done | ahead | ⟨past, behind⟩
  · exact .inl done
  · rcases List.mem_append.mp ahead with taken | ahead
    · exact .inr (.inl (List.mem_append_left _ taken))
    · rcases List.mem_cons.mp ahead with rfl | ahead
      · rcases gone with done | past
        · exact .inl done
        · have less := before.lt inv
          rcases List.mem_append.mp hy with taken | behind
          · have early := split.2.2 y taken x List.mem_cons_self
            omega
          · exact .inr (.inr ⟨past, behind⟩)
      · exact .inr (.inl (List.mem_append_right _ ahead))
  · exact .inr (.inr ⟨more x past, (List.mem_cons.mp behind).resolve_left other⟩)

theorem Planned.take {now : Timestamp} {v : OutboxRow} {todo : List Nat} {rows : List OutboxRow}
    {passed : List Nat} (plan : Planned s passed (.selecting now (v.id :: todo) rows))
    (careful : ∀ x ∈ passed, s.Precedes x v.id → Accepted s.relays.handed x) :
    Planned s passed (.selecting now todo (rows ++ [v])) := by
  have same : (RelayPc.selecting now todo (rows ++ [v])).plan =
      (RelayPc.selecting now (v.id :: todo) rows).plan := by simp [RelayPc.plan]
  refine ⟨same ▸ plan.ascending, same ▸ plan.known, fun y hy x before => ?_⟩
  rw [same] at hy ⊢
  rcases plan.ready y hy x before with done | ahead | ⟨past, behind⟩
  · exact .inl done
  · exact .inr (.inl ahead)
  · rcases List.mem_cons.mp behind with rfl | behind
    · exact .inl (careful x past before)
    · exact .inr (.inr ⟨past, behind⟩)

/-- The SELECT is over: what it has not visited comes after all that it has taken. -/
theorem Planned.publishing (inv : s.Inv) {now : Timestamp} {todo : List Nat} {rows : List OutboxRow}
    {passed : List Nat} (plan : Planned s passed (.selecting now todo rows)) :
    Planned s passed (.publishing now [] rows false) := by
  obtain ⟨ascending, known, ready⟩ := plan
  simp only [RelayPc.plan] at ascending known ready
  have split := List.pairwise_append.mp ascending
  refine ⟨split.1, fun y hy => known y (List.mem_append_left _ hy), fun y hy x before => ?_⟩
  rcases ready y (List.mem_append_left _ hy) x before with done | ahead | ⟨-, behind⟩
  · exact .inl done
  · rcases List.mem_append.mp ahead with taken | behind
    · exact .inr (.inl taken)
    · have early := split.2.2 y hy x behind
      have less := before.lt inv
      omega
  · exact absurd (split.2.2 y hy y behind) (Nat.lt_irrefl y)

theorem Planned.publish {now : Timestamp} {v : OutboxRow} {done todo : List OutboxRow}
    {failed accepted : Bool} {passed : List Nat}
    (plan : Planned s passed (.publishing now done (v :: todo) failed))
    (taken : accepted = true → Accepted s.relays.handed v.id) :
    Planned s passed (.publishing now (done ++ [v]) todo (failed || !accepted)) := by
  refine ⟨(List.pairwise_cons.mp plan.ascending).2,
    fun y hy => plan.known y (List.mem_cons_of_mem _ hy), fun y hy x before => ?_⟩
  have refused : failed = true → (failed || !accepted) = true := by
    rintro rfl
    rfl
  rcases plan.ready y (List.mem_cons_of_mem _ hy) x before with done | ahead | ⟨bad, past⟩
  · exact .inl done
  · rcases List.mem_cons.mp ahead with rfl | ahead
    · cases accepted with
      | true => exact .inl (taken rfl)
      | false => exact .inr (.inr ⟨by simp, by simp⟩)
    · exact .inr (.inl ahead)
  · refine .inr (.inr ⟨refused bad, ?_⟩)
    rw [List.map_append]
    exact List.mem_append_left _ past

/-- The head of the pipeline has all that precedes it behind it. -/
theorem Planned.head (inv : s.Inv) {now : Timestamp} {v : OutboxRow} {done todo : List OutboxRow}
    {failed : Bool} {passed : List Nat}
    (plan : Planned s passed (.publishing now done (v :: todo) failed))
    (careful : failed = true → ∀ u ∈ done, s.Precedes u.id v.id → Accepted s.relays.handed u.id)
    {x : Nat} (before : s.Precedes x v.id) : Accepted s.relays.handed x := by
  have less := before.lt inv
  rcases plan.ready v.id List.mem_cons_self x before with done | ahead | ⟨bad, past⟩
  · exact done
  · rcases List.mem_cons.mp ahead with rfl | behind
    · exact absurd less (Nat.lt_irrefl _)
    · have early := (List.pairwise_cons.mp plan.ascending).1 x behind
      omega
  · obtain ⟨u, hu, rfl⟩ := List.mem_map.mp past
    exact careful bad u hu before

/-! The order of what was handed over. -/

theorem CausalOrder.grow (order : s.CausalOrder) (inv : s.Inv) (grows : Grows s t)
    (same : t.relays.handed = s.relays.handed) : t.CausalOrder := by
  intro front p back cut accepted x before
  rw [same] at cut
  obtain ⟨o, ho, id, -⟩ := inv.logged.sound p (by rw [cut]; simp)
  exact order front p back cut accepted x
    (grows.precedes x p.rowId (List.mem_map.mpr ⟨o, ho, id⟩) before)

theorem CausalOrder.concat (order : s.CausalOrder) (inv : s.Inv) (grows : Grows s t) {n : Handed}
    (more : t.relays.handed = s.relays.handed ++ [n])
    (last : n.accepted = true → ∀ x, t.Precedes x n.rowId → Accepted s.relays.handed x) :
    t.CausalOrder := by
  intro front p back cut accepted x before
  rw [more] at cut
  rcases List.eq_nil_or_concat' back with rfl | ⟨rest, m, rfl⟩
  · obtain ⟨rfl, same⟩ := List.append_inj' cut rfl
    cases same
    exact last accepted x before
  · rw [← List.cons_append, ← List.append_assoc] at cut
    obtain ⟨earlier, -⟩ := List.append_inj' cut rfl
    obtain ⟨o, ho, id, -⟩ := inv.logged.sound p (by rw [earlier]; simp)
    exact order front p rest earlier accepted x
      (grows.precedes x p.rowId (List.mem_map.mpr ⟨o, ho, id⟩) before)

structure Ordered (s : Traffic) : Prop where
  inv : s.Inv
  plans : ∀ r, Planned s (s.passed r) (s.relays.pcs r)
  order : s.CausalOrder

theorem Ordered.init : Traffic.init.Ordered where
  inv := Inv.init
  plans _ := .nothing rfl
  order front p back cut := by
    have none : front ++ p :: back ≠ [] := by simp
    exact absurd cut.symm none

theorem Ordered.planAt (ordered : s.Ordered) {r : RelayId} {pc : RelayPc} (located : s.relays.pcs r = pc) :
    Planned s (s.passed r) pc := by
  rw [← located]
  exact ordered.plans r

/-- Only the plan of the relay that acts is new. -/
theorem Ordered.acted (ordered : s.Ordered) (grows : Grows s t) {r : RelayId} {pc : RelayPc}
    (pcs : t.relays.pcs = Function.update s.relays.pcs r pc)
    (passed : ∀ q, q ≠ r → t.passed q = s.passed q) (mine : Planned t (t.passed r) pc) (q : RelayId) :
    Planned t (t.passed q) (t.relays.pcs q) := by
  by_cases same : q = r
  · subst same
    rw [pcs, Function.update_self]
    exact mine
  · rw [pcs, Function.update_of_ne same, passed q same]
    exact (ordered.plans q).grow grows

theorem Ordered.visit (ordered : s.Ordered) {r : RelayId} {relays : Relays}
    (made : s.relays.visit batchSize retention r = some relays)
    (careful : s.careful (.relay (.visit r)) = true)
    (grows : Grows s { s with relays := relays, passed := s.passes (.visit r) }) (q : RelayId) :
    Planned { s with relays := relays, passed := s.passes (.visit r) } (s.passes (.visit r) q)
      (relays.pcs q) := by
  have inv := ordered.inv
  cases pc : s.relays.pcs r with
  | selecting now todo rows =>
    cases todo with
    | nil =>
      unfold Relays.visit at made
      simp only [pc] at made
      cases made
    | cons id todo =>
      have plan := ordered.planAt pc
      have known : id ∈ s.ids := plan.known id (by simp [RelayPc.plan])
      rcases Relays.visit_selecting inv.relays pc made with ⟨rfl, skipped⟩ | ⟨free, v, row, unpublished, rfl, rfl⟩
      · have new : Planned s (s.passes (.visit r) r) (.selecting now todo rows) := by
          rcases skipped with locked | ⟨free, settled⟩
          · have passes : s.passes (.visit r) r = s.passed r ++ [id] := by simp [passes, pc, locked]
            rw [passes]
            exact plan.skip inv (fun x hx => List.mem_append_left _ hx) (.inr (by simp))
          · have passes : s.passes (.visit r) r = s.passed r := by simp [passes, pc, free]
            rw [passes]
            refine plan.skip inv (fun x hx => hx) (.inl (inv.settled known fun v hv same none => ?_))
            exact settled ⟨v, hv, same, none⟩
        refine ordered.acted grows rfl (fun q ne => ?_) (new.grow grows) q
        show s.passes (.visit r) q = s.passed q
        simp only [passes, pc]
        split
        · exact Function.update_of_ne ne _ _
        · rfl
      · have passes : s.passes (.visit r) = s.passed := by simp [passes, pc, free]
        have new : Planned s (s.passed r) (.selecting now todo (rows ++ [v])) := by
          refine plan.take fun x hx before => ?_
          simp only [Traffic.careful, pc, free, row, Option.all_some, unpublished, ne_eq,
            not_true_eq_false, decide_false, Bool.false_or, decide_eq_true_eq] at careful
          exact careful x hx before
        refine ordered.acted grows rfl (fun q _ => congrFun passes q) ?_ q
        show Planned _ (s.passes (.visit r) r) _
        rw [passes] at grows ⊢
        exact new.grow grows
  | sweeping now todo victims =>
    have passes : s.passes (.visit r) = s.passed := by simp [passes, pc]
    have swept : ∃ pc', relays.pcs = Function.update s.relays.pcs r pc' ∧ pc'.plan = [] := by
      cases Relays.visit_cases made with
      | skipped r now' id todo rows pc' => cases pc.symm.trans pc'
      | took r now' id todo rows x pc' => cases pc.symm.trans pc'
      | spared r now' id todo' victims' pc' => exact ⟨_, rfl, rfl⟩
      | doomed r now' id todo' victims' x pc' => exact ⟨_, rfl, rfl⟩
    obtain ⟨pc', pcs, none⟩ := swept
    exact ordered.acted grows pcs (fun q _ => congrFun passes q) (.nothing none) q
  | idle | publishing | marking | committing =>
    unfold Relays.visit at made
    simp only [pc] at made
    cases made

theorem Ordered.relayed (ordered : s.Ordered) {i : RelayInput} {relays : Relays}
    (own : i.isInsert = false) (made : s.relays.step batchSize retention i = some relays)
    (careful : s.careful (.relay i) = true)
    (grows : Grows s { s with relays := relays, passed := s.passes i }) :
    (∀ q, Planned { s with relays := relays, passed := s.passes i } (s.passes i q) (relays.pcs q)) ∧
      CausalOrder { s with relays := relays, passed := s.passes i } := by
  have inv := ordered.inv
  have quiet : relays.handed = s.relays.handed →
      CausalOrder { s with relays := relays, passed := s.passes i } :=
    fun same => ordered.order.grow inv grows same
  have cleared : ∀ r pc, relays.pcs = Function.update s.relays.pcs r pc → pc.plan = [] →
      s.passes i = s.passed → ∀ q, Planned { s with relays := relays, passed := s.passes i }
        (s.passes i q) (relays.pcs q) :=
    fun r pc pcs none passes => ordered.acted grows pcs (fun q _ => congrFun passes q) (.nothing none)
  cases i with
  | insert rows => cases own
  | visit r =>
    refine ⟨ordered.visit made careful grows, quiet ?_⟩
    cases Relays.visit_cases made <;> rfl
  | publishBatch r now =>
    cases Relays.step_cases made with
    | began r now pc =>
      refine ⟨ordered.acted grows rfl (fun q ne => Function.update_of_ne ne _ _) ?_, quiet rfl⟩
      exact (Planned.start inv now _).grow grows
  | sweep r now =>
    cases Relays.step_cases made with
    | sweeps r now pc => exact ⟨cleared r _ rfl rfl rfl, quiet rfl⟩
  | selected r =>
    cases Relays.step_cases made with
    | empty r now todo pc => exact ⟨cleared r _ rfl rfl rfl, quiet rfl⟩
    | selected r now todo rows pc =>
      have plan := ordered.planAt pc
      exact ⟨ordered.acted grows rfl (fun _ _ => rfl) ((plan.publishing inv).grow grows), quiet rfl⟩
  | publish r accepted =>
    cases Relays.step_cases made with
    | published r now done todo v failed accepted pc =>
      have plan := ordered.planAt pc
      refine ⟨ordered.acted grows rfl (fun _ _ => rfl) ((plan.grow grows).publish ?_),
        ordered.order.concat inv grows rfl ?_⟩
      · rintro rfl
        exact ⟨_, List.mem_append_right _ (List.mem_singleton_self _), rfl, rfl⟩
      · rintro rfl x before
        refine plan.head inv (fun bad u hu => ?_) (grows.precedes x v.id ?_ before)
        · subst bad
          simp only [Traffic.careful, pc, decide_eq_true_eq] at careful
          exact careful u hu
        · exact plan.known v.id List.mem_cons_self
  | executed r =>
    cases Relays.step_cases made with
    | raised r now done pc => exact ⟨cleared r _ rfl rfl rfl, quiet rfl⟩
    | executed r now done pc => exact ⟨cleared r _ rfl rfl rfl, quiet rfl⟩
  | mark r =>
    cases Relays.step_cases made with
    | marked r now rows pc => exact ⟨cleared r _ rfl rfl rfl, quiet rfl⟩
  | commit r =>
    cases Relays.step_cases made with
    | committed r now rows pc => exact ⟨cleared r _ rfl rfl rfl, quiet rfl⟩
    | swept r now victims pc => exact ⟨cleared r _ rfl rfl rfl, quiet rfl⟩
  | fail r =>
    cases Relays.step_cases made with
    | failed r => exact ⟨cleared r _ rfl rfl rfl, quiet rfl⟩

theorem Ordered.step {i : TrafficInput} (ordered : s.Ordered) (careful : s.careful i = true)
    (step : Steps batchSize retention s i t) : t.Ordered := by
  have grows := step.grows ordered.inv
  have next := ordered.inv.step step
  cases step with
  | began | wrote | rolledBack =>
    exact ⟨next, fun r => (ordered.plans r).grow grows, ordered.order.grow ordered.inv grows rfl⟩
  | committed tx w relays found made =>
    obtain ⟨-, -, handed, pcs⟩ := committed_insert made
    refine ⟨next, fun r => ?_, ordered.order.grow ordered.inv grows handed⟩
    show Planned _ (s.passed r) (relays.pcs r)
    rw [pcs]
    exact (ordered.plans r).grow grows
  | relayed i relays own made =>
    obtain ⟨plans, order⟩ := ordered.relayed own made careful grows
    exact ⟨next, plans, order⟩

end Traffic

/-- In a run of careful steps, what Redis publishes of one topic is in causal order. -/
theorem causal_order_when_careful (batchSize retention : Nat) (is : List TrafficInput)
    (careful : ∀ x ∈ (traffic batchSize retention).history is, x.before.careful x.action = true) :
    ((traffic batchSize retention).run is).CausalOrder := by
  have ordered := (traffic batchSize retention).exec_guarded
    (fun x => x.before.careful x.action = true) Traffic.Ordered
    (fun s i t ordered careful step => ordered.step careful (Traffic.step_cases step))
    Traffic.init Traffic.Ordered.init is careful
  exact ordered.order

section Overtaking

def aliceDelivered : Outbox := ⟨userTopic "alice", .messageDelivered 1 2 "m1" 3⟩

def aliceRead : Outbox := ⟨userTopic "alice", .messageRead 2 "bob" [1] 4⟩

/-- One transaction that writes one row. -/
def wholeTransaction (t : TxId) (row : Outbox) : List TrafficInput := [.begin t, .write t row, .commit t]

theorem delivered_then_read : ((traffic 200 3600000000).run (wholeTransaction 0 aliceDelivered ++
    wholeTransaction 1 aliceRead ++ [.relay (.publishBatch 0 0), .relay (.visit 0), .relay (.visit 0),
      .relay (.selected 0), .relay (.publish 0 true), .relay (.publish 0 true)])).CausalOrder :=
  causal_order_when_careful 200 3600000000 _ (by decide +kernel)

/-- The second relay passes over the row that the first has locked, and is the first to publish. -/
def overtaking : List TrafficInput :=
  wholeTransaction 0 aliceDelivered ++
  [.relay (.publishBatch 0 0), .relay (.visit 0), .relay (.selected 0)] ++
  wholeTransaction 1 aliceRead ++
  [.relay (.publishBatch 1 0), .relay (.visit 1), .relay (.visit 1), .relay (.selected 1),
    .relay (.publish 1 true)]

theorem read_overtakes_delivered : ¬ ∀ (batchSize retention : Nat) (is : List TrafficInput),
    ((traffic batchSize retention).run is).CausalOrder := by
  intro all
  have handed : ((traffic 200 3600000000).run overtaking).relays.handed =
      [] ++ ⟨2, topicChannel (userTopic "alice"), aliceRead.payload, true⟩ :: [] := by decide +kernel
  have before : ((traffic 200 3600000000).run overtaking).Precedes 1 2 := by decide +kernel
  have published := all 200 3600000000 overtaking [] _ [] handed rfl 1 before
  exact absurd published (by decide)

end Overtaking

end ChatBackend

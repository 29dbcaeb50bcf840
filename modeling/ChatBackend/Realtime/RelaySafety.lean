import ChatBackend.Realtime.Relay

/-! Relay safety. No two transactions hold one row, so a row stays as a batch has selected it until
the batch ends; a row is marked or deleted only after it was handed to Redis; and every hand-over
but one belongs to a batch that failed. -/

namespace ChatBackend

open Lib

namespace Relays

variable {batchSize retention : Nat}

/-- What a relay holds: rows nobody has published, or rows to delete that somebody has. -/
structure RelayOk (outbox : List OutboxRow) (locks : Pending RelayId Nat) (r : RelayId) (pc : RelayPc) :
    Prop where
  held : locks.own r = pc.held
  fresh : (pc.todo ++ pc.held).Nodup
  batch : ∀ x ∈ pc.batch, x ∈ outbox ∧ x.publishedAt = none
  victims : ∀ id ∈ pc.victims, ∃ x ∈ outbox, x.id = id ∧ x.publishedAt ≠ none

structure Inv (s : Relays) : Prop where
  ids : (s.committed.map Prod.fst).Nodup
  keys : (s.outbox.map OutboxRow.id).Nodup
  rows : ∀ x ∈ s.outbox, (x.id, x.toOutbox) ∈ s.committed
  locks : (s.locks.map Prod.snd).Nodup
  relays : ∀ r, RelayOk s.outbox s.locks r (s.pcs r)

theorem Inv.init : Relays.init.Inv where
  ids := List.nodup_nil
  keys := List.nodup_nil
  rows _ h := nomatch h
  locks := List.nodup_nil
  relays _ := ⟨rfl, List.nodup_nil, fun _ h => (nomatch h), fun _ h => (nomatch h)⟩

theorem Inv.relayAt {s : Relays} (inv : s.Inv) {r : RelayId} {pc : RelayPc} (located : s.pcs r = pc) :
    RelayOk s.outbox s.locks r pc := by
  rw [← located]
  exact inv.relays r

theorem Inv.unique {s : Relays} (inv : s.Inv) {x y : OutboxRow} (hx : x ∈ s.outbox) (hy : y ∈ s.outbox)
    (id : x.id = y.id) : x = y :=
  List.inj_on_of_nodup_map inv.keys hx hy id

/-- One row, one lock. -/
theorem Inv.disjoint {s : Relays} (inv : s.Inv) {q r : RelayId} {id : Nat} (hq : id ∈ (s.pcs q).held)
    (hr : id ∈ (s.pcs r).held) : q = r := by
  rw [← (inv.relays q).held, Pending.mem_own] at hq
  rw [← (inv.relays r).held, Pending.mem_own] at hr
  exact congrArg Prod.fst (List.inj_on_of_nodup_map inv.locks hq hr rfl)

theorem row_some {s : Relays} {id : Nat} {x : OutboxRow} (h : s.row id = some x) :
    x ∈ s.outbox ∧ x.id = id :=
  ⟨List.mem_of_find?_eq_some h, by simpa using List.find?_some h⟩

theorem mem_held {pc : RelayPc} {x : OutboxRow} (h : x ∈ pc.batch) : x.id ∈ pc.held :=
  List.mem_append_left _ (List.mem_map.mpr ⟨x, h, rfl⟩)

theorem fresh_start {pc : RelayPc} (none : pc.held = []) : pc.todo ++ pc.held = pc.todo := by
  rw [none, List.append_nil]

theorem handed_batch {pc : RelayPc} {x : OutboxRow} (h : x ∈ pc.handed) : x ∈ pc.batch := by
  cases pc with
  | publishing now done todo failed => exact List.mem_append_left _ h
  | marking now rows => exact h
  | committing now rows => exact h
  | idle => cases h
  | selecting now todo rows => cases h
  | sweeping now todo victims => cases h

/-- A relay moves on with the locks it has. -/
theorem Inv.goto {s : Relays} (inv : s.Inv) {r : RelayId} {pc : RelayPc}
    (ok : RelayOk s.outbox s.locks r pc) : (s.goto r pc).Inv :=
  ⟨inv.ids, inv.keys, inv.rows, inv.locks,
    (Function.forall_update_iff s.pcs (p := RelayOk s.outbox s.locks)).mpr ⟨ok, fun q _ => inv.relays q⟩⟩

/-- A relay locks one more row of its snapshot, which nobody else has locked. -/
theorem Inv.lock {s : Relays} (inv : s.Inv) {r : RelayId} {id : Nat} {pc : RelayPc}
    (free : s.lockedByOther r id = false) (todo : (s.pcs r).todo = id :: pc.todo)
    (held : pc.held = (s.pcs r).held ++ [id])
    (batch : ∀ x ∈ pc.batch, x ∈ s.outbox ∧ x.publishedAt = none)
    (victims : ∀ id ∈ pc.victims, ∃ x ∈ s.outbox, x.id = id ∧ x.publishedAt ≠ none) :
    Inv { s.goto r pc with locks := s.locks.stage r [id] } := by
  have ok := inv.relays r
  have fresh := ok.fresh
  rw [todo, List.cons_append, List.nodup_cons] at fresh
  have absent : ∀ l ∈ s.locks, l.2 ≠ id := by
    intro l hl eq
    by_cases mine : l.1 = r
    · have mem : id ∈ s.locks.own r := Pending.mem_own.mpr (by rw [← mine, ← eq]; exact hl)
      rw [ok.held] at mem
      exact fresh.1 (List.mem_append_right _ mem)
    · have other := List.any_eq_false.mp free l hl
      simp [mine, eq] at other
  refine ⟨inv.ids, inv.keys, inv.rows, nodup_concat Prod.snd inv.locks absent, ?_⟩
  refine (Function.forall_update_iff s.pcs (p := RelayOk s.outbox (s.locks.stage r [id]))).mpr
    ⟨⟨?_, ?_, batch, victims⟩, fun q ne => ?_⟩
  · rw [Pending.own_stage_self, ok.held, held]
  · rw [held, ← List.append_assoc, List.nodup_append]
    refine ⟨fresh.2, List.nodup_singleton _, fun a ha b hb eq => ?_⟩
    rw [List.mem_singleton.mp hb] at eq
    exact fresh.1 (eq ▸ ha)
  · have other := inv.relays q
    exact ⟨by rw [Pending.own_stage_other _ _ ne, other.held], other.fresh, other.batch, other.victims⟩

/-- A transaction ends. The rows it has not locked stay as they are. -/
theorem Inv.finish {s : Relays} (inv : s.Inv) {r : RelayId} {outbox : List OutboxRow}
    (keys : (outbox.map OutboxRow.id).Nodup)
    (kept : ∀ x ∈ s.outbox, x.id ∉ (s.pcs r).held → x ∈ outbox)
    (back : ∀ y ∈ outbox, ∃ x ∈ s.outbox, y.id = x.id ∧ y.toOutbox = x.toOutbox) :
    (s.finish r outbox).Inv := by
  refine ⟨inv.ids, keys, fun y hy => ?_, inv.locks.sublist (List.filter_sublist.map _), ?_⟩
  · obtain ⟨x, hx, id, row⟩ := back y hy
    rw [id, row]
    exact inv.rows x hx
  · refine (Function.forall_update_iff s.pcs (p := RelayOk outbox (s.locks.drop r))).mpr
      ⟨⟨Pending.own_drop_self _ _, List.nodup_nil, fun _ h => (nomatch h), fun _ h => (nomatch h)⟩,
        fun q ne => ?_⟩
    have other := inv.relays q
    refine ⟨by rw [Pending.own_drop_other _ ne, other.held], other.fresh, fun x hx => ?_,
      fun id hid => ?_⟩
    · obtain ⟨mem, unpublished⟩ := other.batch x hx
      exact ⟨kept x mem (fun mine => ne (inv.disjoint (mem_held hx) mine)), unpublished⟩
    · obtain ⟨x, hx, rfl, published⟩ := other.victims id hid
      have away := fun mine => ne (inv.disjoint (List.mem_append_right _ hid) mine)
      exact ⟨x, kept x hx away, rfl, published⟩

theorem Inv.abort {s : Relays} (inv : s.Inv) (r : RelayId) : (s.finish r s.outbox).Inv :=
  inv.finish inv.keys (fun _ hx _ => hx) (fun y hy => ⟨y, hy, rfl, rfl⟩)

@[simp] theorem markPublished_id (now : Timestamp) (ids : List Nat) (x : OutboxRow) :
    (markPublished now ids x).id = x.id := by
  unfold markPublished
  split <;> rfl

@[simp] theorem markPublished_row (now : Timestamp) (ids : List Nat) (x : OutboxRow) :
    (markPublished now ids x).toOutbox = x.toOutbox := by
  unfold markPublished
  split <;> rfl

theorem Inv.insert {s : Relays} (inv : s.Inv) {rows : List (Nat × Outbox)}
    (distinct : (rows.map Prod.fst).Nodup) (new : ∀ o ∈ rows, o.1 ∉ s.committed.map Prod.fst) :
    Inv { s with
      outbox := s.outbox ++ rows.map (fun o => ⟨o.2, o.1, none⟩)
      committed := s.committed ++ rows } := by
  have added : (rows.map (fun o => (⟨o.2, o.1, none⟩ : OutboxRow))).map OutboxRow.id =
      rows.map Prod.fst := by
    rw [List.map_map]
    rfl
  refine ⟨?_, ?_, fun x hx => ?_, inv.locks, fun r => ?_⟩
  · rw [List.map_append, List.nodup_append]
    refine ⟨inv.ids, distinct, fun a ha b hb eq => ?_⟩
    obtain ⟨o, ho, rfl⟩ := List.mem_map.mp hb
    exact new o ho (eq ▸ ha)
  · rw [List.map_append, added, List.nodup_append]
    refine ⟨inv.keys, distinct, fun a ha b hb eq => ?_⟩
    obtain ⟨x, hx, rfl⟩ := List.mem_map.mp ha
    obtain ⟨o, ho, rfl⟩ := List.mem_map.mp hb
    exact new o ho (eq ▸ List.mem_map.mpr ⟨_, inv.rows x hx, rfl⟩)
  · rcases List.mem_append.mp hx with old | fresh
    · exact List.mem_append_left _ (inv.rows x old)
    · obtain ⟨o, ho, rfl⟩ := List.mem_map.mp fresh
      exact List.mem_append_right _ ho
  · have ok := inv.relays r
    refine ⟨ok.held, ok.fresh, fun x hx => ?_, fun id hid => ?_⟩
    · obtain ⟨mem, unpublished⟩ := ok.batch x hx
      exact ⟨List.mem_append_left _ mem, unpublished⟩
    · obtain ⟨x, hx, same⟩ := ok.victims id hid
      exact ⟨x, List.mem_append_left _ hx, same⟩

theorem Inv.step {s t : Relays} {i : RelayInput} (inv : s.Inv) (step : Steps batchSize retention s i t) :
    t.Inv := by
  cases step with
  | inserted rows distinct new => exact inv.insert distinct new
  | began r now pc =>
    have ok := inv.relayAt pc
    have distinct : s.unpublished.Nodup :=
      byKey_nodup (inv.keys.sublist (List.filter_sublist.map OutboxRow.id))
    exact inv.goto ⟨ok.held, by rw [fresh_start rfl]; exact distinct, ok.batch, ok.victims⟩
  | sweeps r now pc =>
    have ok := inv.relayAt pc
    have distinct := inv.keys.sublist
      ((List.filter_sublist (p := expired retention now)).map OutboxRow.id)
    exact inv.goto ⟨ok.held, by rw [fresh_start rfl]; exact distinct, ok.batch, ok.victims⟩
  | skipped r now id todo rows pc =>
    have ok := inv.relayAt pc
    exact inv.goto ⟨ok.held, (List.nodup_cons.mp ok.fresh).2, ok.batch, ok.victims⟩
  | spared r now id todo victims pc =>
    have ok := inv.relayAt pc
    exact inv.goto ⟨ok.held, (List.nodup_cons.mp ok.fresh).2, ok.batch, ok.victims⟩
  | took r now id todo rows x pc free found unpublished =>
    have ok := inv.relayAt pc
    obtain ⟨hx, rfl⟩ := row_some found
    refine inv.lock free (by rw [pc]; rfl) ?_ (fun y hy => ?_) (fun _ h => (nomatch h))
    · rw [pc]
      simp [RelayPc.held, RelayPc.batch, RelayPc.victims]
    · rcases List.mem_append.mp hy with old | new
      · exact ok.batch y old
      · rw [List.mem_singleton.mp new]
        exact ⟨hx, unpublished⟩
  | doomed r now id todo victims x pc free found old =>
    have ok := inv.relayAt pc
    obtain ⟨hx, rfl⟩ := row_some found
    refine inv.lock free (by rw [pc]; rfl) ?_ (fun _ h => (nomatch h)) (fun i hi => ?_)
    · rw [pc]
      rfl
    · rcases List.mem_append.mp hi with past | new
      · exact ok.victims i past
      · rw [List.mem_singleton.mp new]
        refine ⟨x, hx, rfl, fun none => ?_⟩
        rw [expired, none] at old
        cases old
  | empty r now todo pc => exact inv.abort r
  | selected r now todo rows pc =>
    have ok := inv.relayAt pc
    exact inv.goto ⟨ok.held, (List.nodup_append.mp ok.fresh).2.1, ok.batch, ok.victims⟩
  | published r now done todo x failed accepted pc =>
    have ok := inv.relayAt pc
    have same : (RelayPc.publishing now (done ++ [x]) todo (failed || !accepted)).batch =
        (RelayPc.publishing now done (x :: todo) failed).batch := List.append_cons _ _ _ |>.symm
    have held : (RelayPc.publishing now (done ++ [x]) todo (failed || !accepted)).held =
        (RelayPc.publishing now done (x :: todo) failed).held := by
      rw [RelayPc.held, same]
      rfl
    have moved := inv.goto (r := r) ⟨ok.held.trans held.symm, held ▸ ok.fresh, same ▸ ok.batch, ok.victims⟩
    exact ⟨moved.ids, moved.keys, moved.rows, moved.locks, moved.relays⟩
  | raised r now done pc => exact inv.abort r
  | executed r now done pc =>
    have ok := inv.relayAt pc
    have same : (RelayPc.publishing now done [] false).batch = done := List.append_nil done
    have held : (RelayPc.publishing now done [] false).held = (RelayPc.marking now done).held := by
      rw [RelayPc.held, same]
      rfl
    exact inv.goto ⟨ok.held.trans held, held ▸ ok.fresh, same ▸ ok.batch, ok.victims⟩
  | marked r now rows pc =>
    have ok := inv.relayAt pc
    exact inv.goto ⟨ok.held, ok.fresh, ok.batch, ok.victims⟩
  | committed r now rows pc =>
    refine inv.finish ?_ (fun x hx away => ?_) (fun y hy => ?_)
    · simpa [Function.comp_def] using inv.keys
    · rw [pc] at away
      refine List.mem_map.mpr ⟨x, hx, if_neg (fun mem => away ?_)⟩
      exact List.mem_append_left _ mem
    · obtain ⟨x, hx, rfl⟩ := List.mem_map.mp hy
      exact ⟨x, hx, markPublished_id _ _ x, markPublished_row _ _ x⟩
  | swept r now victims pc =>
    refine inv.finish (inv.keys.sublist (List.filter_sublist.map _)) (fun x hx away => ?_)
      (fun y hy => ⟨y, List.mem_of_mem_filter hy, rfl, rfl⟩)
    rw [pc] at away
    exact List.mem_filter.mpr ⟨hx, by simpa [RelayPc.held, RelayPc.batch, RelayPc.victims] using away⟩
  | failed r => exact inv.abort r

/-- A row of the outbox that is to be published. -/
def Waits (s : Relays) (id : Nat) : Prop := ∃ x ∈ s.outbox, x.id = id ∧ x.publishedAt = none

theorem mem_unpublished {s : Relays} {id : Nat} : id ∈ s.unpublished ↔ s.Waits id := by
  simp only [unpublished, Waits, List.mem_map, mem_byKey, List.mem_filter, decide_eq_true_eq]
  constructor
  · rintro ⟨x, ⟨hx, none⟩, same⟩
    exact ⟨x, hx, same, none⟩
  · rintro ⟨x, hx, same, none⟩
    exact ⟨x, ⟨hx, none⟩, same⟩

/-- The SELECT comes to a locked row, to one that was published meanwhile, or to one that it takes. -/
theorem visit_selecting {s t : Relays} {r : RelayId} {now : Timestamp} {id : Nat}
    {todo : List Nat} {rows : List OutboxRow} (inv : s.Inv)
    (pc : s.pcs r = .selecting now (id :: todo) rows)
    (made : s.visit batchSize retention r = some t) :
    t = s.goto r (.selecting now todo rows) ∧
      (s.lockedByOther r id = true ∨ s.lockedByOther r id = false ∧ ¬ s.Waits id) ∨
    s.lockedByOther r id = false ∧ ∃ v, s.row id = some v ∧ v.publishedAt = none ∧ v.id = id ∧
      t = { s.goto r (.selecting now todo (rows ++ [v])) with locks := s.locks.stage r [id] } := by
  unfold visit at made
  simp only [pc] at made
  split at made
  · cases made
  · split at made
    · rename_i locked
      cases made
      exact .inl ⟨rfl, .inl locked⟩
    · rename_i free
      split at made
      · rename_i gone
        cases made
        refine .inl ⟨rfl, .inr ⟨Bool.eq_false_iff.mpr free, ?_⟩⟩
        rintro ⟨v, hv, same, unpublished⟩
        have found : s.row id = some v := by
          cases hit : s.row id with
          | none =>
            have absent := List.find?_eq_none.mp hit v hv
            simp [same] at absent
          | some u =>
            obtain ⟨hu, named⟩ := row_some hit
            rw [inv.unique hu hv (named.trans same.symm)]
        rw [found, Option.filter_some, if_pos (by simpa using unpublished)] at gone
        cases gone
      · rename_i v found
        cases made
        obtain ⟨row, unpublished⟩ := Option.filter_eq_some_iff.mp found
        exact .inr ⟨Bool.eq_false_iff.mpr free, v, row, by simpa using unpublished,
          (row_some row).2, rfl⟩

theorem committed_step {s t : Relays} {i : RelayInput} (step : Steps batchSize retention s i t) :
    ∀ x ∈ s.committed, x ∈ t.committed := by
  intro x hx
  cases step with
  | inserted => exact List.mem_append_left _ hx
  | began | sweeps | skipped | took | spared | doomed | empty | selected | published | raised
  | executed | marked | committed | swept | failed => exact hx

/-! What was handed to Redis. -/

/-- Redis has taken a command for the row. -/
def Accepted (handed : List Handed) (id : Nat) : Prop := ∃ p ∈ handed, p.rowId = id ∧ p.accepted = true

end Relays

/-- The rows of a batch that Redis has taken. -/
def RelayPc.cleared : RelayPc → List OutboxRow
  | .publishing _ done _ false => done
  | .marking _ rows => rows
  | .committing _ rows => rows
  | _ => []

namespace Relays

variable {batchSize retention : Nat}

structure Logged (s : Relays) : Prop where
  sound : ∀ p ∈ s.handed, ∃ o ∈ s.committed, o.1 = p.rowId ∧ p.channel = topicChannel o.2.topic ∧
    p.payload = o.2.payload
  progress : ∀ r, ∀ x ∈ (s.pcs r).cleared, Accepted s.handed x.id
  done : ∀ o ∈ s.committed, (∀ x ∈ s.outbox, x.id = o.1 → x.publishedAt ≠ none) → Accepted s.handed o.1

theorem Logged.init : Relays.init.Logged :=
  ⟨fun _ h => (nomatch h), fun _ _ h => (nomatch h), fun _ h => (nomatch h)⟩

theorem Logged.progressAt {s : Relays} (logged : s.Logged) {r : RelayId} {pc : RelayPc}
    (located : s.pcs r = pc) : ∀ x ∈ pc.cleared, Accepted s.handed x.id := by
  rw [← located]
  exact logged.progress r

theorem Logged.goto {s : Relays} (logged : s.Logged) {r : RelayId} {pc : RelayPc}
    (cleared : ∀ x ∈ pc.cleared, Accepted s.handed x.id) : (s.goto r pc).Logged :=
  ⟨logged.sound, (Function.forall_update_iff s.pcs (p := fun _ pc => ∀ x ∈ pc.cleared, Accepted s.handed x.id)).mpr
    ⟨cleared, fun q _ => logged.progress q⟩, logged.done⟩

/-- A transaction may mark or delete the rows that Redis has taken. -/
theorem Logged.finish {s : Relays} (logged : s.Logged) {r : RelayId} {outbox : List OutboxRow}
    (left : ∀ x ∈ s.outbox, x.publishedAt = none → x ∈ outbox ∨ Accepted s.handed x.id) :
    (s.finish r outbox).Logged := by
  refine ⟨logged.sound, ?_, fun o ho settled => ?_⟩
  · exact (Function.forall_update_iff s.pcs (p := fun _ pc => ∀ x ∈ pc.cleared, Accepted s.handed x.id)).mpr
      ⟨fun _ h => (nomatch h), fun q _ => logged.progress q⟩
  · by_cases before : ∀ x ∈ s.outbox, x.id = o.1 → x.publishedAt ≠ none
    · exact logged.done o ho before
    · push Not at before
      obtain ⟨x, hx, id, unpublished⟩ := before
      rcases left x hx unpublished with kept | accepted
      · exact absurd unpublished (settled x kept id)
      · rw [← id]
        exact accepted

theorem Logged.publish {s : Relays} (logged : s.Logged) {r : RelayId} {now : Timestamp}
    {done todo : List OutboxRow} {x : OutboxRow} {failed accepted : Bool}
    (pc : s.pcs r = .publishing now done (x :: todo) failed) (known : (x.id, x.toOutbox) ∈ s.committed) :
    Logged { s.goto r (.publishing now (done ++ [x]) todo (failed || !accepted)) with
      handed := s.handed ++ [⟨x.id, topicChannel x.topic, x.payload, accepted⟩] } := by
  have more : ∀ {id : Nat}, Accepted s.handed id →
      Accepted (s.handed ++ [⟨x.id, topicChannel x.topic, x.payload, accepted⟩]) id := by
    rintro id ⟨p, hp, same⟩
    exact ⟨p, List.mem_append_left _ hp, same⟩
  refine ⟨fun p hp => ?_, ?_, fun o ho settled => more (logged.done o ho settled)⟩
  · rcases List.mem_append.mp hp with old | new
    · exact logged.sound p old
    · obtain rfl := List.mem_singleton.mp new
      exact ⟨_, known, rfl, rfl, rfl⟩
  · refine (Function.forall_update_iff s.pcs (p := fun _ pc => ∀ y ∈ pc.cleared,
        Accepted (s.handed ++ [⟨x.id, topicChannel x.topic, x.payload, accepted⟩]) y.id)).mpr
      ⟨fun y hy => ?_, fun q _ y hy => more (logged.progress q y hy)⟩
    have past := logged.progressAt pc
    cases failed with
    | true => cases hy
    | false =>
      cases accepted with
      | false => cases hy
      | true =>
        rcases List.mem_append.mp hy with old | new
        · exact more (past y old)
        · obtain rfl := List.mem_singleton.mp new
          exact ⟨_, List.mem_append_right _ (List.mem_singleton_self _), rfl, rfl⟩

theorem Logged.step {s t : Relays} {i : RelayInput} (inv : s.Inv) (logged : s.Logged)
    (step : Steps batchSize retention s i t) : t.Logged := by
  cases step with
  | inserted rows distinct new =>
    refine ⟨fun p hp => ?_, logged.progress, fun o ho settled => ?_⟩
    · obtain ⟨o, ho, same⟩ := logged.sound p hp
      exact ⟨o, List.mem_append_left _ ho, same⟩
    · rcases List.mem_append.mp ho with old | fresh
      · exact logged.done o old (fun x hx => settled x (List.mem_append_left _ hx))
      · have row := settled ⟨o.2, o.1, none⟩
          (List.mem_append_right _ (List.mem_map.mpr ⟨o, fresh, rfl⟩)) rfl
        exact absurd rfl row
  | took r now id todo rows x pc free found unpublished =>
    have moved : (s.goto r (.selecting now todo (rows ++ [x]))).Logged :=
      logged.goto (fun _ h => (nomatch h))
    exact ⟨moved.sound, moved.progress, moved.done⟩
  | doomed r now id todo victims x pc free found old =>
    have moved : (s.goto r (.sweeping now todo (victims ++ [id]))).Logged :=
      logged.goto (fun _ h => (nomatch h))
    exact ⟨moved.sound, moved.progress, moved.done⟩
  | published r now done todo x failed accepted pc =>
    have ok := inv.relayAt pc
    have mem := (ok.batch x (List.mem_append_right _ List.mem_cons_self)).1
    exact logged.publish pc (inv.rows x mem)
  | executed r now done pc =>
    have past := logged.progressAt pc
    exact logged.goto past
  | marked r now rows pc =>
    have past := logged.progressAt pc
    exact logged.goto past
  | committed r now rows pc =>
    have past := logged.progressAt pc
    refine logged.finish (fun x hx unpublished => ?_)
    by_cases mine : x.id ∈ rows.map OutboxRow.id
    · obtain ⟨y, hy, id⟩ := List.mem_map.mp mine
      exact .inr (id ▸ past y hy)
    · exact .inl (List.mem_map.mpr ⟨x, hx, if_neg mine⟩)
  | swept r now victims pc =>
    have ok := inv.relayAt pc
    refine logged.finish (fun x hx unpublished => .inl (List.mem_filter.mpr ⟨hx, decide_eq_true ?_⟩))
    intro victim
    obtain ⟨y, hy, id, published⟩ := ok.victims x.id victim
    rw [inv.unique hy hx id] at published
    exact published unpublished
  | began r now pc => exact logged.goto (fun _ h => (nomatch h))
  | sweeps r now pc => exact logged.goto (fun _ h => (nomatch h))
  | skipped r now id todo rows pc => exact logged.goto (fun _ h => (nomatch h))
  | spared r now id todo victims pc => exact logged.goto (fun _ h => (nomatch h))
  | selected r now todo rows pc => exact logged.goto (fun _ h => (nomatch h))
  | empty r now todo pc => exact logged.finish (fun _ hx _ => .inl hx)
  | raised r now done pc => exact logged.finish (fun _ hx _ => .inl hx)
  | failed r => exact logged.finish (fun _ hx _ => .inl hx)

/-! How often a row was handed over. -/

def times (s : Relays) (id : Nat) : Nat := s.handed.countP (fun p => p.rowId == id)

/-- The rows that a step leaves handed to Redis by a batch that will not commit. -/
def aborted (s : Relays) : RelayInput → List Nat
  | .fail r => (s.pcs r).handed.map OutboxRow.id
  | .executed r =>
    match s.pcs r with
    | .publishing _ done [] true => done.map OutboxRow.id
    | _ => []
  | _ => []

/-- Nobody has the row between its hand-over and the end of the batch. -/
def Resting (s : Relays) (id : Nat) : Prop := ∀ r, id ∉ (s.pcs r).handed.map OutboxRow.id

/-- A row was handed over once for each batch that failed over it, and at most once more. An
unpublished row at rest still has that one to come. -/
structure Balanced (aborts : Nat → Nat) (s : Relays) : Prop where
  most : ∀ id, s.times id ≤ aborts id + 1
  rest : ∀ x ∈ s.outbox, x.publishedAt = none → s.Resting x.id → s.times x.id ≤ aborts x.id

theorem Balanced.init : Balanced (fun _ => 0) Relays.init :=
  ⟨fun _ => Nat.zero_le _, fun _ h => (nomatch h)⟩

theorem resting_update {s : Relays} {r : RelayId} {pc : RelayPc} {id : Nat} :
    (∀ q, id ∉ (Function.update s.pcs r pc q).handed.map OutboxRow.id) ↔
      id ∉ pc.handed.map OutboxRow.id ∧ ∀ q, q ≠ r → id ∉ (s.pcs q).handed.map OutboxRow.id :=
  Function.forall_update_iff s.pcs (p := fun _ pc => id ∉ pc.handed.map OutboxRow.id)

/-- A relay that hands nothing over and drops nothing. -/
theorem Balanced.calm {aborts : Nat → Nat} {s t : Relays} (balanced : Balanced aborts s)
    (handed : t.handed = s.handed)
    (rows : ∀ y ∈ t.outbox, y.publishedAt = none → t.Resting y.id →
      (∃ x ∈ s.outbox, x.id = y.id ∧ x.publishedAt = none) ∧ s.Resting y.id) : Balanced aborts t := by
  have times : ∀ id, t.times id = s.times id := fun id => by rw [Relays.times, Relays.times, handed]
  refine ⟨fun id => times id ▸ balanced.most id, fun y hy unpublished resting => ?_⟩
  obtain ⟨⟨x, hx, id, none⟩, rest⟩ := rows y hy unpublished resting
  rw [times, ← id]
  exact balanced.rest x hx none (id ▸ rest)

theorem Balanced.goto {aborts : Nat → Nat} {s t : Relays} {r : RelayId} {pc : RelayPc}
    (balanced : Balanced aborts s) (same : pc.handed = (s.pcs r).handed) (handed : t.handed = s.handed)
    (outbox : t.outbox = s.outbox) (pcs : t.pcs = Function.update s.pcs r pc) : Balanced aborts t := by
  refine balanced.calm handed (fun y hy unpublished resting => ⟨⟨y, outbox ▸ hy, rfl, unpublished⟩, ?_⟩)
  rw [Resting, pcs, resting_update, same] at resting
  intro q
  by_cases mine : q = r
  · rw [mine]
    exact resting.1
  · exact resting.2 q mine

/-- The rows a failed batch has handed over are to be handed over again. -/
theorem Balanced.abort {aborts : Nat → Nat} {s : Relays} {r : RelayId} (balanced : Balanced aborts s) :
    Balanced (fun id => aborts id + if id ∈ (s.pcs r).handed.map OutboxRow.id then 1 else 0)
      (s.finish r s.outbox) := by
  refine ⟨fun id => (balanced.most id).trans (by omega), fun x hx unpublished resting => ?_⟩
  rw [Resting, finish, resting_update] at resting
  by_cases mine : x.id ∈ (s.pcs r).handed.map OutboxRow.id
  · rw [if_pos mine]
    exact balanced.most x.id
  · refine (balanced.rest x hx unpublished (fun q => ?_)).trans (Nat.le_add_right _ _)
    by_cases same : q = r
    · rw [same]
      exact mine
    · exact resting.2 q same

theorem Balanced.publish {aborts : Nat → Nat} {s : Relays} {r : RelayId} {now : Timestamp}
    {done todo : List OutboxRow} {x : OutboxRow} {failed accepted : Bool} (inv : s.Inv)
    (balanced : Balanced aborts s) (pc : s.pcs r = .publishing now done (x :: todo) failed) :
    Balanced aborts { s.goto r (.publishing now (done ++ [x]) todo (failed || !accepted)) with
      handed := s.handed ++ [⟨x.id, topicChannel x.topic, x.payload, accepted⟩] } := by
  have ok := inv.relayAt pc
  obtain ⟨hx, unpublished⟩ := ok.batch x (List.mem_append_right _ List.mem_cons_self)
  have distinct : ((done ++ x :: todo).map OutboxRow.id).Nodup :=
    (List.nodup_append.mp (List.nodup_append.mp ok.fresh).2.1).1
  have resting : s.Resting x.id := by
    intro q mem
    by_cases mine : q = r
    · rw [mine, pc] at mem
      rw [List.map_append, List.nodup_append] at distinct
      exact distinct.2.2 _ mem _ (List.mem_cons_self) rfl
    · have there : x.id ∈ (s.pcs q).held := by
        obtain ⟨y, hy, id⟩ := List.mem_map.mp mem
        rw [← id]
        exact mem_held (handed_batch hy)
      have here : x.id ∈ (s.pcs r).held := by
        rw [pc]
        exact mem_held (List.mem_append_right _ List.mem_cons_self)
      exact mine (inv.disjoint there here)
  have before := balanced.rest x hx unpublished resting
  refine ⟨fun id => ?_, fun y hy none rest => ?_⟩
  · have most := balanced.most id
    simp only [times, List.countP_append, List.countP_singleton] at most before ⊢
    by_cases same : x.id = id
    · rw [same] at before
      simpa [same] using before
    · simpa [same] using most
  · rw [Resting, show Relays.pcs _ = Function.update s.pcs r _ from rfl, resting_update] at rest
    have other : x.id ≠ y.id := by
      intro eq
      apply rest.1
      rw [← eq]
      exact List.mem_map.mpr ⟨x, List.mem_append_right _ (List.mem_singleton_self x), rfl⟩
    have past := balanced.rest y hy none (fun q => ?_)
    · simpa [times, List.countP_append, List.countP_singleton, other] using past
    · by_cases mine : q = r
      · rw [mine, pc]
        exact fun mem => rest.1 (by
          obtain ⟨z, hz, id⟩ := List.mem_map.mp mem
          exact List.mem_map.mpr ⟨z, List.mem_append_left _ hz, id⟩)
      · exact rest.2 q mine

theorem Balanced.step {aborts : Nat → Nat} {s t : Relays} {i : RelayInput} (inv : s.Inv)
    (logged : s.Logged) (balanced : Balanced aborts s) (step : Steps batchSize retention s i t) :
    Balanced (fun id => aborts id + if id ∈ s.aborted i then 1 else 0) t := by
  have none : ∀ {j : RelayInput}, s.aborted j = [] → Balanced aborts t →
      Balanced (fun id => aborts id + if id ∈ s.aborted j then 1 else 0) t := by
    intro j empty kept
    simpa [empty] using kept
  cases step with
  | inserted rows distinct new =>
    refine none rfl ⟨balanced.most, fun y hy unpublished resting => ?_⟩
    rcases List.mem_append.mp hy with old | fresh
    · exact balanced.rest y old unpublished resting
    · -- nothing was ever handed over under a new id
      obtain ⟨o, ho, rfl⟩ := List.mem_map.mp fresh
      have zero : s.times o.1 = 0 := by
        rw [times, List.countP_eq_zero]
        intro p hp same
        obtain ⟨c, hc, id, _⟩ := logged.sound p hp
        exact new o ho (List.mem_map.mpr ⟨c, hc, id.trans (beq_iff_eq.mp same)⟩)
      show s.times o.1 ≤ aborts o.1
      rw [zero]
      exact Nat.zero_le _
  | published r now done todo x failed accepted pc => exact none rfl (balanced.publish inv pc)
  | committed r now rows pc =>
    refine none rfl (balanced.calm rfl (fun y hy unpublished resting => ?_))
    obtain ⟨x, hx, rfl⟩ := List.mem_map.mp hy
    have away : x.id ∉ rows.map OutboxRow.id := by
      intro mine
      rw [markPublished, if_pos mine] at unpublished
      cases unpublished
    rw [Resting, finish, resting_update, markPublished_id] at resting
    rw [markPublished, if_neg away] at unpublished
    refine ⟨⟨x, hx, (markPublished_id _ _ x).symm, unpublished⟩, fun q => ?_⟩
    rw [markPublished_id]
    by_cases mine : q = r
    · rw [mine, pc]
      exact away
    · exact resting.2 q mine
  | swept r now victims pc =>
    refine none rfl (balanced.calm rfl (fun y hy unpublished resting => ?_))
    rw [Resting, finish, resting_update] at resting
    refine ⟨⟨y, List.mem_of_mem_filter hy, rfl, unpublished⟩, fun q => ?_⟩
    by_cases mine : q = r
    · rw [mine, pc]
      exact List.not_mem_nil
    · exact resting.2 q mine
  | raised r now done pc =>
    have eq : s.aborted (.executed r) = (s.pcs r).handed.map OutboxRow.id := by
      rw [aborted, pc]
      rfl
    simpa only [eq] using balanced.abort (r := r)
  | failed r => exact balanced.abort
  | executed r now done pc =>
    exact none (by simp [aborted, pc]) (balanced.goto (by rw [pc]; rfl) rfl rfl rfl)
  | empty r now todo pc =>
    exact none rfl (balanced.goto (by rw [pc]; rfl) rfl rfl rfl)
  | began r now pc => exact none rfl (balanced.goto (by rw [pc]; rfl) rfl rfl rfl)
  | sweeps r now pc => exact none rfl (balanced.goto (by rw [pc]; rfl) rfl rfl rfl)
  | skipped r now id todo rows pc => exact none rfl (balanced.goto (by rw [pc]; rfl) rfl rfl rfl)
  | spared r now id todo victims pc => exact none rfl (balanced.goto (by rw [pc]; rfl) rfl rfl rfl)
  | took r now id todo rows x pc free found unpublished =>
    exact none rfl (balanced.goto (by rw [pc]; rfl) rfl rfl rfl)
  | doomed r now id todo victims x pc free found old =>
    exact none rfl (balanced.goto (by rw [pc]; rfl) rfl rfl rfl)
  | selected r now todo rows pc => exact none rfl (balanced.goto (by rw [pc]; rfl) rfl rfl rfl)
  | marked r now rows pc => exact none rfl (balanced.goto (by rw [pc]; rfl) rfl rfl rfl)

end Relays

/-- A published or swept row was handed to Redis and taken; everything handed over is a committed row
on the channel of its topic; and a row handed over twice was in a batch that failed after it had
handed the row over. -/
theorem relay_safety (batchSize retention : Nat) (is : List RelayInput) :
    (∀ o ∈ ((relays batchSize retention).run is).committed,
      ((∃ x ∈ ((relays batchSize retention).run is).outbox, x.id = o.1 ∧ x.publishedAt ≠ none) ∨
        ∀ x ∈ ((relays batchSize retention).run is).outbox, x.id ≠ o.1) →
      ∃ p ∈ ((relays batchSize retention).run is).handed, p.rowId = o.1 ∧
        p.channel = topicChannel o.2.topic ∧ p.payload = o.2.payload ∧ p.accepted = true) ∧
    (∀ p ∈ ((relays batchSize retention).run is).handed,
      ∃ o ∈ ((relays batchSize retention).run is).committed, o.1 = p.rowId ∧
        p.channel = topicChannel o.2.topic ∧ p.payload = o.2.payload) ∧
    ∀ id, 1 < ((relays batchSize retention).run is).times id →
      ∃ x ∈ (relays batchSize retention).history is, id ∈ x.before.aborted x.action := by
  let m := relays batchSize retention
  have run := m.history_invariant
    (fun xs s => s.Inv ∧ s.Logged ∧
      Relays.Balanced (fun id => xs.countP (fun x => decide (id ∈ x.before.aborted x.action))) s)
    ⟨Relays.Inv.init, Relays.Logged.init, Relays.Balanced.init⟩ ?_ is
  · obtain ⟨inv, logged, balanced⟩ := run
    refine ⟨fun o ho settled => ?_, logged.sound, fun id twice => ?_⟩
    · have all : ∀ x ∈ (m.run is).outbox, x.id = o.1 → x.publishedAt ≠ none := by
        intro x hx id
        rcases settled with ⟨y, hy, same, published⟩ | gone
        · rw [inv.unique hx hy (id.trans same.symm)]
          exact published
        · exact absurd id (gone x hx)
      obtain ⟨p, hp, id, accepted⟩ := logged.done o ho all
      obtain ⟨c, hc, same, channel, payload⟩ := logged.sound p hp
      obtain rfl : c = o := List.inj_on_of_nodup_map inv.ids hc ho (same.trans id)
      exact ⟨p, hp, id, channel, payload, accepted⟩
    · have most := balanced.most id
      have some : 0 < (m.history is).countP (fun x => decide (id ∈ x.before.aborted x.action)) := by
        exact Nat.lt_of_add_lt_add_right (Nat.lt_of_lt_of_le twice most)
      obtain ⟨x, hx, mine⟩ := List.countP_pos_iff.mp some
      exact ⟨x, hx, of_decide_eq_true mine⟩
  · rintro xs s i t ⟨inv, logged, balanced⟩ step
    have step := Relays.step_cases step
    refine ⟨inv.step step, logged.step inv step, ?_⟩
    simpa [List.countP_append, List.countP_singleton] using balanced.step inv logged step

end ChatBackend

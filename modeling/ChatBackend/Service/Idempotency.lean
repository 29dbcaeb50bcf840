import ChatBackend.Service.OutboxAgreement

/-! Sends are idempotent: whatever becomes of the calls that carry one `(sender, client_msg_id)`,
one row at most is ever inserted for it, and every answer is about that row. -/

namespace ChatBackend

open Lib

/-- The message that a step inserts. -/
def inserts (x : Move Sys Input) : Option Message :=
  match x.before.change x.action with
  | some (.sent _ m) => some m
  | _ => none

def insertsFor (key : UserId × String) (x : Move Sys Input) : Bool :=
  match inserts x with
  | some m => m.clientKey == key
  | none => false

section Rows

variable {env : Env} {s t : Sys} {i : Input} {key : UserId × String}

theorem Sys.Inv.inserts_fresh (inv : s.Inv env) (h : s.step env i = some t)
    (insert : insertsFor key ⟨s, i, t⟩ = true) :
    (∀ m ∈ s.db.messages, m.clientKey ≠ key) ∧ ∃ m ∈ t.db.messages, m.clientKey = key := by
  have step := inv.step_change h
  simp only [insertsFor, inserts] at insert
  cases change : s.change i with
  | none => simp [change] at insert
  | some ch =>
    rw [change] at step insert
    cases ch with
    | sent opened m =>
      obtain ⟨valid, eq⟩ := step
      obtain rfl : m.clientKey = key := by simpa using insert
      refine ⟨fun x hx => (valid.fresh x hx).2, m, ?_, rfl⟩
      rw [eq]
      exact Change.mem_messages.mpr (.inr (List.mem_singleton_self m))
    | delivered u old now => simp at insert
    | read c u ids now => simp at insert

/-- A key is inserted at most once in a run, since the row that has it stays. -/
theorem inserts_once (env : Env) (is : List Input) (key : UserId × String) :
    ((chat env).history is).countP (insertsFor key) ≤ 1 := by
  have all := (chat env).history_invariant
    (fun h s => (s.Inv env ∧ s.db.Consistent) ∧ (h.countP (insertsFor key) = 0 ∨
      h.countP (insertsFor key) = 1 ∧ ∃ m ∈ s.db.messages, m.clientKey = key))
    ⟨chat_consistent env [], .inl rfl⟩ ?_ is
  · rcases all.2 with none | ⟨one, _⟩
    · omega
    · omega
  · rintro h s i t ⟨⟨inv, ok⟩, count⟩ step
    refine ⟨⟨inv.step step, inv.consistent_step ok step⟩, ?_⟩
    rw [List.countP_append]
    cases insert : insertsFor key ⟨s, i, t⟩ with
    | true =>
      obtain ⟨fresh, row⟩ := inv.inserts_fresh step insert
      rcases count with none | ⟨_, m, hm, mkey⟩
      · exact .inr ⟨by simp [none, insert], row⟩
      · exact absurd mkey (fresh m hm)
    | false =>
      rcases count with none | ⟨one, m, hm, mkey⟩
      · exact .inl (by simp [none, insert])
      · obtain ⟨n, hn, _, later⟩ := inv.progress_step ok step m hm
        exact .inr ⟨by simp [one, insert], n, hn, later.same.clientKey.trans mkey⟩

end Rows

/-! Which answers a call can give. -/

/-- The result of a commit, from the moment it is durable. -/
def Phase.result {κ ρ : Type} : Phase κ ρ → Option ρ
  | .committed r => some r
  | .done (.applied r) => some r
  | _ => none

theorem answer_ne_applied {ρ : Type} (e : Except AppError ρ) (r : ρ) : answer e ≠ .applied r := by
  cases e <;> simp [answer]

theorem SendPc.next_not_applied {env : Env} {db : Db} {blocked : Write → Bool} {u : UserId}
    {req : SendMessageRequest} {k : SendPc} {a : Action} {r : MessageOut × Bool} :
    k.next env db blocked u req a ≠ some (.finish (.applied r)) := by
  intro h
  have never := fun e => answer_ne_applied (ρ := MessageOut × Bool) e r
  unfold SendPc.next at h
  split at h
  case h_3 =>
    simp only [insertPair] at h
    repeat' split at h
    all_goals cases h
  case h_6 =>
    simp only [insertMessage] at h
    repeat' split at h
    all_goals cases h
  all_goals
    repeat' split at h
    all_goals
      first
        | cases h
        | exact never _ (by simpa using h)

theorem Phase.step_result {κ ρ : Type} {p q : Phase κ ρ} {a : Action} {e : Effect} {r : ρ}
    {next : κ → Action → Option (Outcome κ ρ)} (never : ∀ k, next k a ≠ some (.finish (.applied r)))
    (h : p.step next a = some (q, e)) (told : q.result = some r) :
    p.result = some r ∨ e = .commit := by
  unfold Phase.step at h
  split at h
  case h_1 =>
    cases h
    cases told
  case h_2 k _ =>
    split at h
    case h_3 reply hn =>
      cases h
      cases reply <;> cases told
      exact absurd hn (never k)
    case h_4 =>
      cases h
      exact .inr rfl
    all_goals
      cases h
      try cases told
  case h_3 =>
    cases h
    exact .inl told
  case h_4 =>
    cases h
    cases told
  case h_5 => cases h

/-- A send that answers `created` has itself committed the row it answers with. -/
theorem created_committed (env : Env) (is : List Input) (c : CallId) {u : UserId}
    {req : SendMessageRequest} {p : Phase SendPc (MessageOut × Bool)} {r : MessageOut × Bool}
    (call : ((chat env).run is).calls c = .send u req p) (told : p.result = some r) :
    ∃ x ∈ (chat env).history is, x.action = .act c .commit ∧ ∃ m, inserts x = some m ∧
      m.clientKey = (u, req.clientMsgId) ∧ r = (toOut env m, true) := by
  have all := (chat env).history_invariant
    (fun h s => s.Inv env ∧ ∀ p, s.calls c = .send u req p → p.result = some r →
      ∃ x ∈ h, x.action = .act c .commit ∧ ∃ m, inserts x = some m ∧
        m.clientKey = (u, req.clientMsgId) ∧ r = (toOut env m, true))
    ⟨Sys.Inv.init env, fun _ idle => by cases idle⟩ ?_ is
  · exact all.2 p call told
  · rintro h s i t ⟨inv, ih⟩ step
    refine ⟨inv.step step, fun q call told => ?_⟩
    have earlier : ∀ p, s.calls c = .send u req p → p.result = some r →
        ∃ x ∈ h ++ [⟨s, i, t⟩], x.action = .act c .commit ∧ ∃ m, inserts x = some m ∧
          m.clientKey = (u, req.clientMsgId) ∧ r = (toOut env m, true) := by
      intro p call told
      obtain ⟨x, hx, found⟩ := ih p call told
      exact ⟨x, List.mem_append_left _ hx, found⟩
    cases Sys.step_cases step with
    | start d req' idle =>
      by_cases same : c = d
      · subst d
        have started : req'.start env = .send u req q := by simpa using call
        cases req' with
        | sendMessage v req' =>
          simp only [Request.start] at started
          split at started <;> cases started <;> cases told
        | markDelivered v id => cases started
        | markRead v cid upTo => cases started
      · exact earlier q (by simpa [Function.update_of_ne same] using call) told
    | act d a l e hk =>
      rw [settle_calls] at call
      by_cases same : c = d
      · subst d
        obtain rfl : l = .send u req q := by simpa using call
        cases before : s.calls c with
        | send v req' p =>
          rw [before] at hk
          obtain ⟨⟨q', e'⟩, hp, pair⟩ := Option.map_eq_some_iff.mp hk
          cases pair
          rcases Phase.step_result (fun _ => SendPc.next_not_applied) hp told with old | rfl
          · exact earlier p before old
          · rw [← before] at hk
            obtain ⟨ch, change, _, _⟩ := inv.commit_change hk
            obtain ⟨rfl, commits⟩ := Call.step_commit hk
            rw [before] at commits
            have ok := inv.calls c
            rw [before] at ok
            cases commits with
            | send _ _ m =>
              obtain ⟨_, ⟨body, mime, cid, id, now, -, composed⟩, _⟩ := ok
              cases told
              refine ⟨_, List.mem_append_right _ (List.mem_singleton_self _), rfl, m, ?_, ?_, rfl⟩
              · simp [inserts, Sys.change, Call.change, before]
              · rw [composed]
                rfl
        | idle =>
          rw [before] at hk
          cases hk
        | deliver v id p =>
          rw [before] at hk
          obtain ⟨_, _, pair⟩ := Option.map_eq_some_iff.mp hk
          cases pair
        | read v cid upTo p =>
          rw [before] at hk
          obtain ⟨_, _, pair⟩ := Option.map_eq_some_iff.mp hk
          cases pair
      · rw [Function.update_of_ne same] at call
        exact earlier q call told

/-- Both look-ups refuse a different message under the same id, and that is all they do. -/
theorem Sys.Inv.conflict_step {env : Env} {s : Sys} (inv : s.Inv env) {c : CallId} {u : UserId}
    {req : SendMessageRequest} {k : SendPc} (call : s.calls c = .send u req (.running k))
    (check : k = .lookup ∨ k = .reread) {m : Message} (hm : m ∈ s.db.messages)
    (key : m.clientKey = (u, req.clientMsgId)) (different : sameContent m req = false) :
    s.step env (.act c .query) = some { s with
      calls := Function.update s.calls c (.send u req (.done (.raised idempotencyConflict))) } := by
  have ok := inv.calls c
  rw [call] at ok
  have empty : s.pending.own c = [] := by
    rcases check with rfl | rfl
    · exact ok.2
    · exact ok.2.1
  have found : s.db.byClientMsgId u req.clientMsgId = some m := by
    cases h : s.db.byClientMsgId u req.clientMsgId with
    | none => exact absurd key (Db.byClientMsgId_none.mp h m hm)
    | some n =>
      obtain ⟨hn, nkey⟩ := Db.byClientMsgId_some h
      rw [inv.sound.keys.client_unique hn hm (nkey.trans key.symm)]
  have view : s.view c = s.db := by rw [Sys.view, empty, Semantics.commit_nil]
  have refused : replay env m req = .error idempotencyConflict := by simp [replay, different]
  have kept : s.pending.drop c = s.pending := Pending.drop_of_own_nil empty
  rcases check with rfl | rfl
  · simp [Sys.step, call, Call.step, Phase.step, SendPc.next, view, found, refused, Sys.settle, kept,
      answer, Except.map]
  · simp [Sys.step, call, Call.step, Phase.step, SendPc.next, view, found, refused, Sys.settle, kept,
      answer, Except.map]

/-- What a call of `send_message` is entitled to, given the run so far. -/
structure SendSettled (env : Env) (h : List (Move Sys Input)) (s : Sys) (c : CallId) (u : UserId)
    (req : SendMessageRequest) (p : Phase SendPc (MessageOut × Bool)) : Prop where
  created : ∀ r, p.result = some r → ∃ x ∈ h, x.action = .act c .commit ∧ ∃ m, inserts x = some m ∧
    m.clientKey = (u, req.clientMsgId) ∧ r = (toOut env m, true)
  replayed : ∀ out created, p = .done (.noop (out, created)) → created = false ∧ Stored s.db u req out
  noRetry : ∀ e, p = .done (.raised e) → e.code ≠ "conflict"
  nothingLeft : p.uncommitted = true → (p = .running .reread ∨ ∃ reply, p = .done reply) →
    s.pending.own c = [] ∧ ∀ x ∈ h, x.action.call = c → x.after.db = x.before.db
  conflict : ∀ k, p = .running k → k = .lookup ∨ k = .reread → ∀ m ∈ s.db.messages,
    m.clientKey = (u, req.clientMsgId) → sameContent m req = false →
    s.step env (.act c .query) = some { s with
      calls := Function.update s.calls c (.send u req (.done (.raised idempotencyConflict))) }

theorem send_settled (env : Env) (is : List Input) (c : CallId) {u : UserId} {req : SendMessageRequest}
    {p : Phase SendPc (MessageOut × Bool)} (call : ((chat env).run is).calls c = .send u req p) :
    SendSettled env ((chat env).history is) ((chat env).run is) c u req p := by
  have inv := chat_inv env is
  have ok := inv.calls c
  rw [call] at ok
  constructor
  · exact fun r told => created_committed env is c call told
  · rintro out created rfl
    exact ok.2
  · rintro e rfl
    exact ok.2
  · intro open_ ended
    refine ⟨?_, uncommitted_untouched env is c (by rw [call]; exact open_)⟩
    rcases ended with rfl | ⟨reply, rfl⟩
    · exact ok.2.1
    · exact ok.1
  · rintro k rfl check m hm key different
    exact inv.conflict_step call check hm key different

theorem sends_are_idempotent (env : Env) (is : List Input) (u : UserId) (clientMsgId : String) :
    (∀ js, ∀ m ∈ ((chat env).run is).db.messages, ∀ n ∈ ((chat env).run (is ++ js)).db.messages,
      m.clientKey = (u, clientMsgId) → n.clientKey = (u, clientMsgId) → n.id = m.id) ∧
    ((chat env).history is).countP (insertsFor (u, clientMsgId)) ≤ 1 ∧
    (∀ c req p, ((chat env).run is).calls c = .send u req p → req.clientMsgId = clientMsgId →
      SendSettled env ((chat env).history is) ((chat env).run is) c u req p) := by
  refine ⟨?_, inserts_once env is _, fun c req p call _ => send_settled env is c call⟩
  intro js m hm n hn mkey nkey
  obtain ⟨k, hk, same, later⟩ := chat_progress env is js m hm
  have keys := (chat_inv env (is ++ js)).sound.keys
  rw [keys.client_unique hn hk (nkey.trans (later.same.clientKey.trans mkey).symm)]
  exact same

end ChatBackend

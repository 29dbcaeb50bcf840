import ChatBackend.Service.Calls

/-! What holds of every open call, whatever the others do: which writes it has pending
and what it already knows about the committed rows. -/

namespace ChatBackend

open Lib

/-- Committed rows stay, and the columns that no statement writes stay as they are. -/
structure Grows (a b : Db) : Prop where
  conversations : ∀ c ∈ a.conversations, c ∈ b.conversations
  messages : ∀ m ∈ a.messages, ∃ n ∈ b.messages, SameColumns m n

theorem Grows.refl (db : Db) : Grows db db :=
  ⟨fun _ h => h, fun m h => ⟨m, h, SameColumns.refl m⟩⟩

theorem Grows.trans {a b c : Db} (h : Grows a b) (g : Grows b c) : Grows a c where
  conversations x hx := g.conversations x (h.conversations x hx)
  messages m hm := by
    obtain ⟨n, hn, mn⟩ := h.messages m hm
    obtain ⟨k, hk, nk⟩ := g.messages n hn
    exact ⟨k, hk, mn.trans nk⟩

theorem Grows.apply {db : Db} {w : Write} (keys : db.Keys) (fits : Fits db w) :
    Grows db (db.apply w) := by
  cases w with
  | insertConversation c => exact ⟨fun _ h => List.mem_append_left _ h, (Grows.refl db).messages⟩
  | insertMessage m =>
    exact ⟨fun _ h => h, fun n h => ⟨n, List.mem_append_left _ h, SameColumns.refl n⟩⟩
  | updateMessage old new =>
    refine ⟨fun _ h => h, fun m h => ?_⟩
    by_cases id : m.id = old.id
    · have same : m = old := keys.message_unique h fits.1 id
      exact ⟨new, mem_apply_update.mpr (.inl ⟨m, h, id, rfl⟩), same ▸ fits.2.same⟩
    · exact ⟨m, mem_apply_update.mpr (.inr ⟨h, id⟩), SameColumns.refl m⟩
  | insertOutbox row => exact ⟨fun _ h => h, (Grows.refl db).messages⟩

/-- The conversation a send goes to is committed, or pending in the same transaction. -/
def Claimed (db : Db) (own : List Write) (c : Conversation) : Prop :=
  (own = [] ∧ c ∈ db.conversations) ∨ own = [.insertConversation c]

def Composed (senderId : UserId) (req : SendMessageRequest) (m : Message) : Prop :=
  ∃ body mime conversationId id now, body.map text = req.body ∧
    m = newMessage senderId req body mime conversationId id now

/-- The stored row that a successful `send_message` answers with. -/
def Stored (db : Db) (senderId : UserId) (req : SendMessageRequest) (out : MessageOut) : Prop :=
  ∃ m ∈ db.messages, m.id = out.id ∧ m.clientKey = (senderId, req.clientMsgId) ∧
    sameContent m req = true

def SendOk (env : Env) (db : Db) (own : List Write) (senderId : UserId) (req : SendMessageRequest) :
    SendPc → Prop
  | .lookup | .attachment _ | .pair _ => own = []
  | .conversation _ => ∃ c, c.pair = sortedPair senderId req.recipientId ∧ Claimed db own c
  | .values _ id =>
    ∃ c, c.pair = sortedPair senderId req.recipientId ∧ c.id = id ∧ Claimed db own c
  | .insert m => Composed senderId req m ∧
    ∃ c, c.pair = sortedPair senderId req.recipientId ∧ c.id = m.conversationId ∧ Claimed db own c
  | .reread => own = [] ∧ ∃ m ∈ db.messages, m.clientKey = (senderId, req.clientMsgId)
  | .commit m => Composed senderId req m ∧
    ∃ c before, c.pair = sortedPair senderId req.recipientId ∧ c.id = m.conversationId ∧
      Claimed db before c ∧
      own = before ++ .insertMessage m :: (sentRows env m).map .insertOutbox

def SendReplyOk (db : Db) (senderId : UserId) (req : SendMessageRequest) :
    Reply (MessageOut × Bool) → Prop
  | .raised e => e.code ≠ "conflict"
  | .noop r => r.2 = false ∧ Stored db senderId req r.1
  | .applied r => r.2 = true ∧ Stored db senderId req r.1
  | _ => True

def DeliverOk (own : List Write) (userId : UserId) (messageId : Uuid) : DeliverPc → Prop
  | .commit old now => deliverWhere userId messageId old = true ∧
    own = .updateMessage old (deliverSet now old) :: (deliveredRows old now).map .insertOutbox
  | _ => own = []

def readWrites (now : Timestamp) (olds : List Message) : List Write :=
  olds.map (fun o => .updateMessage o (readSet now o))

/-- The conversation and the anchor that a running `mark_read` has read. -/
def Anchored (db : Db) (userId : UserId) (conversationId : Uuid) (c : Conversation) : Prop :=
  c ∈ db.conversations ∧ c.id = conversationId ∧ c.hasMember userId = true

def ReadOk (db : Db) (own : List Write) (userId : UserId) (conversationId : Uuid) : ReadPc → Prop
  | .conversation => own = []
  | .anchor c | .clock c _ | .update c _ _ => own = [] ∧ Anchored db userId conversationId c
  | .lock c anchor now _ ids => Anchored db userId conversationId c ∧
    ∃ olds, ids = olds.map Message.id ∧ own = readWrites now olds ∧
      ∀ o ∈ olds, readWhere c.id userId anchor.key o = true
  | .commit c now ids => Anchored db userId conversationId c ∧ ids ≠ [] ∧
    ∃ anchor olds, ids = olds.map Message.id ∧
      own = readWrites now olds ++ (readRows c userId ids now).map .insertOutbox ∧
      ∀ o ∈ olds, readWhere c.id userId anchor o = true

/-- A running call satisfies its own predicate on its pending writes. A call that is
over has none, and its reply tells the truth about the committed rows. -/
def PhaseOk {κ ρ : Type} (db : Db) (own : List Write) (run : Db → List Write → κ → Prop)
    (reply : Db → Reply ρ → Prop) : Phase κ ρ → Prop
  | .running k => run db own k
  | .committed r => own = [] ∧ reply db (.applied r)
  | .done r => own = [] ∧ reply db r

/-- A send that runs has passed `checkRequest`. -/
def SendRunning (env : Env) (u : UserId) (req : SendMessageRequest) (db : Db) (own : List Write)
    (k : SendPc) : Prop :=
  u ≠ req.recipientId ∧ SendOk env db own u req k

def CallOk (env : Env) (db : Db) (own : List Write) : Call → Prop
  | .idle => own = []
  | .send u req phase =>
    PhaseOk db own (SendRunning env u req) (fun db r => SendReplyOk db u req r) phase
  | .deliver u id phase => PhaseOk db own (fun _ own k => DeliverOk own u id k) (fun _ _ => True) phase
  | .read u cid _ phase =>
    PhaseOk db own (fun db own k => ReadOk db own u cid k) (fun _ _ => True) phase

theorem PhaseOk.grows {κ ρ : Type} {a b : Db} {own : List Write} {run : Db → List Write → κ → Prop}
    {reply : Db → Reply ρ → Prop} {p : Phase κ ρ} (runs : ∀ k, run a own k → run b own k)
    (replies : ∀ r, reply a r → reply b r) (h : PhaseOk a own run reply p) :
    PhaseOk b own run reply p := by
  cases p with
  | running k => exact runs k h
  | committed r => exact ⟨h.1, replies _ h.2⟩
  | done r => exact ⟨h.1, replies _ h.2⟩

section Growing

variable {env : Env} {a b : Db} (grow : Grows a b)

include grow

theorem Claimed.grows {own : List Write} {c : Conversation} (h : Claimed a own c) :
    Claimed b own c := by
  rcases h with ⟨empty, mem⟩ | pending
  · exact .inl ⟨empty, grow.conversations c mem⟩
  · exact .inr pending

theorem Stored.grows {u : UserId} {req : SendMessageRequest} {out : MessageOut}
    (h : Stored a u req out) : Stored b u req out := by
  obtain ⟨m, hm, id, key, same⟩ := h
  obtain ⟨n, hn, mn⟩ := grow.messages m hm
  refine ⟨n, hn, mn.id.trans id, mn.clientKey.trans key, ?_⟩
  rwa [sameContent, mn.recipientId, mn.body, mn.attachmentKey]

theorem SendOk.grows {own : List Write} {u : UserId} {req : SendMessageRequest} {k : SendPc}
    (h : SendOk env a own u req k) : SendOk env b own u req k := by
  cases k with
  | lookup => exact h
  | attachment key => exact h
  | pair mime => exact h
  | conversation mime =>
    obtain ⟨c, pair, claimed⟩ := h
    exact ⟨c, pair, claimed.grows grow⟩
  | values mime id =>
    obtain ⟨c, pair, cid, claimed⟩ := h
    exact ⟨c, pair, cid, claimed.grows grow⟩
  | insert m =>
    obtain ⟨composed, c, pair, cid, claimed⟩ := h
    exact ⟨composed, c, pair, cid, claimed.grows grow⟩
  | reread =>
    obtain ⟨empty, m, hm, key⟩ := h
    obtain ⟨n, hn, mn⟩ := grow.messages m hm
    exact ⟨empty, n, hn, mn.clientKey.trans key⟩
  | commit m =>
    obtain ⟨composed, c, before, pair, cid, claimed, own⟩ := h
    exact ⟨composed, c, before, pair, cid, claimed.grows grow, own⟩

theorem SendReplyOk.grows {u : UserId} {req : SendMessageRequest} {r : Reply (MessageOut × Bool)}
    (h : SendReplyOk a u req r) : SendReplyOk b u req r := by
  cases r with
  | raised e => exact h
  | failed => trivial
  | noop r => exact ⟨h.1, h.2.grows grow⟩
  | applied r => exact ⟨h.1, h.2.grows grow⟩
  | lost => trivial

theorem Anchored.grows {u : UserId} {id : Uuid} {c : Conversation} (h : Anchored a u id c) :
    Anchored b u id c :=
  ⟨grow.conversations c h.1, h.2⟩

theorem ReadOk.grows {own : List Write} {u : UserId} {id : Uuid} {k : ReadPc}
    (h : ReadOk a own u id k) : ReadOk b own u id k := by
  cases k with
  | conversation => exact h
  | anchor c => exact ⟨h.1, h.2.grows grow⟩
  | clock c anchor => exact ⟨h.1, h.2.grows grow⟩
  | update c anchor now => exact ⟨h.1, h.2.grows grow⟩
  | lock c anchor now todo ids => exact ⟨h.1.grows grow, h.2⟩
  | commit c now ids => exact ⟨h.1.grows grow, h.2⟩

theorem CallOk.grows {own : List Write} {k : Call} (h : CallOk env a own k) :
    CallOk env b own k := by
  cases k with
  | idle => exact h
  | send u req phase =>
    simp only [CallOk] at h ⊢
    exact h.grows (fun _ run => ⟨run.1, SendOk.grows grow run.2⟩)
      (fun _ r => SendReplyOk.grows grow r)
  | deliver u id phase =>
    simp only [CallOk] at h ⊢
    exact h.grows (fun _ run => run) (fun _ r => r)
  | read u cid upTo phase =>
    simp only [CallOk] at h ⊢
    exact h.grows (fun _ run => ReadOk.grows grow run) (fun _ r => r)

end Growing

/-- A call that is still running after a step went on, or rolled back to start again. -/
theorem Phase.step_running {κ ρ : Type} {p : Phase κ ρ} {a : Action} {l : κ} {e : Effect}
    {next : κ → Action → Option (Outcome κ ρ)} (h : p.step next a = some (.running l, e)) :
    ∃ k, p = .running k ∧ ((∃ ws, next k a = some (.goto l ws) ∧ e = .stage ws) ∨
      next k a = some (.restart l) ∧ e = .rollback) := by
  unfold Phase.step at h
  split at h
  case h_2 k _ =>
    split at h
    case h_1 l' ws hn =>
      cases h
      exact ⟨k, rfl, .inl ⟨ws, hn, rfl⟩⟩
    case h_2 l' hn =>
      cases h
      exact ⟨k, rfl, .inr ⟨hn, rfl⟩⟩
    all_goals cases h
  all_goals cases h

/-- A send starts again at one place only. -/
theorem SendPc.next_restart {env : Env} {db : Db} {blocked : Write → Bool} {u : UserId}
    {req : SendMessageRequest} {k l : SendPc} {a : Action}
    (h : k.next env db blocked u req a = some (.restart l)) : l = .reread := by
  unfold SendPc.next at h
  split at h
  case h_3 =>
    simp only [insertPair] at h
    repeat' split at h
    all_goals cases h
  case h_6 =>
    simp only [insertMessage] at h
    repeat' split at h
    all_goals
      cases h
      try rfl
  all_goals
    repeat' split at h
    all_goals cases h

/-! One statement. `own` are the writes the call has pending, which fit the committed rows. -/

/-- Writes that a statement may add to the call's pending ones. -/
structure Staged (db : Db) (own : List Write) (blocked : Write → Bool) (ws : List Write) : Prop where
  fits : ∀ w ∈ ws, Fits db w
  free : ∀ w ∈ ws, blocked w = false
  apart : (own ++ ws).Pairwise (fun v w => conflict v w = false)

def OutcomeOk {κ ρ : Type} (db : Db) (own : List Write) (blocked : Write → Bool)
    (run : Db → List Write → κ → Prop) (reply : Db → Reply ρ → Prop) : Outcome κ ρ → Prop
  | .goto k ws => run db (own ++ ws) k ∧ Staged db own blocked ws
  | .restart k => run db [] k
  | .finish r => reply db r
  | .commit r => reply (store.commit db own) (.applied r)

/-- What the other transactions leave to the statement of one call. -/
structure Around (db : Db) (own : List Write) (blocked : Write → Bool) : Prop where
  keys : db.Keys
  fits : ∀ w ∈ own, Fits db w
  apart : own.Pairwise (fun v w => conflict v w = false)
  outbox : ∀ row, blocked (.insertOutbox row) = false
  row : ∀ old new, blocked (.updateMessage old new) = blocked (.updateMessage old old)

theorem Staged.nil {db : Db} {own : List Write} {blocked : Write → Bool}
    (around : Around db own blocked) : Staged db own blocked [] :=
  ⟨by simp, by simp, by simpa using around.apart⟩

theorem conflict_outbox (v : Write) (row : Outbox) : conflict v (.insertOutbox row) = false := by
  cases v <;> rfl

theorem Staged.outbox {db : Db} {own : List Write} {blocked : Write → Bool}
    (around : Around db own blocked) (rows : List Outbox) :
    Staged db own blocked (rows.map .insertOutbox) := by
  refine ⟨?_, ?_, ?_⟩
  · intro w hw
    obtain ⟨row, _, rfl⟩ := List.mem_map.mp hw
    trivial
  · intro w hw
    obtain ⟨row, _, rfl⟩ := List.mem_map.mp hw
    exact around.outbox row
  · rw [List.pairwise_append]
    refine ⟨around.apart, List.pairwise_map.mpr (List.pairwise_of_forall fun _ _ => rfl), ?_⟩
    intro v _ w hw
    obtain ⟨row, _, rfl⟩ := List.mem_map.mp hw
    exact conflict_outbox v row

/-- One row or one key first, the outbox rows that announce it after it. -/
theorem Staged.announced {db : Db} {own : List Write} {blocked : Write → Bool} {w : Write}
    (around : Around db own blocked) (fit : Fits db w) (free : blocked w = false)
    (apart : ∀ v ∈ own, conflict v w = false) (rows : List Outbox) :
    Staged db own blocked (w :: rows.map .insertOutbox) := by
  have rest := Staged.outbox around rows
  refine ⟨?_, ?_, ?_⟩
  · exact List.forall_mem_cons.mpr ⟨fit, rest.fits⟩
  · exact List.forall_mem_cons.mpr ⟨free, rest.free⟩
  · have split := List.pairwise_append.mp rest.apart
    rw [List.pairwise_append]
    refine ⟨around.apart, List.pairwise_cons.mpr ⟨?_, split.2.1⟩, ?_⟩
    · intro v hv
      obtain ⟨row, _, rfl⟩ := List.mem_map.mp hv
      exact conflict_outbox w row
    · intro v hv x hx
      rcases List.mem_cons.mp hx with rfl | hx
      · exact apart v hv
      · exact split.2.2 v hv x hx

theorem commit_insertOutbox (db : Db) (rows : List Outbox) :
    store.commit db (rows.map .insertOutbox) = { db with outbox := db.outbox ++ rows } := by
  induction rows generalizing db with
  | nil => simp
  | cons row rows ih =>
    rw [List.map_cons, Semantics.commit_cons, ih]
    simp [store, Db.apply]

theorem Claimed.messages {db : Db} {own : List Write} {c : Conversation} (h : Claimed db own c) :
    (store.commit db own).messages = db.messages := by
  rcases h with ⟨rfl, _⟩ | rfl <;> rfl

theorem Claimed.conflict_message {db : Db} {own : List Write} {c : Conversation}
    (h : Claimed db own c) (m : Message) : ∀ v ∈ own, conflict v (.insertMessage m) = false := by
  rcases h with ⟨rfl, _⟩ | rfl
  · simp
  · simp [conflict]

theorem replay_ok {env : Env} {db : Db} {u : UserId} {req : SendMessageRequest} {m : Message}
    (mem : m ∈ db.messages) (key : m.clientKey = (u, req.clientMsgId)) :
    SendReplyOk db u req (answer ((replay env m req).map (·, false))) := by
  unfold replay
  split
  · rename_i same
    exact ⟨rfl, m, mem, rfl, key, same⟩
  · show idempotencyConflict.code ≠ "conflict"
    decide

theorem checkAttachment_error {s : Settings} {u key : String} {stored : Option StoredObject}
    {e : AppError} (h : checkAttachment s u key stored = .error e) : e.code ≠ "conflict" := by
  unfold checkAttachment at h
  split at h
  · cases h
    decide
  · split at h
    · cases h
      decide
    · split at h
      · cases h
        decide
      · split at h
        · cases h
          decide
        · cases h

theorem insertPair_ok {env : Env} {db : Db} {blocked : Write → Bool} {u : UserId}
    {req : SendMessageRequest} {id : Uuid} {now : Timestamp} {mime : Option String}
    {o : Outcome SendPc (MessageOut × Bool)} (around : Around db [] blocked)
    (ne : u ≠ req.recipientId)
    (h : insertPair env db blocked (sortedPair u req.recipientId) id now (.conversation mime) = some o) :
    OutcomeOk db [] blocked (SendRunning env u req) (fun db r => SendReplyOk db u req r) o := by
  unfold insertPair at h
  dsimp only at h
  split at h
  · cases h
    trivial
  · split at h
    · rename_i _ found
      cases h
      obtain ⟨c, found⟩ := Option.isSome_iff_exists.mp found
      obtain ⟨mem, pair⟩ := Db.conversationOf_some found
      exact ⟨⟨ne, c, pair, .inl ⟨rfl, mem⟩⟩, Staged.nil around⟩
    · rename_i _ absent
      split at h
      · cases h
      · rename_i free
        split at h
        · cases h
          trivial
        · rename_i fresh
          cases h
          refine ⟨⟨ne, _, rfl, .inr rfl⟩, ?_⟩
          have noPair := Db.conversationOf_none.mp (Option.not_isSome_iff_eq_none.mp absent)
          have noId := Db.conversation_none.mp (Option.not_isSome_iff_eq_none.mp fresh)
          have fit : Fits db (.insertConversation ⟨id, (sortedPair u req.recipientId).1,
              (sortedPair u req.recipientId).2, now⟩) :=
            fun x hx => ⟨noId x hx, noPair x hx⟩
          exact Staged.announced around fit (by simpa using free) (by simp) []

theorem insertMessage_ok {env : Env} {db : Db} {own : List Write} {blocked : Write → Bool}
    {u : UserId} {req : SendMessageRequest} {m : Message} {o : Outcome SendPc (MessageOut × Bool)}
    (around : Around db own blocked) (ok : SendRunning env u req db own (.insert m))
    (h : insertMessage env (store.commit db own) blocked m = some o) :
    OutcomeOk db own blocked (SendRunning env u req) (fun db r => SendReplyOk db u req r) o := by
  obtain ⟨ne, composed, c, pair, cid, claimed⟩ := ok
  have rows := claimed.messages
  have key : m.clientKey = (u, req.clientMsgId) := by
    obtain ⟨body, mime, conversationId, id, now, -, rfl⟩ := composed
    rfl
  unfold insertMessage at h
  split at h
  · rename_i found
    cases h
    obtain ⟨n, found⟩ := Option.isSome_iff_exists.mp found
    obtain ⟨mem, nkey⟩ := Db.byClientMsgId_some found
    exact ⟨ne, rfl, n, rows ▸ mem, nkey.trans key⟩
  · rename_i absent
    split at h
    · cases h
    · rename_i free
      split at h
      · cases h
        trivial
      · rename_i fresh
        cases h
        refine ⟨⟨ne, composed, c, own, pair, cid, claimed, rfl⟩, ?_⟩
        have noKey := Db.byClientMsgId_none.mp (Option.not_isSome_iff_eq_none.mp absent)
        have noId := Db.message_none.mp (Option.not_isSome_iff_eq_none.mp fresh)
        rw [rows] at noKey noId
        have fit : Fits db (.insertMessage m) := fun x hx => ⟨noId x hx, noKey x hx⟩
        exact Staged.announced around fit (by simpa using free) (claimed.conflict_message m) _

theorem commit_send {env : Env} {db : Db} {own : List Write} {c : Conversation} {m : Message}
    (claimed : Claimed db own c) :
    store.commit db (own ++ .insertMessage m :: (sentRows env m).map .insertOutbox) =
      { conversations := (store.commit db own).conversations,
        messages := db.messages ++ [m], outbox := db.outbox ++ sentRows env m } := by
  rw [Semantics.commit_append, Semantics.commit_cons, commit_insertOutbox]
  rcases claimed with ⟨rfl, _⟩ | rfl <;> rfl

theorem SendPc.next_ok {env : Env} {db : Db} {own : List Write} {blocked : Write → Bool}
    {u : UserId} {req : SendMessageRequest} {k : SendPc} {a : Action}
    {o : Outcome SendPc (MessageOut × Bool)} (around : Around db own blocked)
    (ok : SendRunning env u req db own k)
    (h : k.next env (store.commit db own) blocked u req a = some o) :
    OutcomeOk db own blocked (SendRunning env u req) (fun db r => SendReplyOk db u req r) o := by
  unfold SendPc.next at h
  split at h
  case h_1 =>
    obtain ⟨ne, rfl⟩ := ok
    split at h
    · rename_i found
      cases h
      obtain ⟨mem, key⟩ := Db.byClientMsgId_some found
      exact replay_ok mem key
    · split at h <;> cases h <;> exact ⟨⟨ne, rfl⟩, Staged.nil around⟩
  case h_2 =>
    obtain ⟨ne, rfl⟩ := ok
    split at h
    · rename_i bad
      cases h
      exact checkAttachment_error bad
    · cases h
      exact ⟨⟨ne, rfl⟩, Staged.nil around⟩
  case h_3 =>
    obtain ⟨ne, rfl⟩ := ok
    exact insertPair_ok around ne h
  case h_4 =>
    obtain ⟨ne, c, pair, claimed⟩ := ok
    split at h
    · rename_i d found
      cases h
      obtain ⟨mem, dpair⟩ := Db.conversationOf_some found
      refine ⟨⟨ne, d, dpair, rfl, ?_⟩, Staged.nil around⟩
      rw [List.append_nil]
      rcases claimed with ⟨rfl, _⟩ | rfl
      · exact .inl ⟨rfl, mem⟩
      · have fits := around.fits _ List.mem_cons_self
        rcases List.mem_append.mp mem with old | new
        · exact absurd (dpair.trans pair.symm) (fits d old).2
        · obtain rfl := List.mem_singleton.mp new
          exact .inr rfl
    · cases h
      trivial
  case h_5 =>
    obtain ⟨ne, c, pair, cid, claimed⟩ := ok
    split at h
    · cases h
      trivial
    · rename_i body bound
      cases h
      refine ⟨⟨ne, ⟨_, _, _, _, _, encodeBody_eq_some.mp bound, rfl⟩, c, pair, cid, ?_⟩,
        Staged.nil around⟩
      rwa [List.append_nil]
  case h_6 => exact insertMessage_ok around ok h
  case h_7 =>
    obtain ⟨ne, rfl, m, mem, key⟩ := ok
    split at h
    · rename_i absent
      exact absurd key (Db.byClientMsgId_none.mp absent m mem)
    · rename_i found
      cases h
      obtain ⟨mem, key⟩ := Db.byClientMsgId_some found
      exact replay_ok mem key
  case h_8 =>
    obtain ⟨ne, ⟨body, mime, cid, id, now, bound, rfl⟩, c, before, pair, _, claimed, rfl⟩ := ok
    cases h
    refine ⟨rfl, _, ?_, rfl, rfl, ?_⟩
    · rw [commit_send claimed]
      exact List.mem_append_right _ (List.mem_singleton.mpr rfl)
    · simp [sameContent, newMessage, bound]
  case h_9 => cases h

theorem DeliverPc.next_ok {env : Env} {db : Db} {own : List Write} {blocked : Write → Bool}
    {u : UserId} {id : Uuid} {k : DeliverPc} {a : Action} {o : Outcome DeliverPc MessageOut}
    (around : Around db own blocked) (ok : DeliverOk own u id k)
    (h : k.next env (store.commit db own) blocked u id a = some o) :
    OutcomeOk db own blocked (fun _ own k => DeliverOk own u id k) (fun _ _ => True) o := by
  unfold DeliverPc.next at h
  split at h
  case h_1 =>
    obtain rfl : own = [] := ok
    cases h
    exact ⟨rfl, Staged.nil around⟩
  case h_2 =>
    obtain rfl : own = [] := ok
    split at h <;> cases h <;> exact ⟨rfl, Staged.nil around⟩
  case h_3 now b =>
    obtain rfl : own = [] := ok
    split at h
    · cases h
      exact ⟨rfl, Staged.nil around⟩
    · rename_i old found
      split at h
      · cases h
      · rename_i free
        split at h
        · rename_i hit
          cases h
          refine ⟨⟨hit, rfl⟩, ?_⟩
          have sent : old.status = .sent := by
            simp only [deliverWhere, Bool.and_eq_true, beq_iff_eq] at hit
            exact hit.2
          have fit : Fits db (.updateMessage old (deliverSet now old)) :=
            ⟨(Db.message_some found).1, .delivered old now sent⟩
          have unlocked : blocked (.updateMessage old (deliverSet now old)) = false := by
            rw [around.row]
            simpa using (not_or.mp free).2
          exact Staged.announced around fit unlocked (by simp) _
        · cases h
          exact ⟨rfl, Staged.nil around⟩
  case h_4 =>
    cases h
    trivial
  case h_5 =>
    cases h
    trivial
  case h_6 => cases h

/-- The rows of its snapshot that a `mark_read` has not updated itself are the committed ones. -/
theorem mem_commit_reads {now : Timestamp} {olds : List Message} {db : Db} {m : Message}
    (mem : m ∈ (store.commit db (readWrites now olds)).messages) (unread : m.status ≠ .read) :
    m ∈ db.messages ∧ ∀ o ∈ olds, m.id ≠ o.id := by
  induction olds generalizing db with
  | nil => exact ⟨mem, by simp⟩
  | cons o olds ih =>
    obtain ⟨mem, rest⟩ := ih mem
    rcases mem_apply_update.mp mem with ⟨_, _, _, rfl⟩ | ⟨mem, ne⟩
    · exact absurd rfl unread
    · exact ⟨mem, List.forall_mem_cons.mpr ⟨ne, rest⟩⟩

theorem ReadPc.lock_ok {db : Db} {own : List Write} {blocked : Write → Bool} {u : UserId}
    {cid : Uuid} {c : Conversation} {anchor old : Message} {now : Timestamp} {todo ids : List Uuid}
    (around : Around db own blocked) (ok : ReadOk db own u cid (.lock c anchor now todo ids))
    (mem : old ∈ (store.commit db own).messages) (free : blocked (.updateMessage old old) = false)
    (hit : readWhere c.id u anchor.key old = true) (rest : List Uuid) :
    ReadOk db (own ++ [.updateMessage old (readSet now old)]) u cid
      (.lock c anchor now rest (ids ++ [old.id])) ∧
    Staged db own blocked [.updateMessage old (readSet now old)] := by
  obtain ⟨anchored, olds, rfl, rfl, hits⟩ := ok
  have unread : old.status ≠ .read := by
    simp only [readWhere, Bool.and_eq_true, bne_iff_ne] at hit
    exact hit.1.2
  obtain ⟨mem, other⟩ := mem_commit_reads mem unread
  constructor
  · refine ⟨anchored, olds ++ [old], by simp, by simp [readWrites], ?_⟩
    intro o ho
    rcases List.mem_append.mp ho with ho | ho
    · exact hits o ho
    · obtain rfl := List.mem_singleton.mp ho
      exact hit
  · have fit : Fits db (.updateMessage old (readSet now old)) := ⟨mem, .read old now unread⟩
    have unlocked : blocked (.updateMessage old (readSet now old)) = false := by
      rw [around.row]
      exact free
    refine Staged.announced around fit unlocked ?_ []
    intro v hv
    obtain ⟨o, ho, rfl⟩ := List.mem_map.mp hv
    simpa [conflict] using (other o ho).symm

theorem ReadPc.next_ok {db : Db} {own : List Write} {blocked : Write → Bool} {u : UserId}
    {cid upTo : Uuid} {k : ReadPc} {a : Action} {o : Outcome ReadPc ReadResult}
    (around : Around db own blocked) (ok : ReadOk db own u cid k)
    (h : k.next (store.commit db own) blocked u cid upTo a = some o) :
    OutcomeOk db own blocked (fun db own k => ReadOk db own u cid k) (fun _ _ => True) o := by
  unfold ReadPc.next at h
  split at h
  case h_1 =>
    obtain rfl : own = [] := ok
    split at h
    · cases h
      trivial
    · rename_i c found
      cases h
      exact ⟨⟨rfl, getConversation_ok found⟩, Staged.nil around⟩
  case h_2 =>
    obtain ⟨rfl, anchored⟩ := ok
    split at h <;> cases h
    · trivial
    · exact ⟨⟨rfl, anchored⟩, Staged.nil around⟩
  case h_3 =>
    obtain ⟨rfl, anchored⟩ := ok
    cases h
    exact ⟨⟨rfl, anchored⟩, Staged.nil around⟩
  case h_4 =>
    obtain ⟨rfl, anchored⟩ := ok
    cases h
    exact ⟨⟨anchored, [], rfl, rfl, by simp⟩, Staged.nil around⟩
  case h_5 c anchor now todo ids id =>
    have skip : ∀ rest, OutcomeOk db own blocked (fun db own k => ReadOk db own u cid k)
        (fun _ (_ : Reply ReadResult) => True) (.goto (.lock c anchor now rest ids) []) := by
      intro rest
      refine ⟨?_, Staged.nil around⟩
      rw [List.append_nil]
      exact ok
    split at h
    · cases h
    · split at h
      · cases h
        exact skip _
      · rename_i old found
        obtain ⟨mem, rfl⟩ := Db.message_some found
        split at h
        · cases h
        · rename_i free
          split at h
          · rename_i hit
            cases h
            exact ReadPc.lock_ok around ok mem (by simpa using free) hit _
          · cases h
            exact skip _
  case h_6 c anchor now todo ids =>
    obtain ⟨anchored, olds, rfl, rfl, hits⟩ := ok
    split at h
    · cases h
    · split at h
      · cases h
        trivial
      · rename_i some
        cases h
        exact ⟨⟨anchored, some, anchor.key, olds, rfl, rfl, hits⟩, Staged.outbox around _⟩
  case h_7 =>
    cases h
    trivial
  case h_8 => cases h

end ChatBackend

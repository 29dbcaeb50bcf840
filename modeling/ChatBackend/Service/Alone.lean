import ChatBackend.Service.Privacy
import ChatBackend.Service.Refinement

/-! A call that nobody disturbs does what the atomic operation does. So a run of atomic operations
is a run of the concurrent service, in which every call has ended before the next one starts. -/

namespace ChatBackend

open Lib

/-- How a call is answered that ends so. -/
def Ending.reply {ρ : Type} (committed : Bool) : Ending ρ → Reply ρ
  | .raised e => .raised e
  | .failed => .failed
  | .returned r => if committed then .applied r else .noop r

theorem Ending.reply_ofExcept {ρ : Type} (r : Except AppError ρ) :
    (Ending.ofExcept r).reply false = answer r := by
  cases r <;> rfl

theorem Commits.step {env : Env} {k l : Call} (h : Commits env k l) (db : Db) (blocked : Write → Bool) :
    k.step env db blocked .commit = some (l, .commit) := by
  cases h <;> rfl

/-- One call and the writes it has pending, where no other call has any. -/
structure Solo where
  db : Db
  own : List Write
  call : Call

namespace Solo

variable {env : Env} {x : Solo} {a : Action}

def settle (x : Solo) (k : Call) : Effect → Solo
  | .stage ws => ⟨x.db, x.own ++ ws, k⟩
  | .rollback => ⟨x.db, [], k⟩
  | .commit => ⟨store.commit x.db x.own, [], k⟩

def next (env : Env) (x : Solo) (a : Action) : Solo :=
  match x.call.step env (store.commit x.db x.own) (fun _ => false) a with
  | some (k, e) => x.settle k e
  | none => x

def run (env : Env) (x : Solo) (as : List Action) : Solo := as.foldl (next env) x

/-- The system in which `x` is the call `c`. -/
def sys (x : Solo) (calls : CallId → Call) (c : CallId) : Sys :=
  ⟨x.db, x.own.map (fun w => (c, w)), Function.update calls c x.call⟩

theorem own_sys (ws : List Write) (c : CallId) :
    Pending.own (ws.map (fun w => (c, w))) c = ws := by
  simp [Pending.own, List.filter_map, Function.comp_def]

theorem drop_sys (ws : List Write) (c : CallId) :
    Pending.drop (ws.map (fun w => (c, w))) c = [] := by
  simp [Pending.drop, List.filter_map, Function.comp_def]

theorem blocked_sys (ws : List Write) (c : CallId) :
    store.blocked (ws.map (fun w => (c, w))) c = fun _ => false := by
  funext w
  simp [Semantics.blocked, List.any_map, Function.comp_def]

/-- Nothing keeps the call from running in the system as it runs by itself. -/
theorem next_sys (env : Env) (x : Solo) (calls : CallId → Call) (c : CallId) (a : Action) :
    (chat env).next (x.sys calls c) (.act c a) = (x.next env a).sys calls c := by
  have step : (chat env).step (x.sys calls c) (.act c a) =
      (x.call.step env (store.commit x.db x.own) (fun _ => false) a).map
        (fun p => (x.sys calls c).settle c p.1 p.2) := by
    simp only [chat, Sys.step, sys, Sys.view, own_sys, blocked_sys, Function.update_self]
  cases taken : x.call.step env (store.commit x.db x.own) (fun _ => false) a with
  | none =>
    rw [taken] at step
    rw [Machine.next_of_disabled _ step, next, taken]
  | some p =>
    obtain ⟨k, e⟩ := p
    rw [taken] at step
    rw [Machine.next_of_step _ step, next, taken]
    cases e with
    | stage ws => simp [Sys.settle, settle, sys, Pending.stage]
    | rollback => simp [Sys.settle, settle, sys, drop_sys]
    | commit => simp [Sys.settle, settle, sys, drop_sys, own_sys]

theorem run_sys (env : Env) (x : Solo) (calls : CallId → Call) (c : CallId) (as : List Action) :
    (chat env).exec (x.sys calls c) (as.map (.act c)) = (x.run env as).sys calls c := by
  induction as generalizing x with
  | nil => rfl
  | cons a as ih =>
    rw [List.map_cons, Machine.exec_cons, next_sys, ih]
    rfl

theorem run_cons (x : Solo) (a : Action) (as : List Action) :
    x.run env (a :: as) = (x.next env a).run env as := rfl

theorem run_append (x : Solo) (as bs : List Action) :
    x.run env (as ++ bs) = (x.run env as).run env bs := List.foldl_append

/-- A call that has ended takes no step. -/
theorem run_over (ended : ∀ a, x.call.step env (store.commit x.db x.own) (fun _ => false) a = none)
    (as : List Action) : x.run env as = x := by
  induction as with
  | nil => rfl
  | cons a as ih =>
    have stays : x.next env a = x := by rw [next, ended a]
    rw [run_cons, stays, ih]

/-! What the invariant says of a call by itself. -/

structure Ok (env : Env) (x : Solo) : Prop where
  keys : x.db.Keys
  fits : ∀ w ∈ x.own, Fits x.db w
  apart : x.own.Pairwise (fun v w => conflict v w = false)
  call : CallOk env x.db x.own x.call

theorem Ok.around (ok : x.Ok env) : Around x.db x.own (fun _ => false) :=
  ⟨ok.keys, ok.fits, ok.apart, fun _ => rfl, fun _ _ => rfl⟩

/-- What the call itself reads. -/
theorem Ok.viewed (ok : x.Ok env) : (store.commit x.db x.own).Keys :=
  store.commit_induction Db.Keys (fun _ _ keys fits => keys.apply fits) x.own x.db ok.keys ok.fits
    ok.apart

theorem Ok.next (ok : x.Ok env) (a : Action) : (x.next env a).Ok env := by
  unfold Solo.next
  split
  · rename_i k e taken
    have after := Call.step_ok ok.around ok.call taken
    cases e with
    | stage ws =>
      obtain ⟨call, staged⟩ := after
      refine ⟨ok.keys, ?_, staged.apart, call⟩
      exact List.forall_mem_append.mpr ⟨ok.fits, staged.fits⟩
    | rollback => exact ⟨ok.keys, List.forall_mem_nil _, .nil, after⟩
    | commit => exact ⟨ok.viewed, List.forall_mem_nil _, .nil, after⟩
  · exact ok

theorem Ok.start (env : Env) {db : Db} (keys : db.Keys) (r : Request) : Ok env ⟨db, [], r.start env⟩ :=
  ⟨keys, List.forall_mem_nil _, .nil, Request.start_ok env db r⟩

theorem Ok.run (ok : x.Ok env) (as : List Action) : (x.run env as).Ok env := by
  induction as generalizing x with
  | nil => exact ok
  | cons a as ih => exact ih (ok.next a)

/-- A commit is one change of the tables. -/
theorem Ok.commits (ok : x.Ok env) {k : Call} (commits : Commits env x.call k) {ch : Change}
    (change : x.call.change x.own = some ch) : x.next env .commit = ⟨ch.apply env x.db, [], k⟩ := by
  obtain ⟨made, same, _, tables⟩ := commits.change ok.keys ok.fits ok.apart ok.call
  obtain rfl := Option.some.inj (same.symm.trans change)
  rw [Solo.next, commits.step, ← tables]
  rfl

end Solo

theorem conversationOf_insert {db : Db} {pair : UserId × UserId} (id : Uuid) (now : Timestamp)
    (h : db.conversationOf pair = none) :
    (db.apply (.insertConversation ⟨id, pair.1, pair.2, now⟩)).conversationOf pair =
      some ⟨id, pair.1, pair.2, now⟩ := by
  rw [Db.conversationOf] at h
  rw [Db.conversationOf, Db.apply, List.find?_append, h]
  simp [Conversation.pair]

/-! `send_message`, up to the conversation, up to its row and to its end. -/

section Send

variable (env : Env) (db : Db) (u : UserId) (req : SendMessageRequest)

theorem send_over (own : List Write) (r : Reply (MessageOut × Bool)) (as : List Action) :
    Solo.run env ⟨db, own, .send u req (.done r)⟩ as = ⟨db, own, .send u req (.done r)⟩ :=
  Solo.run_over (fun a => by cases a <;> rfl) as

theorem send_lookup (stored : Option StoredObject) :
    Solo.run env ⟨db, [], .send u req (.running .lookup)⟩ [.query, .head stored] =
      ⟨db, [], .send u req <|
        match db.byClientMsgId u req.clientMsgId with
        | some existing => .done (answer ((replay env existing req).map (·, false)))
        | none =>
          match attachmentMime env u req stored with
          | .error e => .done (.raised e)
          | .ok mime => .running (.pair mime)⟩ := by
  cases found : db.byClientMsgId u req.clientMsgId with
  | some existing =>
    simp [Solo.run, Solo.next, Solo.settle, Call.step, Phase.step, SendPc.next, found]
  | none =>
    cases key : req.attachmentKey with
    | none =>
      simp [Solo.run, Solo.next, Solo.settle, Call.step, Phase.step, SendPc.next, found, key,
        attachmentMime]
    | some k =>
      cases checked : checkAttachment env.settings u k stored with
      | error e =>
        simp [Solo.run, Solo.next, Solo.settle, Call.step, Phase.step, SendPc.next, found, key,
          attachmentMime, checked, Except.map]
      | ok mime =>
        simp [Solo.run, Solo.next, Solo.settle, Call.step, Phase.step, SendPc.next, found, key,
          attachmentMime, checked, Except.map]

theorem send_pair (mime : Option String) (fresh : Uuid × Timestamp) :
    Solo.run env ⟨db, [], .send u req (.running (.pair mime))⟩ [.fresh fresh.1 fresh.2, .query] =
      match getOrCreateConversation env db (sortedPair u req.recipientId) fresh with
      | none => ⟨db, [], .send u req (.done .failed)⟩
      | some (opened, c) =>
        ⟨db, opened.map .insertConversation, .send u req (.running (.values mime c.id))⟩ := by
  cases sorted : env.textLt (sortedPair u req.recipientId).1 (sortedPair u req.recipientId).2 with
  | false =>
    simp [Solo.run, Solo.next, Solo.settle, Call.step, Phase.step, SendPc.next, insertPair, sorted,
      getOrCreateConversation]
  | true =>
    cases found : db.conversationOf (sortedPair u req.recipientId) with
    | some c =>
      simp [Solo.run, Solo.next, Solo.settle, Call.step, Phase.step, SendPc.next, insertPair, sorted,
        getOrCreateConversation, found]
    | none =>
      cases used : (db.conversation fresh.1).isSome with
      | true =>
        simp [Solo.run, Solo.next, Solo.settle, Call.step, Phase.step, SendPc.next, insertPair,
          sorted, getOrCreateConversation, found, used]
      | false =>
        have inserted := conversationOf_insert fresh.1 fresh.2 found
        simp [Solo.run, Solo.next, Solo.settle, Call.step, Phase.step, SendPc.next, insertPair,
          sorted, getOrCreateConversation, found, used, store, inserted]

/-- The rows a send has staged, committed together. -/
theorem commit_sent {opened : List Conversation} {c : Conversation} (m : Message)
    (inside : c ∈ db.conversations ++ opened) (one : opened = [] ∨ opened = [c]) :
    store.commit db (opened.map .insertConversation ++
      .insertMessage m :: (sentRows env m).map .insertOutbox) = (Change.sent opened m).apply env db := by
  have claimed : Claimed db (opened.map .insertConversation) c := by
    rcases one with rfl | rfl
    · exact .inl ⟨rfl, by simpa using inside⟩
    · exact .inr rfl
  rw [commit_send claimed, claimed.opened.1]
  rcases one with rfl | rfl <;> simp [Change.apply, Change.opened, Change.added, Change.rows,
    openedBy]

theorem send_message {opened : List Conversation} {c : Conversation} {body : Option String}
    (mime : Option String) (bound : encodeBody req.body = some body)
    (absent : db.byClientMsgId u req.clientMsgId = none)
    (inside : c ∈ db.conversations ++ opened) (one : opened = [] ∨ opened = [c])
    (fresh : Uuid × Timestamp) :
    Solo.run env ⟨db, opened.map .insertConversation, .send u req (.running (.values mime c.id))⟩
        [.fresh fresh.1 fresh.2, .query, .commit, .reply] =
      if (db.message fresh.1).isSome then ⟨db, [], .send u req (.done .failed)⟩
      else
        let m := newMessage u req body mime c.id fresh.1 fresh.2
        ⟨(Change.sent opened m).apply env db, [], .send u req (.done (.applied (toOut env m, true)))⟩ := by
  have same : (store.commit db (opened.map .insertConversation)).messages = db.messages := by
    rcases one with rfl | rfl <;> rfl
  have miss : (store.commit db (opened.map .insertConversation)).byClientMsgId u req.clientMsgId =
      none := by
    rw [Db.byClientMsgId, same]
    exact absent
  have found : (store.commit db (opened.map .insertConversation)).message fresh.1 =
      db.message fresh.1 := by
    rw [Db.message, same]
    rfl
  have sender : (newMessage u req body mime c.id fresh.1 fresh.2).senderId = u := rfl
  have client : (newMessage u req body mime c.id fresh.1 fresh.2).clientMsgId = req.clientMsgId := rfl
  have id : (newMessage u req body mime c.id fresh.1 fresh.2).id = fresh.1 := rfl
  have tables := commit_sent env db (newMessage u req body mime c.id fresh.1 fresh.2) inside one
  cases used : (db.message fresh.1).isSome with
  | true =>
    simp [Solo.run, Solo.next, Solo.settle, Call.step, Phase.step, SendPc.next, insertMessage,
      bound, sender, client, id, miss, found, used]
  | false =>
    simp [Solo.run, Solo.next, Solo.settle, Call.step, Phase.step, SendPc.next, insertMessage,
      bound, sender, client, id, miss, found, used, tables]

/-- The driver cannot encode the body. -/
theorem send_unbound (own : List Write) (mime : Option String) (cid : Uuid)
    (surrogate : encodeBody req.body = none) (fresh : Uuid × Timestamp) :
    Solo.run env ⟨db, own, .send u req (.running (.values mime cid))⟩
        [.fresh fresh.1 fresh.2, .query, .commit, .reply] =
      ⟨db, [], .send u req (.done .failed)⟩ := by
  simp [Solo.run, Solo.next, Solo.settle, Call.step, Phase.step, SendPc.next, surrogate]

/-- What a send asks for, in this order. -/
def sendActions (stored : Option StoredObject) (conversation message : Uuid × Timestamp) :
    List Action :=
  [.query, .head stored] ++ ([.fresh conversation.1 conversation.2, .query] ++
    [.fresh message.1 message.2, .query, .commit, .reply])

theorem send_alone (stored : Option StoredObject) (conversation message : Uuid × Timestamp) :
    let r := sendMessage env db u req stored conversation message
    Solo.run env ⟨db, [], (Request.sendMessage u req).start env⟩
        (sendActions stored conversation message) =
      ⟨db.after env r.1, [], .send u req (.done (r.2.reply r.1.isSome))⟩ := by
  intro r
  simp only [r, sendActions, sendMessage, Request.start]
  cases checkRequest env u req with
  | error e => exact send_over env db u req [] (.raised e) _
  | ok _ =>
    simp only
    rw [Solo.run_append, send_lookup]
    cases absent : db.byClientMsgId u req.clientMsgId with
    | some existing =>
      simp only [Ending.reply_ofExcept, Option.isSome_none]
      exact send_over env db u req [] _ _
    | none =>
      cases attachmentMime env u req stored with
      | error e => exact send_over env db u req [] (.raised e) _
      | ok mime =>
        simp only
        rw [Solo.run_append, send_pair]
        cases placed : getOrCreateConversation env db (sortedPair u req.recipientId) conversation with
        | none => exact send_over env db u req [] .failed _
        | some p =>
          obtain ⟨opened, c⟩ := p
          obtain ⟨_, inside, one, _⟩ := getOrCreateConversation_spec placed
          cases bound : encodeBody req.body with
          | none =>
            simp only
            rw [send_unbound env db u req _ mime c.id bound]
            rfl
          | some body =>
            simp only
            rw [send_message env db u req mime bound absent inside one]
            split
            · rfl
            · rfl

end Send

/-! `mark_delivered`. -/

section Deliver

variable (env : Env) {db : Db} (keys : db.Keys) (u : UserId) (id : Uuid) (now : Timestamp)

include keys

def deliverActions (id : Uuid) (now : Timestamp) : List Action :=
  [.clock now, .query, .lock id, .query, .commit, .reply]

theorem deliver_alone :
    let r := markDelivered env db u id now
    Solo.run env ⟨db, [], .deliver u id (.running .clock)⟩ (deliverActions id now) =
      ⟨db.after env r.1, [], .deliver u id (.done (r.2.reply r.1.isSome))⟩ := by
  intro r
  have found := find?_deliverWhere keys u id
  have reached : db.messages.any (deliverWhere u id) =
      (db.messages.find? (deliverWhere u id)).isSome := List.isSome_find?.symm
  simp only [r, markDelivered]
  cases hit : db.messages.find? (deliverWhere u id) with
  | none =>
    rw [hit] at reached
    simp only [Ending.reply_ofExcept, Option.isSome_none]
    simp [Solo.run, deliverActions, Solo.next, Solo.settle, Call.step, Phase.step, DeliverPc.next,
      reached, Db.after]
  | some old =>
    rw [hit] at reached found
    obtain ⟨row, _⟩ := Option.filter_eq_some_iff.mp found.symm
    have due := List.find?_some hit
    have locked : Solo.run env ⟨db, [], .deliver u id (.running .clock)⟩
        [.clock now, .query, .lock id, .query] =
        ⟨db, .updateMessage old (deliverSet now old) :: (deliveredRows old now).map .insertOutbox,
          .deliver u id (.running (.commit old now))⟩ := by
      simp [Solo.run, Solo.next, Solo.settle, Call.step, Phase.step, DeliverPc.next, reached, row, due]
    have ok := (Solo.Ok.start env keys (.markDelivered u id)).run
      [.clock now, .query, .lock id, .query]
    rw [Request.start, locked] at ok
    show Solo.run env _ ([.clock now, .query, .lock id, .query] ++ [.commit, .reply]) = _
    rw [Solo.run_append, locked, Solo.run_cons, ok.commits (.deliver u id old now) rfl]
    rfl

end Deliver

/-! `mark_read`, up to its UPDATE, row by row, and to its end. -/

section Read

variable (env : Env) (db : Db) (u : UserId) (cid upTo : Uuid) (now : Timestamp)

/-- What the UPDATE finds. -/
def readHits (c : Conversation) (anchor : Message) (ms : List Message) : List Message :=
  ms.filter (readWhere c.id u anchor.key)

/-- The state of the UPDATE when it has set the rows `olds` and has still to visit `ms`. -/
def reading (c : Conversation) (anchor : Message) (olds ms : List Message) : Solo :=
  ⟨db, readWrites now olds, .read u cid upTo (.running (.lock c anchor now
    ((readHits u c anchor ms).map Message.id) (olds.map Message.id)))⟩

theorem mem_commit_other {db : Db} {now : Timestamp} {olds : List Message} {m : Message}
    (mem : m ∈ db.messages) (other : ∀ o ∈ olds, m.id ≠ o.id) :
    m ∈ (store.commit db (readWrites now olds)).messages := by
  induction olds generalizing db with
  | nil => exact mem
  | cons o olds ih =>
    have first := other o List.mem_cons_self
    have still : m ∈ (db.apply (.updateMessage o (readSet now o))).messages :=
      mem_apply_update.mpr (.inr ⟨mem, first⟩)
    exact ih still fun p hp => other p (List.mem_cons_of_mem _ hp)

theorem read_locks {c : Conversation} {anchor : Message} (ms olds : List Message)
    (inside : ∀ m ∈ ms, m ∈ db.messages) (distinct : ((olds ++ ms).map Message.id).Nodup)
    (ok : (reading db u cid upTo now c anchor olds ms).Ok env) :
    (reading db u cid upTo now c anchor olds ms).run env (ms.map fun m => .lock m.id) =
      reading db u cid upTo now c anchor (olds ++ readHits u c anchor ms) [] := by
  induction ms generalizing olds with
  | nil => simp [readHits, Solo.run]
  | cons m ms ih =>
    have rest : ∀ x ∈ ms, x ∈ db.messages := fun x hx => inside x (List.mem_cons_of_mem _ hx)
    rw [List.map_append, List.map_cons] at distinct
    obtain ⟨_, heads, apart⟩ := List.nodup_append.mp distinct
    rw [List.map_cons, Solo.run_cons]
    cases hit : readWhere c.id u anchor.key m with
    | true =>
      have other : ∀ o ∈ olds, m.id ≠ o.id := fun o ho same =>
        apart _ (List.mem_map_of_mem ho) _ List.mem_cons_self same.symm
      have row : (store.commit db (readWrites now olds)).message m.id = some m :=
        Db.message_mem ok.viewed (mem_commit_other (inside m List.mem_cons_self) other)
      have hits : readHits u c anchor (m :: ms) = m :: readHits u c anchor ms := by
        simp [readHits, hit]
      have staged : readWrites now (olds ++ [m]) =
          readWrites now olds ++ [.updateMessage m (readSet now m)] := by
        simp [readWrites]
      have step : (reading db u cid upTo now c anchor olds (m :: ms)).next env (.lock m.id) =
          reading db u cid upTo now c anchor (olds ++ [m]) ms := by
        simp [Solo.next, Solo.settle, Call.step, Phase.step, ReadPc.next, reading, hits, hit, row,
          staged]
      have next := ok.next (.lock m.id)
      rw [step] at next ⊢
      rw [ih (olds ++ [m]) rest (by simpa using distinct) next, hits, List.append_assoc]
      rfl
    | false =>
      have hits : readHits u c anchor (m :: ms) = readHits u c anchor ms := by
        simp [readHits, hit]
      have step : (reading db u cid upTo now c anchor olds (m :: ms)).next env (.lock m.id) =
          reading db u cid upTo now c anchor olds ms := by
        have absent : m.id ∉ (readHits u c anchor ms).map Message.id := fun mem =>
          (List.nodup_cons.mp heads).1 ((List.filter_sublist.map Message.id).subset mem)
        simp only [Solo.next, Call.step, Phase.step, ReadPc.next, reading, hits, if_pos absent,
          Option.map_none]
      have next := ok.next (.lock m.id)
      rw [step] at next ⊢
      have fewer : ((olds ++ ms).map Message.id).Nodup := by
        rw [List.map_append]
        exact distinct.sublist ((List.Sublist.refl _).append (List.sublist_cons_self _ _))
      rw [ih olds rest fewer next, hits]

/-- What `mark_read` asks for; the UPDATE visits the rows of the table in their order. -/
def readActions (db : Db) (now : Timestamp) : List Action :=
  [.query, .query, .clock now, .query] ++
    (db.messages.map (fun m => .lock m.id) ++ [.query, .commit, .reply])

theorem read_over (own : List Write) (r : Reply ReadResult) (as : List Action) :
    Solo.run env ⟨db, own, .read u cid upTo (.done r)⟩ as = ⟨db, own, .read u cid upTo (.done r)⟩ :=
  Solo.run_over (fun a => by cases a <;> rfl) as

theorem read_end {c : Conversation} {anchor : Message} {hits : List Message} {ids : List Uuid}
    (made : hits.map Message.id = ids) (ok : (reading db u cid upTo now c anchor hits []).Ok env) :
    let r : Option Change × Ending ReadResult :=
      if ids = [] then (none, .returned ⟨c.id, [], none⟩)
      else (some (.read c u ids now), .returned ⟨c.id, ids, some now⟩)
    (reading db u cid upTo now c anchor hits []).run env [.query, .commit, .reply] =
      ⟨db.after env r.1, [], .read u cid upTo (.done (r.2.reply r.1.isSome))⟩ := by
  intro r
  rw [Solo.run_cons]
  by_cases empty : ids = []
  · have left : (reading db u cid upTo now c anchor hits []).next env .query =
        ⟨db, [], .read u cid upTo (.done (.noop ⟨c.id, [], none⟩))⟩ := by
      simp only [Solo.next, Solo.settle, Call.step, Phase.step, ReadPc.next, reading, readHits,
        List.filter_nil, List.map_nil, made, ne_eq, not_true_eq_false, if_false, if_pos empty,
        Option.map_some]
    rw [left, read_over]
    simp only [r, if_pos empty]
    rfl
  · have staged : (reading db u cid upTo now c anchor hits []).next env .query =
        ⟨db, readWrites now hits ++ (readRows c u ids now).map .insertOutbox,
          .read u cid upTo (.running (.commit c now ids))⟩ := by
      simp only [Solo.next, Solo.settle, Call.step, Phase.step, ReadPc.next, reading, readHits,
        List.filter_nil, List.map_nil, made, ne_eq, not_true_eq_false, if_false, if_neg empty,
        Option.map_some]
    have next := ok.next .query
    rw [staged] at next ⊢
    rw [Solo.run_cons, next.commits (.read u cid upTo c now ids) rfl]
    simp only [r, if_neg empty]
    rfl

theorem read_alone (keys : db.Keys) :
    let r := markRead db u cid upTo now
    Solo.run env ⟨db, [], .read u cid upTo (.running .conversation)⟩ (readActions db now) =
      ⟨db.after env r.1, [], .read u cid upTo (.done (r.2.reply r.1.isSome))⟩ := by
  intro r
  simp only [r, readActions, markRead]
  rw [Solo.run_append]
  cases member : getConversation db u cid with
  | error e =>
    have refused : Solo.run env ⟨db, [], .read u cid upTo (.running .conversation)⟩
        [.query, .query, .clock now, .query] = ⟨db, [], .read u cid upTo (.done (.raised e))⟩ := by
      simp [Solo.run, Solo.next, Solo.settle, Call.step, Phase.step, ReadPc.next, member]
    rw [refused]
    exact read_over env db u cid upTo [] _ _
  | ok c =>
    cases anchored : checkAnchor c (db.message upTo) with
    | error e =>
      have refused : Solo.run env ⟨db, [], .read u cid upTo (.running .conversation)⟩
          [.query, .query, .clock now, .query] = ⟨db, [], .read u cid upTo (.done (.raised e))⟩ := by
        simp [Solo.run, Solo.next, Solo.settle, Call.step, Phase.step, ReadPc.next, member, anchored]
      simp only [anchored]
      rw [refused]
      exact read_over env db u cid upTo [] _ _
    | ok anchor =>
      have begun : Solo.run env ⟨db, [], .read u cid upTo (.running .conversation)⟩
          [.query, .query, .clock now, .query] = reading db u cid upTo now c anchor [] db.messages := by
        simp [Solo.run, Solo.next, Solo.settle, Call.step, Phase.step, ReadPc.next, member, anchored,
          reading, readHits, readWrites]
      have ok := (Solo.Ok.start env keys (.markRead u cid upTo)).run
        [.query, .query, .clock now, .query]
      rw [Request.start, begun] at ok
      have visited := read_locks env db u cid upTo now db.messages [] (fun _ h => h) keys.messageId ok
      have ok' := ok.run (db.messages.map fun m => .lock m.id)
      rw [visited] at ok'
      simp only [anchored]
      rw [begun, Solo.run_append, visited, List.nil_append]
      exact read_end env db u cid upTo now rfl ok'

end Read

/-! A run of operations. -/

/-- The call that stands for an operation, and its actions. Reads and typing are no calls. -/
def Operation.call (db : Db) : Operation → Option (Request × List Action)
  | .sendMessage u req stored conversation message =>
    some (.sendMessage u req, sendActions stored conversation message)
  | .markDelivered u id now => some (.markDelivered u id, deliverActions id now)
  | .markRead u cid upTo now => some (.markRead u cid upTo, readActions db now)
  | .listConversations .. | .listMessages .. | .typing .. => none

def Operation.inputs (db : Db) (c : CallId) (o : Operation) : List Input :=
  match o.call db with
  | some (r, as) => .start c r :: as.map (.act c)
  | none => []

/-- The call when it has answered as the operation does. -/
def Operation.answered (env : Env) (db : Db) : Operation → Option Call
  | .sendMessage u req stored conversation message =>
    let r := ChatBackend.sendMessage env db u req stored conversation message
    some (.send u req (.done (r.2.reply r.1.isSome)))
  | .markDelivered u id now =>
    let r := ChatBackend.markDelivered env db u id now
    some (.deliver u id (.done (r.2.reply r.1.isSome)))
  | .markRead u cid upTo now =>
    let r := ChatBackend.markRead db u cid upTo now
    some (.read u cid upTo (.done (r.2.reply r.1.isSome)))
  | .listConversations .. | .listMessages .. | .typing .. => none

/-- The calls when `c`, if it was made, has come to `k`. -/
def withCall (calls : CallId → Call) (c : CallId) : Option Call → CallId → Call
  | some k => Function.update calls c k
  | none => calls

theorem withCall_other (calls : CallId → Call) {c d : CallId} (k : Option Call) (ne : d ≠ c) :
    withCall calls c k d = calls d := by
  cases k with
  | some k => exact Function.update_of_ne ne k calls
  | none => rfl

theorem start_sys {env : Env} {s : Sys} {c : CallId} (quiet : s.pending = []) (idle : s.calls c = .idle)
    (r : Request) : (chat env).next s (.start c r) = Solo.sys ⟨s.db, [], r.start env⟩ s.calls c := by
  have step : (chat env).step s (.start c r) =
      some { s with calls := Function.update s.calls c (r.start env) } := by
    simp only [chat, Sys.step, idle]
  rw [Machine.next_of_step _ step, Solo.sys, List.map_nil, ← quiet]

theorem Service.commit_db (env : Env) (s : Service) (ch : Option Change) :
    (s.commit env ch).db = s.db.after env ch := by
  cases ch <;> rfl

/-- An operation as a call that nobody disturbs. -/
theorem Operation.alone (env : Env) {s : Service} {sys : Sys} {c : CallId} (keys : s.db.Keys)
    (same : sys.db = s.db) (quiet : sys.pending = []) (idle : sys.calls c = .idle) (o : Operation) :
    (chat env).exec sys (o.inputs s.db c) = ⟨(s.step env o).1.db, [],
      withCall sys.calls c (o.answered env s.db)⟩ := by
  obtain ⟨db, pending, calls⟩ := sys
  obtain rfl : db = s.db := same
  rw [Service.step_db, Service.commit_db]
  cases o with
  | sendMessage u req stored conversation message =>
    simp only [Operation.inputs, Operation.call, Operation.answered, Machine.exec_cons]
    rw [start_sys quiet idle, Solo.run_sys, send_alone]
    rfl
  | markDelivered u id now =>
    simp only [Operation.inputs, Operation.call, Operation.answered, Machine.exec_cons]
    rw [start_sys quiet idle, Solo.run_sys, Request.start, deliver_alone env keys]
    rfl
  | markRead u cid upTo now =>
    simp only [Operation.inputs, Operation.call, Operation.answered, Machine.exec_cons]
    rw [start_sys quiet idle, Solo.run_sys, Request.start, read_alone env _ u cid upTo now keys]
    rfl
  | listConversations | listMessages | typing => exact congrArg (fun p => Sys.mk s.db p calls) quiet

/-- A state of the concurrent service after the operations, one after the other. -/
structure Serial (env : Env) (os : List Operation) (sys : Sys) : Prop where
  db : sys.db = (final (Service.step env) Service.init os).db
  quiet : sys.pending = []
  fresh : ∀ c, os.length ≤ c → sys.calls c = .idle
  answered : ∀ front o back, os = front ++ o :: back →
    ∀ k ∈ o.answered env (final (Service.step env) Service.init front).db,
      sys.calls front.length = k

/-- The concurrent service can run any operations one after the other, with the same answers. -/
theorem operations_are_runs (env : Env) (os : List Operation) :
    ∃ is : List Input, Serial env os ((chat env).run is) := by
  induction os using List.reverseRecOn with
  | nil =>
    refine ⟨[], rfl, rfl, fun _ _ => rfl, fun front o back eq => ?_⟩
    have long := congrArg List.length eq
    simp at long
  | append_singleton os o ih =>
    obtain ⟨is, serial⟩ := ih
    have inv := Service.Inv.init.final env os
    have alone := o.alone env inv.sound.keys serial.db serial.quiet
      (serial.fresh os.length le_rfl)
    refine ⟨is ++ o.inputs (final (Service.step env) Service.init os).db os.length, ?_⟩
    rw [Machine.run_append, alone]
    refine ⟨?_, rfl, fun c late => ?_, fun front x back eq k told => ?_⟩
    · rw [final_concat]
    · rw [List.length_append, List.length_singleton] at late
      have ne : c ≠ os.length := by omega
      exact (withCall_other _ _ ne).trans (serial.fresh c (by omega))
    · rcases List.eq_nil_or_concat back with rfl | ⟨rest, z, rfl⟩
      · -- the last operation
        obtain ⟨rfl, last⟩ := List.append_inj' eq rfl
        obtain rfl : o = x := List.head_eq_of_cons_eq last
        rw [Option.mem_def] at told
        simp only [told, withCall, Function.update_self]
      · rw [List.concat_eq_append, ← List.cons_append, ← List.append_assoc] at eq
        obtain ⟨rfl, _⟩ := List.append_inj' eq rfl
        have before : front.length ≠ (front ++ x :: rest).length := by simp
        exact (withCall_other _ _ before).trans (serial.answered front x rest rfl k told)

end ChatBackend

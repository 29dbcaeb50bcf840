import ChatBackend.Service.Invariant

/-! What a running send knows at each of its statements, whatever the other calls do: its own row
comes from the request, and an attachment in it has passed `_check_attachment`. -/

namespace ChatBackend

open Lib

/-- `key.startswith(f"u/{user_id}/")`. -/
def issuedTo (userId : UserId) (key : String) : Bool :=
  ("u/" ++ userId ++ "/").toList.isPrefixOf key.toList

theorem checkAttachment_ok {s : Settings} {u : UserId} {key mime : String}
    {stored : Option StoredObject} (h : checkAttachment s u key stored = .ok mime) :
    issuedTo u key = true ∧ mime ∈ s.attachmentAllowedMime ∧
      ∃ o, stored = some o ∧ o.contentType = mime ∧ o.size ≤ s.attachmentMaxBytes := by
  unfold checkAttachment at h
  split at h
  · cases h
  · rename_i own
    split at h
    · cases h
    · rename_i o
      split at h
      · cases h
      · rename_i small
        split at h
        · cases h
        · rename_i allowed
          cases h
          exact ⟨by simpa [issuedTo] using own, by simpa using allowed, o, rfl, rfl, by omega⟩

theorem checkAttachment_own {s : Settings} {u key : String} {object : StoredObject}
    (own : issuedTo u key = true)
    (small : object.size ≤ s.attachmentMaxBytes)
    (allowed : object.contentType ∈ s.attachmentAllowedMime) :
    checkAttachment s u key (some object) = .ok object.contentType := by
  rw [issuedTo] at own
  simp only [checkAttachment, own, Bool.not_true, Bool.false_eq_true, if_false,
    if_neg (Nat.not_lt.mpr small), List.contains_iff_mem.mpr allowed]

section Knowledge

variable (env : Env) (held : String → Prop) (u : UserId) (req : SendMessageRequest)

/-- The MIME type that goes with the attachment key of the request, where it has one. -/
def Attached (mime : Option String) : Prop :=
  match req.attachmentKey, mime with
  | none, none => True
  | some key, some t => held key ∧ issuedTo u key = true ∧ t ∈ env.settings.attachmentAllowedMime
  | _, _ => False

def Checked (m : Message) : Prop :=
  ∃ body mime conversationId id now, body.map text = req.body ∧
    m = newMessage u req body mime conversationId id now ∧ Attached env held u req mime

/-- The database orders the two users as Python has sorted them. -/
def Sorted : Prop :=
  env.textLt (sortedPair u req.recipientId).1 (sortedPair u req.recipientId).2 = true

def SendKnows : SendPc → Prop
  | .lookup | .reread => True
  | .attachment key => req.attachmentKey = some key
  | .pair mime => Attached env held u req mime
  | .conversation mime | .values mime _ => Attached env held u req mime ∧ Sorted env u req
  | .insert m | .commit m => Checked env held u req m

end Knowledge

theorem Attached.key {env : Env} {held : String → Prop} {u : UserId} {req : SendMessageRequest}
    {mime : Option String} (h : Attached env held u req mime) :
    ∀ key ∈ req.attachmentKey, held key ∧ issuedTo u key = true ∧
      ∃ t ∈ env.settings.attachmentAllowedMime, mime = some t := by
  intro key given
  unfold Attached at h
  rw [Option.mem_def.mp given] at h
  cases mime with
  | none => exact False.elim h
  | some t => exact ⟨h.1, h.2.1, t, h.2.2, rfl⟩

theorem Attached.mime {env : Env} {held : String → Prop} {u : UserId} {req : SendMessageRequest}
    {mime : Option String} (h : Attached env held u req mime) :
    ∀ t ∈ mime, t ∈ env.settings.attachmentAllowedMime := by
  rintro t rfl
  unfold Attached at h
  split at h
  · rename_i none_
    cases none_
  · rename_i some_
    cases some_
    exact h.2.2
  · exact False.elim h

/-- Storage answers with an object only for the keys in question. -/
def HeadFinds (held : String → Prop) (x : Move Sys Input) : Prop :=
  ∀ c o u req key, x.action = .act c (.head (some o)) →
    x.before.calls c = .send u req (.running (.attachment key)) → held key

section Step

variable {env : Env} {held : String → Prop} {db : Db} {blocked : Write → Bool} {u : UserId}
  {req : SendMessageRequest}

theorem insertPair_goto {pair : UserId × UserId} {id : Uuid} {now : Timestamp} {next k : SendPc}
    {ws : List Write} (h : insertPair env db blocked pair id now next = some (.goto k ws)) :
    k = next ∧ env.textLt pair.1 pair.2 = true := by
  unfold insertPair at h
  dsimp only at h
  split at h
  · cases h
  · rename_i order
    have order : env.textLt pair.1 pair.2 = true := by simpa using order
    split at h
    · cases h
      exact ⟨rfl, order⟩
    · split at h
      · cases h
      · split at h
        · cases h
        · cases h
          exact ⟨rfl, order⟩

theorem insertMessage_goto {m : Message} {k : SendPc} {ws : List Write}
    (h : insertMessage env db blocked m = some (.goto k ws)) : k = .commit m := by
  unfold insertMessage at h
  split at h
  · cases h
  · split at h
    · cases h
    · split at h
      · cases h
      · cases h
        rfl

theorem SendPc.next_knows {k n : SendPc} {a : Action} {ws : List Write}
    (knows : SendKnows env held u req k)
    (found : ∀ o key, a = .head (some o) → k = .attachment key → held key)
    (h : k.next env db blocked u req a = some (.goto n ws)) : SendKnows env held u req n := by
  unfold SendPc.next at h
  split at h
  case h_1 =>
    split at h
    · cases h
    · split at h
      · rename_i key given
        cases h
        exact given
      · rename_i absent
        cases h
        simp only [SendKnows, Attached, absent]
  case h_2 key stored =>
    split at h
    · cases h
    · rename_i mime passed
      cases h
      obtain ⟨own, allowed, o, rfl, -, -⟩ := checkAttachment_ok passed
      have given : req.attachmentKey = some key := knows
      simp only [SendKnows, Attached, given]
      exact ⟨found o key rfl rfl, own, allowed⟩
  case h_3 mime id now =>
    obtain ⟨rfl, order⟩ := insertPair_goto h
    exact ⟨knows, order⟩
  case h_4 mime =>
    split at h
    · cases h
      exact knows
    · cases h
  case h_5 mime conversationId id now =>
    split at h
    · cases h
    · rename_i body bound
      cases h
      exact ⟨body, mime, conversationId, id, now, encodeBody_eq_some.mp bound, rfl, knows.1⟩
  case h_6 m =>
    obtain rfl := insertMessage_goto h
    exact knows
  case h_7 => split at h <;> cases h
  case h_8 => cases h
  case h_9 => cases h

end Step

/-! Along a run. -/

/-- A send that runs has passed the first checks. -/
def CallKnows (env : Env) (held : String → Prop) : Call → Prop
  | .send u req (.running k) => checkRequest env u req = .ok () ∧ SendKnows env held u req k
  | _ => True

section Run

variable {env : Env} {held : String → Prop}

theorem Request.start_knows (r : Request) : CallKnows env held (r.start env) := by
  cases r with
  | sendMessage u req =>
    simp only [Request.start]
    split
    · trivial
    · rename_i passed
      exact ⟨passed, trivial⟩
  | markDelivered u id => trivial
  | markRead u cid id => trivial

theorem Call.step_knows {call after : Call} {db : Db} {blocked : Write → Bool} {a : Action}
    {e : Effect} (knows : CallKnows env held call)
    (found : ∀ o u req key, a = .head (some o) → call = .send u req (.running (.attachment key)) →
      held key)
    (h : call.step env db blocked a = some (after, e)) : CallKnows env held after := by
  cases call with
  | idle => cases h
  | send u req phase =>
    obtain ⟨⟨p, f⟩, step, pair⟩ := Option.map_eq_some_iff.mp h
    cases pair
    cases p with
    | running n =>
      obtain ⟨k, rfl, ⟨ws, next, -⟩ | ⟨next, -⟩⟩ := Phase.step_running step
      · exact ⟨knows.1, SendPc.next_knows knows.2
          (fun o key head at_ => found o u req key head (at_ ▸ rfl)) next⟩
      · obtain rfl := SendPc.next_restart next
        exact ⟨knows.1, trivial⟩
    | committed r => trivial
    | done r => trivial
  | deliver u id phase =>
    obtain ⟨_, _, pair⟩ := Option.map_eq_some_iff.mp h
    cases pair
    trivial
  | read u cid id phase =>
    obtain ⟨_, _, pair⟩ := Option.map_eq_some_iff.mp h
    cases pair
    trivial

/-- A property of calls that every new call has and every step of a call keeps. -/
theorem Sys.step_calls {K : Call → Prop} {s t : Sys} {i : Input} (all : ∀ c, K (s.calls c))
    (start : ∀ c r, i = .start c r → K (r.start env))
    (act : ∀ c a k e, i = .act c a →
      (s.calls c).step env (s.view c) (store.blocked s.pending c) a = some (k, e) → K k)
    (h : s.step env i = some t) : ∀ c, K (t.calls c) := by
  have update : ∀ (c : CallId) (k : Call), K k → ∀ d, K (Function.update s.calls c k d) :=
    fun c k new => (Function.forall_update_iff s.calls (p := fun _ k => K k)).mpr
      ⟨new, fun d _ => all d⟩
  cases i with
  | start c r =>
    simp only [Sys.step] at h
    split at h
    · cases h
      exact update c _ (start c r rfl)
    · cases h
  | act c a =>
    simp only [Sys.step, Option.map_eq_some_iff] at h
    obtain ⟨⟨k, e⟩, step, rfl⟩ := h
    have new : K k := act c a k e rfl step
    cases e <;> exact update c k new

theorem Sys.step_knows {s t : Sys} {i : Input} (knows : ∀ c, CallKnows env held (s.calls c))
    (found : HeadFinds held ⟨s, i, t⟩) (h : s.step env i = some t) :
    ∀ c, CallKnows env held (t.calls c) := by
  refine Sys.step_calls knows (fun _ r _ => Request.start_knows r) ?_ h
  rintro c a k e rfl step
  exact Call.step_knows (knows c) (fun o u req key head at_ => found c o u req key (head ▸ rfl) at_) step

/-- What a send knows, in every state of every run in which storage finds only such keys. -/
theorem chat_knows (is : List Input) (found : ∀ x ∈ (chat env).history is, HeadFinds held x) :
    ∀ c, CallKnows env held (((chat env).run is).calls c) := by
  have initial : ∀ c, CallKnows env held ((chat env).init.calls c) := fun c => trivial
  exact (chat env).exec_guarded (HeadFinds held) (fun s => ∀ c, CallKnows env held (s.calls c))
    (fun _ _ _ knows now step => Sys.step_knows knows now step) _ initial is found

def CallBy (sends : UserId → SendMessageRequest → Prop) : Call → Prop
  | .send u req _ => sends u req
  | _ => True

/-- Only such sends are started. -/
def SentBy (sends : UserId → SendMessageRequest → Prop) (x : Move Sys Input) : Prop :=
  ∀ c u req, x.action = .start c (.sendMessage u req) → sends u req

variable {sends : UserId → SendMessageRequest → Prop}

theorem Sys.step_by {s t : Sys} {i : Input} (by_ : ∀ c, CallBy sends (s.calls c))
    (starts : SentBy sends ⟨s, i, t⟩) (h : s.step env i = some t) :
    ∀ c, CallBy sends (t.calls c) := by
  refine Sys.step_calls by_ ?_ ?_ h
  · rintro c r rfl
    cases r with
    | sendMessage u req =>
      simp only [Request.start]
      split <;> exact starts c u req rfl
    | markDelivered u id => trivial
    | markRead u cid id => trivial
  · rintro c a k e rfl step
    have own := by_ c
    cases call : s.calls c with
    | idle =>
      rw [call] at step
      cases step
    | send u req phase =>
      rw [call] at step own
      obtain ⟨_, _, pair⟩ := Option.map_eq_some_iff.mp step
      cases pair
      exact own
    | deliver u id phase =>
      rw [call] at step
      obtain ⟨_, _, pair⟩ := Option.map_eq_some_iff.mp step
      cases pair
      trivial
    | read u cid id phase =>
      rw [call] at step
      obtain ⟨_, _, pair⟩ := Option.map_eq_some_iff.mp step
      cases pair
      trivial

theorem chat_by (is : List Input)
    (started : ∀ c u req, .start c (.sendMessage u req) ∈ is → sends u req) :
    ∀ c, CallBy sends (((chat env).run is).calls c) := by
  have initial : ∀ c, CallBy sends ((chat env).init.calls c) := fun c => trivial
  exact (chat env).exec_guarded (SentBy sends) (fun s => ∀ c, CallBy sends (s.calls c))
    (fun _ _ _ by_ starts step => Sys.step_by by_ starts step) _ initial is
    (fun _ hx c u req start => started c u req (start ▸ (chat env).action_mem hx))

/-- Storage is asked only for the keys of the sends that were started. -/
theorem chat_heads (is : List Input)
    (started : ∀ c u req, .start c (.sendMessage u req) ∈ is → ∀ key ∈ req.attachmentKey, held key) :
    ∀ x ∈ (chat env).history is, HeadFinds held x := by
  intro x hx c o u req key head running
  obtain ⟨bs, first, before, -⟩ := (chat env).mem_history hx
  rw [before] at running
  have knows : CallKnows env (fun _ => True) (((chat env).run bs).calls c) :=
    chat_knows bs (fun _ _ _ _ _ _ _ _ _ => trivial) c
  have asked : CallBy (fun _ r => ∀ key ∈ r.attachmentKey, held key) (((chat env).run bs).calls c) :=
    chat_by bs (fun c u req start => started c u req (first.subset start)) c
  rw [running] at knows asked
  exact asked key knows.2

end Run

end ChatBackend

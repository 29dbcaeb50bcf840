import ChatBackend.Service.Privacy

/-! A session remembers the peer of each conversation that it has looked up. Conversations stay, and
their members with them, so nobody can tell such a session from one that looks up every time. -/

namespace Lib

universe u v w

end Lib

namespace ChatBackend

open Lib

/-- What a replica is asked, and the ends of its sessions. -/
inductive ReplicaInput where
  | asks (o : Operation)
  | ends (session : Session)

/-- A session takes its `_peers` with it. -/
def Service.cached (env : Env) (s : Service) : ReplicaInput → Service × Option Answer
  | .asks o => ((s.step env o).1, some (s.step env o).2)
  | .ends session => ({ s with peers := s.peers.filter fun e => e.1 ≠ session }, none)

/-- `_typing` without `_peers`. -/
def lookedUpTyping (s : Service) (session : Session) (conversationId : Uuid) (isTyping : Bool) :
    Service × Except AppError Unit :=
  match getConversation s.db session.userId conversationId with
  | .error e => (s, .error e)
  | .ok c => (s.publish session conversationId isTyping (c.peerOf session.userId), .ok ())

def Service.lookedUp (env : Env) (s : Service) : ReplicaInput → Service × Option Answer
  | .asks (.typing session conversationId isTyping) =>
    let r := lookedUpTyping s session conversationId isTyping
    (r.1, some (.typing r.2))
  | .asks o => ((s.step env o).1, some (s.step env o).2)
  | .ends _ => (s, none)

/-- The same but for what is remembered, and what is remembered is true. -/
structure Service.Remembers (s t : Service) : Prop where
  inv : s.Inv
  db : s.db = t.db
  typing : s.typing = t.typing

namespace Service.Remembers

variable {env : Env} {s t : Service}

theorem typing_alike (same : s.Remembers t) (session : Session) (id : Uuid) (isTyping : Bool) :
    (sendTyping s session id isTyping).1.Remembers (lookedUpTyping t session id isTyping).1 ∧
    (sendTyping s session id isTyping).2 = (lookedUpTyping t session id isTyping).2 := by
  have inv := same.inv.sendTyping session id isTyping
  have spec := sendTyping_spec same.inv session id isTyping
  rw [same.db, same.typing] at spec
  unfold lookedUpTyping
  cases found : getConversation t.db session.userId id with
  | error e =>
    rw [found] at spec
    rw [spec]
    exact ⟨same, rfl⟩
  | ok c =>
    rw [found] at spec
    obtain ⟨peers, -, eq⟩ := spec
    rw [eq] at inv ⊢
    exact ⟨⟨inv, rfl, rfl⟩, rfl⟩

theorem commit (same : s.Remembers t) {ch : Option Change} (inv : (s.commit env ch).Inv) :
    (s.commit env ch).Remembers (t.commit env ch) := by
  cases ch with
  | none => exact same
  | some x => exact ⟨inv, congrArg (x.apply env) same.db, same.typing⟩

/-- Only `_typing` looks at what is remembered. -/
theorem step (same : s.Remembers t) (i : ReplicaInput) :
    (s.cached env i).1.Remembers (t.lookedUp env i).1 ∧
    (s.cached env i).2 = (t.lookedUp env i).2 := by
  cases i with
  | ends session =>
    refine ⟨⟨⟨same.inv.sound, fun e mem => ?_, same.inv.typing⟩, same.db, same.typing⟩, rfl⟩
    exact same.inv.peers e (List.mem_of_mem_filter mem)
  | asks o =>
    have inv : (s.step env o).1.Inv := same.inv.step o
    cases o with
    | typing session id isTyping =>
      obtain ⟨related, result⟩ := same.typing_alike session id isTyping
      exact ⟨related, congrArg (fun r => some (Answer.typing r)) result⟩
    | sendMessage u req stored conversation message =>
      have related := same.commit inv
      simp only [Service.cached, Service.lookedUp, Service.step, same.db] at related ⊢
      exact ⟨related, trivial⟩
    | markDelivered u id now =>
      have related := same.commit inv
      simp only [Service.cached, Service.lookedUp, Service.step, same.db] at related ⊢
      exact ⟨related, trivial⟩
    | markRead u id upTo now =>
      have related := same.commit inv
      simp only [Service.cached, Service.lookedUp, Service.step, same.db] at related ⊢
      exact ⟨related, trivial⟩
    | listConversations u limit =>
      simp only [Service.cached, Service.lookedUp, Service.step, same.db]
      exact ⟨same, trivial⟩
    | listMessages u id limit before after =>
      simp only [Service.cached, Service.lookedUp, Service.step, same.db]
      exact ⟨same, trivial⟩

end Service.Remembers

end ChatBackend

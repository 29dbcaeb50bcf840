import Mathlib.Data.String.Basic
import Mathlib.Data.List.Lex
import Mathlib.Order.RelClasses
import ChatBackend.Service.Calls
import ChatBackend.Service.Atomic

/-! The two orders on user ids. The service sorts a pair by code points; the constraint
`user_a < user_b` is decided by the database's default collation. -/

namespace ChatBackend

/-- A collation is a strict total order on text. -/
def Env.Collates (env : Env) : Prop :=
  IsStrictTotalOrder UserId (fun u v => env.textLt u v = true)

/-- The two orders put `u` and `v` the same way round. -/
def Env.Agrees (env : Env) (u v : UserId) : Prop := env.textLt u v = true ↔ u < v

def Env.checks (env : Env) (pair : UserId × UserId) : Bool := env.textLt pair.1 pair.2

/-- `u` can open the conversation with `v`: on any store, its INSERT passes the constraint, and
finds the row, or inserts it, or waits for a transaction that is about to. -/
structure Opens (env : Env) (u v : UserId) : Prop where
  check : env.checks (sortedPair u v) = true
  insert : ∀ (db : Db) (blocked : Write → Bool) (id : Uuid) (now : Timestamp) (next : SendPc),
    db.conversation id = none →
    let row : Conversation := ⟨id, (sortedPair u v).1, (sortedPair u v).2, now⟩
    let outcome := insertPair env db blocked (sortedPair u v) id now next
    ((db.conversationOf (sortedPair u v)).isSome = true ∧ outcome = some (.goto next [])) ∨
    (blocked (.insertConversation row) = true ∧ outcome = none) ∨
    outcome = some (.goto next [.insertConversation row])

theorem insertPair_checked {env : Env} {pair : UserId × UserId} (check : env.checks pair = true)
    (db : Db) (blocked : Write → Bool) (id : Uuid) (now : Timestamp) (next : SendPc)
    (unused : db.conversation id = none) :
    insertPair env db blocked pair id now next =
      if (db.conversationOf pair).isSome then some (.goto next [])
      else if blocked (.insertConversation ⟨id, pair.1, pair.2, now⟩) then none
      else some (.goto next [.insertConversation ⟨id, pair.1, pair.2, now⟩]) := by
  have passes : env.textLt pair.1 pair.2 = true := check
  simp [insertPair, passes, unused]

theorem insertPair_unchecked {env : Env} {pair : UserId × UserId} (check : env.checks pair = false)
    (db : Db) (blocked : Write → Bool) (id : Uuid) (now : Timestamp) (next : SendPc) :
    insertPair env db blocked pair id now next = some (.finish .failed) := by
  have fails : env.textLt pair.1 pair.2 = false := check
  simp [insertPair, fails]

theorem opens_iff_checks (env : Env) (u v : UserId) :
    Opens env u v ↔ env.checks (sortedPair u v) = true := by
  constructor
  · exact fun h => h.check
  · intro check
    refine ⟨check, ?_⟩
    intro db blocked id now next unused
    dsimp only
    rw [insertPair_checked check db blocked id now next unused]
    split
    · rename_i found
      exact .inl ⟨found, rfl⟩
    · split
      · rename_i waits
        exact .inr (.inl ⟨waits, rfl⟩)
      · exact .inr (.inr rfl)

theorem checks_iff_agrees {env : Env} (order : env.Collates) {u v : UserId} (ne : u ≠ v) :
    env.checks (sortedPair u v) = true ↔ env.Agrees u v := by
  unfold sortedPair Env.checks Env.Agrees
  by_cases lt : v < u
  · have not_lt : ¬ u < v := String.lt_asymm lt
    rw [if_pos lt]
    constructor
    · intro vu
      constructor
      · intro uv
        exact absurd (order.trans _ _ _ uv vu) (order.irrefl u)
      · intro uv
        exact absurd uv not_lt
    · intro agree
      by_contra not_vu
      have not_uv : ¬ env.textLt u v = true := fun uv => not_lt (agree.mp uv)
      exact ne (order.trichotomous u v not_uv not_vu)
  · have lt' : u < v := by
      by_contra not_lt
      exact ne (String.le_antisymm (String.not_lt.mp lt) (String.not_lt.mp not_lt))
    rw [if_neg lt]
    exact ⟨fun uv => ⟨fun _ => lt', fun _ => uv⟩, fun agree => agree.mpr lt'⟩

/-- Two users can talk, whoever sends first, exactly when the database orders their ids as their
code points do. -/
theorem conversation_opens_iff (env : Env) (order : env.Collates) (u v : UserId) (ne : u ≠ v) :
    (Opens env u v ∧ Opens env v u) ↔ env.Agrees u v := by
  rw [opens_iff_checks, opens_iff_checks, sortedPair_comm v u, and_self]
  exact checks_iff_agrees order ne

theorem collates_of_key {κ : Type} [LinearOrder κ] {env : Env} (key : UserId → κ)
    (injective : ∀ u v, key u = key v → u = v)
    (text : ∀ u v, env.textLt u v = decide (key u < key v)) : env.Collates := by
  unfold Env.Collates
  simp only [text, decide_eq_true_eq]
  exact {
    trichotomous u v huv hvu := injective u v (le_antisymm (not_lt.mp hvu) (not_lt.mp huv))
    irrefl u := lt_irrefl (key u)
    trans _ _ _ := lt_trans }

theorem plain_collates : Env.plain.Collates :=
  collates_of_key id (fun _ _ h => h) (fun _ _ => rfl)

theorem opens_bytewise : Opens Env.plain "a" "b" ∧ Opens Env.plain "b" "a" :=
  (conversation_opens_iff Env.plain plain_collates "a" "b" (by decide)).mpr
    (by simp only [Env.Agrees, Env.plain, decide_eq_true_eq])

/-- What most locales sort by: the letters without their case, and the text itself on a tie. -/
def foldedKey (u : UserId) : List Char ×ₗ UserId := toLex (u.toList.map Char.toLower, u)

def Env.folding : Env := { Env.plain with textLt := fun u v => decide (foldedKey u < foldedKey v) }

theorem folding_collates : Env.folding.Collates :=
  collates_of_key foldedKey (fun _ _ h => (Prod.mk.inj (toLex.injective h)).2) (fun _ _ => rfl)

/-- Under a collation that ignores case first, `B` and `a` can never talk: the service inserts the
row `(B, a)`, and the database holds `a` for the smaller. -/
theorem mixed_case_refused : Env.folding.Collates ∧ isUserId "B" = true ∧ isUserId "a" = true ∧
    sortedPair "B" "a" = ("B", "a") ∧ ¬ Opens Env.folding "B" "a" ∧
    ∀ req, req.recipientId = "a" → req.attachmentKey = none →
      checkRequest Env.folding "B" req = .ok () → ∀ stored conversation message,
      sendMessage Env.folding Db.empty "B" req stored conversation message = (none, .failed) := by
  have pair : sortedPair "B" "a" = ("B", "a") := by decide
  have refused : Env.folding.textLt "B" "a" = false := by decide
  refine ⟨folding_collates, by decide, by decide, pair, ?_, ?_⟩
  · intro opens
    have check := opens.check
    rw [pair, Env.checks, refused] at check
    cases check
  · intro req recipient text passed stored conversation message
    have none : Db.empty.byClientMsgId "B" req.clientMsgId = none := rfl
    simp only [sendMessage, passed, none, attachmentMime, text, getOrCreateConversation, recipient,
      pair, refused, Bool.false_eq_true, if_false]

end ChatBackend

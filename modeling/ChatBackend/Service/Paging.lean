import ChatBackend.Lib.Paging
import ChatBackend.Service.CatchUp

/-! Reading a conversation to its end in either direction, while nothing is written to it. -/

namespace ChatBackend

open Lib

/-- Pass `next_cursor` back as `before` until it is null. -/
def historyWalk (env : Env) (db : Db) (userId : UserId) (conversationId : Uuid) (limit : Nat) :
    Nat → Option String → Option (List MessagePage)
  | 0, _ => none
  | fuel + 1, before =>
    match listMessages env db userId conversationId limit before none with
    | .error _ => none
    | .ok p =>
      match p.nextCursor with
      | none => some [p]
      | some cursor =>
        (historyWalk env db userId conversationId limit fuel (some cursor)).map (p :: ·)

/-- Pass `next_cursor` back as `after` until `has_more` is false. -/
def catchUpWalk (env : Env) (db : Db) (userId : UserId) (conversationId : Uuid) (limit : Nat) :
    Nat → Option String → Option (List MessagePage)
  | 0, _ => none
  | fuel + 1, after =>
    match listMessages env db userId conversationId limit none after with
    | .error _ => none
    | .ok p =>
      if p.hasMore then
        (catchUpWalk env db userId conversationId limit fuel p.nextCursor).map (p :: ·)
      else some [p]

def cursorOf (k : Timestamp ×ₗ Uuid) : String := encodeCursor (ofLex k).1 (ofLex k).2

/-- The rows a history page is cut from, newest first. -/
def older (rows : List Message) : Option (Timestamp ×ₗ Uuid) → List Message
  | none => byKey Message.newestKey rows
  | some k => beyond Message.newestKey rows (OrderDual.toDual k)

theorem given_cursorOf (k : Timestamp ×ₗ Uuid) : given (some (cursorOf k)) = some (cursorOf k) := by
  simp [given, cursorOf, encodeCursor_ne_empty]

theorem Db.Keys.newestKey {db : Db} (keys : db.Keys) (conversationId : Uuid) :
    ((db.messagesOf conversationId).map Message.newestKey).Nodup := keys.key conversationId

/-- A member that asks for history from one of the service's own cursors gets a page. -/
theorem listMessages_older {env : Env} {db : Db} {userId : UserId} {conversationId : Uuid}
    {c : Conversation} (member : getConversation db userId conversationId = .ok c) (limit : Nat)
    (before : Option (Timestamp ×ₗ Uuid)) :
    listMessages env db userId conversationId limit (before.map cursorOf) none =
      .ok (historyPage env ((older (db.messagesOf c.id) before).take (limit + 1)) limit) := by
  have absent : given none = none := rfl
  cases before with
  | none => simp [listMessages, absent, member, older, listLatest]
  | some k =>
    have key : cursorKey env (cursorOf k) = .ok k := cursorKey_encodeCursor env _ _
    simp [listMessages, absent, given_cursorOf, member, listBefore, key, older, page]

theorem listMessages_newer {env : Env} {db : Db} {userId : UserId} {conversationId : Uuid}
    {c : Conversation} (member : getConversation db userId conversationId = .ok c) (limit : Nat)
    (after : Timestamp ×ₗ Uuid) :
    listMessages env db userId conversationId limit none (some (cursorOf after)) =
      .ok (catchUpPage env ((beyond Message.key (db.messagesOf c.id) after).take (limit + 1)) limit
        (cursorOf after)) :=
  listMessages_after member limit after

theorem older_drop {rows : List Message} (distinct : (rows.map Message.newestKey).Nodup)
    {before : Option (Timestamp ×ₗ Uuid)} {n : Nat} {y : Message}
    (last : ((older rows before).take n).getLast? = some y) :
    older rows (some y.key) = (older rows before).drop n := by
  cases before with
  | none => exact byKey_drop distinct last
  | some k => exact beyond_drop distinct last

theorem last_cursor (env : Env) {l : List Message} {y : Message} (last : l.getLast? = some y) :
    (l.map (toOut env)).getLast?.map MessageOut.cursor = some (cursorOf y.key) := by
  rw [List.getLast?_map, last]
  rfl

/-- What a page shows of one of the pages that a list is read in. -/
def MessagePage.Shows (env : Env) (p : MessagePage) (q : List Message × Bool) : Prop :=
  p.items = q.1.map (toOut env) ∧ p.hasMore = q.2

theorem historyPage_last (env : Env) {l : List Message} {limit : Nat} (short : l.length ≤ limit) :
    (historyPage env (l.take (limit + 1)) limit).nextCursor = none ∧
    (historyPage env (l.take (limit + 1)) limit).Shows env (l, false) := by
  have whole : l.take (limit + 1) = l := List.take_of_length_le (by omega)
  have fits : l.take limit = l := List.take_of_length_le short
  simp [historyPage, MessagePage.Shows, whole, fits, short]

theorem historyPage_more (env : Env) {l : List Message} {limit : Nat} (longer : limit < l.length)
    {y : Message} (last : (l.take limit).getLast? = some y) :
    (historyPage env (l.take (limit + 1)) limit).nextCursor = some (cursorOf y.key) ∧
    (historyPage env (l.take (limit + 1)) limit).Shows env (l.take limit, true) := by
  have cut : (l.take (limit + 1)).take limit = l.take limit := by simp [List.take_take]
  have more : limit < (l.take (limit + 1)).length := by
    rw [List.length_take]
    omega
  have cursor := last_cursor env last
  simp only [historyPage, MessagePage.Shows, cut, cursor, more, if_true, decide_true, and_self]

theorem catchUpPage_last (env : Env) {l : List Message} {limit : Nat} (short : l.length ≤ limit)
    (after : String) : (catchUpPage env (l.take (limit + 1)) limit after).Shows env (l, false) := by
  have whole : l.take (limit + 1) = l := List.take_of_length_le (by omega)
  have fits : l.take limit = l := List.take_of_length_le short
  simp [catchUpPage, MessagePage.Shows, whole, fits, short]

theorem catchUpPage_more (env : Env) {l : List Message} {limit : Nat} (longer : limit < l.length)
    {y : Message} (last : (l.take limit).getLast? = some y) (after : String) :
    (catchUpPage env (l.take (limit + 1)) limit after).nextCursor = some (cursorOf y.key) ∧
    (catchUpPage env (l.take (limit + 1)) limit after).Shows env (l.take limit, true) := by
  have cut : (l.take (limit + 1)).take limit = l.take limit := by simp [List.take_take]
  have more : limit < (l.take (limit + 1)).length := by
    rw [List.length_take]
    omega
  have cursor := last_cursor env last
  simp only [catchUpPage, MessagePage.Shows, cut, cursor, more, decide_true, Option.getD_some, and_self]

theorem last_of_page {l : List Message} {limit : Nat} (pos : 0 < limit) (longer : limit < l.length) :
    ∃ y, (l.take limit).getLast? = some y := by
  have some : l.take limit ≠ [] := by
    rw [ne_eq, List.take_eq_nil_iff]
    rintro (zero | empty)
    · omega
    · simp [empty] at longer
  exact ⟨_, List.getLast?_eq_some_getLast some⟩

section Walks

variable (env : Env) {db : Db} {userId : UserId} {conversationId : Uuid} {c : Conversation} {limit : Nat}

/-- The walk back returns the pages of what lies ahead of it. By induction on those pages: what a
page leaves unread is what lies beyond the cursor it hands out. -/
theorem historyWalk_pages (keys : db.Keys)
    (member : getConversation db userId conversationId = .ok c) (pos : 0 < limit) {l : List Message}
    {ps : List (List Message × Bool)} (h : Pages limit l ps) :
    ∀ before, older (db.messagesOf c.id) before = l →
    ∃ pages, (∀ fuel, ps.length ≤ fuel →
        historyWalk env db userId conversationId limit fuel (before.map cursorOf) = some pages) ∧
      List.Forall₂ (MessagePage.Shows env) pages ps := by
  induction h with
  | @last l short =>
    intro before ahead
    obtain ⟨next, shows⟩ := historyPage_last env short
    refine ⟨[_], ?_, .cons shows .nil⟩
    intro fuel enough
    obtain ⟨fuel, rfl⟩ := Nat.exists_eq_succ_of_ne_zero (Nat.one_le_iff_ne_zero.mp enough)
    simp only [historyWalk, listMessages_older member, ahead, next]
  | @more l ps longer pages ih =>
    intro before ahead
    obtain ⟨y, last⟩ := last_of_page pos longer
    obtain ⟨next, shows⟩ := historyPage_more env longer last
    have left : older (db.messagesOf c.id) (some y.key) = l.drop limit := by
      rw [← ahead] at last ⊢
      exact older_drop (keys.newestKey c.id) last
    obtain ⟨rest, walk, all⟩ := ih (some y.key) left
    refine ⟨_ :: rest, ?_, .cons shows all⟩
    intro fuel enough
    obtain ⟨fuel, rfl⟩ := Nat.exists_eq_succ_of_ne_zero (Nat.ne_of_gt (Nat.lt_of_lt_of_le (by simp) enough))
    have onward := walk fuel (by simpa using enough)
    rw [Option.map_some] at onward
    simp only [historyWalk, listMessages_older member, ahead, next, onward, Option.map_some]

theorem catchUpWalk_pages (keys : db.Keys)
    (member : getConversation db userId conversationId = .ok c) (pos : 0 < limit) {l : List Message}
    {ps : List (List Message × Bool)} (h : Pages limit l ps) :
    ∀ after, beyond Message.key (db.messagesOf c.id) after = l →
    ∃ pages, (∀ fuel, ps.length ≤ fuel →
        catchUpWalk env db userId conversationId limit fuel (some (cursorOf after)) = some pages) ∧
      List.Forall₂ (MessagePage.Shows env) pages ps := by
  induction h with
  | @last l short =>
    intro after ahead
    have shows := catchUpPage_last env short (cursorOf after)
    refine ⟨[_], ?_, .cons shows .nil⟩
    intro fuel enough
    obtain ⟨fuel, rfl⟩ := Nat.exists_eq_succ_of_ne_zero (Nat.one_le_iff_ne_zero.mp enough)
    simp [catchUpWalk, listMessages_newer member, ahead, shows.2]
  | @more l ps longer pages ih =>
    intro after ahead
    obtain ⟨y, last⟩ := last_of_page pos longer
    obtain ⟨next, shows⟩ := catchUpPage_more env longer last (cursorOf after)
    have left : beyond Message.key (db.messagesOf c.id) y.key = l.drop limit := by
      rw [← ahead] at last ⊢
      exact beyond_drop (keys.key c.id) last
    obtain ⟨rest, walk, all⟩ := ih y.key left
    refine ⟨_ :: rest, ?_, .cons shows all⟩
    intro fuel enough
    obtain ⟨fuel, rfl⟩ := Nat.exists_eq_succ_of_ne_zero (Nat.ne_of_gt (Nat.lt_of_lt_of_le (by simp) enough))
    have onward := walk fuel (by simpa using enough)
    simp [catchUpWalk, listMessages_newer member, ahead, next, shows.2, onward]

end Walks

/-- The pages list these rows, each once and in this order, and each page tells whether a row lies
beyond it. -/
structure Exact (env : Env) (rows : List Message) (before : Timestamp ×ₗ Uuid → Timestamp ×ₗ Uuid → Prop)
    (pages : List MessagePage) : Prop where
  ordered : (pages.flatMap MessagePage.items).Pairwise (fun x y => before x.key y.key)
  complete : (pages.flatMap MessagePage.items).Perm (rows.map (toOut env))
  more : ∀ xs p ys, pages = xs ++ p :: ys → (p.hasMore = true ↔
    ∃ m ∈ rows, ∀ x ∈ (xs ++ [p]).flatMap MessagePage.items, before x.key m.key)

theorem Shows.items {env : Env} {pages : List MessagePage} {ps : List (List Message × Bool)}
    (h : List.Forall₂ (MessagePage.Shows env) pages ps) :
    pages.flatMap MessagePage.items = (ps.flatMap Prod.fst).map (toOut env) := by
  induction h with
  | nil => rfl
  | cons shows _ ih => rw [List.flatMap_cons, List.flatMap_cons, List.map_append, shows.1, ih]

theorem Shows.split {env : Env} {xs ys : List MessagePage} {p : MessagePage}
    {ps : List (List Message × Bool)}
    (h : List.Forall₂ (MessagePage.Shows env) (xs ++ p :: ys) ps) :
    ∃ as q bs, ps = as ++ q :: bs ∧ p.Shows env q ∧
      List.Forall₂ (MessagePage.Shows env) (xs ++ [p]) (as ++ [q]) := by
  induction xs generalizing ps with
  | nil =>
    obtain ⟨q, bs, shows, _, rfl⟩ := List.forall₂_cons_left_iff.mp h
    exact ⟨[], q, bs, rfl, shows, .cons shows .nil⟩
  | cons x xs ih =>
    obtain ⟨a, ps, shows, tail, rfl⟩ := List.forall₂_cons_left_iff.mp h
    obtain ⟨as, q, bs, rfl, last, front⟩ := ih tail
    exact ⟨a :: as, q, bs, rfl, last, .cons shows front⟩

/-- Pages that show how an ordered list is read are exact. -/
theorem exact_of_pages {env : Env} {rows l : List Message} {limit : Nat}
    (before : Timestamp ×ₗ Uuid → Timestamp ×ₗ Uuid → Prop) (irrefl : ∀ k, ¬ before k k)
    (sorted : l.Pairwise (fun x y => before x.key y.key)) (perm : l.Perm rows)
    {pages : List MessagePage} {ps : List (List Message × Bool)} (h : Pages limit l ps)
    (shows : List.Forall₂ (MessagePage.Shows env) pages ps) : Exact env rows before pages := by
  have items : pages.flatMap MessagePage.items = l.map (toOut env) := by
    rw [Shows.items shows, h.flatten]
  refine ⟨?_, ?_, ?_⟩
  · rw [items, List.pairwise_map]
    exact sorted
  · rw [items]
    exact perm.map (toOut env)
  · rintro xs p ys rfl
    obtain ⟨as, q, bs, rfl, last, front⟩ := Shows.split shows
    obtain ⟨rest, whole, _, more⟩ := h.split rfl
    rw [Shows.items front, last.2, more]
    rw [whole] at sorted perm
    constructor
    · intro left
      obtain ⟨r, tail, rfl⟩ := List.exists_cons_of_ne_nil left
      refine ⟨r, perm.mem_iff.mp (by simp), ?_⟩
      intro x hx
      obtain ⟨y, hy, rfl⟩ := List.mem_map.mp hx
      exact (List.pairwise_append.mp sorted).2.2 y hy r List.mem_cons_self
    · rintro ⟨m, hm, beyond⟩ rfl
      have seen := perm.mem_iff.mpr hm
      rw [List.append_nil] at seen
      exact irrefl m.key (beyond (toOut env m) (List.mem_map.mpr ⟨m, seen, rfl⟩))

theorem byKey_perm (rows : List Message) {κ : Type} [LinearOrder κ] (key : Message → κ) :
    (byKey key rows).Perm rows := List.perm_insertionSort _ rows

/-- The rows beyond a message are those before it in the newest-first order, turned round. -/
theorem beyond_mirror {rows front rest : List Message} {m : Message}
    (distinct : (rows.map Message.key).Nodup) (eq : older rows none = front ++ m :: rest) :
    beyond Message.key rows m.key = front.reverse := by
  have newest : (rows.map Message.newestKey).Nodup := distinct
  have order : (front ++ m :: rest).Pairwise (fun x y => y.key < x.key) :=
    eq ▸ byKey_strict newest
  obtain ⟨ahead, behind, across⟩ := List.pairwise_append.mp order
  have all : ∀ x, x ∈ rows ↔ x ∈ front ++ m :: rest := fun x => eq ▸ mem_byKey.symm
  apply strict_ext (beyond_strict distinct m.key) (List.pairwise_reverse.mpr ahead)
  intro x
  rw [mem_beyond, List.mem_reverse, all x, List.mem_append]
  constructor
  · rintro ⟨early | late, above⟩
    · exact early
    · rcases List.mem_cons.mp late with rfl | later
      · exact absurd above (lt_irrefl _)
      · exact absurd above (lt_asymm ((List.pairwise_cons.mp behind).1 x later))
  · intro early
    exact ⟨.inl early, across x early m List.mem_cons_self⟩

section Directions

variable (env : Env) {db : Db} (keys : db.Keys) {userId : UserId} {c : Conversation}
  (found : getConversation db userId c.id = .ok c) {limit : Nat} (pos : 0 < limit)

include keys found pos

theorem history_exact : ∃ pages,
    (∀ fuel, (db.messagesOf c.id).length < fuel →
      historyWalk env db userId c.id limit fuel none = some pages) ∧
    Exact env (db.messagesOf c.id) (fun j k => k < j) pages ∧
    pages.flatMap MessagePage.items = (older (db.messagesOf c.id) none).map (toOut env) := by
  obtain ⟨ps, back, short⟩ := Pages.exists pos (older (db.messagesOf c.id) none)
  obtain ⟨pages, walk, shows⟩ := historyWalk_pages env keys found pos back none rfl
  have perm : (older (db.messagesOf c.id) none).Perm (db.messagesOf c.id) := byKey_perm _ _
  have sorted : (older (db.messagesOf c.id) none).Pairwise (fun x y => y.key < x.key) :=
    byKey_strict (keys.newestKey c.id)
  refine ⟨pages, ?_, exact_of_pages (fun j k => k < j) lt_irrefl sorted perm back shows, ?_⟩
  · intro fuel enough
    rw [perm.length_eq] at short
    exact walk fuel (by omega)
  · rw [Shows.items shows, back.flatten]

theorem newer_exact (m : Message) : ∃ pages,
    (∀ fuel, (db.messagesOf c.id).length < fuel →
      catchUpWalk env db userId c.id limit fuel (some (cursorOf m.key)) = some pages) ∧
    Exact env ((db.messagesOf c.id).filter (fun x => m.key < x.key)) (fun j k => j < k) pages ∧
    pages.flatMap MessagePage.items =
      (beyond Message.key (db.messagesOf c.id) m.key).map (toOut env) := by
  obtain ⟨ps, forth, short⟩ := Pages.exists pos (beyond Message.key (db.messagesOf c.id) m.key)
  obtain ⟨pages, walk, shows⟩ := catchUpWalk_pages env keys found pos forth m.key rfl
  have perm : (beyond Message.key (db.messagesOf c.id) m.key).Perm
      ((db.messagesOf c.id).filter (fun x => m.key < x.key)) := byKey_perm _ _
  have sorted := beyond_strict (keys.key c.id) m.key
  refine ⟨pages, ?_, exact_of_pages (fun j k => j < k) lt_irrefl sorted perm forth shows, ?_⟩
  · intro fuel enough
    have fewer := List.length_filter_le (fun x => decide (m.key < x.key)) (db.messagesOf c.id)
    rw [perm.length_eq] at short
    exact walk fuel (by omega)
  · rw [Shows.items shows, forth.flatten]

end Directions

/-- Both walks end and return exactly the rows ahead of them, and the walk forward from a message
is the walk back up to that message, turned round. -/
theorem paging_is_exact (env : Env) (db : Db) (keys : db.Keys) (userId : UserId) (c : Conversation)
    (mem : c ∈ db.conversations) (member : c.hasMember userId = true) (limit : Nat)
    (pos : 0 < limit) :
    ∃ history, (∀ fuel, (db.messagesOf c.id).length < fuel →
        historyWalk env db userId c.id limit fuel none = some history) ∧
      Exact env (db.messagesOf c.id) (fun j k => k < j) history ∧
      ∀ m ∈ db.messagesOf c.id, ∃ newer, (∀ fuel, (db.messagesOf c.id).length < fuel →
          catchUpWalk env db userId c.id limit fuel (some (toOut env m).cursor) = some newer) ∧
        Exact env ((db.messagesOf c.id).filter (fun x => m.key < x.key)) (fun j k => j < k) newer ∧
        ∀ front rest, history.flatMap MessagePage.items = front ++ toOut env m :: rest →
          newer.flatMap MessagePage.items = front.reverse := by
  have found := getConversation_member keys mem member
  obtain ⟨history, back, exact, listed⟩ := history_exact env keys found pos
  refine ⟨history, back, exact, ?_⟩
  intro m _
  obtain ⟨newer, forth, exact', listed'⟩ := newer_exact env keys found pos m
  refine ⟨newer, forth, exact', ?_⟩
  intro front rest eq
  rw [listed] at eq
  obtain ⟨first, tail, split, rfl, tailEq⟩ := List.map_eq_append_iff.mp eq
  obtain ⟨n, last, rfl, same, _⟩ := List.map_eq_cons_iff.mp tailEq
  have key : n.key = m.key := by rw [← toOut_key env n, same, toOut_key]
  rw [listed', ← key, beyond_mirror (keys.key c.id) split, List.map_reverse]

/-- Three messages, two of them in one instant, read one a page. -/
theorem paging_with_ties :
    let message (id : Uuid) (at_ : Timestamp) : Message :=
      ⟨id, 10, "a", "b", "k" ++ toString id, some "hello", none, none, .sent, at_, none, none⟩
    let db : Db := ⟨[⟨10, "a", "b", 1⟩], [message 12 5, message 11 5, message 13 3], []⟩
    ∃ history, historyWalk Env.plain db "b" 10 1 4 none = some history ∧
      Exact Env.plain (db.messagesOf 10) (fun j k => k < j) history := by
  intro message db
  have keys : db.Keys := ⟨by decide, by decide, by decide, by decide⟩
  obtain ⟨history, walk, exact, _⟩ := paging_is_exact Env.plain db keys "b" ⟨10, "a", "b", 1⟩
    (by decide) (by decide) 1 (by decide)
  exact ⟨history, walk 4 (by decide), exact⟩

end ChatBackend

import ChatBackend.Lib.JsonScan

/-! `json.loads` takes back what `json.dumps` wrote, by either encoder of strings: a value is read as
itself when its keys are apart, its integers are short and its nesting is within the limit. What
`loads` has read is such a value. -/

namespace Lib

mutual

/-- `json.dumps(v)`; `esc` writes the characters of strings. -/
def dumpsBy (esc : CodePoint → Text) : Json → Text
  | .null => text "null"
  | .bool true => text "true"
  | .bool false => text "false"
  | .int i => intText i
  | .float f => floatText f
  | .str s => text "\"" ++ s.flatMap esc ++ text "\""
  | .arr items => text "[" ++ dumpsItemsBy esc items ++ text "]"
  | .obj members => text "\x7b" ++ dumpsMembersBy esc members ++ text "\x7d"

def dumpsItemsBy (esc : CodePoint → Text) : List Json → Text
  | [] => []
  | v :: rest =>
    match rest with
    | [] => dumpsBy esc v
    | _ :: _ => dumpsBy esc v ++ text ", " ++ dumpsItemsBy esc rest

def dumpsMembersBy (esc : CodePoint → Text) : List (Text × Json) → Text
  | [] => []
  | (k, v) :: rest =>
    match rest with
    | [] => text "\"" ++ k.flatMap esc ++ text "\"" ++ text ": " ++ dumpsBy esc v
    | _ :: _ => text "\"" ++ k.flatMap esc ++ text "\"" ++ text ": " ++ dumpsBy esc v ++ text ", " ++
        dumpsMembersBy esc rest

end

/-- `json.dumps(v)`, with `ensure_ascii` as it is by default. -/
def dumpsAscii : Json → Text := dumpsBy escapeAscii

theorem dumpsBy_escape (v : Json) : dumpsBy escape v = dumps v := by
  induction v with
  | null | int | float | str => rfl
  | bool b => cases b <;> rfl
  | arr items ih =>
    have same : dumpsItemsBy escape items = dumpsItems items := by
      induction items with
      | nil => rfl
      | cons v rest tail =>
        have first := ih v List.mem_cons_self
        cases rest with
        | nil => exact first
        | cons w rest =>
          rw [dumpsItemsBy, dumpsItems, first, tail fun u mem => ih u (List.mem_cons_of_mem _ mem)]
    rw [dumpsBy, dumps, same]
  | obj members ih =>
    have same : dumpsMembersBy escape members = dumpsMembers members := by
      induction members with
      | nil => rfl
      | cons m rest tail =>
        obtain ⟨k, v⟩ := m
        have first := ih (k, v) List.mem_cons_self
        dsimp only at first
        cases rest with
        | nil => rw [dumpsMembersBy, dumpsMembers, first]; rfl
        | cons n rest =>
          rw [dumpsMembersBy, dumpsMembers, first, tail fun u mem => ih u (List.mem_cons_of_mem _ mem)]
          rfl
    rw [dumpsBy, dumps, same]

/-! Between the tokens. -/

theorem skipWs_cons {c : CodePoint} (plain : c ∉ text " \t\n\r") (t : Text) : skipWs (c :: t) = c :: t :=
  List.dropWhile_cons_of_neg (by simpa using plain)

theorem skipWs_blank (t : Text) : skipWs (codePoint ' ' :: t) = skipWs t :=
  List.dropWhile_cons_of_pos (by decide)

/-- It begins as a value does: not with a blank, the end of an array or a byte order mark. -/
def opens : Text → Bool
  | [] => false
  | c :: _ => decide (c ∉ byteOrderMark :: text " \t\n\r]")

theorem opens_append {t : Text} (h : opens t = true) (u : Text) : opens (t ++ u) = true := by
  cases t with
  | nil => cases h
  | cons c t => exact h

theorem skipWs_opens {t : Text} (h : opens t = true) : skipWs t = t := by
  cases t with
  | nil => cases h
  | cons c t =>
    have inside : ∀ c ∈ text " \t\n\r", c ∈ byteOrderMark :: text " \t\n\r]" := each (by decide)
    exact skipWs_cons (fun mem => of_decide_eq_true h (inside c mem)) t

theorem opens_digit {c : CodePoint} (h : isDigit c = true) (t : Text) : opens (c :: t) = true := by
  have apart : ∀ c ∈ byteOrderMark :: text " \t\n\r]", isDigit c = false := each (by decide)
  refine decide_eq_true fun mem => ?_
  rw [apart c mem] at h
  cases h

theorem opens_number {t : Text} (h : IsNumber t) : opens t = true := by
  obtain ⟨sign, signs, int, frac, exp, hi, -, -, rfl⟩ := h
  simp only [List.mem_cons, List.not_mem_nil, or_false] at signs
  rcases signs with rfl | rfl
  · rcases hi with rfl | ⟨⟨some, digits⟩, -⟩
    · rfl
    · cases int with
      | nil => exact absurd rfl some
      | cons d ds => exact opens_digit (digits d (by simp)) _
  · rfl

theorem opens_dumpsBy (esc : CodePoint → Text) (v : Json) : opens (dumpsBy esc v) = true := by
  cases v with
  | null => rfl
  | bool b => cases b <;> rfl
  | int i => exact opens_number (intText_number i)
  | float f => cases f with
    | nan => rfl
    | infinite negative => cases negative <;> rfl
    | finite d => exact opens_number (floatText_number d)
  | str s =>
    rw [dumpsBy, List.append_assoc]
    exact opens_append (by decide) _
  | arr items =>
    rw [dumpsBy, List.append_assoc]
    exact opens_append (by decide) _
  | obj members =>
    rw [dumpsBy, List.append_assoc]
    exact opens_append (by decide) _

theorem stops_text {s : String} (h : (text s).all (fun c => decide (isDigit c = false ∧ c ∉ text ".eE")) = true)
    (some : text s ≠ []) (rest : Text) : Stops (text s ++ rest) := by
  cases shape : text s with
  | nil => exact absurd shape some
  | cons c t =>
    rw [shape, List.all_cons, Bool.and_eq_true, decide_eq_true_eq] at h
    exact stops_cons h.1.1 h.1.2 _

/-! What stands between the brackets. -/

section
variable (esc : CodePoint → Text)

theorem opens_dumpsItems {items : List Json} (some : items ≠ []) (t : Text) :
    opens (dumpsItemsBy esc items ++ t) = true := by
  cases items with
  | nil => exact absurd rfl some
  | cons v rest =>
    refine opens_append ?_ t
    cases rest with
    | nil => exact opens_dumpsBy esc v
    | cons w rest =>
      rw [dumpsItemsBy, List.append_assoc]
      exact opens_append (opens_dumpsBy esc v) _

theorem dumpsItems_length (items : List Json) : items.length ≤ (dumpsItemsBy esc items).length := by
  induction items with
  | nil => exact Nat.le_refl 0
  | cons v rest ih =>
    have first : 1 ≤ (dumpsBy esc v).length := by
      have opened := opens_dumpsBy esc v
      cases shape : dumpsBy esc v with
      | nil => rw [shape] at opened; cases opened
      | cons c t => exact Nat.succ_le_succ (Nat.zero_le _)
    cases rest with
    | nil => exact first
    | cons w rest =>
      simp only [dumpsItemsBy, List.length_append, List.length_cons] at ih ⊢
      omega

variable {esc} {scan : Text → Scanned Json}

theorem scanItems_dumps {items : List Json} (seen : List Json) {fuel : Nat} (rest : Text)
    (reads : ∀ v ∈ items, ∀ t, Stops t → scan (dumpsBy esc v ++ t) = .ok (v, t))
    (some : items ≠ []) (enough : items.length ≤ fuel) :
    scanItems scan fuel seen (dumpsItemsBy esc items ++ (text "]" ++ rest)) =
      .ok (.arr (seen ++ items), rest) := by
  induction items generalizing seen fuel with
  | nil => exact absurd rfl some
  | cons v others ih =>
    cases fuel with
    | zero => simp at enough
    | succ fuel =>
      cases others with
      | nil =>
        have read := reads v (by simp) (text "]" ++ rest) (stops_text (by decide) (by decide) rest)
        have behind : skipWs (text "]" ++ rest) = codePoint ']' :: rest := skipWs_cons (by decide) rest
        simp only [dumpsItemsBy, scanItems, read, bind, Except.bind, behind, if_true]
      | cons w others =>
        have read := reads v (by simp) (text ", " ++ (dumpsItemsBy esc (w :: others) ++ (text "]" ++ rest)))
          (stops_text (by decide) (by decide) _)
        have behind : skipWs (text ", " ++ (dumpsItemsBy esc (w :: others) ++ (text "]" ++ rest))) =
            codePoint ',' :: codePoint ' ' :: (dumpsItemsBy esc (w :: others) ++ (text "]" ++ rest)) :=
          skipWs_cons (by decide) _
        have next := ih (seen ++ [v]) (fun u mem => reads u (List.mem_cons_of_mem _ mem))
          (by simp) (Nat.le_of_succ_le_succ enough)
        rw [dumpsItemsBy, List.append_assoc, List.append_assoc, scanItems]
        simp only [read, bind, Except.bind, behind]
        rw [if_neg (by decide), if_pos trivial, skipWs_blank, skipWs_opens (opens_dumpsItems esc (by simp) _), next]
        simp only [List.append_assoc, List.cons_append, List.nil_append]

theorem parseArray_dumps {items : List Json} (rest : Text)
    (reads : ∀ v ∈ items, ∀ t, Stops t → scan (dumpsBy esc v ++ t) = .ok (v, t)) :
    parseArray scan (dumpsItemsBy esc items ++ (text "]" ++ rest)) = .ok (.arr items, rest) := by
  cases items with
  | nil =>
    have behind : skipWs (text "]" ++ rest) = codePoint ']' :: rest := skipWs_cons (by decide) rest
    simp only [dumpsItemsBy, List.nil_append, parseArray, behind, if_true]
  | cons v others =>
    have opened := opens_dumpsItems esc (List.cons_ne_nil v others) (text "]" ++ rest)
    have enough : (v :: others).length ≤ (dumpsItemsBy esc (v :: others) ++ (text "]" ++ rest)).length := by
      have := dumpsItems_length esc (v :: others)
      rw [List.length_append]
      omega
    have read := scanItems_dumps [] rest reads (by simp) enough
    generalize dumpsItemsBy esc (v :: others) ++ (text "]" ++ rest) = t at opened read enough
    have same := skipWs_opens opened
    cases t with
    | nil => cases opened
    | cons c t =>
      have other : c ≠ codePoint ']' := fun eq => by
        rw [eq] at opened
        cases opened
      simp only [parseArray, same, if_neg other, read, List.nil_append]

theorem setItem_fresh {members : List (Text × Json)} {k : Text} (fresh : k ∉ members.map Prod.fst) (v : Json) :
    setItem members k v = members ++ [(k, v)] := by
  have none : ¬ members.any (fun m => decide (m.1 = k)) = true := by
    intro some
    obtain ⟨m, mem, same⟩ := List.any_eq_true.mp some
    exact fresh (List.mem_map.mpr ⟨m, mem, of_decide_eq_true same⟩)
  rw [setItem, if_neg none]

/-- A key up to its value. -/
theorem scanKey_dumps (escapes : ∀ c, Escapes c (esc c)) {k : Text} (legible : Legible esc k) (t : Text) :
    ∃ quoted after, expect '"' (text "\"" ++ k.flatMap esc ++ text "\"" ++ text ": " ++ t) = .ok quoted ∧
      scanString quoted = .ok (k, after) ∧ expect ':' (skipWs after) = .ok (codePoint ' ' :: t) := by
  refine ⟨k.flatMap esc ++ codePoint '"' :: (text ": " ++ t), text ": " ++ t, ?_,
    scanString_escaped escapes legible _, ?_⟩
  · simp only [List.append_assoc]
    show expect '"' (codePoint '"' :: (k.flatMap esc ++ (text "\"" ++ (text ": " ++ t)))) = _
    rw [expect, if_pos rfl]
    rfl
  · have same : skipWs (text ": " ++ t) = codePoint ':' :: codePoint ' ' :: t := skipWs_cons (by decide) _
    rw [same, expect, if_pos rfl]

theorem dumpsMembers_quote {members : List (Text × Json)} (some : members ≠ []) (t : Text) :
    ∃ u, dumpsMembersBy esc members ++ t = codePoint '"' :: u := by
  cases members with
  | nil => exact absurd rfl some
  | cons m others =>
    obtain ⟨k, v⟩ := m
    cases others with
    | nil =>
      simp only [dumpsMembersBy, List.append_assoc]
      exact ⟨_, rfl⟩
    | cons n others =>
      simp only [dumpsMembersBy, List.append_assoc]
      exact ⟨_, rfl⟩

theorem scanMembers_dumps (escapes : ∀ c, Escapes c (esc c)) {members : List (Text × Json)}
    (seen : List (Text × Json)) {fuel : Nat} (rest : Text)
    (reads : ∀ m ∈ members, Legible esc m.1 ∧ ∀ t, Stops t → scan (dumpsBy esc m.2 ++ t) = .ok (m.2, t))
    (apart : ((seen ++ members).map Prod.fst).Nodup) (some : members ≠ []) (enough : members.length ≤ fuel) :
    scanMembers scan fuel seen (dumpsMembersBy esc members ++ (text "\x7d" ++ rest)) =
      .ok (.obj (seen ++ members), rest) := by
  induction members generalizing seen fuel with
  | nil => exact absurd rfl some
  | cons m others ih =>
    obtain ⟨k, v⟩ := m
    obtain ⟨legible, value⟩ := reads (k, v) (by simp)
    have fresh : k ∉ seen.map Prod.fst := by
      rw [List.map_append, List.nodup_append] at apart
      exact fun mem => apart.2.2 k mem k (by simp) rfl
    have opened : ∀ t, skipWs (codePoint ' ' :: (dumpsBy esc v ++ t)) = dumpsBy esc v ++ t :=
      fun t => (skipWs_blank _).trans (skipWs_opens (opens_append (opens_dumpsBy esc v) t))
    cases fuel with
    | zero => simp at enough
    | succ fuel =>
      cases others with
      | nil =>
        obtain ⟨quoted, after, quote, key, colon⟩ := scanKey_dumps escapes legible
          (dumpsBy esc v ++ (text "\x7d" ++ rest))
        have read := value (text "\x7d" ++ rest) (stops_text (by decide) (by decide) rest)
        have behind : skipWs (text "\x7d" ++ rest) = codePoint '\x7d' :: rest := skipWs_cons (by decide) rest
        rw [dumpsMembersBy, List.append_assoc, scanMembers]
        simp only [bind, Except.bind, quote, key, colon, opened, read, behind, setItem_fresh fresh, if_true]
      | cons n others =>
        have shape : dumpsMembersBy esc ((k, v) :: n :: others) ++ (text "\x7d" ++ rest) =
            text "\"" ++ k.flatMap esc ++ text "\"" ++ text ": " ++
              (dumpsBy esc v ++ (text ", " ++ (dumpsMembersBy esc (n :: others) ++ (text "\x7d" ++ rest)))) := by
          rw [dumpsMembersBy]
          simp only [List.append_assoc]
        obtain ⟨quoted, after, quote, key, colon⟩ := scanKey_dumps escapes legible
          (dumpsBy esc v ++ (text ", " ++ (dumpsMembersBy esc (n :: others) ++ (text "\x7d" ++ rest))))
        have read := value (text ", " ++ (dumpsMembersBy esc (n :: others) ++ (text "\x7d" ++ rest)))
          (stops_text (by decide) (by decide) _)
        have behind : skipWs (text ", " ++ (dumpsMembersBy esc (n :: others) ++ (text "\x7d" ++ rest))) =
            codePoint ',' :: codePoint ' ' :: (dumpsMembersBy esc (n :: others) ++ (text "\x7d" ++ rest)) :=
          skipWs_cons (by decide) _
        obtain ⟨u, begins⟩ := dumpsMembers_quote (List.cons_ne_nil n others) (text "\x7d" ++ rest)
        have nextOpens : skipWs (dumpsMembersBy esc (n :: others) ++ (text "\x7d" ++ rest)) =
            dumpsMembersBy esc (n :: others) ++ (text "\x7d" ++ rest) := by
          rw [begins]
          exact skipWs_cons (by decide) u
        have next := ih (seen ++ [(k, v)]) (fun u mem => reads u (List.mem_cons_of_mem _ mem))
          (by simpa using apart) (by simp) (Nat.le_of_succ_le_succ enough)
        rw [shape, scanMembers]
        simp only [bind, Except.bind, quote, key, colon, opened, read, behind, setItem_fresh fresh]
        rw [if_neg (by decide), if_pos trivial, skipWs_blank, nextOpens, next]
        simp only [List.append_assoc, List.cons_append, List.nil_append]

theorem dumpsMembers_length (members : List (Text × Json)) :
    members.length ≤ (dumpsMembersBy esc members).length := by
  induction members with
  | nil => exact Nat.le_refl 0
  | cons m rest ih =>
    obtain ⟨k, v⟩ := m
    have quote : (text "\"").length = 1 := by decide
    cases rest with
    | nil =>
      simp only [dumpsMembersBy, List.length_append, List.length_cons, List.length_nil, quote]
      omega
    | cons n rest =>
      simp only [dumpsMembersBy, List.length_append, List.length_cons, quote] at ih ⊢
      omega

theorem parseObject_dumps (escapes : ∀ c, Escapes c (esc c)) {members : List (Text × Json)} (rest : Text)
    (reads : ∀ m ∈ members, Legible esc m.1 ∧ ∀ t, Stops t → scan (dumpsBy esc m.2 ++ t) = .ok (m.2, t))
    (apart : (members.map Prod.fst).Nodup) :
    parseObject scan (dumpsMembersBy esc members ++ (text "\x7d" ++ rest)) = .ok (.obj members, rest) := by
  cases members with
  | nil =>
    have behind : skipWs (text "\x7d" ++ rest) = codePoint '\x7d' :: rest := skipWs_cons (by decide) rest
    simp only [dumpsMembersBy, List.nil_append, parseObject, behind, if_true]
  | cons m others =>
    have enough : (m :: others).length ≤ (dumpsMembersBy esc (m :: others) ++ (text "\x7d" ++ rest)).length := by
      have inside : _ ≤ (dumpsMembersBy esc (m :: others)).length := dumpsMembers_length (m :: others)
      rw [List.length_append]
      omega
    have read := scanMembers_dumps escapes [] rest reads apart (by simp) enough
    obtain ⟨t, shape⟩ := dumpsMembers_quote (List.cons_ne_nil m others) (text "\x7d" ++ rest)
    rw [shape] at read ⊢
    have same : skipWs (codePoint '"' :: t) = codePoint '"' :: t := skipWs_cons (by decide) t
    simp only [parseObject, same, if_neg (show codePoint '"' ≠ codePoint '\x7d' by decide), read,
      List.nil_append]

end

/-! Values. -/

/-- A value with `n` levels of brackets at most that is read as it was written. -/
inductive Readable (esc : CodePoint → Text) (toFloat : Text → PyFloat) : Nat → Json → Prop where
  | null (n : Nat) : Readable esc toFloat n .null
  | bool (n : Nat) (b : Bool) : Readable esc toFloat n (.bool b)
  | int (n : Nat) (i : Int) : i.natAbs < 10 ^ maxStrDigits → Readable esc toFloat n (.int i)
  | nan (n : Nat) : Readable esc toFloat n (.float .nan)
  | infinite (n : Nat) (negative : Bool) : Readable esc toFloat n (.float (.infinite negative))
  | finite (n : Nat) (d : Decimal) : toFloat (floatText (.finite d)) = .finite d →
      Readable esc toFloat n (.float (.finite d))
  | str (n : Nat) (s : Text) : Legible esc s → Readable esc toFloat n (.str s)
  | arr (n : Nat) (items : List Json) : (∀ v ∈ items, Readable esc toFloat n v) →
      Readable esc toFloat (n + 1) (.arr items)
  | obj (n : Nat) (members : List (Text × Json)) : (members.map Prod.fst).Nodup →
      (∀ m ∈ members, Legible esc m.1) → (∀ m ∈ members, Readable esc toFloat n m.2) →
      Readable esc toFloat (n + 1) (.obj members)

section
variable {esc : CodePoint → Text} {toFloat : Text → PyFloat}

theorem Readable.deeper {n m : Nat} {v : Json} (h : Readable esc toFloat n v) (le : n ≤ m) :
    Readable esc toFloat m v := by
  induction h generalizing m with
  | null n => exact .null m
  | bool n b => exact .bool m b
  | int n i short => exact .int m i short
  | nan n => exact .nan m
  | infinite n negative => exact .infinite m negative
  | finite n d back => exact .finite m d back
  | str n s legible => exact .str m s legible
  | arr n items _ ih =>
    obtain ⟨k, rfl⟩ := Nat.exists_eq_add_of_lt le
    exact .arr _ items fun v mem => ih v mem (by omega)
  | obj n members apart legible _ ih =>
    obtain ⟨k, rfl⟩ := Nat.exists_eq_add_of_lt le
    exact .obj _ members apart legible fun m mem => ih m mem (by omega)

theorem scanValue_literal {nested : Option (Text → Scanned Json)} {l : String × Json} (mem : l ∈ literals)
    (rest : Text) : scanValue toFloat nested (text l.1 ++ rest) = .ok (l.2, rest) := by
  simp only [literals, List.mem_cons, List.not_mem_nil, or_false] at mem
  rcases mem with rfl | rfl | rfl | rfl | rfl | rfl <;> rfl

theorem literals_apart {d : CodePoint} (digit : isDigit d = true) (more : Text) {first : Text}
    (shape : first = d :: more ∨ first = codePoint '-' :: d :: more) :
    literals.find? (fun l => (text l.1).isPrefixOf first) = none := by
  have letters : ∀ l ∈ literals, (text l.1).all (fun c => !isDigit c) = true ∧ 2 ≤ (text l.1).length := by
    decide
  refine List.find?_eq_none.mpr fun l mem isPrefix => ?_
  obtain ⟨plain, long⟩ := letters l mem
  obtain ⟨rest, same⟩ := List.isPrefixOf_iff_prefix.mp isPrefix
  have inside : d ∈ text l.1 := by
    generalize text l.1 = t at long same
    match t, long with
    | c :: e :: t, _ =>
      rcases shape with rfl | rfl
      · cases same
        exact List.mem_cons_self
      · cases same
        exact List.mem_cons_of_mem _ List.mem_cons_self
  have other := List.all_eq_true.mp plain d inside
  rw [digit] at other
  cases other

/-- A number begins like no other value. -/
theorem scanValue_number (nested : Option (Text → Scanned Json)) {t : Text} (h : IsNumber t) (rest : Text) :
    scanValue toFloat nested (t ++ rest) = matchNumber toFloat (t ++ rest) := by
  obtain ⟨sign, signs, int, frac, exp, hi, -, -, rfl⟩ := h
  have head : ∃ d more, isDigit d = true ∧ int ++ (frac ++ (exp ++ rest)) = d :: more := by
    rcases hi with rfl | ⟨⟨some, digits⟩, -⟩
    · exact ⟨codePoint '0', frac ++ (exp ++ rest), by decide, rfl⟩
    · cases int with
      | nil => exact absurd rfl some
      | cons d ds => exact ⟨d, ds ++ (frac ++ (exp ++ rest)), digits d (by simp), rfl⟩
  obtain ⟨d, more, digit, shape⟩ := head
  have named : ∀ c : CodePoint, isDigit c = false → d ≠ c := fun c other same => by
    rw [same, other] at digit
    cases digit
  simp only [List.mem_cons, List.not_mem_nil, or_false] at signs
  simp only [List.append_assoc, shape]
  rcases signs with rfl | rfl
  · show scanValue toFloat nested (d :: more) = matchNumber toFloat (d :: more)
    simp only [scanValue, if_neg (named (codePoint '"') (by decide)),
      if_neg (named (codePoint '\x7b') (by decide)), if_neg (named (codePoint '[') (by decide)),
      literals_apart digit more (.inl rfl)]
  · show scanValue toFloat nested (codePoint '-' :: d :: more) = matchNumber toFloat (codePoint '-' :: d :: more)
    simp only [scanValue, if_neg (show codePoint '-' ≠ codePoint '"' by decide),
      if_neg (show codePoint '-' ≠ codePoint '\x7b' by decide),
      if_neg (show codePoint '-' ≠ codePoint '[' by decide), literals_apart digit more (.inr rfl)]

theorem scanOnce_eq (toFloat : Text → PyFloat) (depth : Nat) :
    ∃ nested, scanOnce toFloat depth = scanValue toFloat nested := by
  cases depth with
  | zero => exact ⟨none, rfl⟩
  | succ depth => exact ⟨some (scanOnce toFloat depth), rfl⟩

theorem scanOnce_dumps (escapes : ∀ c, Escapes c (esc c)) {depth n : Nat} {v : Json}
    (h : Readable esc toFloat n v) (fits : n ≤ depth) {rest : Text} (stops : Stops rest) :
    scanOnce toFloat depth (dumpsBy esc v ++ rest) = .ok (v, rest) := by
  induction h generalizing depth rest with
  | null n =>
    obtain ⟨nested, eq⟩ := scanOnce_eq toFloat depth
    rw [eq]
    exact scanValue_literal (l := ("null", .null)) (by simp [literals]) rest
  | bool n b =>
    obtain ⟨nested, eq⟩ := scanOnce_eq toFloat depth
    rw [eq]
    cases b with
    | true => exact scanValue_literal (l := ("true", .bool true)) (by simp [literals]) rest
    | false => exact scanValue_literal (l := ("false", .bool false)) (by simp [literals]) rest
  | int n i short =>
    obtain ⟨nested, eq⟩ := scanOnce_eq toFloat depth
    rw [eq]
    exact (scanValue_number nested (intText_number i) rest).trans (matchNumber_int toFloat short stops)
  | nan n =>
    obtain ⟨nested, eq⟩ := scanOnce_eq toFloat depth
    rw [eq]
    exact scanValue_literal (l := ("NaN", .float .nan)) (by simp [literals]) rest
  | infinite n negative =>
    obtain ⟨nested, eq⟩ := scanOnce_eq toFloat depth
    rw [eq]
    cases negative with
    | true =>
      exact scanValue_literal (l := ("-Infinity", .float (.infinite true))) (by simp [literals]) rest
    | false =>
      exact scanValue_literal (l := ("Infinity", .float (.infinite false))) (by simp [literals]) rest
  | finite n d back =>
    obtain ⟨nested, eq⟩ := scanOnce_eq toFloat depth
    rw [eq]
    refine (scanValue_number nested (floatText_number d) rest).trans ?_
    rw [matchNumber_float toFloat d stops, back]
  | str n s legible =>
    obtain ⟨nested, eq⟩ := scanOnce_eq toFloat depth
    have read := scanString_escaped escapes legible rest
    rw [eq, dumpsBy, List.append_assoc, List.append_assoc]
    show scanValue toFloat nested (codePoint '"' :: (s.flatMap esc ++ codePoint '"' :: rest)) = _
    simp only [scanValue, if_true, read]
  | arr n items each ih =>
    cases depth with
    | zero => exact absurd fits (Nat.not_succ_le_zero n)
    | succ depth =>
      have read := parseArray_dumps rest fun v mem t stops => ih v mem (Nat.le_of_succ_le_succ fits) stops
      rw [dumpsBy, List.append_assoc, List.append_assoc]
      exact read
  | obj n members apart legible each ih =>
    cases depth with
    | zero => exact absurd fits (Nat.not_succ_le_zero n)
    | succ depth =>
      have read := parseObject_dumps escapes rest (fun m mem =>
        ⟨legible m mem, fun t stops => ih m mem (Nat.le_of_succ_le_succ fits) stops⟩) apart
      rw [dumpsBy, List.append_assoc, List.append_assoc]
      exact read

/-- What was written is read. -/
theorem loads_dumpsBy (escapes : ∀ c, Escapes c (esc c)) {depth : Nat} {v : Json}
    (h : Readable esc toFloat depth v) : loads toFloat depth (dumpsBy esc v) = .ok v := by
  have read := scanOnce_dumps escapes h (Nat.le_refl depth) stops_nil
  have opened := opens_dumpsBy esc v
  have marked : (dumpsBy esc v).head? ≠ some byteOrderMark := by
    cases shape : dumpsBy esc v with
    | nil => exact nofun
    | cons c t =>
      rw [shape] at opened
      exact fun same => of_decide_eq_true opened (Option.some.inj same ▸ List.mem_cons_self)
  rw [List.append_nil] at read
  rw [loads, if_neg marked, skipWs_opens opened, read]
  rfl

/-! What was read can be written and read again. -/

theorem setItem_keys (members : List (Text × Json)) (k : Text) (v : Json) :
    (setItem members k v).map Prod.fst =
      if k ∈ members.map Prod.fst then members.map Prod.fst else members.map Prod.fst ++ [k] := by
  by_cases some : k ∈ members.map Prod.fst
  · have found : members.any (fun m => decide (m.1 = k)) = true := by
      obtain ⟨m, mem, same⟩ := List.mem_map.mp some
      exact List.any_eq_true.mpr ⟨m, mem, decide_eq_true same⟩
    rw [if_pos some, setItem, if_pos found, List.map_map]
    refine List.map_congr_left fun m _ => ?_
    by_cases same : m.1 = k
    · simp [same]
    · simp [same]
  · rw [if_neg some, setItem_fresh some]
    simp

theorem setItem_nodup {members : List (Text × Json)} (apart : (members.map Prod.fst).Nodup) (k : Text)
    (v : Json) : ((setItem members k v).map Prod.fst).Nodup := by
  rw [setItem_keys]
  split
  · exact apart
  · rename_i fresh
    exact List.nodup_append.mpr ⟨apart, List.pairwise_singleton _ k, fun x mem y last same =>
      fresh (List.mem_singleton.mp last ▸ same ▸ mem)⟩

section
variable {P : Json → Prop} {scan : Text → Scanned Json}

theorem scanItems_ok (inner : ∀ t v rest, scan t = .ok (v, rest) → P v) {fuel : Nat} {items : List Json}
    {t rest : Text} {w : Json} (good : ∀ v ∈ items, P v) (h : scanItems scan fuel items t = .ok (w, rest)) :
    ∃ all, w = .arr all ∧ ∀ v ∈ all, P v := by
  induction fuel generalizing items t with
  | zero => cases h
  | succ fuel ih =>
    rw [scanItems] at h
    cases read : scan t with
    | error e => rw [read] at h; cases h
    | ok item =>
      obtain ⟨value, left⟩ := item
      have more : ∀ v ∈ items ++ [value], P v := by
        intro v mem
        cases List.mem_append.mp mem with
        | inl old => exact good v old
        | inr new => exact List.mem_singleton.mp new ▸ inner t value left read
      simp only [read, bind, Except.bind] at h
      split at h
      · cases h
      · split at h
        · cases h
          exact ⟨_, rfl, more⟩
        · split at h
          · exact ih more h
          · cases h

theorem scanMembers_ok (inner : ∀ t v rest, scan t = .ok (v, rest) → P v) {fuel : Nat}
    {members : List (Text × Json)} {t rest : Text} {w : Json} (apart : (members.map Prod.fst).Nodup)
    (good : ∀ m ∈ members, P m.2) (h : scanMembers scan fuel members t = .ok (w, rest)) :
    ∃ all, w = .obj all ∧ (all.map Prod.fst).Nodup ∧ ∀ m ∈ all, P m.2 := by
  induction fuel generalizing members t with
  | zero => cases h
  | succ fuel ih =>
    rw [scanMembers] at h
    cases opened : expect '"' t with
    | error e => rw [opened] at h; cases h
    | ok quoted =>
      cases key : scanString quoted with
      | error e => simp only [opened, key, bind, Except.bind] at h; cases h
      | ok found =>
        obtain ⟨k, left⟩ := found
        cases colon : expect ':' (skipWs left) with
        | error e => simp only [opened, key, colon, bind, Except.bind] at h; cases h
        | ok after =>
          cases read : scan (skipWs after) with
          | error e => simp only [opened, key, colon, read, bind, Except.bind] at h; cases h
          | ok item =>
            obtain ⟨value, left⟩ := item
            have more : ∀ m ∈ setItem members k value, P m.2 := by
              intro m mem
              obtain rfl | old := setItem_mem mem
              · exact inner _ value left read
              · exact good m old
            have keys := setItem_nodup apart k value
            simp only [opened, key, colon, read, bind, Except.bind] at h
            split at h
            · cases h
            · split at h
              · cases h
                exact ⟨_, rfl, keys, more⟩
              · split at h
                · exact ih keys more h
                · cases h

end

theorem escape_legible (s : Text) : Legible escape s := by
  refine .inl fun c high => ?_
  simp only [isHigh, Bool.and_eq_true, decide_eq_true_eq] at high
  have quote : c ≠ codePoint '"' := fun same => by
    rw [same] at high
    exact absurd high (by decide)
  have slash : c ≠ codePoint '\\' := fun same => by
    rw [same] at high
    exact absurd high (by decide)
  unfold escape
  rw [if_neg quote, if_neg slash, if_neg (by omega), if_neg (by omega), if_neg (by omega),
    if_neg (by omega), if_neg (by omega), if_neg (by omega)]

/-- `float(repr(f)) == f`, for each float that was read. -/
def RepeatsFloats (toFloat : Text → PyFloat) : Prop :=
  ∀ s d, toFloat s = .finite d → toFloat (floatText (.finite d)) = .finite d

theorem matchNumber_ok {t rest : Text} {v : Json} (h : matchNumber toFloat t = .ok (v, rest)) :
    (∃ i, v = .int i ∧ i.natAbs < 10 ^ maxStrDigits) ∨ ∃ s, v = .float (toFloat s) := by
  have short : ∀ i, v = .int i → i.natAbs < 10 ^ maxStrDigits := by
    have built : Built fun v => ∀ i, v = .int i → i.natAbs < 10 ^ maxStrDigits := by
      refine ⟨by simp [literals], fun i small j same => ?_, nofun, nofun, nofun, nofun⟩
      cases same
      exact small
    have reads := matchNumber_reads built toFloat t
    rw [h] at reads
    exact reads.1
  unfold matchNumber at h
  dsimp only at h
  generalize (t.take 1).filter (fun s => decide (s = codePoint '-')) = sign at h
  generalize t.drop sign.length = u at h
  generalize (if u.head? = some (codePoint '0') then u.take 1 else digitsOf u) = int at h
  split at h
  · cases h
  · split at h
    · split at h
      · cases h
      · cases h
        exact .inl ⟨_, rfl, short _ rfl⟩
    · cases h
      exact .inr ⟨_, rfl⟩

theorem scanValue_readable (back : RepeatsFloats toFloat) {depth : Nat}
    {nested : Option (Text → Scanned Json)} {t rest : Text} {v : Json}
    (inner : ∀ scan ∈ nested, ∃ n, depth = n + 1 ∧
      ∀ t v rest, scan t = .ok (v, rest) → Readable escape toFloat n v)
    (h : scanValue toFloat nested t = .ok (v, rest)) : Readable escape toFloat depth v := by
  have float : ∀ s, Readable escape toFloat depth (.float (toFloat s)) := by
    intro s
    cases read : toFloat s with
    | nan => exact .nan depth
    | infinite negative => exact .infinite depth negative
    | finite d => exact .finite depth d (back s d read)
  cases t with
  | nil => cases h
  | cons c t =>
    simp only [scanValue] at h
    split at h
    · split at h
      · cases h
        exact .str depth _ (escape_legible _)
      · cases h
    · split at h
      · -- an object
        split at h
        · cases h
        · rename_i scan
          obtain ⟨n, rfl, each⟩ := inner scan rfl
          unfold parseObject at h
          split at h
          · cases h
          · split at h
            · cases h
              exact .obj n [] List.nodup_nil nofun nofun
            · obtain ⟨all, rfl, apart, good⟩ := scanMembers_ok each (by simp) (by simp) h
              exact .obj n all apart (fun m _ => escape_legible m.1) good
      · split at h
        · -- an array
          split at h
          · cases h
          · rename_i scan
            obtain ⟨n, rfl, each⟩ := inner scan rfl
            unfold parseArray at h
            split at h
            · cases h
            · split at h
              · cases h
                exact .arr n [] nofun
              · obtain ⟨all, rfl, good⟩ := scanItems_ok each (by simp) h
                exact .arr n all good
        · split at h
          · rename_i l found
            cases h
            have mem := List.mem_of_find?_eq_some found
            simp only [literals, List.mem_cons, List.not_mem_nil, or_false] at mem
            rcases mem with rfl | rfl | rfl | rfl | rfl | rfl
            · exact .null depth
            · exact .bool depth true
            · exact .bool depth false
            · exact .nan depth
            · exact .infinite depth false
            · exact .infinite depth true
          · obtain ⟨i, rfl, short⟩ | ⟨s, rfl⟩ := matchNumber_ok h
            · exact .int depth i short
            · exact float s

theorem scanOnce_readable (back : RepeatsFloats toFloat) (depth : Nat)
    {t rest : Text} {v : Json} (h : scanOnce toFloat depth t = .ok (v, rest)) :
    Readable escape toFloat depth v := by
  induction depth generalizing t v rest with
  | zero => exact scanValue_readable back (by simp) h
  | succ depth ih =>
    refine scanValue_readable back (fun scan same => ⟨depth, rfl, ?_⟩) h
    cases same
    exact fun t v rest => ih

theorem loads_readable (back : RepeatsFloats toFloat) {depth : Nat}
    {t : Text} {v : Json} (h : loads toFloat depth t = .ok v) : Readable escape toFloat depth v := by
  unfold loads at h
  split at h
  · cases h
  · split at h
    · cases h
    · rename_i found
      split at h
      · cases h
        exact scanOnce_readable back depth found
      · cases h

end

end Lib

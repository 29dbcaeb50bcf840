import ChatBackend.Lib.JsonDecoder
import ChatBackend.Lib.PyText

/-! The scanners on what the encoders write: each takes back the string or the number it stands
before, and leaves what follows. `json.dumps` has two encoders of strings; the one that keeps to ASCII
writes a character above U+FFFF as a pair of surrogates, which the scanner joins again. -/

namespace Lib

/-! Strings. -/

/-- `py_encode_basestring_ascii`, on one character. -/
def escapeAscii (c : CodePoint) : Text :=
  if c = codePoint '"' then text "\\\""
  else if c = codePoint '\\' then text "\\\\"
  else if c.val = 8 then text "\\b"
  else if c.val = 9 then text "\\t"
  else if c.val = 10 then text "\\n"
  else if c.val = 12 then text "\\f"
  else if c.val = 13 then text "\\r"
  else if 32 ≤ c.val ∧ c.val ≤ 126 then [c]
  else if c.val < 0x10000 then text "\\u" ++ hexText 4 c.val
  else
    text "\\u" ++ hexText 4 (0xD800 + (c.val - 0x10000) / 0x400) ++
      (text "\\u" ++ hexText 4 (0xDC00 + (c.val - 0x10000) % 0x400))

def isHigh (c : CodePoint) : Bool := 0xD800 ≤ c.val && c.val ≤ 0xDBFF

def isLow (c : CodePoint) : Bool := 0xDC00 ≤ c.val && c.val ≤ 0xDFFF

/-- No low surrogate stands right behind a high one. -/
def unpaired : Text → Bool
  | [] => true
  | [_] => true
  | c :: d :: rest => !(isHigh c && isLow d) && unpaired (d :: rest)

theorem unpaired_of_encodable {t : Text} (h : encodable t = true) : unpaired t = true := by
  induction t with
  | nil => rfl
  | cons c rest ih =>
    obtain ⟨plain, others⟩ := (Bool.and_eq_true _ _).mp h
    cases rest with
    | nil => rfl
    | cons d rest =>
      have low : isHigh c = false := by
        simp only [isSurrogate, Bool.not_eq_true', Bool.and_eq_false_iff, decide_eq_false_iff_not] at plain
        simp only [isHigh, Bool.and_eq_false_iff, decide_eq_false_iff_not]
        omega
      rw [unpaired, low, ih others]
      rfl

theorem hexValue_hexDigit : ∀ n < 16, hexValue (hexDigit n) = some n := by decide

theorem hexText_four (n : Nat) : hexText 4 n =
    [hexDigit (n / 4096 % 16), hexDigit (n / 256 % 16), hexDigit (n / 16 % 16), hexDigit (n % 16)] := by
  simp [hexText, List.range_succ]

theorem hex4_hexText (u : Fin 0x10000) : hex4 (hexDigit (u.val / 4096 % 16)) (hexDigit (u.val / 256 % 16))
    (hexDigit (u.val / 16 % 16)) (hexDigit (u.val % 16)) = some u := by
  have digit : ∀ n, hexValue (hexDigit (n % 16)) = some (n % 16) :=
    fun n => hexValue_hexDigit _ (Nat.mod_lt n (by decide))
  have back : 4096 * (u.val / 4096 % 16) + 256 * (u.val / 256 % 16) + 16 * (u.val / 16 % 16) +
      u.val % 16 = u.val := by
    have := u.isLt
    omega
  simp only [hex4, digit, Option.bind_eq_bind, Option.bind_some, back]
  rw [dif_pos u.isLt]

theorem scanString_quote (rest : Text) : scanString (codePoint '"' :: rest) = .ok ([], rest) := by
  rw [scanString.eq_def]
  exact if_pos rfl

theorem scanString_plain {c : CodePoint} (quote : c ≠ codePoint '"') (slash : c ≠ codePoint '\\')
    (control : 32 ≤ c.val) (rest : Text) : scanString (c :: rest) = push c (scanString rest) := by
  rw [scanString.eq_def]
  dsimp only
  rw [if_neg quote, if_neg (by omega), if_pos slash]

theorem scanString_short {e c : CodePoint} (named : backslash e = some c) (other : e ≠ codePoint 'u')
    (rest : Text) : scanString (codePoint '\\' :: e :: rest) = push c (scanString rest) := by
  rw [scanString.eq_def]
  dsimp only
  rw [if_neg (by decide), if_neg (by decide), if_neg (by decide), if_pos other, named]

/-- No escaped low surrogate stands here that `high` would be joined with. -/
def Alone (high : Fin 0x10000) (t : Text) : Prop :=
  ∀ a b c d more, t = codePoint '\\' :: codePoint 'u' :: a :: b :: c :: d :: more →
    (hex4 a b c d).bind (joinSurrogates high) = none

theorem scanString_unit {u : Fin 0x10000} {rest : Text} (alone : Alone u rest) :
    scanString (text "\\u" ++ hexText 4 u.val ++ rest) = push (unitPoint u) (scanString rest) := by
  show scanString (codePoint '\\' :: codePoint 'u' :: (hexText 4 u.val ++ rest)) = _
  rw [hexText_four, scanString.eq_def]
  simp only [List.cons_append, List.nil_append, hex4_hexText]
  rw [if_neg (by decide), if_neg (by decide), if_neg (by decide), if_neg (by decide)]
  split
  · rename_i s u' a b c d more
    by_cases escaped : s = codePoint '\\' ∧ u' = codePoint 'u'
    · obtain ⟨rfl, rfl⟩ := escaped
      simp only [and_self, if_true, alone a b c d more rfl]
    · simp only [if_neg escaped]
  · rfl

theorem scanString_pair {high low : Fin 0x10000} {c : CodePoint} (joined : joinSurrogates high low = some c)
    (rest : Text) : scanString (text "\\u" ++ hexText 4 high.val ++ (text "\\u" ++ hexText 4 low.val) ++ rest) =
      push c (scanString rest) := by
  show scanString (codePoint '\\' :: codePoint 'u' :: (hexText 4 high.val ++
    codePoint '\\' :: codePoint 'u' :: hexText 4 low.val ++ rest)) = _
  rw [hexText_four, hexText_four, scanString.eq_def]
  simp only [List.cons_append, List.nil_append, hex4_hexText]
  rw [if_neg (by decide), if_neg (by decide), if_neg (by decide), if_neg (by decide)]
  simp only [and_self, if_true, Option.bind_some, joined]

theorem joinSurrogates_some {high low : Fin 0x10000} {c : CodePoint} (h : joinSurrogates high low = some c) :
    0xD800 ≤ high.val ∧ high.val ≤ 0xDBFF ∧ 0xDC00 ≤ low.val ∧ low.val ≤ 0xDFFF := by
  unfold joinSurrogates at h
  simp only [Option.dite_none_right_eq_some] at h
  exact h.1.1

theorem joinSurrogates_split {c : CodePoint} (above : 0x10000 ≤ c.val) :
    joinSurrogates ⟨0xD800 + (c.val - 0x10000) / 0x400, by omega⟩
      ⟨0xDC00 + (c.val - 0x10000) % 0x400, by omega⟩ = some c := by
  have back : 0x10000 + (0xD800 + (c.val - 0x10000) / 0x400 - 0xD800) * 0x400 +
      (0xDC00 + (c.val - 0x10000) % 0x400 - 0xDC00) = c.val := by omega
  unfold joinSurrogates
  simp only [back]
  rw [dif_pos ⟨by omega, c.isLt⟩]

/-- The ways to write a character of a string. -/
inductive Escapes (c : CodePoint) : Text → Prop where
  | plain : c ≠ codePoint '"' → c ≠ codePoint '\\' → 32 ≤ c.val → Escapes c [c]
  | short (e : CodePoint) : backslash e = some c → e ≠ codePoint 'u' →
      Escapes c [codePoint '\\', e]
  | unit : c.val < 0x10000 → Escapes c (text "\\u" ++ hexText 4 c.val)
  | pair : 0x10000 ≤ c.val →
      Escapes c (text "\\u" ++ hexText 4 (0xD800 + (c.val - 0x10000) / 0x400) ++
        (text "\\u" ++ hexText 4 (0xDC00 + (c.val - 0x10000) % 0x400)))

theorem escapes_named {c : CodePoint} {n : CodePoint} {e : Char} (same : c = n)
    (named : backslash (codePoint e) = some n) (other : codePoint e ≠ codePoint 'u') :
    Escapes c [codePoint '\\', codePoint e] :=
  .short (codePoint e) (same ▸ named) other

theorem escapeAscii_escapes (c : CodePoint) : Escapes c (escapeAscii c) := by
  unfold escapeAscii
  split_ifs with quote slash b t n f r ascii unit
  · exact escapes_named quote (by decide) (by decide)
  · exact escapes_named slash (by decide) (by decide)
  · exact escapes_named (n := 8) (Fin.ext b) (by decide) (by decide)
  · exact escapes_named (n := 9) (Fin.ext t) (by decide) (by decide)
  · exact escapes_named (n := 10) (Fin.ext n) (by decide) (by decide)
  · exact escapes_named (n := 12) (Fin.ext f) (by decide) (by decide)
  · exact escapes_named (n := 13) (Fin.ext r) (by decide) (by decide)
  · exact .plain quote slash ascii.1
  · exact .unit unit
  · exact .pair (Nat.le_of_not_lt unit)

theorem escape_escapes (c : CodePoint) : Escapes c (escape c) := by
  unfold escape
  split_ifs with quote slash b t n f r control
  · exact escapes_named quote (by decide) (by decide)
  · exact escapes_named slash (by decide) (by decide)
  · exact escapes_named (n := 8) (Fin.ext b) (by decide) (by decide)
  · exact escapes_named (n := 9) (Fin.ext t) (by decide) (by decide)
  · exact escapes_named (n := 10) (Fin.ext n) (by decide) (by decide)
  · exact escapes_named (n := 12) (Fin.ext f) (by decide) (by decide)
  · exact escapes_named (n := 13) (Fin.ext r) (by decide) (by decide)
  · have four : text "\\u00" ++ [hexDigit (c.val / 16), hexDigit (c.val % 16)] =
        text "\\u" ++ hexText 4 c.val := by
      have high : c.val / 4096 % 16 = 0 ∧ c.val / 256 % 16 = 0 ∧ c.val / 16 % 16 = c.val / 16 := by omega
      rw [hexText_four, high.1, high.2.1, high.2.2]
      rfl
    rw [four]
    exact .unit (by omega)
  · exact .plain quote slash (Nat.le_of_not_lt control)

/-- What a character is written as is joined to the high surrogate before it only if it is a low one. -/
theorem Escapes.alone {high : Fin 0x10000} {c : CodePoint} {t : Text} (h : Escapes c t)
    (apart : ¬ (isHigh (unitPoint high) = true ∧ isLow c = true)) (rest : Text) :
    Alone high (t ++ rest) := by
  have unit : ∀ (u : Fin 0x10000) {a b x d : CodePoint} {more rest : Text},
      text "\\u" ++ hexText 4 u.val ++ rest = codePoint '\\' :: codePoint 'u' :: a :: b :: x :: d :: more →
      hex4 a b x d = some u := by
    intro u a b x d more rest same
    rw [hexText_four] at same
    injection same with _ same
    injection same with _ same
    injection same with ha same
    injection same with hb same
    injection same with hx same
    injection same with hd _
    rw [← ha, ← hb, ← hx, ← hd, hex4_hexText]
  intro a b x d more same
  cases h with
  | plain quote slash control => exact absurd (List.cons.inj same).1 slash
  | short e named other => exact absurd (List.cons.inj (List.cons.inj same).2).1 other
  | unit below =>
    rw [unit ⟨c.val, below⟩ same, Option.bind_some]
    refine Option.eq_none_iff_forall_ne_some.mpr fun joined eq => apart ?_
    have both := joinSurrogates_some eq
    simp only [isHigh, isLow, Bool.and_eq_true, decide_eq_true_eq]
    exact ⟨⟨both.1, both.2.1⟩, both.2.2⟩
  | pair above =>
    rw [List.append_assoc] at same
    rw [unit ⟨0xD800 + (c.val - 0x10000) / 0x400, by omega⟩ same, Option.bind_some]
    refine Option.eq_none_iff_forall_ne_some.mpr fun joined eq => ?_
    have both := joinSurrogates_some eq
    simp only at both
    omega

/-- The surrogates of the text are apart, or it is written so that they do not show as escapes. -/
def Legible (esc : CodePoint → Text) (s : Text) : Prop :=
  (∀ c, isHigh c = true → esc c = [c]) ∨ unpaired s = true

theorem scanString_escaped {esc : CodePoint → Text} (escapes : ∀ c, Escapes c (esc c)) {s : Text}
    (legible : Legible esc s) (rest : Text) :
    scanString (s.flatMap esc ++ codePoint '"' :: rest) = .ok (s, rest) := by
  induction s with
  | nil => exact scanString_quote rest
  | cons c s ih =>
    have tail : Legible esc s := legible.imp id fun apart => by
      cases s with
      | nil => rfl
      | cons d s => exact ((Bool.and_eq_true _ _).mp apart).2
    rw [List.flatMap_cons, List.append_assoc]
    have read := ih tail
    have written := escapes c
    generalize shape : esc c = t at written
    have pushed : push c (scanString (s.flatMap esc ++ codePoint '"' :: rest)) = .ok (c :: s, rest) := by
      rw [read]
      rfl
    refine Eq.trans ?_ pushed
    cases written with
    | plain quote slash control => exact scanString_plain quote slash control _
    | short e named other => exact scanString_short named other _
    | unit below =>
      refine scanString_unit (u := ⟨c.val, below⟩) ?_
      cases s with
      | nil => exact fun a b x d more same => absurd (List.cons.inj same).1 (by decide)
      | cons d s =>
        rw [List.flatMap_cons, List.append_assoc]
        refine (escapes d).alone (fun both => ?_) _
        cases legible with
        | inl kept =>
          have length := congrArg List.length ((kept c both.1).symm.trans shape)
          simp [hexText_four, text] at length
        | inr apart =>
          rw [unpaired, Bool.and_eq_true, Bool.not_eq_true'] at apart
          exact absurd (apart.1.symm.trans ((Bool.and_eq_true _ _).mpr both)) (by decide)
    | pair above => exact scanString_pair (joinSurrogates_split above) _

/-! Numbers. -/

/-- What may follow a number without being taken for a part of it. -/
def Stops (rest : Text) : Prop := ∀ c ∈ rest.head?, isDigit c = false ∧ c ∉ text ".eE"

theorem stops_nil : Stops [] := nofun

theorem stops_cons {c : CodePoint} (digit : isDigit c = false) (other : c ∉ text ".eE") (rest : Text) :
    Stops (c :: rest) := by
  intro d mem
  cases mem
  exact ⟨digit, other⟩

theorem digitsOf_append {ds t : Text} (digits : ∀ c ∈ ds, isDigit c = true)
    (ends : ∀ c ∈ t.head?, isDigit c = false) : digitsOf (ds ++ t) = ds := by
  unfold digitsOf
  rw [List.takeWhile_append_of_pos digits]
  cases t with
  | nil => simp
  | cons c t => rw [List.takeWhile_cons_of_neg (by simp [ends c rfl]), List.append_nil]

theorem IsExp.ends {exp rest : Text} (h : IsExp exp) (stops : Stops rest) :
    ∀ c ∈ (exp ++ rest).head?, isDigit c = false ∧ c ≠ codePoint '.' := by
  rcases h with rfl | ⟨e, mem, sign, -, ds, -, rfl⟩
  · intro c first
    have apart := stops c first
    exact ⟨apart.1, fun point => apart.2 (by rw [point]; decide)⟩
  · have letters : ∀ e ∈ ["e", "E"], ∃ c, text e = [c] ∧ isDigit c = false ∧ c ≠ codePoint '.' := by
      intro e mem
      simp only [List.mem_cons, List.not_mem_nil, or_false] at mem
      rcases mem with rfl | rfl
      · exact ⟨codePoint 'e', rfl, by decide, by decide⟩
      · exact ⟨codePoint 'E', rfl, by decide, by decide⟩
    obtain ⟨x, same, plain⟩ := letters e mem
    intro c first
    rw [same] at first
    cases first
    exact plain

theorem fractionOf_append {frac t : Text} (h : IsFrac frac)
    (ends : ∀ c ∈ t.head?, isDigit c = false ∧ c ≠ codePoint '.') : fractionOf (frac ++ t) = frac := by
  rcases h with rfl | ⟨ds, ⟨some, digits⟩, rfl⟩
  · rw [List.nil_append]
    match t, ends with
    | [], _ => rfl
    | [_], _ => rfl
    | c :: d :: more, ends =>
      rw [fractionOf, if_neg fun point => (ends c rfl).2 point.1]
  · cases ds with
    | nil => exact absurd rfl some
    | cons d ds =>
      show fractionOf (codePoint '.' :: d :: (ds ++ t)) = codePoint '.' :: d :: ds
      rw [fractionOf, if_pos ⟨rfl, digits d (by simp)⟩, digitsOf_append
        (fun c mem => digits c (List.mem_cons_of_mem _ mem)) fun c first => (ends c first).1]

theorem exponentOf_append {exp rest : Text} (h : IsExp exp) (stops : Stops rest) :
    exponentOf (exp ++ rest) = exp := by
  rcases h with rfl | ⟨e, letter, sign, signs, ds, ⟨some, digits⟩, rfl⟩
  · rw [List.nil_append]
    match rest, stops with
    | [], _ => rfl
    | c :: more, stops =>
      have apart : c ∉ text "eE" := fun mem => (stops c rfl).2 (List.mem_cons_of_mem _ mem)
      rw [exponentOf, if_neg apart]
  · have letters : ∀ e ∈ ["e", "E"], ∃ c, text e = [c] ∧ c ∈ text "eE" := by
      intro e mem
      simp only [List.mem_cons, List.not_mem_nil, or_false] at mem
      rcases mem with rfl | rfl
      · exact ⟨codePoint 'e', rfl, by decide⟩
      · exact ⟨codePoint 'E', rfl, by decide⟩
    obtain ⟨x, same, mem⟩ := letters e letter
    have whole : digitsOf (ds ++ rest) = ds := digitsOf_append digits fun c first => (stops c first).1
    have taken : ((text sign ++ (ds ++ rest)).take 1).filter (fun s => decide (s ∈ text "+-")) = text sign := by
      simp only [List.mem_cons, List.not_mem_nil, or_false] at signs
      rcases signs with rfl | rfl | rfl
      · cases ds with
        | nil => exact absurd rfl some
        | cons d ds =>
          have plain : ∀ s ∈ text "+-", isDigit s = false := each (by decide)
          have apart : d ∉ text "+-" := fun mem => by
            have digit := digits d (by simp)
            rw [plain d mem] at digit
            cases digit
          show ([d] : Text).filter _ = []
          simp [apart]
      · rfl
      · rfl
    rw [same]
    simp only [List.append_assoc, List.cons_append, List.nil_append, exponentOf, if_pos mem, taken,
      List.drop_left, whole, if_neg some]

/-- The longest number is taken, up to where it stops. -/
theorem matchNumber_append (toFloat : Text → PyFloat) {sign : String} {int frac exp rest : Text}
    (signs : sign ∈ ["", "-"]) (hi : IsInt int) (hf : IsFrac frac) (he : IsExp exp) (stops : Stops rest) :
    matchNumber toFloat (text sign ++ int ++ frac ++ exp ++ rest) =
      if frac ++ exp = [] then
        if maxStrDigits < int.length then .error .valueError else .ok (.int (intOf (text sign) int), rest)
      else .ok (.float (toFloat (text sign ++ int ++ frac ++ exp)), rest) := by
  have ends := he.ends stops
  have behind : ∀ c ∈ (frac ++ (exp ++ rest)).head?, isDigit c = false := by
    rcases hf with rfl | ⟨ds, -, rfl⟩
    · exact fun c first => (ends c first).1
    · intro c first
      cases first
      decide
  have full : int ≠ [] := by
    rcases hi with rfl | ⟨digits, -⟩
    · decide
    · exact digits.1
  have first : ((text sign ++ (int ++ (frac ++ (exp ++ rest)))).take 1).filter
      (fun s => decide (s = codePoint '-')) = text sign := by
    simp only [List.mem_cons, List.not_mem_nil, or_false] at signs
    rcases signs with rfl | rfl
    · cases int with
      | nil => exact absurd rfl full
      | cons d ds =>
        have digit : isDigit d = true := by
          rcases hi with zero | ⟨digits, -⟩
          · cases zero
            decide
          · exact digits.2 d (by simp)
        have apart : d ≠ codePoint '-' := fun minus => by
          rw [minus] at digit
          exact absurd digit (by decide)
        show ([d] : Text).filter _ = []
        simp [apart]
    · rfl
  have whole : (if (int ++ (frac ++ (exp ++ rest))).head? = some (codePoint '0')
      then (int ++ (frac ++ (exp ++ rest))).take 1 else digitsOf (int ++ (frac ++ (exp ++ rest)))) = int := by
    rcases hi with rfl | ⟨digits, lead⟩
    · rfl
    · rw [List.head?_append_of_ne_nil _ full, if_neg lead]
      exact digitsOf_append digits.2 behind
  simp only [List.append_assoc]
  unfold matchNumber
  simp only [first, List.drop_left, whole, if_neg full, fractionOf_append hf ends,
    exponentOf_append he stops]
  split
  · rename_i none
    rw [(List.append_eq_nil_iff.mp none).2]
    rfl
  · simp only [List.append_assoc]

theorem digitsValue_eq (ds : List Char) (n : Nat) (digits : ∀ c ∈ ds, c.isDigit = true) :
    (ds.map codePoint).foldl (fun n c => 10 * n + (c.val - 48)) n = Nat.ofDigitChars 10 ds n := by
  induction ds generalizing n with
  | nil => rfl
  | cons d ds ih =>
    rw [List.map_cons, List.foldl_cons, Nat.ofDigitChars_cons]
    exact ih _ fun c mem => digits c (List.mem_cons_of_mem _ mem)

theorem natOf_natText (n : Nat) : natOf (natText n) = n := by
  rw [natText_eq, natOf, digitsValue_eq _ _ fun c mem => Nat.isDigit_of_mem_toDigits (by decide) (by decide) mem]
  exact Nat.ofDigitChars_ten_toDigits

theorem natText_length {n : Nat} (short : n < 10 ^ maxStrDigits) : (natText n).length ≤ maxStrDigits := by
  rw [natText_eq, List.length_map]
  exact (Nat.length_toDigits_le_iff (by decide) (by decide)).mpr short

theorem matchNumber_int (toFloat : Text → PyFloat) {i : Int} (short : i.natAbs < 10 ^ maxStrDigits)
    {rest : Text} (stops : Stops rest) : matchNumber toFloat (intText i ++ rest) = .ok (.int i, rest) := by
  have read : ∀ (sign : String) (n : Nat), sign ∈ ["", "-"] → n < 10 ^ maxStrDigits →
      matchNumber toFloat (text sign ++ natText n ++ rest) = .ok (.int (intOf (text sign) (natText n)), rest) := by
    intro sign n signs small
    have whole := matchNumber_append toFloat signs (natText_int n) (.inl rfl) (.inl rfl) stops
    simp only [List.append_nil, if_true] at whole
    rw [whole, if_neg (Nat.not_lt.mpr (natText_length small))]
  cases i with
  | ofNat n =>
    have plain := read "" n (by decide) short
    rw [intOf, if_pos (by decide), natOf_natText] at plain
    exact plain
  | negSucc n =>
    have minus := read "-" (n + 1) (by decide) short
    rw [intOf, if_neg (by decide), natOf_natText] at minus
    exact minus

/-- A float never looks like an integer. -/
theorem Decimal.magnitude_marked (d : Decimal) : ∃ c ∈ d.magnitude, isDigit c = false := by
  unfold Decimal.magnitude
  dsimp only
  split
  · exact ⟨codePoint 'e', by simp [text], by decide⟩
  split
  · exact ⟨codePoint '.', by simp [text], by decide⟩
  split
  · exact ⟨codePoint '.', by simp [text], by decide⟩
  · exact ⟨codePoint '.', by simp [text], by decide⟩

theorem matchNumber_float (toFloat : Text → PyFloat) (d : Decimal) {rest : Text} (stops : Stops rest) :
    matchNumber toFloat (floatText (.finite d) ++ rest) =
      .ok (.float (toFloat (floatText (.finite d))), rest) := by
  obtain ⟨int, frac, exp, hi, hf, he, same⟩ := d.magnitude_number
  obtain ⟨sign, signs, hs⟩ := signText_mem d.negative
  have marked : frac ++ exp ≠ [] := by
    intro none
    obtain ⟨frac, exp⟩ := List.append_eq_nil_iff.mp none
    obtain ⟨c, mem, other⟩ := d.magnitude_marked
    rw [same, frac, exp, List.append_nil, List.append_nil] at mem
    have zero : ∀ c ∈ text "0", isDigit c = true := each (by decide)
    have digit : isDigit c = true := by
      rcases hi with rfl | ⟨digits, -⟩
      · exact zero c mem
      · exact digits.2 c mem
    rw [digit] at other
    cases other
  have shape : floatText (.finite d) = text sign ++ int ++ frac ++ exp := by
    rw [floatText, hs, same]
    simp only [List.append_assoc]
  rw [shape, matchNumber_append toFloat signs hi hf he stops, if_neg marked]

end Lib

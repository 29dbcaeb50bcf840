import ChatBackend.Lib.Json

/-! The grammar of RFC 8259, and when `dumps` keeps to it. What lies outside the strings of a JSON
text is made of few characters; an encoder that writes NaN or Infinity leaves that set. -/

namespace Lib

/-! The grammar. -/

def isDigit (c : CodePoint) : Bool := 48 ≤ c.val && c.val ≤ 57

def isHexDigit (c : CodePoint) : Bool :=
  isDigit c || (65 ≤ c.val && c.val ≤ 70) || (97 ≤ c.val && c.val ≤ 102)

def IsWs (t : Text) : Prop := ∀ c ∈ t, c ∈ text " \t\n\r"

def IsDigits (t : Text) : Prop := t ≠ [] ∧ ∀ c ∈ t, isDigit c = true

/-- No superfluous zero in front. -/
def IsInt (t : Text) : Prop :=
  t = text "0" ∨ (IsDigits t ∧ t.head? ≠ some (codePoint '0'))

def IsFrac (t : Text) : Prop := t = [] ∨ ∃ ds, IsDigits ds ∧ t = text "." ++ ds

def IsExp (t : Text) : Prop :=
  t = [] ∨ ∃ e ∈ ["e", "E"], ∃ sign ∈ ["", "-", "+"], ∃ ds, IsDigits ds ∧
    t = text e ++ text sign ++ ds

def IsNumber (t : Text) : Prop :=
  ∃ sign ∈ ["", "-"], ∃ int frac exp, IsInt int ∧ IsFrac frac ∧ IsExp exp ∧
    t = text sign ++ int ++ frac ++ exp

inductive IsChars : Text → Prop where
  | nil : IsChars []
  | unescaped (c : CodePoint) (t : Text) : 32 ≤ c.val → c ≠ codePoint '"' → c ≠ codePoint '\\' →
      IsChars t → IsChars (c :: t)
  | escaped (c : CodePoint) (t : Text) : c ∈ text "\"\\/bfnrt" → IsChars t →
      IsChars (codePoint '\\' :: c :: t)
  | hex (a b c d : CodePoint) (t : Text) : isHexDigit a = true → isHexDigit b = true →
      isHexDigit c = true → isHexDigit d = true → IsChars t →
      IsChars (codePoint '\\' :: codePoint 'u' :: a :: b :: c :: d :: t)

def IsString (t : Text) : Prop := ∃ chars, IsChars chars ∧ t = text "\"" ++ chars ++ text "\""

/-- The rules that call one another: a value, and what stands between the brackets of an array
and of an object that is not empty. -/
inductive Rule where
  | value
  | elements
  | members

inductive Derives : Rule → Text → Prop where
  | literal (s : String) : s ∈ ["null", "true", "false"] → Derives .value (text s)
  | number (t : Text) : IsNumber t → Derives .value t
  | string (t : Text) : IsString t → Derives .value t
  | emptyArray (ws : Text) : IsWs ws → Derives .value (text "[" ++ ws ++ text "]")
  | array (t : Text) : Derives .elements t → Derives .value (text "[" ++ t ++ text "]")
  | emptyObject (ws : Text) : IsWs ws → Derives .value (text "\x7b" ++ ws ++ text "\x7d")
  | object (t : Text) : Derives .members t → Derives .value (text "\x7b" ++ t ++ text "\x7d")
  | element (a t b : Text) : IsWs a → Derives .value t → IsWs b → Derives .elements (a ++ t ++ b)
  | nextElement (a t b rest : Text) : IsWs a → Derives .value t → IsWs b → Derives .elements rest →
      Derives .elements (a ++ t ++ b ++ text "," ++ rest)
  | member (a k b c t d : Text) : IsWs a → IsString k → IsWs b → IsWs c → Derives .value t → IsWs d →
      Derives .members (a ++ k ++ b ++ text ":" ++ c ++ t ++ d)
  | nextMember (a k b c t d rest : Text) : IsWs a → IsString k → IsWs b → IsWs c →
      Derives .value t → IsWs d → Derives .members rest →
      Derives .members (a ++ k ++ b ++ text ":" ++ c ++ t ++ d ++ text "," ++ rest)

/-- `JSON-text = ws value ws`. -/
def IsJson (t : Text) : Prop := ∃ a v b, IsWs a ∧ Derives .value v ∧ IsWs b ∧ t = a ++ v ++ b

/-! What lies outside the strings. -/

inductive Scan where
  | outside
  | inside
  | escaping
  deriving DecidableEq

/-- Where the scan is after a text, and what it met outside the strings. -/
def scan : Scan → Text → Text × Scan
  | s, [] => ([], s)
  | .outside, c :: t =>
    if c = codePoint '"' then scan .inside t
    else ((c :: (scan .outside t).1), (scan .outside t).2)
  | .inside, c :: t =>
    if c = codePoint '"' then scan .outside t
    else if c = codePoint '\\' then scan .escaping t
    else scan .inside t
  | .escaping, _ :: t => scan .inside t

theorem scan_append (s : Scan) (t u : Text) :
    scan s (t ++ u) = ((scan s t).1 ++ (scan (scan s t).2 u).1, (scan (scan s t).2 u).2) := by
  induction t generalizing s with
  | nil => cases s <;> rfl
  | cons c t ih =>
    cases s with
    | outside =>
      by_cases quote : c = codePoint '"'
      · simp only [List.cons_append, scan, if_pos quote, ih]
      · simp only [List.cons_append, scan, if_neg quote, ih]
    | inside =>
      by_cases quote : c = codePoint '"'
      · simp only [List.cons_append, scan, if_pos quote, ih]
      · by_cases slash : c = codePoint '\\'
        · simp only [List.cons_append, scan, if_neg quote, if_pos slash, ih]
        · simp only [List.cons_append, scan, if_neg quote, if_neg slash, ih]
    | escaping => simp only [List.cons_append, scan, ih]

/-- The text is whole: its strings are closed. -/
def Whole (t : Text) : Prop := (scan .outside t).2 = .outside

def outsideOf (t : Text) : Text := (scan .outside t).1

theorem Whole.append {t u : Text} (ht : Whole t) (hu : Whole u) :
    Whole (t ++ u) ∧ outsideOf (t ++ u) = outsideOf t ++ outsideOf u := by
  unfold Whole outsideOf at *
  rw [scan_append, ht]
  exact ⟨hu, rfl⟩

theorem whole_plain {t : Text} (h : codePoint '"' ∉ t) : Whole t ∧ outsideOf t = t := by
  unfold Whole outsideOf
  induction t with
  | nil => exact ⟨rfl, rfl⟩
  | cons c t ih =>
    obtain ⟨ne, rest⟩ := List.ne_and_not_mem_of_not_mem_cons h
    obtain ⟨whole, same⟩ := ih rest
    rw [scan, if_neg ne.symm]
    exact ⟨whole, by rw [same]⟩

theorem scan_chars {t : Text} (h : IsChars t) (u : Text) : scan .inside (t ++ u) = scan .inside u := by
  have notHex : ∀ c, isHexDigit c = true → c ≠ codePoint '"' ∧ c ≠ codePoint '\\' := by
    intro c hex
    constructor <;> rintro rfl <;> revert hex <;> decide
  induction h with
  | nil => rfl
  | unescaped c t _ quote slash _ ih =>
    rw [List.cons_append, scan, if_neg quote, if_neg slash, ih]
  | escaped c t _ _ ih => exact ih
  | hex a b c d t ha hb hc hd _ ih =>
    have skip : ∀ x, isHexDigit x = true → ∀ w, scan .inside (x :: w) = scan .inside w := by
      intro x hx w
      rw [scan, if_neg (notHex x hx).1, if_neg (notHex x hx).2]
    show scan .inside (a :: b :: c :: d :: (t ++ u)) = _
    rw [skip a ha, skip b hb, skip c hc, skip d hd, ih]

theorem whole_string {t : Text} (h : IsString t) : Whole t ∧ outsideOf t = [] := by
  obtain ⟨chars, hc, rfl⟩ := h
  have same : scan .outside (text "\"" ++ chars ++ text "\"") = scan .inside (text "\"") := by
    rw [List.append_assoc]
    exact scan_chars hc _
  unfold Whole outsideOf
  rw [same]
  exact ⟨rfl, rfl⟩

/-! What the grammar derives has no N and no I outside its strings. -/

def Ordinary (t : Text) : Prop := Whole t ∧ ∀ c ∈ outsideOf t, c ∉ text "NI"

theorem Ordinary.append {t u : Text} (ht : Ordinary t) (hu : Ordinary u) : Ordinary (t ++ u) := by
  obtain ⟨whole, outside⟩ := ht.1.append hu.1
  refine ⟨whole, fun c hc => ?_⟩
  rw [outside] at hc
  cases List.mem_append.mp hc with
  | inl left => exact ht.2 c left
  | inr right => exact hu.2 c right

theorem ordinary_plain {t : Text} (h : ∀ c ∈ t, c ∉ text "\"NI") : Ordinary t := by
  have plain : codePoint '"' ∉ t := fun mem => h _ mem (by decide)
  obtain ⟨whole, same⟩ := whole_plain plain
  refine ⟨whole, fun c hc special => ?_⟩
  rw [same] at hc
  exact h c hc (List.mem_cons_of_mem _ special)

theorem ordinary_string {t : Text} (h : IsString t) : Ordinary t := by
  obtain ⟨whole, outside⟩ := whole_string h
  refine ⟨whole, fun c hc => ?_⟩
  rw [outside] at hc
  cases hc

/-- To decide something of each character of a text without going through all code points. -/
theorem each {t : Text} {p : CodePoint → Prop} [DecidablePred p]
    (h : t.all (fun c => decide (p c)) = true) : ∀ c ∈ t, p c := by
  simpa using h

theorem ordinary_ws {t : Text} (h : IsWs t) : Ordinary t := by
  have apart : ∀ c ∈ text " \t\n\r", c ∉ text "\"NI" := each (by decide)
  exact ordinary_plain fun c hc => apart c (h c hc)

def IsNumberChar (c : CodePoint) : Prop := isDigit c = true ∨ c ∈ text "+-.eE"

theorem digits_chars {t : Text} (h : IsDigits t) : ∀ c ∈ t, IsNumberChar c :=
  fun c hc => .inl (h.2 c hc)

theorem number_chars {t : Text} (h : IsNumber t) : ∀ c ∈ t, IsNumberChar c := by
  obtain ⟨sign, hs, int, frac, exp, hi, hf, he, rfl⟩ := h
  have signs : ∀ sign ∈ ["", "-", "+", ".", "e", "E"], ∀ c ∈ text sign, IsNumberChar c := by
    intro sign mem c hc
    have all : ∀ sign ∈ ["", "-", "+", ".", "e", "E"],
        (text sign).all (fun c => decide (c ∈ text "+-.eE")) = true := by decide
    exact .inr (each (all sign mem) c hc)
  have ofInt : ∀ c ∈ int, IsNumberChar c := by
    rintro c hc
    cases hi with
    | inl zero =>
      subst zero
      have digit : ∀ c ∈ text "0", isDigit c = true := each (by decide)
      exact .inl (digit c hc)
    | inr digits => exact digits_chars digits.1 c hc
  have ofFrac : ∀ c ∈ frac, IsNumberChar c := by
    rintro c hc
    obtain rfl | ⟨ds, hd, rfl⟩ := hf
    · cases hc
    · cases List.mem_append.mp hc with
      | inl dot => exact signs "." (by decide) c dot
      | inr mem => exact digits_chars hd c mem
  have ofExp : ∀ c ∈ exp, IsNumberChar c := by
    rintro c hc
    obtain rfl | ⟨e, he, s, hs, ds, hd, rfl⟩ := he
    · cases hc
    · simp only [List.mem_append] at hc
      obtain (mark | sign) | mem := hc
      · exact signs e (by grind) c mark
      · exact signs s (by grind) c sign
      · exact digits_chars hd c mem
  intro c hc
  simp only [List.mem_append] at hc
  obtain ((mem | mem) | mem) | mem := hc
  · exact signs sign (by grind) c mem
  · exact ofInt c mem
  · exact ofFrac c mem
  · exact ofExp c mem

theorem numberChar_plain {c : CodePoint} (h : IsNumberChar c) : c ∉ text "\"NI" := by
  cases h with
  | inl digit =>
    have apart : ∀ c ∈ text "\"NI", ¬ isDigit c = true := each (by decide)
    exact fun mem => apart c mem digit
  | inr mem =>
    have apart : ∀ c ∈ text "+-.eE", c ∉ text "\"NI" := each (by decide)
    exact apart c mem

/-- One case for each rule. -/
theorem Derives.ordinary {r : Rule} {t : Text} (h : Derives r t) : Ordinary t := by
  have mark : ∀ s ∈ ["null", "true", "false", "[", "]", "\x7b", "\x7d", ",", ":"],
      Ordinary (text s) := by
    intro s mem
    have all : ∀ s ∈ ["null", "true", "false", "[", "]", "\x7b", "\x7d", ",", ":"],
        (text s).all (fun c => decide (c ∉ text "\"NI")) = true := by decide
    exact ordinary_plain (each (all s mem))
  induction h with
  | literal s mem => exact mark s (by grind)
  | number t number => exact ordinary_plain fun c hc => numberChar_plain (number_chars number c hc)
  | string t string => exact ordinary_string string
  | emptyArray ws h => exact ((mark "[" (by decide)).append (ordinary_ws h)).append (mark "]" (by decide))
  | array t _ ih => exact ((mark "[" (by decide)).append ih).append (mark "]" (by decide))
  | emptyObject ws h =>
    exact ((mark "\x7b" (by decide)).append (ordinary_ws h)).append (mark "\x7d" (by decide))
  | object t _ ih => exact ((mark "\x7b" (by decide)).append ih).append (mark "\x7d" (by decide))
  | element a t b ha _ hb ih => exact ((ordinary_ws ha).append ih).append (ordinary_ws hb)
  | nextElement a t b rest ha _ hb _ ih ihRest =>
    exact ((((ordinary_ws ha).append ih).append (ordinary_ws hb)).append
      (mark "," (by decide))).append ihRest
  | member a k b c t d ha hk hb hc _ hd ih =>
    exact ((((((ordinary_ws ha).append (ordinary_string hk)).append (ordinary_ws hb)).append
      (mark ":" (by decide))).append (ordinary_ws hc)).append ih).append (ordinary_ws hd)
  | nextMember a k b c t d rest ha hk hb hc _ hd _ ih ihRest =>
    exact ((((((((ordinary_ws ha).append (ordinary_string hk)).append (ordinary_ws hb)).append
      (mark ":" (by decide))).append (ordinary_ws hc)).append ih).append (ordinary_ws hd)).append
      (mark "," (by decide))).append ihRest

theorem IsJson.ordinary {t : Text} (h : IsJson t) : Ordinary t := by
  obtain ⟨a, v, b, ha, hv, hb, rfl⟩ := h
  exact ((ordinary_ws ha).append hv.ordinary).append (ordinary_ws hb)

end Lib

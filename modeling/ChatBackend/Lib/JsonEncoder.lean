import ChatBackend.Lib.JsonGrammar

/-! What `dumps` writes: a JSON text just when no float in the value is NaN or infinite, and one that
UTF-8 can encode just when no string in it has a surrogate. -/

namespace Lib

/-- Induction over values, with the hypothesis for each item and each member. -/
@[induction_eliminator]
theorem Json.induct {motive : Json → Prop} (null : motive .null) (bool : ∀ b, motive (.bool b))
    (int : ∀ i, motive (.int i)) (float : ∀ f, motive (.float f)) (str : ∀ s, motive (.str s))
    (arr : ∀ items : List Json, (∀ v ∈ items, motive v) → motive (.arr items))
    (obj : ∀ members : List (Text × Json), (∀ m ∈ members, motive m.2) → motive (.obj members)) :
    ∀ v, motive v
  | .null => null
  | .bool b => bool b
  | .int i => int i
  | .float f => float f
  | .str s => str s
  | .arr items => arr items fun v _ => Json.induct null bool int float str arr obj v
  | .obj members => obj members fun m _ => Json.induct null bool int float str arr obj m.2
termination_by v => sizeOf v
decreasing_by
  · have item : sizeOf v < sizeOf items := List.sizeOf_lt_of_mem (by assumption)
    simp only [Json.arr.sizeOf_spec]
    omega
  · obtain ⟨k, v⟩ := m
    have member : sizeOf (k, v) < sizeOf members := List.sizeOf_lt_of_mem (by assumption)
    simp only [Json.obj.sizeOf_spec, Prod.mk.sizeOf_spec] at member ⊢
    omega

/-! The encoder's numbers. -/

theorem isDigit_digit (d : Fin 10) : isDigit (digit d) = true := by
  revert d; decide

theorem digits_map (ds : List (Fin 10)) : ∀ c ∈ ds.map digit, isDigit c = true := by
  intro c hc
  obtain ⟨d, -, rfl⟩ := List.mem_map.mp hc
  exact isDigit_digit d

theorem natText_eq (n : Nat) : natText n = (Nat.toDigits 10 n).map codePoint := by
  show (toString n).toList.map codePoint = _
  rw [Nat.toString_eq_ofList_toDigits, String.toList_ofList]

theorem natText_digits (n : Nat) : IsDigits (natText n) := by
  rw [natText_eq]
  refine ⟨by simp, fun c hc => ?_⟩
  obtain ⟨d, mem, rfl⟩ := List.mem_map.mp hc
  have digit := Nat.isDigit_of_mem_toDigits (by decide) (by decide) mem
  simp only [Char.isDigit, Bool.and_eq_true, decide_eq_true_eq, ge_iff_le] at digit
  have low : 48 ≤ d.toNat := UInt32.le_iff_toNat_le.mp digit.1
  have high : d.toNat ≤ 57 := UInt32.le_iff_toNat_le.mp digit.2
  simp [isDigit, codePoint, low, high]

/-- Only zero begins with a zero. -/
theorem toDigits_head {n : Nat} (h : (Nat.toDigits 10 n).head? = some '0') : n = 0 := by
  induction n using Nat.strongRecOn with
  | ind n ih =>
    by_cases small : n < 10
    · rw [Nat.toDigits_of_lt_base small] at h
      have digits : ∀ m < 10, some (Nat.digitChar m) = some '0' → m = 0 := by decide
      exact digits n small h
    · rw [Nat.toDigits_of_base_le (by decide) (by omega),
        List.head?_append_of_ne_nil _ Nat.toDigits_ne_nil] at h
      have zero := ih (n / 10) (by omega) h
      omega

theorem natText_int (n : Nat) : IsInt (natText n) := by
  by_cases zero : n = 0
  · subst zero
    exact .inl rfl
  · refine .inr ⟨natText_digits n, fun head => zero (toDigits_head ?_)⟩
    rw [natText_eq, List.head?_map, Option.map_eq_some_iff] at head
    obtain ⟨d, first, same⟩ := head
    rw [first, codePoint_injective same]

theorem intText_number (i : Int) : IsNumber (intText i) := by
  cases i with
  | ofNat n => exact ⟨"", by decide, natText n, [], [], natText_int n, .inl rfl, .inl rfl, by simp [intText]; rfl⟩
  | negSucc n =>
    exact ⟨"-", by decide, natText (n + 1), [], [], natText_int (n + 1), .inl rfl, .inl rfl, by simp [intText]⟩

theorem exponentText_digits (n : Nat) : IsDigits (exponentText n) := by
  unfold exponentText
  split
  · refine ⟨by simp [text], fun c hc => ?_⟩
    have zero : ∀ c ∈ text "0", isDigit c = true := each (by decide)
    cases List.mem_append.mp hc with
    | inl mem => exact zero c mem
    | inr mem => exact (natText_digits n).2 c mem
  · exact natText_digits n

theorem signText_mem (b : Bool) : ∃ s ∈ ["", "-"], signText b = text s := by
  cases b with
  | false => exact ⟨"", by decide, rfl⟩
  | true => exact ⟨"-", by decide, rfl⟩

theorem Decimal.split (d : Decimal) : ∃ first rest, d.digits = first :: rest ∧
    (first = 0 → rest = [] ∧ d.point = 1) := by
  cases same : d.digits with
  | nil => exact absurd same d.nonempty
  | cons first rest =>
    refine ⟨first, rest, rfl, fun zero => ?_⟩
    have lead := d.lead
    rw [same, zero] at lead
    obtain ⟨single, point⟩ := lead rfl
    exact ⟨(List.cons.inj single).2, point⟩

/-- Digits that do not begin with a zero, or zero alone. -/
theorem isInt_cons {first : Fin 10} {more : Text} (digits : ∀ c ∈ more, isDigit c = true)
    (lead : first = 0 → more = []) : IsInt (digit first :: more) := by
  by_cases zero : first = 0
  · rw [zero, lead zero]
    exact .inl rfl
  · refine .inr ⟨⟨List.cons_ne_nil _ _, ?_⟩, fun head => zero ?_⟩
    · rintro c (_ | ⟨_, mem⟩)
      · exact isDigit_digit first
      · exact digits c mem
    · have inj : ∀ d : Fin 10, digit d = codePoint '0' → d = 0 := by decide
      exact inj first (Option.some.inj head)

theorem zeros_digits (n : Nat) : ∀ c ∈ List.replicate n (codePoint '0'), isDigit c = true := by
  intro c hc
  rw [List.eq_of_mem_replicate hc]
  rfl

theorem isFrac_dot (ds : Text) (h : IsDigits ds) : IsFrac (text "." ++ ds) := .inr ⟨ds, h, rfl⟩

theorem exponent_exp (e : Int) :
    IsExp (text "e" ++ (if e < 0 then text "-" else text "+") ++ exponentText e.natAbs) := by
  refine .inr ⟨"e", by decide, if e < 0 then "-" else "+", ?_, exponentText e.natAbs,
    exponentText_digits e.natAbs, ?_⟩
  · split <;> decide
  · split <;> rfl

theorem Decimal.magnitude_number (d : Decimal) : ∃ int frac exp,
    IsInt int ∧ IsFrac frac ∧ IsExp exp ∧ d.magnitude = int ++ frac ++ exp := by
  obtain ⟨first, rest, same, lead⟩ := d.split
  unfold Decimal.magnitude
  simp only [same, List.map_cons, List.length_cons]
  split
  · -- one digit before the point, and an exponent
    rename_i far
    have single : IsInt [digit first] := isInt_cons (by simp) fun _ => rfl
    refine ⟨[digit first], if rest.length + 1 ≤ 1 then [] else text "." ++ rest.map digit, _,
      single, ?_, exponent_exp (d.point - 1), by simp⟩
    split
    · exact .inl rfl
    · rename_i many
      refine isFrac_dot _ ⟨?_, digits_map rest⟩
      intro none
      simp only [List.map_eq_nil_iff] at none
      simp [none] at many
  · split
    · -- zeros behind the point
      refine ⟨text "0", _, [], .inl rfl,
        isFrac_dot (List.replicate d.point.natAbs (codePoint '0') ++
          digit first :: rest.map digit) ⟨by simp, ?_⟩, .inl rfl, ?_⟩
      · intro c hc
        rcases List.mem_append.mp hc with mem | mem
        · exact zeros_digits _ c mem
        · exact digits_map (first :: rest) c mem
      · simp [text]
    · split
      · -- the point stands among the digits
        rename_i positive inside
        obtain ⟨k, hk⟩ : ∃ k, d.point.toNat = k + 1 := ⟨d.point.toNat - 1, by omega⟩
        refine ⟨digit first :: (rest.map digit).take k, _, [], ?_,
          isFrac_dot ((rest.map digit).drop k) ⟨?_, ?_⟩, .inl rfl, ?_⟩
        · refine isInt_cons (fun c hc => digits_map rest c (List.mem_of_mem_take hc)) fun zero => ?_
          rw [(lead zero).1]
          simp
        · intro none
          simp only [List.drop_eq_nil_iff] at none
          simp only [List.length_map] at inside none
          omega
        · exact fun c hc => digits_map rest c (List.mem_of_mem_drop hc)
        · simp [hk]
      · -- zeros before the point
        rename_i positive inside
        refine ⟨digit first :: (rest.map digit ++
          List.replicate (d.point.toNat - (rest.length + 1)) (codePoint '0')), _, [], ?_,
          isFrac_dot (text "0") ⟨by decide, each (by decide)⟩, .inl rfl, ?_⟩
        · refine isInt_cons (fun c hc => ?_) fun zero => ?_
          · rcases List.mem_append.mp hc with mem | mem
            · exact digits_map rest c mem
            · exact zeros_digits _ c mem
          · obtain ⟨none, point⟩ := lead zero
            simp [none, point]
        · simp [text]

theorem floatText_number (d : Decimal) : IsNumber (floatText (.finite d)) := by
  obtain ⟨int, frac, exp, hi, hf, he, same⟩ := d.magnitude_number
  obtain ⟨sign, mem, hs⟩ := signText_mem d.negative
  refine ⟨sign, mem, int, frac, exp, hi, hf, he, ?_⟩
  simp only [floatText, hs, same, List.append_assoc]

/-! The encoder's strings. -/

theorem IsChars.append {t u : Text} (ht : IsChars t) (hu : IsChars u) : IsChars (t ++ u) := by
  induction ht with
  | nil => exact hu
  | unescaped c t low quote slash _ ih => exact .unescaped c _ low quote slash ih
  | escaped c t mem _ ih => exact .escaped c _ mem ih
  | hex a b c d t ha hb hc hd _ ih => exact .hex a b c d _ ha hb hc hd ih

theorem isHexDigit_hexDigit : ∀ n < 16, isHexDigit (hexDigit n) = true := by decide

theorem escape_chars (c : CodePoint) : IsChars (escape c) := by
  have short : ∀ x ∈ text "\"\\bfnrt", IsChars [codePoint '\\', x] := by
    intro x mem
    have all : ∀ x ∈ text "\"\\bfnrt", x ∈ text "\"\\/bfnrt" := each (by decide)
    exact .escaped x [] (all x mem) .nil
  unfold escape
  split_ifs with quote slash _ _ _ _ _ control
  · exact short (codePoint '"') (by decide)
  · exact short (codePoint '\\') (by decide)
  · exact short (codePoint 'b') (by decide)
  · exact short (codePoint 't') (by decide)
  · exact short (codePoint 'n') (by decide)
  · exact short (codePoint 'f') (by decide)
  · exact short (codePoint 'r') (by decide)
  · exact .hex (codePoint '0') (codePoint '0') _ _ [] rfl rfl
      (isHexDigit_hexDigit _ (by omega)) (isHexDigit_hexDigit _ (by omega)) .nil
  · exact .unescaped c [] (by omega) quote slash .nil

theorem strText_string (s : Text) : IsString (strText s) := by
  refine ⟨s.flatMap escape, ?_, rfl⟩
  induction s with
  | nil => exact .nil
  | cons c s ih => exact (escape_chars c).append ih

/-! A finite value is written by the grammar. -/

theorem isWs_nil : IsWs [] := fun _ hc => nomatch hc

theorem isWs_blank : IsWs (text " ") := each (by decide)

theorem IsWs.append {t u : Text} (ht : IsWs t) (hu : IsWs u) : IsWs (t ++ u) := by
  intro c hc
  cases List.mem_append.mp hc with
  | inl left => exact ht c left
  | inr right => exact hu c right

theorem Derives.padded {r : Rule} {t w : Text} (h : Derives r t) (inner : r ≠ .value) (hw : IsWs w) :
    Derives r (w ++ t) := by
  cases h with
  | literal | number | string | emptyArray | array | emptyObject | object => exact absurd rfl inner
  | element a t b ha ht hb =>
    rw [← List.append_assoc, ← List.append_assoc]
    exact .element (w ++ a) t b (hw.append ha) ht hb
  | nextElement a t b rest ha ht hb hr =>
    simp only [← List.append_assoc]
    exact .nextElement (w ++ a) t b rest (hw.append ha) ht hb hr
  | member a k b c t d ha hk hb hc ht hd =>
    simp only [← List.append_assoc]
    exact .member (w ++ a) k b c t d (hw.append ha) hk hb hc ht hd
  | nextMember a k b c t d rest ha hk hb hc ht hd hr =>
    simp only [← List.append_assoc]
    exact .nextMember (w ++ a) k b c t d rest (hw.append ha) hk hb hc ht hd hr

theorem comma_blank (t u : Text) : t ++ text ", " ++ u = t ++ text "," ++ (text " " ++ u) := by
  simp [text]

theorem colon_blank (k t : Text) : k ++ text ": " ++ t = k ++ text ":" ++ text " " ++ t := by
  simp [text]

theorem dumpsItems_derives {items : List Json} (ne : items ≠ []) (finite : everyItem (fun _ => true) Json.leafFinite items = true)
    (ih : ∀ v ∈ items, v.isFinite = true → Derives .value (dumps v)) :
    Derives .elements (dumpsItems items) := by
  induction items with
  | nil => exact absurd rfl ne
  | cons v rest next =>
    obtain ⟨head, tail⟩ := Bool.and_eq_true_iff.mp finite
    have value := ih v List.mem_cons_self head
    cases rest with
    | nil =>
      have one := Derives.element [] (dumps v) [] isWs_nil value isWs_nil
      rwa [List.append_nil] at one
    | cons w rest =>
      have others := next (by simp) tail fun u mem => ih u (List.mem_cons_of_mem _ mem)
      have all := Derives.nextElement [] (dumps v) [] _ isWs_nil value isWs_nil
        (others.padded nofun isWs_blank)
      rwa [List.append_nil, ← comma_blank] at all

theorem dumpsMembers_derives {members : List (Text × Json)} (ne : members ≠ [])
    (finite : everyMember (fun _ => true) Json.leafFinite members = true)
    (ih : ∀ m ∈ members, m.2.isFinite = true → Derives .value (dumps m.2)) :
    Derives .members (dumpsMembers members) := by
  induction members with
  | nil => exact absurd rfl ne
  | cons m rest next =>
    obtain ⟨k, v⟩ := m
    obtain ⟨head, tail⟩ := Bool.and_eq_true_iff.mp finite
    have value := ih (k, v) List.mem_cons_self head
    have key := strText_string k
    cases rest with
    | nil =>
      have one := Derives.member [] _ [] (text " ") _ [] isWs_nil key isWs_nil isWs_blank value isWs_nil
      rwa [List.append_nil, List.append_nil, ← colon_blank] at one
    | cons w rest =>
      have others := next (by simp) tail fun u mem => ih u (List.mem_cons_of_mem _ mem)
      have all := Derives.nextMember [] _ [] (text " ") _ [] _ isWs_nil key isWs_nil isWs_blank value
        isWs_nil (others.padded nofun isWs_blank)
      rwa [List.append_nil, List.append_nil, ← comma_blank, ← colon_blank] at all

theorem dumps_derives {v : Json} (finite : v.isFinite = true) : Derives .value (dumps v) := by
  induction v with
  | null => exact .literal "null" (by decide)
  | bool b =>
    cases b with
    | false => exact .literal "false" (by decide)
    | true => exact .literal "true" (by decide)
  | int i => exact .number _ (intText_number i)
  | float f =>
    cases f with
    | nan => cases finite
    | infinite => cases finite
    | finite d => exact .number _ (floatText_number d)
  | str s => exact .string _ (strText_string s)
  | arr items ih =>
    cases items with
    | nil => exact .emptyArray [] isWs_nil
    | cons v rest => exact .array _ (dumpsItems_derives (by simp) finite ih)
  | obj members ih =>
    cases members with
    | nil => exact .emptyObject [] isWs_nil
    | cons m rest => exact .object _ (dumpsMembers_derives (by simp) finite ih)

/-! Any other value leaves an N or an I outside the strings. -/

def Marked (finite : Bool) (t : Text) : Prop :=
  Whole t ∧ (finite = false → ∃ c ∈ outsideOf t, c ∈ text "NI")

theorem Ordinary.marked {t : Text} (h : Ordinary t) : Marked true t := ⟨h.1, nofun⟩

theorem Marked.append {p q : Bool} {t u : Text} (ht : Marked p t) (hu : Marked q u) :
    Marked (p && q) (t ++ u) := by
  obtain ⟨whole, outside⟩ := ht.1.append hu.1
  refine ⟨whole, fun spoilt => ?_⟩
  rw [outside]
  cases Bool.and_eq_false_iff.mp spoilt with
  | inl left =>
    obtain ⟨c, mem, special⟩ := ht.2 left
    exact ⟨c, List.mem_append_left _ mem, special⟩
  | inr right =>
    obtain ⟨c, mem, special⟩ := hu.2 right
    exact ⟨c, List.mem_append_right _ mem, special⟩

theorem marked_text {s : String} (h : (text s).all (fun c => decide (c ∉ text "\"NI")) = true) :
    Marked true (text s) :=
  (ordinary_plain (each h)).marked

theorem marked_strText (s : Text) : Marked true (strText s) := (ordinary_string (strText_string s)).marked

theorem marked_number {t : Text} (h : IsNumber t) : Marked true t :=
  (ordinary_plain fun c hc => numberChar_plain (number_chars h c hc)).marked

theorem dumpsItems_marked {items : List Json} (ih : ∀ v ∈ items, Marked v.isFinite (dumps v)) :
    Marked (everyItem (fun _ => true) Json.leafFinite items) (dumpsItems items) := by
  induction items with
  | nil => exact ⟨rfl, nofun⟩
  | cons v rest next =>
    have value := ih v List.mem_cons_self
    have others := next fun u mem => ih u (List.mem_cons_of_mem _ mem)
    cases rest with
    | nil => simpa only [everyItem, dumpsItems, Bool.and_true, Json.isFinite] using value
    | cons w rest =>
      have all := (value.append (marked_text (s := ", ") (by decide))).append others
      rwa [Bool.and_true] at all

theorem dumpsMembers_marked {members : List (Text × Json)}
    (ih : ∀ m ∈ members, Marked m.2.isFinite (dumps m.2)) :
    Marked (everyMember (fun _ => true) Json.leafFinite members) (dumpsMembers members) := by
  induction members with
  | nil => exact ⟨rfl, nofun⟩
  | cons m rest next =>
    obtain ⟨k, v⟩ := m
    have value := ((marked_strText k).append (marked_text (s := ": ") (by decide))).append
      (ih (k, v) List.mem_cons_self)
    have others := next fun u mem => ih u (List.mem_cons_of_mem _ mem)
    cases rest with
    | nil => simpa only [everyMember, dumpsMembers, Bool.and_true, Bool.true_and, Json.isFinite] using value
    | cons w rest =>
      have all := (value.append (marked_text (s := ", ") (by decide))).append others
      rwa [Bool.and_true, Bool.true_and, Bool.true_and] at all

theorem dumps_marked (v : Json) : Marked v.isFinite (dumps v) := by
  induction v with
  | null => exact marked_text (by decide)
  | bool b =>
    cases b with
    | false => exact marked_text (by decide)
    | true => exact marked_text (by decide)
  | int i => exact marked_number (intText_number i)
  | float f =>
    cases f with
    | nan => exact ⟨rfl, fun _ => ⟨codePoint 'N', by decide, by decide⟩⟩
    | infinite negative =>
      cases negative with
      | false => exact ⟨rfl, fun _ => ⟨codePoint 'I', by decide, by decide⟩⟩
      | true => exact ⟨rfl, fun _ => ⟨codePoint 'I', by decide, by decide⟩⟩
    | finite d => exact marked_number (floatText_number d)
  | str s => exact marked_strText s
  | arr items ih =>
    have all := ((marked_text (s := "[") (by decide)).append (dumpsItems_marked ih)).append
      (marked_text (s := "]") (by decide))
    rwa [Bool.and_true] at all
  | obj members ih =>
    have all := ((marked_text (s := "\x7b") (by decide)).append (dumpsMembers_marked ih)).append
      (marked_text (s := "\x7d") (by decide))
    rwa [Bool.and_true] at all

theorem dumps_isJson_iff (v : Json) : IsJson (dumps v) ↔ v.isFinite = true := by
  constructor
  · intro json
    cases finite : v.isFinite with
    | true => rfl
    | false =>
      obtain ⟨c, mem, special⟩ := (dumps_marked v).2 finite
      exact absurd special (json.ordinary.2 c mem)
  · intro finite
    exact ⟨[], dumps v, [], isWs_nil, dumps_derives finite, isWs_nil, by simp⟩

/-! Surrogates. -/

@[simp] theorem encodable_append (t u : Text) : encodable (t ++ u) = (encodable t && encodable u) :=
  List.all_append

theorem encodable_number {t : Text} (h : IsNumber t) : encodable t = true := by
  refine List.all_eq_true.mpr fun c hc => ?_
  have marks : ∀ c ∈ text "+-.eE", isSurrogate c = false := each (by decide)
  cases number_chars h c hc with
  | inl digit =>
    simp only [isDigit, Bool.and_eq_true, decide_eq_true_eq] at digit
    simp only [isSurrogate, Bool.not_eq_true', Bool.and_eq_false_iff, decide_eq_false_iff_not]
    omega
  | inr mark => rw [marks c mark]; rfl

theorem encodable_escape (c : CodePoint) : encodable (escape c) = !isSurrogate c := by
  have hex : ∀ n < 16, isSurrogate (hexDigit n) = false := by decide
  have low : c.val < 0xD800 → isSurrogate c = false := by
    intro small
    simp only [isSurrogate, Bool.and_eq_false_iff, decide_eq_false_iff_not]
    omega
  unfold escape
  split_ifs with quote slash
  · rw [quote]; rfl
  · rw [slash]; rfl
  iterate 5
    · rw [low (by omega)]
      rfl
  · have opening : encodable (text "\\u00") = true := by decide
    have digits : encodable [hexDigit (c.val / 16), hexDigit (c.val % 16)] = true := by
      simp only [encodable, List.all_cons, List.all_nil, hex (c.val / 16) (by omega),
        hex (c.val % 16) (by omega)]
      rfl
    rw [low (by omega), encodable_append, opening, digits]
    rfl
  · simp [encodable]

theorem encodable_strText (s : Text) : encodable (strText s) = encodable s := by
  have chars : encodable (s.flatMap escape) = encodable s := by
    induction s with
    | nil => rfl
    | cons c s ih => rw [List.flatMap_cons, encodable_append, ih, encodable_escape]; rfl
  have quote : encodable (text "\"") = true := by decide
  rw [strText, encodable_append, encodable_append, chars, quote, Bool.true_and, Bool.and_true]

theorem dumpsItems_encodable {items : List Json} (ih : ∀ v ∈ items, encodable (dumps v) = v.isScalar) :
    encodable (dumpsItems items) = everyItem encodable Json.leafScalar items := by
  have comma : encodable (text ", ") = true := by decide
  induction items with
  | nil => rfl
  | cons v rest next =>
    have value := ih v List.mem_cons_self
    have others := next fun u mem => ih u (List.mem_cons_of_mem _ mem)
    cases rest with
    | nil =>
      rw [dumpsItems, value, everyItem, everyItem, Bool.and_true]
      rfl
    | cons w rest =>
      rw [dumpsItems, encodable_append, encodable_append, value, comma, others, Bool.and_true]
      rfl

theorem dumpsMembers_encodable {members : List (Text × Json)}
    (ih : ∀ m ∈ members, encodable (dumps m.2) = m.2.isScalar) :
    encodable (dumpsMembers members) = everyMember encodable Json.leafScalar members := by
  have comma : encodable (text ", ") = true := by decide
  have colon : encodable (text ": ") = true := by decide
  induction members with
  | nil => rfl
  | cons m rest next =>
    obtain ⟨k, v⟩ := m
    have value := ih (k, v) List.mem_cons_self
    have others := next fun u mem => ih u (List.mem_cons_of_mem _ mem)
    cases rest with
    | nil =>
      simp only [dumpsMembers, everyMember, encodable_append, encodable_strText, value, colon,
        Bool.and_true]
      rfl
    | cons w rest =>
      rw [dumpsMembers]
      simp only [encodable_append, encodable_strText, value, colon, comma, others, Bool.and_true]
      rfl

theorem dumps_encodable (v : Json) : encodable (dumps v) = v.isScalar := by
  induction v with
  | null => decide
  | bool b =>
    cases b with
    | false => decide
    | true => decide
  | int i => exact encodable_number (intText_number i)
  | float f =>
    cases f with
    | nan => decide
    | infinite negative =>
      cases negative with
      | false => decide
      | true => decide
    | finite d => exact encodable_number (floatText_number d)
  | str s => exact encodable_strText s
  | arr items ih =>
    have brackets : encodable (text "[") = true ∧ encodable (text "]") = true := by decide
    rw [dumps, encodable_append, encodable_append, brackets.1, brackets.2, dumpsItems_encodable ih,
      Bool.true_and, Bool.and_true]
    rfl
  | obj members ih =>
    have braces : encodable (text "\x7b") = true ∧ encodable (text "\x7d") = true := by decide
    rw [dumps, encodable_append, encodable_append, braces.1, braces.2, dumpsMembers_encodable ih,
      Bool.true_and, Bool.and_true]
    rfl

end Lib

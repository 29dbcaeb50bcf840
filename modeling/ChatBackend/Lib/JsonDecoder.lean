import ChatBackend.Lib.JsonGrammar
import Mathlib.Data.List.Induction

/-! `json.loads` of a string, in the words of `json.decoder`: what it accepts beyond RFC 8259 (NaN,
the infinities, escaped surrogates without a partner), and the three ways it fails. -/

namespace Lib

inductive LoadsError where
  | valueError
  | recursionError
  /-- A loop below stopped before its end. Never: `loads_finished`. -/
  | unfinished
  deriving DecidableEq

/-- What was read, and the text after it. -/
abbrev Scanned (α : Type) := Except LoadsError (α × Text)

def skipWs (t : Text) : Text := t.dropWhile (fun c => decide (c ∈ text " \t\n\r"))

/-! Strings. -/

def hexValue (c : CodePoint) : Option Nat :=
  if isDigit c then some (c.val - 48)
  else if 97 ≤ c.val ∧ c.val ≤ 102 then some (c.val - 87)
  else if 65 ≤ c.val ∧ c.val ≤ 70 then some (c.val - 55)
  else none

def hex4 (a b c d : CodePoint) : Option (Fin 0x10000) := do
  let n := 4096 * (← hexValue a) + 256 * (← hexValue b) + 16 * (← hexValue c) + (← hexValue d)
  if h : n < 0x10000 then some ⟨n, h⟩ else none

def unitPoint (u : Fin 0x10000) : CodePoint := u.castLE (by decide)

def joinSurrogates (high low : Fin 0x10000) : Option CodePoint :=
  let n := 0x10000 + (high.val - 0xD800) * 0x400 + (low.val - 0xDC00)
  if h : (0xD800 ≤ high.val ∧ high.val ≤ 0xDBFF ∧ 0xDC00 ≤ low.val ∧ low.val ≤ 0xDFFF) ∧ n < 0x110000
  then some ⟨n, h.2⟩ else none

def backslash (c : CodePoint) : Option CodePoint :=
  (text "\"\\/bfnrt").zip (text "\"\\/" ++ [8, 12, 10, 13, 9]) |>.lookup c

def push (c : CodePoint) : Scanned Text → Scanned Text
  | .ok (s, rest) => .ok (c :: s, rest)
  | .error e => .error e

/-- `scanstring`, from behind the opening quote. -/
def scanString : Text → Scanned Text
  | [] => .error .valueError
  | c :: rest =>
    if c = codePoint '"' then .ok ([], rest)
    else if c.val < 32 then .error .valueError
    else if c ≠ codePoint '\\' then push c (scanString rest)
    else
      match rest with
      | [] => .error .valueError
      | e :: rest =>
        if e ≠ codePoint 'u' then
          match backslash e with
          | none => .error .valueError
          | some c => push c (scanString rest)
        else
          match rest with
          | a :: b :: c :: d :: rest =>
            match hex4 a b c d with
            | none => .error .valueError
            | some high =>
              match rest with
              | s :: u :: a :: b :: c :: d :: more =>
                -- a low surrogate escaped right after a high one
                match if s = codePoint '\\' ∧ u = codePoint 'u' then
                    (hex4 a b c d).bind (joinSurrogates high) else none with
                | some c => push c (scanString more)
                | none => push (unitPoint high) (scanString (s :: u :: a :: b :: c :: d :: more))
              | rest => push (unitPoint high) (scanString rest)
          | _ => .error .valueError

/-! Numbers. -/

def digitsOf (t : Text) : Text := t.takeWhile isDigit

/-- The digits after a point, with the point. -/
def fractionOf : Text → Text
  | c :: d :: rest => if c = codePoint '.' ∧ isDigit d then c :: d :: digitsOf rest else []
  | _ => []

/-- Backtracks when no digit follows. -/
def exponentOf : Text → Text
  | c :: rest =>
    if c ∈ text "eE" then
      let sign := rest.take 1 |>.filter (fun s => decide (s ∈ text "+-"))
      let digits := digitsOf (rest.drop sign.length)
      if digits = [] then [] else c :: sign ++ digits
    else []
  | [] => []

def natOf (digits : Text) : Nat := digits.foldl (fun n c => 10 * n + (c.val - 48)) 0

def intOf (sign digits : Text) : Int := if sign = [] then natOf digits else -natOf digits

/-- `_match_number`: an integer unless a fraction or an exponent follows. -/
def matchNumber (toFloat : Text → PyFloat) (t : Text) : Scanned Json :=
  let sign := t.take 1 |>.filter (fun s => decide (s = codePoint '-'))
  let t := t.drop sign.length
  let int := if t.head? = some (codePoint '0') then t.take 1 else digitsOf t
  if int = [] then .error .valueError
  else
    let t := t.drop int.length
    let frac := fractionOf t
    let t := t.drop frac.length
    let exp := exponentOf t
    if frac ++ exp = [] then
      if maxStrDigits < int.length then .error .valueError else .ok (.int (intOf sign int), t)
    else .ok (.float (toFloat (sign ++ int ++ frac ++ exp)), t.drop exp.length)

/-! Arrays and objects. -/

def expect (c : Char) : Text → Except LoadsError Text
  | [] => .error .valueError
  | d :: rest => if d = codePoint c then .ok rest else .error .valueError

/-- `d[key] = value`. -/
def setItem (members : List (Text × Json)) (key : Text) (value : Json) : List (Text × Json) :=
  if members.any (fun m => decide (m.1 = key))
  then members.map fun m => if m.1 = key then (key, value) else m
  else members ++ [(key, value)]

/-- From an item to behind the closing bracket; `scan` reads what stands inside. -/
def scanItems (scan : Text → Scanned Json) :
    Nat → List Json → Text → Except LoadsError (Json × Text)
  | 0, _, _ => .error .unfinished
  | fuel + 1, items, t => do
    let (value, t) ← scan t
    let items := items ++ [value]
    match skipWs t with
    | [] => .error .valueError
    | c :: t =>
      if c = codePoint ']' then .ok (.arr items, t)
      else if c = codePoint ',' then scanItems scan fuel items (skipWs t)
      else .error .valueError

/-- `_parse_array`, from behind the opening bracket. -/
def parseArray (scan : Text → Scanned Json) (t : Text) : Scanned Json :=
  match skipWs t with
  | [] => .error .valueError
  | c :: rest =>
    if c = codePoint ']' then .ok (.arr [], rest) else scanItems scan t.length [] (c :: rest)

/-- From a key to behind the closing brace. -/
def scanMembers (scan : Text → Scanned Json) :
    Nat → List (Text × Json) → Text → Except LoadsError (Json × Text)
  | 0, _, _ => .error .unfinished
  | fuel + 1, members, t => do
    let (key, t) ← scanString (← expect '"' t)
    let (value, t) ← scan (skipWs (← expect ':' (skipWs t)))
    let members := setItem members key value
    match skipWs t with
    | [] => .error .valueError
    | c :: t =>
      if c = codePoint '}' then .ok (.obj members, t)
      else if c = codePoint ',' then scanMembers scan fuel members (skipWs t)
      else .error .valueError

/-- `_parse_object`, from behind the opening brace. -/
def parseObject (scan : Text → Scanned Json) (t : Text) : Scanned Json :=
  match skipWs t with
  | [] => .error .valueError
  | c :: rest =>
    if c = codePoint '}' then .ok (.obj [], rest) else scanMembers scan t.length [] (c :: rest)

/-! Values. -/

def literals : List (String × Json) :=
  [("null", .null), ("true", .bool true), ("false", .bool false), ("NaN", .float .nan),
    ("Infinity", .float (.infinite false)), ("-Infinity", .float (.infinite true))]

/-- `scan_once`; `nested` reads what stands inside an array or an object, unless the interpreter's
limit has been reached. -/
def scanValue (toFloat : Text → PyFloat) (nested : Option (Text → Scanned Json)) (t : Text) :
    Scanned Json :=
  match t with
  | [] => .error .valueError
  | c :: rest =>
    if c = codePoint '"' then
      match scanString rest with
      | .ok (s, rest) => .ok (.str s, rest)
      | .error e => .error e
    else if c = codePoint '\x7b' then
      match nested with
      | none => .error .recursionError
      | some scan => parseObject scan rest
    else if c = codePoint '[' then
      match nested with
      | none => .error .recursionError
      | some scan => parseArray scan rest
    else
      match literals.find? (fun l => (text l.1).isPrefixOf t) with
      | some l => .ok (l.2, t.drop (text l.1).length)
      | none => matchNumber toFloat t

def scanOnce (toFloat : Text → PyFloat) : Nat → Text → Scanned Json
  | 0 => scanValue toFloat none
  | depth + 1 => scanValue toFloat (some (scanOnce toFloat depth))

def byteOrderMark : CodePoint := 0xFEFF

/-- `json.loads(t)`, where arrays and objects may be nested `depth` deep and `toFloat` is `float`. -/
def loads (toFloat : Text → PyFloat) (depth : Nat) (t : Text) : Except LoadsError Json :=
  if t.head? = some byteOrderMark then .error .valueError
  else
    match scanOnce toFloat depth (skipWs t) with
    | .error e => .error e
    | .ok (value, rest) => if skipWs rest = [] then .ok value else .error .valueError

-- the pair is one character, and the half that is left stays
example : (loads (fun _ => .nan) 1 (text "[\"\\ud83d\\ude00\\ud83d\", -7]")).toOption.map dumps =
    some (text "[\"" ++ [0x1F600, 0xD83D] ++ text "\", -7]") := by decide +kernel

/-! Every reader ends, and leaves less than it was given. -/

def Reads {α : Type} (P : α → Prop) (t : Text) : Scanned α → Prop
  | .ok (v, rest) => P v ∧ rest.length < t.length
  | .error e => e ≠ .unfinished

theorem Reads.longer {α : Type} {P : α → Prop} {t u : Text} {r : Scanned α} (h : Reads P t r)
    (shorter : t.length ≤ u.length) : Reads P u r := by
  cases r with
  | error e => exact h
  | ok read => exact ⟨h.1, Nat.lt_of_lt_of_le h.2 shorter⟩

theorem skipWs_length (t : Text) : (skipWs t).length ≤ t.length :=
  (List.dropWhile_sublist _).length_le

theorem push_reads {c : CodePoint} {t u : Text} {r : Scanned Text} (h : Reads (fun _ => True) u r)
    (shorter : u.length < t.length) : Reads (fun _ => True) t (push c r) := by
  cases r with
  | error e => exact h
  | ok read => exact ⟨trivial, Nat.lt_trans h.2 shorter⟩

theorem scanString_reads (t : Text) : Reads (fun _ => True) t (scanString t) := by
  fun_induction scanString t
  case case1 | case3 | case5 | case6 | case8 | case12 => exact nofun
  case case2 => exact ⟨trivial, Nat.lt_succ_self _⟩
  case case4 ih | case7 ih | case9 ih | case10 ih | case11 ih =>
    exact push_reads ih (by simp only [List.length_cons]; omega)

theorem expect_ok {c : Char} {t u : Text} (h : expect c t = .ok u) : u.length < t.length := by
  cases t with
  | nil => cases h
  | cons d rest =>
    rw [expect] at h
    split at h
    · cases h
      exact Nat.lt_succ_self _
    · cases h

theorem expect_error {c : Char} {t : Text} {e : LoadsError} (h : expect c t = .error e) :
    e ≠ .unfinished := by
  cases t with
  | nil => cases h; exact nofun
  | cons d rest =>
    rw [expect] at h
    split at h
    · cases h
    · cases h
      exact nofun

theorem setItem_mem {members : List (Text × Json)} {key : Text} {value : Json} {m : Text × Json}
    (h : m ∈ setItem members key value) : m = (key, value) ∨ m ∈ members := by
  unfold setItem at h
  split at h
  · obtain ⟨old, mem, rfl⟩ := List.mem_map.mp h
    by_cases same : old.1 = key
    · rw [if_pos same]
      exact .inl rfl
    · rw [if_neg same]
      exact .inr mem
  · cases List.mem_append.mp h with
    | inl old => exact .inr old
    | inr new => exact .inl (List.mem_singleton.mp new)

/-- What the decoder can build from what. -/
structure Built (P : Json → Prop) : Prop where
  literal : ∀ l ∈ literals, P l.2
  int : ∀ i : Int, i.natAbs < 10 ^ maxStrDigits → P (.int i)
  float : ∀ f, P (.float f)
  str : ∀ s, P (.str s)
  arr : ∀ items : List Json, (∀ v ∈ items, P v) → P (.arr items)
  obj : ∀ members : List (Text × Json), (∀ m ∈ members, P m.2) → P (.obj members)

section
variable {P : Json → Prop} {scan : Text → Scanned Json}

/-- What follows an item: the closing bracket, or a comma and the `next` item. -/
theorem ending_reads {close : Char} {value : Json} {next : Text → Scanned Json} {t left : Text}
    (good : P value) (shorter : left.length < t.length)
    (more : ∀ u, u.length < left.length → Reads P left (next (skipWs u))) :
    Reads P t (match skipWs left with
      | [] => .error .valueError
      | c :: u =>
        if c = codePoint close then .ok (value, u)
        else if c = codePoint ',' then next (skipWs u)
        else .error .valueError) := by
  have blank := skipWs_length left
  cases skip : skipWs left with
  | nil => exact nofun
  | cons c u =>
    rw [skip, List.length_cons] at blank
    show Reads P t (if _ then _ else _)
    split
    · exact ⟨good, by omega⟩
    · split
      · exact (more u blank).longer (by omega)
      · exact nofun

theorem scanItems_reads (built : Built P) (inner : ∀ t, Reads P t (scan t)) {fuel : Nat}
    {items : List Json} {t : Text} (good : ∀ v ∈ items, P v) (enough : 1 ≤ fuel)
    (fits : t.length ≤ fuel) : Reads P t (scanItems scan fuel items t) := by
  induction fuel generalizing items t with
  | zero => omega
  | succ fuel ih =>
    have first := inner t
    rw [scanItems]
    cases read : scan t with
    | error e =>
      rw [read] at first
      exact first
    | ok item =>
      obtain ⟨value, rest⟩ := item
      rw [read] at first
      have more : ∀ v ∈ items ++ [value], P v := by
        intro v mem
        cases List.mem_append.mp mem with
        | inl old => exact good v old
        | inr new => rw [List.mem_singleton.mp new]; exact first.1
      have short := first.2
      refine ending_reads (built.arr _ more) short fun u behind => ?_
      have blank := skipWs_length u
      exact (ih more (by omega) (by omega)).longer (by omega)

theorem scanMembers_reads (built : Built P) (inner : ∀ t, Reads P t (scan t)) {fuel : Nat}
    {members : List (Text × Json)} {t : Text} (good : ∀ m ∈ members, P m.2) (enough : 1 ≤ fuel)
    (fits : t.length ≤ fuel) : Reads P t (scanMembers scan fuel members t) := by
  induction fuel generalizing members t with
  | zero => omega
  | succ fuel ih =>
    rw [scanMembers]
    cases opened : expect '"' t with
    | error e => exact expect_error opened
    | ok quoted =>
      have name := scanString_reads quoted
      cases key : scanString quoted with
      | error e =>
        rw [key] at name
        simp only [bind, Except.bind, key]
        exact name
      | ok found =>
        obtain ⟨k, rest⟩ := found
        rw [key] at name
        cases colon : expect ':' (skipWs rest) with
        | error e =>
          simp only [bind, Except.bind, key, colon]
          exact expect_error colon
        | ok after =>
          have first := inner (skipWs after)
          cases read : scan (skipWs after) with
          | error e =>
            rw [read] at first
            simp only [bind, Except.bind, key, colon, read]
            exact first
          | ok item =>
            obtain ⟨value, left⟩ := item
            rw [read] at first
            have more : ∀ m ∈ setItem members k value, P m.2 := by
              intro m mem
              obtain rfl | old := setItem_mem mem
              · exact first.1
              · exact good m old
            have short : left.length + 3 ≤ t.length := by
              have := expect_ok opened
              have := name.2
              have := skipWs_length rest
              have := expect_ok colon
              have := skipWs_length after
              have := first.2
              omega
            simp only [bind, Except.bind, key, colon, read]
            refine ending_reads (built.obj _ more) (by omega) fun u behind => ?_
            have blank := skipWs_length u
            exact (ih more (by omega) (by omega)).longer (by omega)

theorem parseArray_reads (built : Built P) (inner : ∀ t, Reads P t (scan t)) (t : Text) :
    Reads P t (parseArray scan t) := by
  have blank := skipWs_length t
  unfold parseArray
  cases skip : skipWs t with
  | nil => exact nofun
  | cons c rest =>
    rw [skip, List.length_cons] at blank
    show Reads P t (if _ then _ else _)
    split
    · exact ⟨built.arr [] (by simp), by omega⟩
    · exact (scanItems_reads built inner (by simp) (by omega) blank).longer blank

theorem parseObject_reads (built : Built P) (inner : ∀ t, Reads P t (scan t)) (t : Text) :
    Reads P t (parseObject scan t) := by
  have blank := skipWs_length t
  unfold parseObject
  cases skip : skipWs t with
  | nil => exact nofun
  | cons c rest =>
    rw [skip, List.length_cons] at blank
    show Reads P t (if _ then _ else _)
    split
    · exact ⟨built.obj [] (by simp), by omega⟩
    · exact (scanMembers_reads built inner (by simp) (by omega) blank).longer blank

theorem natOf_lt {digits : Text} (h : ∀ c ∈ digits, isDigit c = true) :
    natOf digits < 10 ^ digits.length := by
  induction digits using List.reverseRecOn with
  | nil => decide
  | append_singleton ds c ih =>
    have small := ih fun d mem => h d (List.mem_append_left _ mem)
    have digit := h c (by simp)
    simp only [isDigit, Bool.and_eq_true, decide_eq_true_eq] at digit
    simp only [natOf, List.foldl_append, List.foldl_cons, List.foldl_nil, List.length_append,
      List.length_singleton, Nat.pow_succ] at small ⊢
    omega

theorem matchNumber_reads (built : Built P) (toFloat : Text → PyFloat) (t : Text) :
    Reads P t (matchNumber toFloat t) := by
  unfold matchNumber
  dsimp only
  generalize (t.take 1).filter (fun s => decide (s = codePoint '-')) = sign
  have signed : (t.drop sign.length).length ≤ t.length := by simp
  generalize t.drop sign.length = u at signed
  have digits : ∀ c ∈ (if u.head? = some (codePoint '0') then u.take 1 else digitsOf u),
      isDigit c = true := by
    cases u with
    | nil => simp [digitsOf]
    | cons d rest =>
      split
      · rename_i zero
        cases Option.some.inj zero
        simp only [List.take_succ_cons, List.take_zero]
        exact each (by decide)
      · exact fun c mem => List.all_eq_true.mp List.all_takeWhile c mem
  have inside : (if u.head? = some (codePoint '0') then u.take 1 else digitsOf u).length ≤ u.length := by
    split
    · exact (List.take_sublist 1 u).length_le
    · exact (List.takeWhile_sublist _).length_le
  generalize (if u.head? = some (codePoint '0') then u.take 1 else digitsOf u) = int at digits inside
  split
  · exact nofun
  · rename_i some
    have positive := List.length_pos_iff.mpr some
    split
    · split
      · exact nofun
      · rename_i short
        refine ⟨built.int _ ?_, ?_⟩
        · have bound := Nat.lt_of_lt_of_le (natOf_lt digits) (Nat.pow_le_pow_right (by decide)
            (Nat.le_of_not_lt short))
          unfold intOf
          split <;> omega
        · simp only [List.length_drop]
          omega
    · refine ⟨built.float _, ?_⟩
      simp only [List.length_drop]
      omega

theorem scanValue_reads (built : Built P) (toFloat : Text → PyFloat)
    {nested : Option (Text → Scanned Json)} (inner : ∀ scan ∈ nested, ∀ t, Reads P t (scan t))
    (t : Text) : Reads P t (scanValue toFloat nested t) := by
  cases t with
  | nil => exact nofun
  | cons c rest =>
    have below : rest.length ≤ (c :: rest).length := Nat.le_succ _
    unfold scanValue
    show Reads P _ (if _ then _ else _)
    split
    · have string := scanString_reads rest
      cases read : scanString rest with
      | error e =>
        rw [read] at string
        exact string
      | ok found =>
        rw [read] at string
        exact ⟨built.str _, Nat.lt_of_lt_of_le string.2 below⟩
    · split
      · cases nested with
        | none => exact nofun
        | some scan => exact (parseObject_reads built (inner scan rfl) rest).longer below
      · split
        · cases nested with
          | none => exact nofun
          | some scan => exact (parseArray_reads built (inner scan rfl) rest).longer below
        · cases found : literals.find? (fun l => (text l.1).isPrefixOf (c :: rest)) with
          | none => exact matchNumber_reads built toFloat (c :: rest)
          | some l =>
            have named : ∀ l ∈ literals, 0 < (text l.1).length := by decide
            have mem := List.mem_of_find?_eq_some found
            have positive := named l mem
            refine ⟨built.literal l mem, ?_⟩
            simp only [List.length_drop, List.length_cons]
            omega

/-- One more level of nesting. -/
theorem scanOnce_reads (built : Built P) (toFloat : Text → PyFloat) (depth : Nat) (t : Text) :
    Reads P t (scanOnce toFloat depth t) := by
  induction depth generalizing t with
  | zero => exact scanValue_reads built toFloat (by simp) t
  | succ depth ih =>
    refine scanValue_reads built toFloat (fun scan same => ?_) t
    cases same
    exact ih

theorem loads_built (built : Built P) {toFloat : Text → PyFloat} {depth : Nat} {t : Text} {v : Json}
    (h : loads toFloat depth t = .ok v) : P v := by
  have reads := scanOnce_reads built toFloat depth (skipWs t)
  unfold loads at h
  split at h
  · cases h
  · cases read : scanOnce toFloat depth (skipWs t) with
    | error e => simp only [read] at h; cases h
    | ok found =>
      obtain ⟨value, rest⟩ := found
      rw [read] at reads
      simp only [read] at h
      split at h
      · cases h
        exact reads.1
      · cases h

end

theorem loads_finished (toFloat : Text → PyFloat) (depth : Nat) (t : Text) :
    loads toFloat depth t ≠ .error .unfinished := by
  have anything : Built fun _ => True := by constructor <;> intros <;> trivial
  have reads := scanOnce_reads anything toFloat depth (skipWs t)
  unfold loads
  split
  · exact nofun
  · cases read : scanOnce toFloat depth (skipWs t) with
    | error e =>
      rw [read] at reads
      exact fun same => reads (Except.error.inj same)
    | ok found =>
      simp only
      split
      · exact nofun
      · exact nofun

/-- No integer was read that is too long to be written. -/
theorem loads_short {toFloat : Text → PyFloat} {depth : Nat} {t : Text} {v : Json}
    (h : loads toFloat depth t = .ok v) : v.isShort = true := by
  have built : Built fun v => v.isShort = true := by
    refine ⟨by decide, fun i short => ?_, fun _ => rfl, fun _ => rfl, fun _ good => everyItem_of good,
      fun _ good => everyMember_of fun m mem => ⟨rfl, good m mem⟩⟩
    unfold Json.isShort Json.every Json.leafShort
    exact decide_eq_true short
  exact loads_built built h

end Lib

import Mathlib.Data.Fin.Basic
import Mathlib.Data.List.DropRight
import Mathlib.Data.List.GetD
import Mathlib.Data.List.TakeDrop
import Mathlib.Data.List.TakeWhile
import Mathlib.Tactic.NormNum
import Mathlib.Tactic.Ring

/-! Identifiers, timestamps and the opaque pagination cursor.
A timestamp is a UTC datetime counted in microseconds from 0001-01-01, so the type
holds exactly the datetimes Python can build. The calendar, base64 and UUID texts are
written out; only the spellings that the encoder never produces are left to a parameter. -/

namespace ChatBackend

abbrev Uuid := Fin (2 ^ 128)

/-- Microseconds up to the end of year 9999. -/
abbrev Timestamp := Fin (3652059 * 86400000000)

instance Uuid.size_ne_zero : NeZero (2 ^ 128) := ⟨by decide⟩

instance Timestamp.size_ne_zero : NeZero (3652059 * 86400000000) := ⟨by decide⟩

instance Uuid.lawfulBEq : LawfulBEq Uuid := instLawfulBEq

/-- What the standard library makes of date and UUID texts in any other spelling. -/
structure Lenient where
  fromIsoformat : String → Option Timestamp
  uuid : String → Option Uuid

/-! Fixed-width numerals. -/

def digitChar (d : Nat) : Char := "0123456789abcdef".toList.getD d '0'

def digitValue (c : Char) : Option Nat :=
  if '0' ≤ c ∧ c ≤ '9' then some (c.toNat - 48)
  else if 'a' ≤ c ∧ c ≤ 'f' then some (c.toNat - 87)
  else if 'A' ≤ c ∧ c ≤ 'F' then some (c.toNat - 55)
  else none

def numeral (base : Nat) : Nat → Nat → List Char
  | 0, _ => []
  | w + 1, n => digitChar (n / base ^ w) :: numeral base w (n % base ^ w)

/-- Reads exactly `w` digits after the value `n` read so far. -/
def readDigits (base : Nat) : Nat → Nat → List Char → Option (Nat × List Char)
  | 0, n, cs => some (n, cs)
  | _ + 1, _, [] => none
  | w + 1, n, c :: cs =>
    match digitValue c with
    | some d => if d < base then readDigits base w (n * base + d) cs else none
    | none => none

def readNumber (base w : Nat) (cs : List Char) : Option (Nat × List Char) :=
  readDigits base w 0 cs

def readChar (c : Char) : List Char → Option (List Char)
  | d :: cs => if d = c then some cs else none
  | [] => none

theorem digitValue_digitChar : ∀ d < 16, digitValue (digitChar d) = some d := by decide

theorem readDigits_numeral (base : Nat) (hb : base ≤ 16) (w n k : Nat) (rest : List Char)
    (small : n < base ^ w) :
    readDigits base w k (numeral base w n ++ rest) = some (k * base ^ w + n, rest) := by
  induction w generalizing n k with
  | zero =>
    have zero : n = 0 := by simpa using small
    simp [numeral, readDigits, zero]
  | succ w ih =>
    have digit : n / base ^ w < base := Nat.div_lt_of_lt_mul (by rwa [Nat.pow_succ] at small)
    have nonzero : base ≠ 0 := by rintro rfl; simp at small
    have positive : 0 < base ^ w := Nat.pow_pos (Nat.pos_of_ne_zero nonzero)
    have value : (k * base + n / base ^ w) * base ^ w + n % base ^ w = k * base ^ (w + 1) + n := by
      have h := Nat.div_add_mod n (base ^ w)
      calc (k * base + n / base ^ w) * base ^ w + n % base ^ w
          = k * base ^ (w + 1) + (base ^ w * (n / base ^ w) + n % base ^ w) := by ring
        _ = k * base ^ (w + 1) + n := by rw [h]
    simp only [numeral, List.cons_append, readDigits,
      digitValue_digitChar _ (Nat.lt_of_lt_of_le digit hb), if_pos digit]
    rw [ih _ _ (Nat.mod_lt _ positive), value]

theorem readNumber_numeral {base w n : Nat} (hb : base ≤ 16) (small : n < base ^ w)
    (rest : List Char) : readNumber base w (numeral base w n ++ rest) = some (n, rest) := by
  rw [readNumber, readDigits_numeral base hb w n 0 rest small, Nat.zero_mul, Nat.zero_add]

@[simp] theorem readChar_cons (c : Char) (cs : List Char) : readChar c (c :: cs) = some cs := by
  simp [readChar]

/-- To decide something of each character of a list without going through all characters. -/
theorem eachChar {cs : List Char} {p : Char → Prop} [DecidablePred p]
    (h : cs.all (fun c => decide (p c)) = true) : ∀ c ∈ cs, p c := by
  simpa using h

theorem getD_mem {cs : List Char} {c : Char} (default : c ∈ cs) (i : Nat) : cs.getD i c ∈ cs := by
  by_cases h : i < cs.length
  · rw [List.getD_eq_getElem _ _ h]
    exact List.getElem_mem h
  · rw [List.getD_eq_default _ _ (Nat.le_of_not_lt h)]
    exact default

theorem digitChar_mem (d : Nat) : digitChar d ∈ "0123456789abcdef".toList := getD_mem (by decide) d

theorem mem_numeral {base w n : Nat} {c : Char} (h : c ∈ numeral base w n) :
    c ∈ "0123456789abcdef".toList := by
  induction w generalizing n with
  | zero => cases h
  | succ w ih =>
    rcases List.mem_cons.mp h with rfl | h
    · exact digitChar_mem _
    · exact ih h

theorem length_numeral (base w n : Nat) : (numeral base w n).length = w := by
  induction w generalizing n with
  | zero => rfl
  | succ w ih => rw [numeral, List.length_cons, ih]

/-! The calendar of `datetime`. Days are counted from 0, where Python's ordinals start at 1. -/

def isLeap (year : Nat) : Bool := year % 4 == 0 && (year % 100 != 0 || year % 400 == 0)

def daysBeforeYear (year : Nat) : Nat :=
  (year - 1) * 365 + (year - 1) / 4 - (year - 1) / 100 + (year - 1) / 400

def daysBeforeMonth (leap : Bool) (month : Nat) : Nat :=
  [0, 0, 31, 59, 90, 120, 151, 181, 212, 243, 273, 304, 334].getD month 0 +
    (if leap && 2 < month then 1 else 0)

def daysInMonth (leap : Bool) (month : Nat) : Nat :=
  [0, 31, 28, 31, 30, 31, 30, 31, 31, 30, 31, 30, 31].getD month 0 +
    (if leap && month == 2 then 1 else 0)

structure Date where
  year : Nat
  month : Nat
  day : Nat

def dayOfMonth (leap : Bool) (n : Nat) : Nat × Nat :=
  let month := (n + 50) / 32
  if n < daysBeforeMonth leap month then
    (month - 1, n - daysBeforeMonth leap (month - 1) + 1)
  else (month, n - daysBeforeMonth leap month + 1)

def ordToYmd (days : Nat) : Date :=
  let n400 := days / 146097
  let r400 := days % 146097
  let n100 := r400 / 36524
  let r100 := r400 % 36524
  let n4 := r100 / 1461
  let r4 := r100 % 1461
  let n1 := r4 / 365
  let n := r4 % 365
  let year := n400 * 400 + 1 + n100 * 100 + n4 * 4 + n1
  if n1 = 4 ∨ n100 = 4 then ⟨year - 1, 12, 31⟩
  else
    let leap := n1 == 3 && (n4 != 24 || n100 == 3)
    let md := dayOfMonth leap n
    ⟨year, md.1, md.2⟩

def ymdToOrd (d : Date) : Option Nat :=
  if 1 ≤ d.year ∧ d.year ≤ 9999 ∧ 1 ≤ d.month ∧ d.month ≤ 12 ∧ 1 ≤ d.day ∧
      d.day ≤ daysInMonth (isLeap d.year) d.month then
    some (daysBeforeYear d.year + daysBeforeMonth (isLeap d.year) d.month + d.day - 1)
  else none

theorem dayOfMonth_spec : ∀ leap : Bool, ∀ n < 365 + leap.toNat,
    1 ≤ (dayOfMonth leap n).1 ∧ (dayOfMonth leap n).1 ≤ 12 ∧ 1 ≤ (dayOfMonth leap n).2 ∧
    (dayOfMonth leap n).2 ≤ daysInMonth leap (dayOfMonth leap n).1 ∧
    daysBeforeMonth leap (dayOfMonth leap n).1 + (dayOfMonth leap n).2 = n + 1 := by
  decide +kernel

theorem isLeap_ordToYmd (n400 : Nat) {n100 n4 n1 : Nat} (h100 : n100 ≤ 3) (h4 : n4 ≤ 24) (h1 : n1 ≤ 3) :
    isLeap (n400 * 400 + 1 + n100 * 100 + n4 * 4 + n1) = (n1 == 3 && (n4 != 24 || n100 == 3)) := by
  unfold isLeap
  rw [Bool.eq_iff_iff]
  simp only [Bool.and_eq_true, Bool.or_eq_true, beq_iff_eq, bne_iff_ne]
  omega

theorem daysBeforeYear_cycles (n400 : Nat) {n100 n4 n1 : Nat} (h100 : n100 ≤ 3) (h4 : n4 ≤ 24)
    (h1 : n1 ≤ 3) : daysBeforeYear (n400 * 400 + 1 + n100 * 100 + n4 * 4 + n1) =
      n400 * 146097 + n100 * 36524 + n4 * 1461 + n1 * 365 := by
  have p4 : (n400 * 400 + 1 + n100 * 100 + n4 * 4 + n1 - 1) / 4 = n400 * 100 + n100 * 25 + n4 := by
    omega
  have p100 : (n400 * 400 + 1 + n100 * 100 + n4 * 4 + n1 - 1) / 100 = n400 * 4 + n100 := by omega
  have p400 : (n400 * 400 + 1 + n100 * 100 + n4 * 4 + n1 - 1) / 400 = n400 := by omega
  rw [daysBeforeYear, p4, p100, p400]
  omega

theorem ymdToOrd_cycles {n400 n100 n4 n1 : Nat} (month day : Nat) (h100 : n100 ≤ 3) (h4 : n4 ≤ 24)
    (h1 : n1 ≤ 3) (last : n400 * 400 + 1 + n100 * 100 + n4 * 4 + n1 ≤ 9999) (m1 : 1 ≤ month) (m12 : month ≤ 12) (d1 : 1 ≤ day)
    (inside : day ≤ daysInMonth (n1 == 3 && (n4 != 24 || n100 == 3)) month) :
    ymdToOrd ⟨n400 * 400 + 1 + n100 * 100 + n4 * 4 + n1, month, day⟩ =
      some (n400 * 146097 + n100 * 36524 + n4 * 1461 + n1 * 365 +
        daysBeforeMonth (n1 == 3 && (n4 != 24 || n100 == 3)) month + (day - 1)) := by
  have leap := isLeap_ordToYmd n400 h100 h4 h1
  have year := daysBeforeYear_cycles n400 h100 h4 h1
  unfold ymdToOrd
  dsimp only
  rw [leap, year, if_pos ⟨by omega, by omega, m1, m12, d1, inside⟩, Nat.add_sub_assoc d1]

/-- `date.fromordinal` and `date.toordinal` are inverse on the years that exist. -/
theorem ymdToOrd_ordToYmd {days : Nat} (small : days < 3652059) :
    ymdToOrd (ordToYmd days) = some days := by
  unfold ordToYmd
  dsimp only
  generalize e400 : days / 146097 = n400
  generalize f400 : days % 146097 = r400
  generalize e100 : r400 / 36524 = n100
  generalize f100 : r400 % 36524 = r100
  generalize e4 : r100 / 1461 = n4
  generalize f4 : r100 % 1461 = r4
  generalize e1 : r4 / 365 = n1
  generalize f1 : r4 % 365 = n
  have total : days = n400 * 146097 + n100 * 36524 + n4 * 1461 + n1 * 365 + n := by omega
  have h4 : n4 ≤ 24 := by omega
  have century : n100 = 4 ∧ n4 = 0 ∧ n1 = 0 ∧ n = 0 ∨ n100 ≤ 3 := by omega
  have leapDay : n1 = 4 ∧ n4 ≠ 24 ∧ n = 0 ∨ n1 ≤ 3 ∧ n < 365 := by omega
  clear e400 f400 e100 f100 e4 f4 e1 f1
  have december : daysBeforeMonth true 12 = 335 := by decide
  -- The last day of a leap year falls outside the counts of whole years.
  rcases century with ⟨rfl, rfl, rfl, rfl⟩ | h100
  · have h := ymdToOrd_cycles 12 31 (Nat.le_refl 3) (Nat.le_refl 24) (Nat.le_refl 3)
      (by omega : n400 * 400 + 1 + 3 * 100 + 24 * 4 + 3 ≤ 9999) (by omega) (by omega) (by omega)
      (by decide)
    have leap : ((3 : Nat) == 3 && ((24 : Nat) != 24 || (3 : Nat) == 3)) = true := by decide
    have year : n400 * 400 + 1 + 4 * 100 + 0 * 4 + 0 - 1 = n400 * 400 + 1 + 3 * 100 + 24 * 4 + 3 := by
      omega
    have count : n400 * 146097 + 3 * 36524 + 24 * 1461 + 3 * 365 + 335 + (31 - 1) =
        n400 * 146097 + 4 * 36524 + 0 * 1461 + 0 * 365 + 0 := by norm_num [Nat.add_assoc]
    rw [if_pos (.inr rfl), year, h, leap, december, count, total]
  · rcases leapDay with ⟨rfl, ne, rfl⟩ | ⟨h1, inside⟩
    · have leap : ((3 : Nat) == 3 && (n4 != 24 || n100 == 3)) = true := by simp [ne]
      have h := ymdToOrd_cycles 12 31 h100 h4 (Nat.le_refl 3)
        (by omega : n400 * 400 + 1 + n100 * 100 + n4 * 4 + 3 ≤ 9999) (by omega) (by omega) (by omega)
        (by rw [leap]; decide)
      have year : n400 * 400 + 1 + n100 * 100 + n4 * 4 + 4 - 1 =
          n400 * 400 + 1 + n100 * 100 + n4 * 4 + 3 := by omega
      have count : n400 * 146097 + n100 * 36524 + n4 * 1461 + 3 * 365 + 335 + (31 - 1) =
          n400 * 146097 + n100 * 36524 + n4 * 1461 + 4 * 365 + 0 := by norm_num [Nat.add_assoc]
      rw [if_pos (.inl rfl), year, h, leap, december, count, total]
    · obtain ⟨m1, m12, d1, dm, sum⟩ := dayOfMonth_spec (n1 == 3 && (n4 != 24 || n100 == 3)) n
        (Nat.lt_of_lt_of_le inside (Nat.le_add_right _ _))
      rw [if_neg (by omega), ymdToOrd_cycles _ _ h100 h4 h1 (by omega) m1 m12 d1 dm]
      congr 1
      omega

/-! `datetime.isoformat` of a UTC datetime, and `datetime.fromisoformat` on such texts. -/

def ordToText (days : Nat) : List Char :=
  let d := ordToYmd days
  numeral 10 4 d.year ++ '-' :: numeral 10 2 d.month ++ '-' :: numeral 10 2 d.day

/-- A zero microsecond part is not written. -/
def isoText (t : Nat) : List Char :=
  let seconds := t / 1000000
  let micros := t % 1000000
  ordToText (seconds / 86400) ++ 'T' :: numeral 10 2 (seconds % 86400 / 3600) ++
    ':' :: numeral 10 2 (seconds % 3600 / 60) ++ ':' :: numeral 10 2 (seconds % 60) ++
    (if micros = 0 then [] else '.' :: numeral 10 6 micros) ++ "+00:00".toList

def isoformat (t : Timestamp) : List Char := isoText t.val

def readFraction (cs : List Char) : Option (Nat × List Char) :=
  match readChar '.' cs with
  | some cs => readNumber 10 6 cs
  | none => some (0, cs)

def readDate (cs : List Char) : Option (Nat × List Char) := do
  let (year, cs) ← readNumber 10 4 cs
  let cs ← readChar '-' cs
  let (month, cs) ← readNumber 10 2 cs
  let cs ← readChar '-' cs
  let (day, cs) ← readNumber 10 2 cs
  let days ← ymdToOrd ⟨year, month, day⟩
  some (days, cs)

def readTime (cs : List Char) : Option (Nat × List Char) := do
  let (hour, cs) ← readNumber 10 2 cs
  let cs ← readChar ':' cs
  let (minute, cs) ← readNumber 10 2 cs
  let cs ← readChar ':' cs
  let (second, cs) ← readNumber 10 2 cs
  if hour < 24 ∧ minute < 60 ∧ second < 60 then some (hour * 3600 + minute * 60 + second, cs)
  else none

def readMicros (cs : List Char) : Option Nat := do
  let (days, cs) ← readDate cs
  let cs ← readChar 'T' cs
  let (seconds, cs) ← readTime cs
  let (micros, cs) ← readFraction cs
  if cs = "+00:00".toList then some ((days * 86400 + seconds) * 1000000 + micros) else none

def timestamp (t : Nat) : Option Timestamp :=
  if h : t < 3652059 * 86400000000 then some ⟨t, h⟩ else none

def readIsoformat (cs : List Char) : Option Timestamp := (readMicros cs).bind timestamp

def fromIsoformat (env : Lenient) (s : String) : Option Timestamp :=
  readIsoformat s.toList <|> env.fromIsoformat s

theorem ymdToOrd_range {d : Date} {n : Nat} (h : ymdToOrd d = some n) :
    d.year < 10 ^ 4 ∧ d.month < 10 ^ 2 ∧ d.day < 10 ^ 2 := by
  unfold ymdToOrd at h
  split at h
  · rename_i ok
    have days : ∀ leap : Bool, ∀ month < 13, daysInMonth leap month ≤ 31 := by decide
    have := days (isLeap d.year) d.month (by omega)
    omega
  · cases h

theorem readDate_ordToText {days : Nat} (small : days < 3652059) (rest : List Char) :
    readDate (ordToText days ++ rest) = some (days, rest) := by
  have back := ymdToOrd_ordToYmd small
  obtain ⟨year, month, day⟩ := ymdToOrd_range back
  simp only [readDate, ordToText, List.append_assoc, List.cons_append,
    readNumber_numeral (by decide : 10 ≤ 16) year, readNumber_numeral (by decide : 10 ≤ 16) month,
    readNumber_numeral (by decide : 10 ≤ 16) day, readChar_cons, Option.bind_eq_bind,
    Option.bind_some, back]

theorem readTime_text {hour minute second : Nat} (h : hour < 24) (m : minute < 60) (s : second < 60)
    (rest : List Char) :
    readTime (numeral 10 2 hour ++ ':' :: (numeral 10 2 minute ++ ':' :: (numeral 10 2 second ++ rest)))
      = some (hour * 3600 + minute * 60 + second, rest) := by
  simp only [readTime, readNumber_numeral (by decide : 10 ≤ 16) (by omega : hour < 10 ^ 2),
    readNumber_numeral (by decide : 10 ≤ 16) (by omega : minute < 10 ^ 2),
    readNumber_numeral (by decide : 10 ≤ 16) (by omega : second < 10 ^ 2), readChar_cons,
    Option.bind_eq_bind, Option.bind_some, h, m, s, and_self, if_true]

theorem readFraction_text {micros : Nat} (small : micros < 10 ^ 6) :
    readFraction ((if micros = 0 then [] else '.' :: numeral 10 6 micros) ++ "+00:00".toList) =
      some (micros, "+00:00".toList) := by
  split
  · rename_i zero
    subst zero
    decide
  · simp only [readFraction, List.cons_append, readChar_cons,
      readNumber_numeral (by decide : 10 ≤ 16) small]

theorem readMicros_isoText {t : Nat} (small : t < 3652059 * 86400000000) :
    readMicros (isoText t) = some t := by
  have days : t / 1000000 / 86400 < 3652059 := by omega
  have hour : t / 1000000 % 86400 / 3600 < 24 := by omega
  have minute : t / 1000000 % 3600 / 60 < 60 := by omega
  have second : t / 1000000 % 60 < 60 := by omega
  have micros : t % 1000000 < 10 ^ 6 := by omega
  have value : (t / 1000000 / 86400 * 86400 + (t / 1000000 % 86400 / 3600 * 3600 +
      t / 1000000 % 3600 / 60 * 60 + t / 1000000 % 60)) * 1000000 + t % 1000000 = t := by omega
  have fraction := readFraction_text micros
  unfold readMicros isoText
  generalize "+00:00".toList = zone at fraction ⊢
  simp only [List.append_assoc, List.cons_append, readDate_ordToText days, readChar_cons,
    readTime_text hour minute second, fraction, Option.bind_eq_bind, Option.bind_some, value, if_true]

theorem readIsoformat_isoformat (t : Timestamp) : readIsoformat (isoformat t) = some t := by
  rw [readIsoformat, isoformat, readMicros_isoText t.isLt, Option.bind_some, timestamp,
    dif_pos t.isLt]

theorem fromIsoformat_isoformat (env : Lenient) (t : Timestamp) :
    fromIsoformat env (String.ofList (isoformat t)) = some t := by
  simp [fromIsoformat, readIsoformat_isoformat]

/-! UUID texts. -/

def uuidText (id : Uuid) : List Char :=
  let hex := numeral 16 32 id.val
  hex.take 8 ++ '-' :: (hex.drop 8).take 4 ++ '-' :: (hex.drop 12).take 4 ++
    '-' :: (hex.drop 16).take 4 ++ '-' :: hex.drop 20

/-- `uuid.UUID` drops the hyphens before it counts the digits. -/
def readUuid (cs : List Char) : Option Uuid :=
  match readNumber 16 32 (cs.filter (fun c => c ≠ '-')) with
  | some (n, []) => if h : n < 2 ^ 128 then some ⟨n, h⟩ else none
  | _ => none

def parseUuid (env : Lenient) (s : String) : Option Uuid := readUuid s.toList <|> env.uuid s

theorem filter_uuidText (id : Uuid) :
    (uuidText id).filter (fun c => c ≠ '-') = numeral 16 32 id.val := by
  have keep : ∀ l : List Char, l.Sublist (numeral 16 32 id.val) →
      l.filter (fun c => c ≠ '-') = l := by
    intro l sub
    apply List.filter_eq_self.mpr
    intro c hc
    have hex := mem_numeral (sub.subset hc)
    have dash : ∀ c ∈ "0123456789abcdef".toList, c ≠ '-' := eachChar (by decide)
    exact decide_eq_true (dash c hex)
  have part : ∀ n m, ((numeral 16 32 id.val).drop n |>.take m).Sublist (numeral 16 32 id.val) :=
    fun n m => (List.take_sublist _ _).trans (List.drop_sublist _ _)
  have join : ∀ n m, ((numeral 16 32 id.val).drop n).take m ++ (numeral 16 32 id.val).drop (n + m) =
      (numeral 16 32 id.val).drop n := by
    intro n m
    rw [← List.drop_drop, List.take_append_drop]
  simp only [uuidText, List.filter_append, List.filter_cons, ne_eq, not_true_eq_false,
    decide_false, Bool.false_eq_true, if_false, List.append_assoc]
  simp only [ne_eq] at keep
  rw [keep _ (List.take_sublist _ _), keep _ (part 8 4), keep _ (part 12 4), keep _ (part 16 4),
    keep _ (List.drop_sublist _ _), join 16 4, join 12 4, join 8 4, List.take_append_drop]

theorem mem_uuidText {id : Uuid} {c : Char} (h : c ∈ uuidText id) :
    c ∈ "0123456789abcdef-".toList := by
  by_cases dash : c = '-'
  · subst dash
    decide
  · have hex : ∀ c ∈ "0123456789abcdef".toList, c ∈ "0123456789abcdef-".toList :=
      eachChar (by decide)
    have kept : c ∈ (uuidText id).filter (fun c => c ≠ '-') :=
      List.mem_filter.mpr ⟨h, decide_eq_true dash⟩
    rw [filter_uuidText] at kept
    exact hex c (mem_numeral kept)

theorem length_uuidText (id : Uuid) : (uuidText id).length = 36 := by
  simp only [uuidText, List.length_append, List.length_cons, List.length_take, List.length_drop,
    length_numeral]
  decide

theorem readUuid_uuidText (id : Uuid) : readUuid (uuidText id) = some id := by
  obtain ⟨n, small⟩ := id
  have read := readNumber_numeral (by decide : 16 ≤ 16) (by omega : n < 16 ^ 32) []
  rw [List.append_nil] at read
  rw [readUuid, filter_uuidText, read]
  exact dif_pos small

/-! URL-safe base64, as `base64.urlsafe_b64encode` and the lenient `binascii.a2b_base64`. -/

def b64Alphabet : List Char :=
  "ABCDEFGHIJKLMNOPQRSTUVWXYZabcdefghijklmnopqrstuvwxyz0123456789-_".toList

def b64Char (v : Nat) : Char := b64Alphabet.getD v 'A'

def b64Value (c : Char) : Option Nat :=
  if c = '+' then some 62 else if c = '/' then some 63 else b64Alphabet.idxOf? c

def b64encode : List Nat → List Char
  | [] => []
  | [a] => [b64Char (a / 4), b64Char (a % 4 * 16), '=', '=']
  | [a, b] => [b64Char (a / 4), b64Char (a % 4 * 16 + b / 16), b64Char (b % 16 * 4), '=']
  | a :: b :: c :: rest =>
    b64Char (a / 4) :: b64Char (a % 4 * 16 + b / 16) :: b64Char (b % 16 * 4 + c / 64) ::
      b64Char (c % 64) :: b64encode rest

/-- The decoder's state is the position in the group of four, the bits left over
and the padding seen. Characters outside the alphabet are skipped. -/
def b64decode : Nat → Nat → Nat → List Char → Option (List Nat)
  | quad, _, _, [] => if quad = 0 then some [] else none
  | quad, left, pads, c :: cs =>
    if c = '=' then
      if 2 ≤ quad then
        if 4 ≤ quad + (pads + 1) then some [] else b64decode quad left (pads + 1) cs
      else b64decode quad left pads cs
    else
      match b64Value c with
      | none => b64decode quad left pads cs
      | some v =>
        match quad with
        | 0 => b64decode 1 v 0 cs
        | 1 => (b64decode 2 (v % 16) 0 cs).map ((left * 4 + v / 16) :: ·)
        | 2 => (b64decode 3 (v % 4) 0 cs).map ((left * 16 + v / 4) :: ·)
        | _ => (b64decode 0 0 0 cs).map ((left * 64 + v) :: ·)

theorem b64Value_b64Char : ∀ v < 64, b64Value (b64Char v) = some v := by decide +kernel

theorem b64Char_mem (v : Nat) : b64Char v ∈ b64Alphabet := getD_mem (by decide) v

theorem b64Alphabet_ne_pad : ∀ c ∈ b64Alphabet, c ≠ '=' := eachChar (by decide +kernel)

theorem b64decode_encode (bs : List Nat) (bytes : ∀ b ∈ bs, b < 256) :
    b64decode 0 0 0 (b64encode bs) = some bs := by
  have digit : ∀ v < 64, ∀ quad left pads cs, b64decode quad left pads (b64Char v :: cs) =
      match quad with
      | 0 => b64decode 1 v 0 cs
      | 1 => (b64decode 2 (v % 16) 0 cs).map ((left * 4 + v / 16) :: ·)
      | 2 => (b64decode 3 (v % 4) 0 cs).map ((left * 16 + v / 4) :: ·)
      | _ => (b64decode 0 0 0 cs).map ((left * 64 + v) :: ·) := by
    intro v hv quad left pads cs
    rw [b64decode, if_neg (b64Alphabet_ne_pad _ (b64Char_mem v)), b64Value_b64Char v hv]
  fun_induction b64encode bs with
  | case1 => rfl
  | case2 a =>
    have ha := bytes a (by simp)
    simp only [digit _ (by omega : a / 4 < 64), digit _ (by omega : a % 4 * 16 < 64)]
    simp [b64decode]
    omega
  | case3 a b =>
    have ha := bytes a (by simp)
    have hb := bytes b (by simp)
    simp only [digit _ (by omega : a / 4 < 64), digit _ (by omega : a % 4 * 16 + b / 16 < 64),
      digit _ (by omega : b % 16 * 4 < 64)]
    simp [b64decode]
    omega
  | case4 a b c rest ih =>
    have ha := bytes a (by simp)
    have hb := bytes b (by simp)
    have hc := bytes c (by simp)
    simp only [digit _ (by omega : a / 4 < 64), digit _ (by omega : a % 4 * 16 + b / 16 < 64),
      digit _ (by omega : b % 16 * 4 + c / 64 < 64), digit _ (by omega : c % 64 < 64),
      ih (fun x hx => bytes x (by simp [hx]))]
    simp
    omega

theorem b64encode_split (bs : List Nat) :
    ∃ core pad, b64encode bs = core ++ List.replicate pad '=' ∧ (∀ c ∈ core, c ∈ b64Alphabet) ∧
      pad < 4 ∧ (core.length + pad) % 4 = 0 := by
  fun_induction b64encode bs with
  | case1 => exact ⟨[], 0, rfl, by simp, by omega, rfl⟩
  | case2 a =>
    exact ⟨[b64Char (a / 4), b64Char (a % 4 * 16)], 2, rfl, by simp [b64Char_mem], by omega, by simp⟩
  | case3 a b =>
    exact ⟨[b64Char (a / 4), b64Char (a % 4 * 16 + b / 16), b64Char (b % 16 * 4)], 1, rfl,
      by simp [b64Char_mem], by omega, by simp⟩
  | case4 a b c rest ih =>
    obtain ⟨core, pad, eq, clean, small, len⟩ := ih
    exact ⟨b64Char (a / 4) :: b64Char (a % 4 * 16 + b / 16) :: b64Char (b % 16 * 4 + c / 64) ::
      b64Char (c % 64) :: core, pad, by simp [eq], by simpa [b64Char_mem] using clean, small,
      by simp only [List.length_cons]; omega⟩

/-! The cursor: both texts joined by a bar, encoded without padding. -/

def utf8Bytes (cs : List Char) : List Nat :=
  (String.ofList cs).toUTF8.data.toList.map UInt8.toNat

def encodeCursor (createdAt : Timestamp) (messageId : Uuid) : String :=
  let raw := isoformat createdAt ++ '|' :: uuidText messageId
  String.ofList ((b64encode (utf8Bytes raw)).rdropWhile (fun c => c = '='))

def decodeCursor (env : Lenient) (cursor : String) : Option (Timestamp × Uuid) := do
  let padded := cursor.toList ++ List.replicate ((4 - cursor.toList.length % 4) % 4) '='
  if padded.all (fun c => c.toNat < 128) then
    let bytes ← b64decode 0 0 0 padded
    let raw ← String.fromUTF8? ⟨(bytes.map UInt8.ofNat).toArray⟩
    match raw.toList.span (fun c => c ≠ '|') with
    | (_, []) => none
    | (createdRaw, _ :: idRaw) =>
      let createdAt ← fromIsoformat env (String.ofList createdRaw)
      let id ← parseUuid env (String.ofList idRaw)
      some (createdAt, id)
  else none

theorem rdropWhile_pad {core : List Char} (clean : ∀ c ∈ core, c ≠ '=') (pad : Nat) :
    (core ++ List.replicate pad '=').rdropWhile (fun c => c = '=') = core := by
  induction pad with
  | zero =>
    rw [List.replicate_zero, List.append_nil, List.rdropWhile_eq_self_iff]
    intro nonempty
    simpa using clean _ (List.getLast_mem nonempty)
  | succ pad ih =>
    rw [List.replicate_succ', ← List.append_assoc, List.rdropWhile_concat_pos _ _ _ (by simp), ih]

/-- Stripping the padding loses nothing: the length tells how much there was. -/
theorem b64_repad (bs : List Nat) :
    let text := (b64encode bs).rdropWhile (fun c => c = '=')
    text ++ List.replicate ((4 - text.length % 4) % 4) '=' = b64encode bs ∧
      ∀ c ∈ text, c ∈ b64Alphabet := by
  obtain ⟨core, pad, eq, clean, small, len⟩ := b64encode_split bs
  have text : (b64encode bs).rdropWhile (fun c => c = '=') = core := by
    rw [eq, rdropWhile_pad (fun c hc => b64Alphabet_ne_pad c (clean c hc))]
  have count : (4 - core.length % 4) % 4 = pad := by omega
  simp only [text, count]
  exact ⟨eq.symm, clean⟩

theorem utf8Bytes_lt (cs : List Char) : ∀ b ∈ utf8Bytes cs, b < 256 := by
  intro b hb
  obtain ⟨u, _, rfl⟩ := List.mem_map.mp hb
  exact u.toNat_lt

theorem fromUTF8?_utf8Bytes (cs : List Char) :
    String.fromUTF8? ⟨((utf8Bytes cs).map UInt8.ofNat).toArray⟩ = some (String.ofList cs) := by
  have bytes : (⟨((utf8Bytes cs).map UInt8.ofNat).toArray⟩ : ByteArray) =
      (String.ofList cs).toUTF8 := by
    have same : (UInt8.ofNat ∘ UInt8.toNat) = id := by funext u; simp
    rw [utf8Bytes, List.map_map, same, List.map_id, Array.toArray_toList]
  rw [bytes]
  exact dif_pos (String.ofList cs).isValidUTF8

theorem mem_isoformat {t : Timestamp} {c : Char} (h : c ∈ isoformat t) :
    c ∈ "0123456789abcdef-T:.+".toList := by
  have hex : ∀ c ∈ "0123456789abcdef".toList, c ∈ "0123456789abcdef-T:.+".toList :=
    eachChar (by decide)
  have digits : ∀ w n, ∀ c ∈ numeral 10 w n, c ∈ "0123456789abcdef-T:.+".toList :=
    fun w n c hc => hex c (mem_numeral hc)
  have zone : ∀ c ∈ "+00:00".toList, c ∈ "0123456789abcdef-T:.+".toList := eachChar (by decide)
  have fraction : ∀ c ∈ if t.val % 1000000 = 0 then [] else '.' :: numeral 10 6 (t.val % 1000000),
      c ∈ "0123456789abcdef-T:.+".toList := by
    split
    · exact List.forall_mem_nil _
    · exact List.forall_mem_cons.mpr ⟨by decide, digits _ _⟩
  revert c
  simp only [isoformat, isoText, ordToText, List.forall_mem_append, List.forall_mem_cons]
  exact ⟨⟨⟨⟨⟨⟨⟨digits _ _, by decide, digits _ _⟩, by decide, digits _ _⟩, by decide, digits _ _⟩,
    by decide, digits _ _⟩, by decide, digits _ _⟩, fraction⟩, zone⟩

theorem decodeCursor_encodeCursor (env : Lenient) (t : Timestamp) (m : Uuid) :
    decodeCursor env (encodeCursor t m) = some (t, m) := by
  obtain ⟨repad, clean⟩ := b64_repad (utf8Bytes (isoformat t ++ '|' :: uuidText m))
  have ascii : (b64encode (utf8Bytes (isoformat t ++ '|' :: uuidText m))).all
      (fun c => c.toNat < 128) = true := by
    rw [← repad]
    have alphabet : ∀ c ∈ b64Alphabet, c.toNat < 128 := eachChar (by decide +kernel)
    simp only [List.all_eq_true, List.mem_append, List.mem_replicate, decide_eq_true_eq]
    rintro c (hc | ⟨_, rfl⟩)
    · exact alphabet c (clean c hc)
    · decide
  have cut : (isoformat t ++ '|' :: uuidText m).span (fun c => c ≠ '|') =
      (isoformat t, '|' :: uuidText m) := by
    have bar : ∀ c ∈ "0123456789abcdef-T:.+".toList, c ≠ '|' := eachChar (by decide)
    have clean : ∀ c ∈ isoformat t, decide (c ≠ '|') = true := fun c hc =>
      decide_eq_true (bar c (mem_isoformat hc))
    rw [List.span_eq_takeWhile_dropWhile, List.takeWhile_append_of_pos clean,
      List.dropWhile_append_of_pos clean]
    simp
  simp only [decodeCursor, encodeCursor, String.toList_ofList, repad, ascii, if_true,
    b64decode_encode _ (utf8Bytes_lt _), fromUTF8?_utf8Bytes, cut, fromIsoformat_isoformat,
    Option.bind_eq_bind, Option.bind_some]
  simp [parseUuid, readUuid_uuidText]

end ChatBackend

import Mathlib.Data.List.Lex
import ChatBackend.Ids

/-! Time-ordered ids. Of two ids the one from the later millisecond is the larger one, and so is its
text. -/

namespace ChatBackend

/-! Texts of one length compare as what they stand for. -/

theorem append_lt_append_iff {α : Type} [LT α] [Std.Irrefl (fun a b : α => a < b)]
    {as bs cs ds : List α} (same : as.length = bs.length) : as ++ cs < bs ++ ds ↔ as < bs ∨ as = bs ∧ cs < ds := by
  induction as generalizing bs with
  | nil =>
    obtain rfl : bs = [] := List.length_eq_zero_iff.mp same.symm
    simp
  | cons a as ih =>
    cases bs with
    | nil => cases same
    | cons b bs =>
      rw [List.cons_append, List.cons_append, List.cons_lt_cons_iff, List.cons_lt_cons_iff,
        ih (Nat.succ.inj same), List.cons.injEq]
      tauto

/-- What all of them have at one place decides nothing. -/
theorem shared_lt_iff {α : Type} [LT α] [Std.Irrefl (fun a b : α => a < b)] {x : α}
    {as bs cs ds cs' ds' : List α} (same : as.length = bs.length) (rest : cs < ds ↔ cs' < ds') :
    as ++ x :: cs < bs ++ x :: ds ↔ as ++ cs' < bs ++ ds' := by
  have irrefl : ¬ x < x := Std.Irrefl.irrefl x
  rw [append_lt_append_iff same, append_lt_append_iff same, List.cons_lt_cons_iff, rest]
  simp [irrefl]

theorem digitChar_lt_iff : ∀ d < 16, ∀ e < 16, digitChar d < digitChar e ↔ d < e := by decide

theorem digitChar_inj : ∀ d < 16, ∀ e < 16, digitChar d = digitChar e ↔ d = e := by decide

theorem lt_iff_div_mod {m n : Nat} (b : Nat) :
    m < n ↔ m / b < n / b ∨ m / b = n / b ∧ m % b < n % b := by
  have left := Nat.div_add_mod m b
  have right := Nat.div_add_mod n b
  constructor
  · intro less
    rcases Nat.lt_or_eq_of_le (Nat.div_le_div_right (c := b) less.le) with lt | eq
    · exact .inl lt
    · rw [eq] at left
      exact .inr ⟨eq, by omega⟩
  · rintro (lt | ⟨eq, lt⟩)
    · by_contra ge
      exact absurd (Nat.div_le_div_right (c := b) (Nat.le_of_not_lt ge)) (Nat.not_le_of_lt lt)
    · rw [eq] at left
      omega

/-- Numerals of one width sort as their numbers. -/
theorem numeral_lt_iff {w m n : Nat} (hm : m < 16 ^ w) (hn : n < 16 ^ w) :
    numeral 16 w m < numeral 16 w n ↔ m < n := by
  induction w generalizing m n with
  | zero => simp [numeral, Nat.lt_one_iff.mp hm, Nat.lt_one_iff.mp hn]
  | succ w ih =>
    have positive : 0 < 16 ^ w := Nat.pow_pos (by decide)
    have dm : m / 16 ^ w < 16 := Nat.div_lt_of_lt_mul (by rwa [Nat.pow_succ] at hm)
    have dn : n / 16 ^ w < 16 := Nat.div_lt_of_lt_mul (by rwa [Nat.pow_succ] at hn)
    rw [numeral, numeral, List.cons_lt_cons_iff, digitChar_lt_iff _ dm _ dn, digitChar_inj _ dm _ dn,
      ih (Nat.mod_lt _ positive) (Nat.mod_lt _ positive)]
    exact (lt_iff_div_mod (16 ^ w)).symm

/-- The hyphens stand at the same places in all of them. -/
theorem uuidText_lt_iff {u v : Uuid} : uuidText u < uuidText v ↔ u < v := by
  have whole : ∀ n, numeral 16 32 n = (numeral 16 32 n).take 8 ++ (((numeral 16 32 n).drop 8).take 4 ++
      (((numeral 16 32 n).drop 12).take 4 ++ (((numeral 16 32 n).drop 16).take 4 ++
        (numeral 16 32 n).drop 20))) := by
    intro n
    have join : ∀ i k, ((numeral 16 32 n).drop i).take k ++ (numeral 16 32 n).drop (i + k) =
        (numeral 16 32 n).drop i := by
      intro i k
      rw [← List.drop_drop, List.take_append_drop]
    rw [join 16 4, join 12 4, join 8 4, List.take_append_drop]
  have order := numeral_lt_iff (w := 32) (by omega : u.val < 16 ^ 32) (by omega : v.val < 16 ^ 32)
  rw [Fin.lt_def, ← order, whole u.val, whole v.val]
  simp only [uuidText, List.append_assoc, List.cons_append]
  have cut : ∀ i k, (((numeral 16 32 u.val).drop i).take k).length =
      (((numeral 16 32 v.val).drop i).take k).length := by
    intro i k
    simp only [List.length_take, List.length_drop, length_numeral]
  exact shared_lt_iff (cut 0 8) (shared_lt_iff (cut 8 4) (shared_lt_iff (cut 12 4)
    (shared_lt_iff (cut 16 4) Iff.rfl)))

/-! The layout. -/

/-- The integer of `uuid7()`, from the clock in nanoseconds and the ten random bytes as a number. -/
def uuid7Value (timeNs rand : Nat) : Nat :=
  let tsMs := timeNs / 1000000
  let randA := (rand >>> 62) &&& 0xFFF
  let randB := rand &&& 0x3FFFFFFFFFFFFFFF
  (tsMs &&& 0xFFFFFFFFFFFF) <<< 80 ||| 0x7 <<< 76 ||| randA <<< 64 ||| 0b10 <<< 62 ||| randB

theorem uuid7Value_eq (timeNs rand : Nat) :
    uuid7Value timeNs rand = timeNs / 1000000 % 2 ^ 48 * 2 ^ 80 + (7 * 2 ^ 76 +
      (rand / 2 ^ 62 % 2 ^ 12 * 2 ^ 64 + (2 * 2 ^ 62 + rand % 2 ^ 62))) := by
  have low : rand % 2 ^ 62 < 2 ^ 62 := Nat.mod_lt _ (by decide)
  have high : rand / 2 ^ 62 % 2 ^ 12 < 2 ^ 12 := Nat.mod_lt _ (by decide)
  have time : timeNs / 1000000 &&& 0xFFFFFFFFFFFF = timeNs / 1000000 % 2 ^ 48 :=
    Nat.and_two_pow_sub_one_eq_mod _ 48
  have randA : (rand >>> 62) &&& 0xFFF = rand / 2 ^ 62 % 2 ^ 12 := by
    rw [Nat.shiftRight_eq_div_pow]
    exact Nat.and_two_pow_sub_one_eq_mod _ 12
  have randB : rand &&& 0x3FFFFFFFFFFFFFFF = rand % 2 ^ 62 := Nat.and_two_pow_sub_one_eq_mod _ 62
  unfold uuid7Value
  dsimp only
  rw [time, randA, randB, Nat.or_assoc, Nat.or_assoc, Nat.or_assoc,
    ← Nat.shiftLeft_add_eq_or_of_lt low, ← Nat.shiftLeft_add_eq_or_of_lt (i := 64) (by omega),
    ← Nat.shiftLeft_add_eq_or_of_lt (i := 76) (by simp only [Nat.shiftLeft_eq]; omega),
    ← Nat.shiftLeft_add_eq_or_of_lt (i := 80) (by simp only [Nat.shiftLeft_eq]; omega)]
  simp only [Nat.shiftLeft_eq]

theorem uuid7Value_lt (timeNs rand : Nat) : uuid7Value timeNs rand < 2 ^ 128 := by
  have time : timeNs / 1000000 % 2 ^ 48 < 2 ^ 48 := Nat.mod_lt _ (by decide)
  have high : rand / 2 ^ 62 % 2 ^ 12 < 2 ^ 12 := Nat.mod_lt _ (by decide)
  have low : rand % 2 ^ 62 < 2 ^ 62 := Nat.mod_lt _ (by decide)
  rw [uuid7Value_eq]
  omega

/-- `uuid.UUID(int=value)`, which takes every value below 2 ** 128. -/
def uuid7 (timeNs rand : Nat) : Uuid := ⟨uuid7Value timeNs rand, uuid7Value_lt timeNs rand⟩

def Uuid.unixMs (u : Uuid) : Nat := u.val / 2 ^ 80

def Uuid.version (u : Uuid) : Nat := u.val / 2 ^ 76 % 2 ^ 4

def Uuid.variant (u : Uuid) : Nat := u.val / 2 ^ 62 % 2 ^ 2

/-- Every id has the layout of its version; later milliseconds give larger ids and larger texts, as long
as 48 bits hold the time; and two ids are one only for the same millisecond and the same random bits. -/
theorem ids_sort_by_time :
    (∀ timeNs rand, (uuid7 timeNs rand).unixMs = timeNs / 1000000 % 2 ^ 48 ∧
      (uuid7 timeNs rand).version = 7 ∧ (uuid7 timeNs rand).variant = 2) ∧
    (∀ timeNs rand timeNs' rand', timeNs / 1000000 < timeNs' / 1000000 →
      timeNs' / 1000000 < 2 ^ 48 → uuid7 timeNs rand < uuid7 timeNs' rand' ∧
        uuidText (uuid7 timeNs rand) < uuidText (uuid7 timeNs' rand')) ∧
    ∀ timeNs rand timeNs' rand', uuid7 timeNs rand = uuid7 timeNs' rand' ↔
      timeNs / 1000000 % 2 ^ 48 = timeNs' / 1000000 % 2 ^ 48 ∧ rand % 2 ^ 74 = rand' % 2 ^ 74 := by
  have bounds : ∀ rand, rand / 2 ^ 62 % 2 ^ 12 < 2 ^ 12 ∧ rand % 2 ^ 62 < 2 ^ 62 :=
    fun rand => ⟨Nat.mod_lt _ (by decide), Nat.mod_lt _ (by decide)⟩
  refine ⟨fun timeNs rand => ?_, fun timeNs rand timeNs' rand' later held => ?_,
    fun timeNs rand timeNs' rand' => ?_⟩
  · have parts := bounds rand
    have value : (uuid7 timeNs rand).val = _ := uuid7Value_eq timeNs rand
    rw [Uuid.unixMs, Uuid.version, Uuid.variant, value]
    omega
  · have less : uuid7 timeNs rand < uuid7 timeNs' rand' := by
      have parts := bounds rand
      rw [Fin.lt_def]
      change uuid7Value timeNs rand < uuid7Value timeNs' rand'
      rw [uuid7Value_eq, uuid7Value_eq, Nat.mod_eq_of_lt held, Nat.mod_eq_of_lt (later.trans held)]
      omega
    exact ⟨less, uuidText_lt_iff.mpr less⟩
  · have parts := bounds rand
    have parts' := bounds rand'
    rw [Fin.ext_iff]
    change uuid7Value timeNs rand = uuid7Value timeNs' rand' ↔ _
    rw [uuid7Value_eq, uuid7Value_eq]
    omega

end ChatBackend

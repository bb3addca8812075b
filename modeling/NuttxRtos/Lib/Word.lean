import Mathlib.Algebra.Order.Ring.Int
import Mathlib.Data.Nat.Bitwise

/-!
# 32-bit words and integers

Wrapping addition and subtraction, complements, and the arithmetic form of the bit operations
used on words: rounding down to a power of two and a tag in the top bit. Signed overflow is
undefined in C, so a computation on `int32_t` has a result only while every intermediate value is in
range.
-/

namespace Word

/-- The sum as a `uint32_t`. -/
def add32 (a b : ℕ) : ℕ := (a + b) % 2 ^ 32

/-- The difference as a `uint32_t`. -/
def sub32 (a b : ℕ) : ℕ := (a + (2 ^ 32 - b % 2 ^ 32)) % 2 ^ 32

/-- The operator `~`. -/
def not32 (a : ℕ) : ℕ := 2 ^ 32 - 1 - a

variable {a b x n : ℕ}

theorem add32_eq (h : a + b < 2 ^ 32) : add32 a b = a + b := Nat.mod_eq_of_lt h

theorem sub32_eq (h : b ≤ a) (ha : a < 2 ^ 32) : sub32 a b = a - b := by
  unfold sub32
  omega

theorem and_not32_mask {k : ℕ} (hx : x < 2 ^ 32) (hk : k ≤ 32) :
    x &&& not32 (2 ^ k - 1) = x - x % 2 ^ k := by
  have round : x - x % 2 ^ k = x >>> k <<< k := by
    rw [Nat.shiftRight_eq_div_pow, Nat.shiftLeft_eq]
    have := Nat.div_add_mod' x (2 ^ k)
    omega
  rw [round]
  apply Nat.eq_of_testBit_eq
  intro i
  have high : 32 ≤ i → x.testBit i = false := fun hi =>
    Nat.testBit_lt_two_pow (hx.trans_le (Nat.pow_le_pow_right (by decide) hi))
  have low : 2 ^ k - 1 < 2 ^ 32 := by
    have := Nat.pow_le_pow_right (show 0 < 2 by decide) hk
    omega
  rw [not32, Nat.sub_sub, Nat.add_comm 1, Nat.testBit_and, Nat.testBit_two_pow_sub_succ low,
    Nat.testBit_two_pow_sub_one, Nat.testBit_shiftLeft, Nat.testBit_shiftRight]
  by_cases hi : k ≤ i
  · rw [Nat.add_sub_cancel' hi]
    by_cases h32 : i < 32
    · simp [hi, h32, not_lt.2 hi]
    · simp [high (by omega)]
  · simp [hi, not_le.1 hi]

theorem and_top (hx : x < 2 ^ (n + 1)) : x &&& 2 ^ n = if x < 2 ^ n then 0 else 2 ^ n := by
  rw [Nat.and_two_pow]
  split_ifs with h
  · rw [Nat.testBit_lt_two_pow h]
    simp
  have top : x.testBit n = true := by
    rw [Nat.testBit_eq_decide_div_mod_eq]
    have : x / 2 ^ n = 1 := by
      rw [Nat.div_eq_iff (Nat.two_pow_pos n)]
      omega
    simp [this]
  simp [top]

theorem or_top (hx : x < 2 ^ n) : x ||| 2 ^ n = x + 2 ^ n := by
  have h := Nat.two_pow_add_eq_or_of_lt hx 1
  rw [Nat.mul_one] at h
  rw [Nat.or_comm, ← h, add_comm]

end Word

namespace CheckedInt

/-- The range of `int32_t`. -/
def InInt32 (x : ℤ) : Prop := -2 ^ 31 ≤ x ∧ x < 2 ^ 31

instance (x : ℤ) : Decidable (InInt32 x) := inferInstanceAs (Decidable (_ ∧ _))

/-- The value `x` of an `int32_t` expression, if it does not overflow. -/
def int32 (x : ℤ) : Option ℤ := if InInt32 x then some x else none

theorem int32_eq {x : ℤ} (low : -2 ^ 31 ≤ x) (high : x < 2 ^ 31) : int32 x = some x :=
  if_pos ⟨low, high⟩

end CheckedInt

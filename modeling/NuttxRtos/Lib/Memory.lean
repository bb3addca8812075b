import Mathlib.Algebra.Order.Ring.Int

/-!
# Byte-addressed memory

A memory assigns a byte to every address. `load32` and `store32` are the little-endian
32-bit accesses, `memcpy` is the ascending byte loop and `memset` a block fill. `SameOff S m m'`
says that `m'` differs from `m` only inside `S`: an access outside reads the same value
(`load32_sameOff`).
-/

abbrev Memory := ℕ → UInt8

namespace Memory

/-- The little-endian 32-bit word at `a`. -/
def load32 (m : Memory) (a : ℕ) : ℕ :=
  (m a).toNat + (m (a + 1)).toNat * 2 ^ 8 + (m (a + 2)).toNat * 2 ^ 16 + (m (a + 3)).toNat * 2 ^ 24

/-- Write the low 32 bits of `v` at `a`. -/
def store32 (m : Memory) (a v : ℕ) : Memory := fun x =>
  if a ≤ x ∧ x < a + 4 then UInt8.ofNat (v / 2 ^ (8 * (x - a))) else m x

def SameOff (S : ℕ → Prop) (m m' : Memory) : Prop := ∀ x, ¬ S x → m' x = m x

variable {m m' : Memory} {a v x dst src n : ℕ} {S : ℕ → Prop}

theorem load32_congr (same : ∀ i < 4, m' (a + i) = m (a + i)) : load32 m' a = load32 m a := by
  have h0 := same 0 (by omega)
  have h1 := same 1 (by omega)
  have h2 := same 2 (by omega)
  have h3 := same 3 (by omega)
  rw [Nat.add_zero] at h0
  simp only [load32, h0, h1, h2, h3]

theorem load32_sameOff (same : SameOff S m m') (off : ∀ i < 4, ¬ S (a + i)) :
    load32 m' a = load32 m a :=
  load32_congr fun i hi => same _ (off i hi)

variable (m : Memory)

theorem store32_byte (a v x : ℕ) : store32 m a v x =
    if a ≤ x ∧ x < a + 4 then UInt8.ofNat (v / 2 ^ (8 * (x - a))) else m x := rfl

theorem store32_off (off : x < a ∨ a + 4 ≤ x) : store32 m a v x = m x := by
  rw [store32_byte, if_neg (by omega)]

theorem load32_store32_same (small : v < 2 ^ 32) : load32 (store32 m a v) a = v := by
  have byte (i : ℕ) (hi : i < 4) :
      (store32 m a v (a + i)).toNat = v / 2 ^ (8 * i) % 2 ^ 8 := by
    rw [store32_byte, if_pos (by omega), Nat.add_sub_cancel_left]
    exact UInt8.toNat_ofNat'
  have h0 := byte 0 (by omega)
  have h1 := byte 1 (by omega)
  have h2 := byte 2 (by omega)
  have h3 := byte 3 (by omega)
  rw [Nat.add_zero] at h0
  simp only [load32, h0, h1, h2, h3]
  omega

theorem load32_store32_off {b : ℕ} (off : a + 4 ≤ b ∨ b + 4 ≤ a) :
    load32 (store32 m a v) b = load32 m b :=
  load32_congr fun i hi => store32_off m (by omega)

theorem SameOff.refl (S : ℕ → Prop) (m : Memory) : SameOff S m m := fun _ _ => rfl

theorem SameOff.mono {m : Memory} {T : ℕ → Prop} (same : SameOff S m m') (sub : ∀ x, S x → T x) :
    SameOff T m m' :=
  fun x hx => same x (fun h => hx (sub x h))

theorem SameOff.store32 {m : Memory} (same : SameOff S m m') (v : ℕ)
    (inside : ∀ i < 4, S (a + i)) :
    SameOff S m (m'.store32 a v) := by
  intro x hx
  rw [store32_off _ (by
    by_contra h
    exact hx (by simpa [show a + (x - a) = x by omega] using inside (x - a) (by omega)))]
  exact same x hx

/-! ## Block copies and fills -/

/-- The ascending byte loop of `memcpy (dst, src, n)`. -/
def memcpy (m : Memory) (dst src : ℕ) : ℕ → Memory
  | 0 => m
  | n + 1 =>
    let copied := memcpy m dst src n
    Function.update copied (dst + n) (copied (src + n))

def memset (m : Memory) (dst : ℕ) (v : UInt8) (n : ℕ) : Memory := fun x =>
  if dst ≤ x ∧ x < dst + n then v else m x

theorem memcpy_succ_byte (dst src n x : ℕ) : memcpy m dst src (n + 1) x =
    Function.update (memcpy m dst src n) (dst + n) (memcpy m dst src n (src + n)) x := rfl

theorem memset_byte (dst : ℕ) (v : UInt8) (n x : ℕ) : memset m dst v n x =
    if dst ≤ x ∧ x < dst + n then v else m x := rfl

theorem memcpy_off (off : x < dst ∨ dst + n ≤ x) : memcpy m dst src n x = m x := by
  induction n with
  | zero => rfl
  | succ n ih =>
    rw [memcpy_succ_byte, Function.update_of_ne (by omega)]
    exact ih (by omega)

/-- The ascending loop moves the source block, also onto a lower overlapping destination. -/
theorem memcpy_block (order : dst ≤ src ∨ src + n ≤ dst) {i : ℕ} (hi : i < n) :
    memcpy m dst src n (dst + i) = m (src + i) := by
  induction n with
  | zero => omega
  | succ n ih =>
    rw [memcpy_succ_byte]
    by_cases last : i = n
    · rw [last, Function.update_self, memcpy_off m (by omega)]
    · rw [Function.update_of_ne (by omega)]
      exact ih (by omega) (by omega)

theorem memset_off (v : UInt8) (off : x < dst ∨ dst + n ≤ x) : memset m dst v n x = m x := by
  rw [memset_byte, if_neg (by omega)]

theorem load32_memset_zero (inside : dst ≤ a ∧ a + 4 ≤ dst + n) :
    load32 (memset m dst 0 n) a = 0 := by
  have byte (i : ℕ) (hi : i < 4) : memset m dst 0 n (a + i) = 0 := by
    rw [memset_byte, if_pos (by omega)]
  have h0 := byte 0 (by omega)
  rw [Nat.add_zero] at h0
  simp [load32, h0, byte 1 (by omega), byte 2 (by omega), byte 3 (by omega)]

end Memory

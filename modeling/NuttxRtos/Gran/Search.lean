import NuttxRtos.Gran.Model

/-!
# The search for free granules

The table read as a sequence of bits, one for each granule. The window of the 64-bit shift always
holds the bits from the current granule on, and a skipped granule is never free.
-/

namespace NuttxRtos.Gran

open Word BitVec Function

def GranS.bit (priv : GranS) (j : ℕ) : Bool := (priv.gat (j / 32)).getLsbD (j % 32)

def FreeRun (priv : GranS) (k n : ℕ) : Prop :=
  k + n ≤ priv.ngranules ∧ ∀ i < n, priv.bit (k + i) = false

/-! ## Masks -/

variable {n i k size : ℕ} {word : BitVec 32}

theorem getLsbD_granMask (hn : n ≤ 32) : (granMask n).getLsbD i = decide (i < n) := by
  have ones : 0xffffffff#32 = BitVec.allOnes 32 := by decide
  rw [granMask, ones, getLsbD_ushiftRight, getLsbD_allOnes]
  congr 1
  rw [eq_iff_iff]
  omega

theorem getLsbD_ones_shift (k i : ℕ) :
    (0xffffffff#32 <<< k).getLsbD i = decide (k ≤ i ∧ i < 32) := by
  have ones : 0xffffffff#32 = BitVec.allOnes 32 := by decide
  rw [ones, getLsbD_shiftLeft, getLsbD_allOnes]
  rw [← decide_not, ← Bool.decide_and, ← Bool.decide_and, decide_eq_decide]
  omega

theorem and_granMask_iff (hk : k ≤ 32) (b : Bool) :
    word &&& granMask k = (if b then granMask k else 0#32) ↔ ∀ i < k, word.getLsbD i = b := by
  constructor
  · intro h i hi
    have := congrArg (fun w => w.getLsbD i) h
    cases b <;> simpa [getLsbD_and, getLsbD_granMask hk, hi] using this
  intro h
  apply eq_of_getLsbD_eq
  intro i _
  by_cases hi : i < k
  · cases b <;> simp [getLsbD_granMask hk, hi, h i hi]
  · cases b <;> simp [getLsbD_granMask hk, hi]

theorem and_granMask_zero (hk : k ≤ 32) :
    word &&& granMask k = 0#32 ↔ ∀ i < k, word.getLsbD i = false := and_granMask_iff hk false

/-! ## The window -/

/-- `curr` holds the bits from granule `pos` on, and `next` those behind it that are left of the
next table entry after `bitidx` shifts. -/
structure Window (priv : GranS) (pos bitidx : ℕ) (curr next : BitVec 32) : Prop where
  curr : ∀ i < 32, curr.getLsbD i = priv.bit (pos + i)
  next : ∀ i, i + bitidx < 32 → next.getLsbD i = priv.bit (pos + 32 + i)

variable {priv : GranS} {n pos bitidx granidx : ℕ} {curr next : BitVec 32}

theorem Window.shift (window : Window priv pos bitidx curr next) {shift : ℕ}
    (inside : bitidx + shift ≤ 32) (some : 0 < shift) :
    Window priv (pos + shift) (bitidx + shift) (curr >>> shift ||| next <<< (32 - shift))
      (next >>> shift) := by
  refine ⟨fun i hi => ?_, fun i hi => ?_⟩
  · rw [getLsbD_or, getLsbD_ushiftRight, getLsbD_shiftLeft]
    by_cases low : shift + i < 32
    · rw [window.curr _ low, decide_eq_true (show i < 32 - shift by omega), add_assoc]
      simp
    rw [getLsbD_of_ge curr _ (by omega), decide_eq_false (show ¬ i < 32 - shift by omega),
      window.next _ (by omega), decide_eq_true hi,
      show pos + 32 + (i - (32 - shift)) = pos + shift + i by omega]
    simp
  rw [getLsbD_ushiftRight, window.next _ (by omega)]
  congr 1
  omega

/-- A step of the search skips set bits, or one granule where no run starts. -/
theorem searchShift_cases (curr : BitVec 32) (hn : n ≤ 32) :
    searchShift (granMask n) curr = none ∧ (∀ i < n, curr.getLsbD i = false) ∨
      ∃ shift, searchShift (granMask n) curr = some shift ∧ 0 < shift ∧
        ((∀ i < shift, curr.getLsbD i = true) ∨ shift = 1 ∧ ∃ i < n, curr.getLsbD i = true) := by
  have set (k : ℕ) (hk : k ≤ 32) (h : curr &&& granMask k = granMask k) :
      ∀ i < k, curr.getLsbD i = true := (and_granMask_iff hk true).1 h
  unfold searchShift
  split_ifs with b16 b8 b4 b2 free
  · exact .inr ⟨16, rfl, by decide, .inl (set 16 (by decide) b16)⟩
  · exact .inr ⟨8, rfl, by decide, .inl (set 8 (by decide) b8)⟩
  · exact .inr ⟨4, rfl, by decide, .inl (set 4 (by decide) b4)⟩
  · exact .inr ⟨2, rfl, by decide, .inl (set 2 (by decide) b2)⟩
  · exact .inl ⟨rfl, (and_granMask_zero hn).1 free⟩
  refine .inr ⟨1, rfl, by decide, .inr ⟨rfl, ?_⟩⟩
  rw [and_granMask_zero hn] at free
  simpa using free

/-! ## The first free run -/

def GranS.addr (priv : GranS) (k : ℕ) : ℕ := (priv.heapstart + k * 2 ^ priv.log2gran) % 2 ^ 32

/-- The result of a search for `n` granules from `lo` to `hi`: the first run, or none. -/
def Finds (priv : GranS) (n lo hi : ℕ) : Option ℕ → Prop
  | some alloc => ∃ k, lo ≤ k ∧ k < hi ∧ FreeRun priv k n ∧ alloc = priv.addr k ∧
      ∀ k', lo ≤ k' → k' < k → ¬ FreeRun priv k' n
  | none => ∀ k, lo ≤ k → k < hi → ¬ FreeRun priv k n

theorem Finds.skip {lo lo' hi : ℕ} {r : Option ℕ} (found : Finds priv n lo' hi r) (le : lo ≤ lo')
    (busy : ∀ k, lo ≤ k → k < lo' → ¬ FreeRun priv k n) : Finds priv n lo hi r := by
  have before : ∀ k, lo ≤ k → (lo' ≤ k → ¬ FreeRun priv k n) → ¬ FreeRun priv k n := by
    intro k hk rest
    by_cases h : k < lo'
    · exact busy k hk h
    · exact rest (Nat.le_of_not_lt h)
  cases r with
  | none => exact fun k hk hi => before k hk fun h => found k h hi
  | some alloc =>
    obtain ⟨k, hk, hi, free, addr, first⟩ := found
    exact ⟨k, le.trans hk, hi, free, addr, fun k' h h' => before k' h fun h => first k' h h'⟩

theorem not_freeRun (hi : i < n) (busy : priv.bit (k + i) = true) :
    ¬ FreeRun priv k n := fun free => by simp [free.2 i hi] at busy

theorem searchEntry_spec {fuel alloc : ℕ} (pos : 0 < n) (hn : n ≤ 32)
    (window : bitidx < 32 → Window priv (granidx + bitidx) bitidx curr next)
    (addr : alloc = priv.addr (granidx + bitidx)) (enough : 32 ≤ fuel + bitidx) :
    Finds priv n (granidx + bitidx) (granidx + 32)
      (searchEntry priv n granidx fuel bitidx curr next alloc) := by
  induction fuel generalizing bitidx curr next alloc with
  | zero => exact fun k hk hi => absurd hi (by omega)
  | succ fuel ih =>
    rw [searchEntry]
    split_ifs with more full
    · -- no bit of the entry is free any more
      have window := window more.1
      have ones : 0xffffffff#32 = granMask 32 := by decide
      intro k hk hi
      refine not_freeRun pos ?_
      have := window.curr (k - (granidx + bitidx)) (by omega)
      rw [full, ones, getLsbD_granMask le_rfl] at this
      rw [add_zero, show k = granidx + bitidx + (k - (granidx + bitidx)) by omega, ← this]
      simp
      omega
    · have window := window more.1
      rcases searchShift_cases curr hn with ⟨stop, free⟩ | ⟨shift, move, some, skipped⟩
      · rw [stop]
        refine ⟨granidx + bitidx, le_rfl, by omega, ⟨more.2, fun i hi => ?_⟩, addr,
          fun k' h h' => absurd h' (by omega)⟩
        rw [← window.curr i (by omega)]
        exact free i hi
      rw [move]
      have moved : add32 alloc (shift * 2 ^ priv.log2gran) =
          priv.addr (granidx + (bitidx + shift)) := by
        rw [addr, add32, GranS.addr, GranS.addr, Nat.mod_add_mod, Nat.add_assoc, ← Nat.add_mul,
          Nat.add_assoc]
      have window' : bitidx + shift < 32 → Window priv (granidx + (bitidx + shift)) (bitidx + shift)
          (curr >>> shift ||| next <<< (32 - shift)) (next >>> shift) := by
        intro lt
        rw [← add_assoc]
        exact window.shift lt.le some
      refine (ih window' moved (by omega)).skip (by omega) fun k hk hk' => ?_
      rcases skipped with set | ⟨rfl, i, hi, set⟩
      · obtain ⟨i, rfl⟩ := Nat.exists_eq_add_of_le hk
        have bit := set i (by omega)
        have inside : i < 32 := lt_of_getLsbD bit
        exact not_freeRun pos ((window.curr i inside).symm.trans bit)
      · obtain rfl : k = granidx + bitidx := by omega
        exact not_freeRun hi ((window.curr i (by omega)).symm.trans set)
    · intro k hk hi free
      exact more ⟨by omega, by have := free.1; omega⟩

theorem searchTable_spec {m gatidx : ℕ} (pos : 0 < n) (hn : n ≤ 32)
    (used : 32 * (gatidx + m) < priv.ngranules + 32) :
    Finds priv n (32 * gatidx) (32 * (gatidx + m)) (searchTable priv n m gatidx) := by
  induction m generalizing gatidx with
  | zero => exact fun k hk hi => absurd hi (by omega)
  | succ m ih =>
    have rest := @ih (gatidx + 1) (by omega)
    rw [Nat.add_assoc, Nat.add_comm 1 m] at rest
    have bits : ∀ i < 32, (priv.gat gatidx).getLsbD i = priv.bit (32 * gatidx + i) := by
      intro i hi
      rw [GranS.bit, show (32 * gatidx + i) / 32 = gatidx by omega,
        show (32 * gatidx + i) % 32 = i by omega]
    rw [searchTable]
    simp only [if_pos (show 32 * gatidx < priv.ngranules by omega)]
    split_ifs with full
    · have ones : 0xffffffff#32 = granMask 32 := by decide
      refine rest.skip (by omega) fun k hk hk' => not_freeRun pos ?_
      have := bits (k - 32 * gatidx) (by omega)
      rw [full, ones, getLsbD_granMask le_rfl, show 32 * gatidx + (k - 32 * gatidx) = k by omega]
        at this
      rw [add_zero, ← this]
      simp
      omega
    have window : Window priv (32 * gatidx + 0) 0 (priv.gat gatidx) (priv.gat (gatidx + 1)) := by
      refine ⟨bits, fun i hi => ?_⟩
      rw [GranS.bit, show (32 * gatidx + 0 + 32 + i) / 32 = gatidx + 1 by omega,
        show (32 * gatidx + 0 + 32 + i) % 32 = i by omega]
    have addr : add32 priv.heapstart (32 * gatidx * 2 ^ priv.log2gran % 2 ^ 32) =
        priv.addr (32 * gatidx + 0) := by
      rw [add32, Nat.add_mod_mod]
      rfl
    have entry := searchEntry_spec pos hn (fun _ => window) addr (by decide : 32 ≤ 32 + 0)
    cases found : searchEntry priv n (32 * gatidx) 32 0 (priv.gat gatidx) (priv.gat (gatidx + 1))
      (add32 priv.heapstart (32 * gatidx * 2 ^ priv.log2gran % 2 ^ 32)) with
    | none =>
      rw [found] at entry
      exact rest.skip (by omega) entry
    | some alloc =>
      rw [found] at entry
      obtain ⟨k, hk, lt, free, at_k, first⟩ := entry
      exact ⟨k, hk, by omega, free, at_k, first⟩

/-! ## Allocation and release -/

def granules (priv : GranS) (size : ℕ) : ℕ :=
  (size + (2 ^ priv.log2gran - 1)) / 2 ^ priv.log2gran

/-- The sizes that `gran_alloc` asserts: up to 32 granules, in the arithmetic of the target. -/
def Allowed (priv : GranS) (size : ℕ) : Prop :=
  0 < size ∧ size ≤ 32 * 2 ^ priv.log2gran % 2 ^ 32

theorem Allowed.count (ok : Allowed priv size) :
    granCount priv size = granules priv size ∧ 0 < granules priv size ∧
      granules priv size ≤ 32 := by
  obtain ⟨some, le⟩ := ok
  have gran : 0 < 2 ^ priv.log2gran := Nat.two_pow_pos _
  -- granules of 128 MiB and more leave no size that the assertion accepts
  have small : 2 ^ priv.log2gran ≤ 2 ^ 26 := by
    refine Nat.pow_le_pow_right (by decide) ?_
    by_contra large
    have : 2 ^ 27 ∣ 2 ^ priv.log2gran := Nat.pow_dvd_pow 2 (by omega)
    omega
  refine ⟨?_, Nat.div_pos (by omega) gran, ?_⟩
  · rw [granCount, add32_eq (by omega), Nat.shiftRight_eq_div_pow, granules]
  · exact Nat.lt_succ_iff.1 ((Nat.div_lt_iff_lt_mul gran).2 (by omega))

/-- The heap lies in the address space, and not at the null pointer. -/
structure Placed (priv : GranS) : Prop where
  pos : 0 < priv.heapstart
  fits : priv.heapstart + priv.ngranules * 2 ^ priv.log2gran ≤ 2 ^ 32

theorem Placed.addr (placed : Placed priv) (hk : k < priv.ngranules) :
    priv.addr k = priv.heapstart + k * 2 ^ priv.log2gran ∧ granNo priv (priv.addr k) = k := by
  have gran : 0 < 2 ^ priv.log2gran := Nat.two_pow_pos _
  have inside : (k + 1) * 2 ^ priv.log2gran ≤ priv.ngranules * 2 ^ priv.log2gran :=
    Nat.mul_le_mul_right _ hk
  have fits := placed.fits
  rw [Nat.add_mul, Nat.one_mul] at inside
  have addr : priv.addr k = priv.heapstart + k * 2 ^ priv.log2gran := Nat.mod_eq_of_lt (by omega)
  refine ⟨addr, ?_⟩
  rw [addr, granNo, sub32_eq (by omega) (by omega), Nat.add_sub_cancel_left,
    Nat.shiftRight_eq_div_pow, Nat.mul_div_cancel _ gran]

/-- The table with the bits of a run set or cleared, and nothing else changed. -/
structure Changed (priv priv' : GranS) (k n : ℕ) (value : Bool) : Prop where
  log2gran : priv'.log2gran = priv.log2gran
  ngranules : priv'.ngranules = priv.ngranules
  heapstart : priv'.heapstart = priv.heapstart
  bit : ∀ j, priv'.bit j = if k ≤ j ∧ j < k + n then value else priv.bit j

section

variable {one : BitVec 32 → BitVec 32 → BitVec 32} (op : Bool → Bool → Bool)
  (bitwise : ∀ word mask i, i < 32 → (one word mask).getLsbD i =
    op (word.getLsbD i) (mask.getLsbD i))
  (keep : ∀ b, op b false = b) (priv : GranS) (k : ℕ) (hn : n ≤ 32)

include bitwise keep hn

theorem changeBits_bit (j : ℕ) :
    (changeBits one priv k n).bit j = op (priv.bit j) (decide (k ≤ j ∧ j < k + n)) := by
  have hj : j % 32 < 32 := Nat.mod_lt _ (by decide)
  have word : k >>> 5 = k / 32 := Nat.shiftRight_eq_div_pow k 5
  have outside : ¬ (k ≤ j ∧ j < k + n) → priv.bit j =
    op (priv.bit j) (decide (k ≤ j ∧ j < k + n)) :=
    fun out => by rw [decide_eq_false out, keep]
  unfold changeBits
  simp only [word]
  split_ifs with two
  · by_cases second : j / 32 = k / 32 + 1
    · simp only [GranS.bit, second, update_self]
      rw [bitwise _ _ _ hj, getLsbD_granMask (by omega), update_of_ne (Nat.succ_ne_self _)]
      exact congrArg _ (decide_eq_decide.2 (by omega))
    by_cases first : j / 32 = k / 32
    · simp only [GranS.bit, first, update_of_ne (Nat.succ_ne_self _).symm,
        update_self]
      rw [bitwise _ _ _ hj, getLsbD_ones_shift]
      exact congrArg _ (decide_eq_decide.2 (by omega))
    · refine Eq.trans ?_ (outside (by omega))
      simp only [GranS.bit, update_of_ne second, update_of_ne first]
  by_cases first : j / 32 = k / 32
  · simp only [GranS.bit, first, update_self]
    rw [bitwise _ _ _ hj, getLsbD_shiftLeft, getLsbD_granMask hn]
    refine congrArg _ ?_
    rw [decide_eq_true hj, Bool.true_and, ← decide_not, ← Bool.decide_and, decide_eq_decide]
    omega
  · refine Eq.trans ?_ (outside (by omega))
    simp only [GranS.bit, update_of_ne first]

theorem changeBits_changed {value : Bool} (change : ∀ b, op b true = value) :
    Changed priv (changeBits one priv k n) k n value := by
  refine ⟨?_, ?_, ?_, fun j => ?_⟩
  case refine_4 =>
    rw [changeBits_bit op bitwise keep priv k hn]
    split_ifs with run <;> simp [run, keep, change]
  all_goals
    simp only [changeBits]
    split_ifs <;> rfl

end

theorem granMarkAllocated_spec (placed : Placed priv) (hk : k < priv.ngranules) (hn : n ≤ 32) :
    Changed priv (granMarkAllocated priv (priv.addr k) n) k n true := by
  rw [granMarkAllocated, (placed.addr hk).2]
  exact changeBits_changed (· || ·) (fun _ _ _ _ => getLsbD_or) Bool.or_false priv k hn
    Bool.or_true

theorem granFree_spec (placed : Placed priv) (hk : k < priv.ngranules) (ok : Allowed priv size) :
    Changed priv (granFree priv (priv.addr k) size) k (granules priv size) false := by
  obtain ⟨count, -, hn⟩ := ok.count
  rw [granFree, (placed.addr hk).2, count]
  exact changeBits_changed (fun a b => a && !b) (fun word mask i hi => by simp [hi]) (by simp)
    priv k hn (by simp)

/-- `gran_alloc` takes the first free run that is long enough, or returns null. -/
theorem granAlloc_spec (placed : Placed priv) (ok : Allowed priv size) :
    (∃ k, FreeRun priv k (granules priv size) ∧ (∀ k' < k, ¬ FreeRun priv k' (granules priv size)) ∧
      (granAlloc priv size).2 = priv.heapstart + k * 2 ^ priv.log2gran ∧
      Changed priv (granAlloc priv size).1 k (granules priv size) true) ∨
    (∀ k, ¬ FreeRun priv k (granules priv size)) ∧ granAlloc priv size = (priv, 0) := by
  obtain ⟨count, pos, hn⟩ := ok.count
  have entries : sizeofGat priv.ngranules = (priv.ngranules + 31) / 32 :=
    Nat.shiftRight_eq_div_pow _ 5
  have search : Finds priv (granules priv size) 0 (32 * (0 + sizeofGat priv.ngranules))
      (searchTable priv (granules priv size) (sizeofGat priv.ngranules) 0) :=
    searchTable_spec pos hn (by omega)
  simp only [granAlloc, if_pos ok.1, count]
  cases found : searchTable priv (granules priv size) (sizeofGat priv.ngranules) 0 with
  | none =>
    rw [found] at search
    refine .inr ⟨fun k free => search k (by omega) ?_ free, rfl⟩
    have := free.1
    omega
  | some alloc =>
    rw [found] at search
    obtain ⟨k, -, -, free, rfl, first⟩ := search
    have hk : k < priv.ngranules := by have := free.1; omega
    exact .inl ⟨k, free, fun k' h => first k' (by omega) h, (placed.addr hk).1,
      granMarkAllocated_spec placed hk hn⟩

/-! ## The table entries that are accessed -/

/-- The entries that `searchTable` reads. -/
def searchEntries (priv : GranS) (ngranules : ℕ) : ℕ → ℕ → List ℕ
  | 0, _ => []
  | n + 1, gatidx =>
    let granidx := 32 * gatidx
    let curr := priv.gat gatidx
    if curr = 0xffffffff#32 then gatidx :: searchEntries priv ngranules n (gatidx + 1)
    else
      let next := if granidx < priv.ngranules then priv.gat (gatidx + 1) else 0xffffffff#32
      gatidx :: (if granidx < priv.ngranules then [gatidx + 1] else []) ++
        match searchEntry priv ngranules granidx 32 0 curr next
          (add32 priv.heapstart (granidx * 2 ^ priv.log2gran % 2 ^ 32)) with
        | some _ => []
        | none => searchEntries priv ngranules n (gatidx + 1)

/-- The entries that `gran_mark_allocated` and `gran_free` access. -/
def changeEntries (granno n : ℕ) : List ℕ :=
  if 32 - granno % 32 < n then [granno >>> 5, (granno >>> 5) + 1] else [granno >>> 5]

/-- The entries that `gran_alloc` accesses. -/
def allocEntries (priv : GranS) (size : ℕ) : List ℕ :=
  if 0 < size then
    let ngranules := granCount priv size
    searchEntries priv ngranules (sizeofGat priv.ngranules) 0 ++
      match searchTable priv ngranules (sizeofGat priv.ngranules) 0 with
      | some alloc => changeEntries (granNo priv alloc) ngranules
      | none => []
  else []

theorem Placed.changeEntries_lt (placed : Placed priv) (pos : 0 < n)
    (inside : k + n ≤ priv.ngranules) :
    ∀ i ∈ changeEntries (granNo priv (priv.addr k)) n, i < sizeofGat priv.ngranules := by
  rw [(placed.addr (by omega)).2]
  unfold sizeofGat changeEntries
  split
  · simp only [List.forall_mem_cons]
    exact ⟨by omega, by omega, nofun⟩
  · simp only [List.forall_mem_singleton]
    omega

theorem searchEntries_inside (m gatidx : ℕ) (used : 32 * (gatidx + m) < priv.ngranules) :
    (∀ i ∈ searchEntries priv n (m + 1) gatidx, i ≤ gatidx + m) ↔
      priv.gat (gatidx + m) = 0xffffffff#32 ∨ (searchTable priv n m gatidx).isSome = true := by
  have here : 32 * gatidx < priv.ngranules := by omega
  induction m generalizing gatidx with
  | zero => by_cases full : priv.gat gatidx = 0xffffffff#32 <;> simp [searchEntries, searchTable, *]
  | succ m ih =>
    have rest := ih (gatidx + 1) (by omega) (by omega)
    rw [Nat.add_assoc, Nat.add_comm 1 m] at rest
    rw [searchEntries, searchTable]
    simp only [if_pos here]
    split_ifs with full
    · simp [rest]
    generalize searchEntry priv n _ _ _ _ _ _ = found
    cases found <;> simp [rest, show gatidx ≤ gatidx + (m + 1) by omega]

theorem Finds.isSome_iff {hi : ℕ} {r : Option ℕ} (found : Finds priv n 0 hi r) :
    r.isSome = true ↔ ∃ k < hi, FreeRun priv k n := by
  cases r with
  | none => exact iff_of_false nofun fun ⟨k, lt, free⟩ => found k (Nat.zero_le k) lt free
  | some alloc =>
    obtain ⟨k, -, lt, free, -⟩ := found
    exact iff_of_true rfl ⟨k, lt, free⟩

/-- `gran_alloc` reads the word behind the table exactly when its search gets to the last entry and
finds a free granule in it; a change of a run inside the heap stays in the table. -/
theorem granAlloc_entries_iff (placed : Placed priv) (ok : Allowed priv size) :
    ((∀ i ∈ allocEntries priv size, i < sizeofGat priv.ngranules) ↔
      ∀ last, sizeofGat priv.ngranules = last + 1 → priv.gat last = 0xffffffff#32 ∨
        ∃ k < 32 * last, FreeRun priv k (granules priv size)) ∧
    ∀ k n, 0 < n → k + n ≤ priv.ngranules →
      ∀ i ∈ changeEntries (granNo priv (priv.addr k)) n, i < sizeofGat priv.ngranules := by
  refine ⟨?_, fun k n => placed.changeEntries_lt⟩
  obtain ⟨count, pos, hn⟩ := ok.count
  have entries : sizeofGat priv.ngranules = (priv.ngranules + 31) / 32 :=
    Nat.shiftRight_eq_div_pow _ 5
  have search (m : ℕ) (used : 32 * m < priv.ngranules + 32) :
      Finds priv (granules priv size) 0 (32 * (0 + m))
        (searchTable priv (granules priv size) m 0) :=
    searchTable_spec pos hn (by omega)
  simp only [allocEntries, if_pos ok.1, count, List.forall_mem_append]
  rw [and_iff_left]
  · cases c : sizeofGat priv.ngranules with
    | zero => simp [searchEntries]
    | succ last =>
      have inside : 32 * (0 + last) < priv.ngranules := by omega
      simpa [Nat.lt_succ_iff, (search last (by omega)).isSome_iff] using
        searchEntries_inside (n := granules priv size) last 0 inside
  · have found := search (sizeofGat priv.ngranules) (by omega)
    split
    · next alloc some =>
      rw [some] at found
      obtain ⟨k, -, -, free, rfl, -⟩ := found
      exact placed.changeEntries_lt pos free.1
    · nofun

theorem granAlloc_entries_iff_first : Allowed ⟨4, 33, 4096, fun _ => 0⟩ 16 ∧
    ∀ i ∈ allocEntries ⟨4, 33, 4096, fun _ => 0⟩ 16, i < 2 := by
  have ok : Allowed ⟨4, 33, 4096, fun _ => 0⟩ 16 := ⟨by decide, by decide⟩
  refine ⟨ok, (granAlloc_entries_iff ⟨by decide, by decide⟩ ok).1.2 fun last ends => .inr ?_⟩
  cases ends
  exact ⟨0, by decide, by decide, fun i hi => by simp [GranS.bit]⟩

/-- A new heap of 32 granules: the table has one word, and `gran_alloc` reads two. -/
theorem alloc_reads_behind : ∃ priv, priv = granInitialize (fun _ => 0) 4096 512 4 4 ∧
    priv.ngranules = 32 ∧ Allowed priv 16 ∧ 1 ∈ allocEntries priv 16 ∧ sizeofGat 32 = 1 := by
  refine ⟨_, rfl, ?_⟩
  unfold Allowed
  decide +kernel

end NuttxRtos.Gran

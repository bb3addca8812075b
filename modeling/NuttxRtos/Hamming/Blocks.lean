import NuttxRtos.Hamming.Secded

/-!
# Several blocks

`hamming_verify256x` over any number of blocks. The status that it returns is a summary of the
statuses of the blocks, except that it starts from a variable which is not initialized.
-/

namespace NuttxRtos.Hamming

open List

/-! ## One block -/

variable {data data' original : Buffer} {base m n : ℕ} {l : List Status}

theorem hammingCompute256_congr (same : ∀ i < 256, data (base + i) = data' (base + i)) :
    hammingCompute256 data base = hammingCompute256 data' base := by
  have lines_same : lines data base = lines data' base := by
    apply foldl_ext
    intro l i inside
    simp only [lineStep, same i (mem_range.1 inside)]
  simp only [hammingCompute256, parityCode, lines_same]

theorem verify256_congr (code : Code) (same : ∀ i < 256, data (base + i) = data' (base + i)) :
    (hammingVerify256 data base code).1 = (hammingVerify256 data' base code).1 ∧
      ∀ i < 256, (hammingVerify256 data base code).2 (base + i) =
        (hammingVerify256 data' base code).2 (base + i) := by
  unfold hammingVerify256
  rw [hammingCompute256_congr same]
  dsimp only
  split_ifs
  · exact ⟨rfl, same⟩
  · refine ⟨rfl, fun i inside => ?_⟩
    have byte := same _ (correctionByte ((hammingCompute256 data' base).xor code)).isLt
    simp only [Function.update_apply, byte, same i inside]
  all_goals exact ⟨rfl, same⟩

theorem verify256_frame (data : Buffer) (base : ℕ) (code : Code) {i : ℕ}
    (outside : i < base ∨ base + 256 ≤ i) : (hammingVerify256 data base code).2 i = data i := by
  unfold hammingVerify256
  dsimp only
  split_ifs
  · rfl
  · have small := (correctionByte ((hammingCompute256 data base).xor code)).isLt
    apply Function.update_of_ne
    omega
  · rfl
  · rfl

/-! ## The loop -/

def blockStatus (data code : Buffer) (m : ℕ) : Status :=
  (hammingVerify256 data (256 * m) (loadCode code (3 * m))).1

def Status.Bad (s : Status) : Prop := s = .ecc ∨ s = .multiplebits

theorem Status.not_bad {s : Status} : ¬ s.Bad ↔ s = .success ∨ s = .singlebit := by
  cases s <;> simp [Bad]

/-- What the loop makes of the statuses of the blocks. -/
def summary : List Status → ℤ → ℤ
  | [], ret => ret
  | .success :: rest, ret => summary rest ret
  | .singlebit :: rest, _ => summary rest Status.singlebit.toInt
  | bad :: _, _ => bad.toInt

theorem verifyLoop_zero (data : Buffer) (base : ℕ) (code : Buffer) (cbase : ℕ) (ret : ℤ) :
    verifyLoop ((256 : ℕ) * (0 : ℕ) : ℕ) data base code cbase ret = (ret, data) := by
  rw [verifyLoop]
  rfl

theorem verifyLoop_succ (n : ℕ) (data : Buffer) (m : ℕ) (code : Buffer) (ret : ℤ) :
    verifyLoop (256 * (n + 1) : ℕ) data (256 * m) code (3 * m) ret =
      let verified := hammingVerify256 data (256 * m) (loadCode code (3 * m))
      if verified.1 ≠ .success then
        if verified.1 = .singlebit then
          verifyLoop (256 * n : ℕ) verified.2 (256 * (m + 1)) code (3 * (m + 1)) verified.1.toInt
        else (verified.1.toInt, verified.2)
      else verifyLoop (256 * n : ℕ) verified.2 (256 * (m + 1)) code (3 * (m + 1)) ret := by
  have rest : ((256 * (n + 1) : ℕ) : ℤ) - 256 = (256 * n : ℕ) := by omega
  rw [verifyLoop, if_pos (by omega), rest]
  rfl

theorem blockStatus_verified (data code : Buffer) {b : ℕ} (later : m < b) :
    blockStatus (hammingVerify256 data (256 * m) (loadCode code (3 * m))).2 code b =
      blockStatus data code b := by
  apply (verify256_congr (loadCode code (3 * b)) _).1
  intro i inside
  apply verify256_frame
  omega

theorem verifyLoop_ret (n : ℕ) (data : Buffer) (m : ℕ) (code : Buffer) (ret : ℤ) :
    (verifyLoop (256 * n : ℕ) data (256 * m) code (3 * m) ret).1 =
      summary ((List.range n).map fun i => blockStatus data code (m + i)) ret := by
  induction n generalizing data m ret with
  | zero =>
    rw [verifyLoop_zero]
    rfl
  | succ n ih =>
    have rest : ((List.range n).map fun i => blockStatus
        (hammingVerify256 data (256 * m) (loadCode code (3 * m))).2 code (m + 1 + i)) =
        (List.range n).map fun i => blockStatus data code (m + (i + 1)) := by
      apply map_congr_left
      intro i _
      rw [blockStatus_verified data code (by omega)]
      congr 1
      omega
    have first : (hammingVerify256 data (256 * m) (loadCode code (3 * m))).1 =
        blockStatus data code m := rfl
    have all : ((List.range (n + 1)).map fun i => blockStatus data code (m + i)) =
        blockStatus data code m ::
          (List.range n).map fun i => blockStatus data code (m + (i + 1)) := by
      rw [range_succ_eq_map, map_cons, map_map]
      rfl
    rw [verifyLoop_succ, all]
    dsimp only
    rw [first]
    cases blockStatus data code m with
    | success =>
      rw [if_neg (by decide), ih, rest]
      rfl
    | singlebit =>
      rw [if_pos (by decide), if_pos rfl, ih, rest]
      rfl
    | ecc | multiplebits => rfl

theorem verifyLoop_data (n : ℕ) (data : Buffer) (m : ℕ) (code : Buffer) (ret : ℤ)
    (good : ∀ i < n, ¬ (blockStatus data code (m + i)).Bad) :
    (∀ i < 256 * m, (verifyLoop (256 * n : ℕ) data (256 * m) code (3 * m) ret).2 i = data i) ∧
    ∀ b < n, ∀ i < 256,
      (verifyLoop (256 * n : ℕ) data (256 * m) code (3 * m) ret).2 (256 * (m + b) + i) =
        (hammingVerify256 data (256 * (m + b)) (loadCode code (3 * (m + b)))).2
          (256 * (m + b) + i) := by
  induction n generalizing data m ret with
  | zero =>
    rw [verifyLoop_zero]
    exact ⟨fun _ _ => rfl, fun b no => absurd no (Nat.not_lt_zero b)⟩
  | succ n ih =>
    have first : (hammingVerify256 data (256 * m) (loadCode code (3 * m))).1 =
        blockStatus data code m := rfl
    have good_rest : ∀ i < n, ¬ (blockStatus
        (hammingVerify256 data (256 * m) (loadCode code (3 * m))).2 code (m + 1 + i)).Bad := by
      intro i inside
      rw [blockStatus_verified data code (by omega), show m + 1 + i = m + (i + 1) by omega]
      exact good (i + 1) (by omega)
    have step : ∃ ret', verifyLoop (256 * (n + 1) : ℕ) data (256 * m) code (3 * m) ret =
        verifyLoop (256 * n : ℕ) (hammingVerify256 data (256 * m) (loadCode code (3 * m))).2
          (256 * (m + 1)) code (3 * (m + 1)) ret' := by
      rw [verifyLoop_succ]
      dsimp only
      rw [first]
      rcases Status.not_bad.1 (Nat.add_zero m ▸ good 0 n.succ_pos) with status | status
      · exact ⟨ret, if_neg (by simp [status])⟩
      · exact ⟨_, (if_pos (by simp [status])).trans (if_pos status)⟩
    obtain ⟨ret', step⟩ := step
    obtain ⟨before, blocks⟩ := ih _ (m + 1) ret' good_rest
    rw [step]
    refine ⟨fun i below => ?_, fun b inside i small => ?_⟩
    · rw [before i (by omega)]
      exact verify256_frame _ _ _ (by omega)
    cases b with
    | zero => exact before _ (by omega)
    | succ b =>
      have last := blocks b (by omega) i small
      rw [show m + 1 + b = m + (b + 1) by omega] at last
      rw [last]
      apply (verify256_congr _ _).2 i small
      intro k inside'
      apply verify256_frame
      omega

theorem summary_bad (bad : ∃ s ∈ l, s.Bad) (ret : ℤ) : summary l ret = 2 ∨ summary l ret = 3 := by
  induction l generalizing ret with
  | nil =>
    obtain ⟨s, no, _⟩ := bad
    cases no
  | cons s l ih =>
    rw [exists_mem_cons_iff] at bad
    cases s with
    | success => exact ih (bad.resolve_left (by simp [Status.Bad])) ret
    | singlebit => exact ih (bad.resolve_left (by simp [Status.Bad])) _
    | ecc => exact .inl rfl
    | multiplebits => exact .inr rfl

theorem summary_good (good : ∀ s ∈ l, ¬ s.Bad) (ret : ℤ) :
    summary l ret = if .singlebit ∈ l then 1 else ret := by
  induction l generalizing ret with
  | nil => rfl
  | cons s l ih =>
    have rest := ih fun b inside => good b (mem_cons_of_mem s inside)
    cases s with
    | success => simpa [summary] using rest ret
    | singlebit => simpa [summary, Status.toInt] using rest 1
    | ecc => exact absurd (.inl rfl) (good .ecc (by simp))
    | multiplebits => exact absurd (.inr rfl) (good .multiplebits (by simp))

/-! ## What is returned -/

/-- The value returned for `n` blocks says what happened to them. -/
def Reports (ret : ℤ) (status : ℕ → Status) (n : ℕ) : Prop :=
  (ret = 0 ↔ ∀ m < n, status m = .success) ∧
  (ret = 1 ↔ (∃ m < n, status m = .singlebit) ∧ ∀ m < n, ¬ (status m).Bad) ∧
  ((ret = 2 ∨ ret = 3) ↔ ∃ m < n, (status m).Bad)

theorem toSsize_eq {size : ℕ} (small : size < 2 ^ 31) : toSsize size = size := by
  unfold toSsize
  omega

theorem verify256x_ret (garbage : ℤ) (data code : Buffer) (small : 256 * n < 2 ^ 31) :
    (hammingVerify256x garbage data (256 * n) code).1 =
      summary ((List.range n).map (blockStatus data code)) garbage := by
  have loop := verifyLoop_ret n data 0 code garbage
  simp only [Nat.zero_add] at loop
  rw [hammingVerify256x, toSsize_eq small]
  exact loop

theorem verify256x_clean (garbage : ℤ) {code : Buffer} (small : 256 * n < 2 ^ 31)
    (all : ∀ m < n, blockStatus data code m = .success) :
    (hammingVerify256x garbage data (256 * n) code).1 = garbage := by
  have clean : ∀ s ∈ (List.range n).map (blockStatus data code), s = .success := by
    simpa using all
  rw [verify256x_ret garbage data code small, summary_good, if_neg]
  · intro single
    cases clean _ single
  intro s member
  rw [clean s member]
  simp [Status.Bad]

theorem status_cases (status : ℕ → Status) (n : ℕ) :
    (∃ m < n, (status m).Bad) ∨ ((∃ m < n, status m = .singlebit) ∧ ∀ m < n, ¬ (status m).Bad) ∨
      ∀ m < n, status m = .success := by
  by_cases bad : ∃ m < n, (status m).Bad
  · exact .inl bad
  right
  have good : ∀ m < n, ¬ (status m).Bad := fun m inside is_bad => bad ⟨m, inside, is_bad⟩
  by_cases single : ∃ m < n, status m = .singlebit
  · exact .inl ⟨single, good⟩
  right
  intro m inside
  exact (Status.not_bad.1 (good m inside)).resolve_right fun is => single ⟨m, inside, is⟩

/-- The returned value says what happened, whatever the uninitialized variable holds, if and only if
the loop runs and some block is not clean. -/
theorem reports_iff (data code : Buffer) (large : 256 * n < 2 ^ 32) :
    (∀ garbage,
      Reports (hammingVerify256x garbage data (256 * n) code).1 (blockStatus data code) n) ↔
      256 * n < 2 ^ 31 ∧ ∃ m < n, blockStatus data code m ≠ .success := by
  constructor
  · intro reports
    have small : 256 * n < 2 ^ 31 := by
      by_contra huge
      have skipped : (hammingVerify256x 4 data (256 * n) code).1 = 4 := by
        have negative : ¬ 0 < toSsize (256 * n) := by
          unfold toSsize
          omega
        rw [hammingVerify256x, verifyLoop, if_neg negative]
      obtain ⟨clean, corrected, failed⟩ := reports 4
      rw [skipped] at clean corrected failed
      rcases status_cases (blockStatus data code) n with bad | single | all
      · exact absurd (failed.2 bad) (by decide)
      · exact absurd (corrected.2 single) (by decide)
      · exact absurd (clean.2 all) (by decide)
    refine ⟨small, ?_⟩
    by_contra! all
    have zero := (reports 1).1.2 all
    rw [verify256x_clean 1 small all] at zero
    cases zero
  rintro ⟨small, m, inside, error⟩ garbage
  rw [verify256x_ret garbage data code small]
  have member : ∀ k < n, blockStatus data code k ∈ (List.range n).map (blockStatus data code) :=
    fun k below => mem_map.2 ⟨k, mem_range.2 below, rfl⟩
  have not_clean : ¬ ∀ m < n, blockStatus data code m = .success := fun all =>
    error (all m inside)
  rcases status_cases (blockStatus data code) n with ⟨k, below, bad⟩ |
    ⟨⟨k, below, single⟩, good⟩ | all
  · have ret := summary_bad ⟨_, member k below, bad⟩ garbage
    refine ⟨iff_of_false (by omega) not_clean, iff_of_false (by omega) ?_,
      iff_of_true ret ⟨k, below, bad⟩⟩
    exact fun corrected => corrected.2 k below bad
  · have ret : summary ((List.range n).map (blockStatus data code)) garbage = 1 := by
      rw [summary_good (by simpa using good), if_pos (single ▸ member k below)]
    rw [ret]
    exact ⟨iff_of_false (by decide) not_clean, iff_of_true rfl ⟨⟨k, below, single⟩, good⟩,
      iff_of_false (by decide) fun ⟨m, inside, bad⟩ => good m inside bad⟩
  · exact absurd all not_clean

/-! ## Corrected data -/

theorem computeLoop_spec (n : ℕ) (data : Buffer) (m : ℕ) (code : Buffer) :
    (∀ i < 3 * m, computeLoop (256 * n : ℕ) data (256 * m) code (3 * m) i = code i) ∧
    ∀ b < n, loadCode (computeLoop (256 * n : ℕ) data (256 * m) code (3 * m)) (3 * (m + b)) =
      hammingCompute256 data (256 * (m + b)) := by
  induction n generalizing m code with
  | zero =>
    rw [computeLoop]
    exact ⟨fun _ _ => rfl, fun b no => absurd no (Nat.not_lt_zero b)⟩
  | succ n ih =>
    have rest : ((256 * (n + 1) : ℕ) : ℤ) - 256 = (256 * n : ℕ) := by omega
    have step : computeLoop (256 * (n + 1) : ℕ) data (256 * m) code (3 * m) =
        computeLoop (256 * n : ℕ) data (256 * (m + 1))
          (storeCode code (3 * m) (hammingCompute256 data (256 * m))) (3 * (m + 1)) := by
      rw [computeLoop, if_pos (by omega), rest]
      rfl
    obtain ⟨before, blocks⟩ :=
      ih (m + 1) (storeCode code (3 * m) (hammingCompute256 data (256 * m)))
    rw [step]
    refine ⟨fun i below => ?_, fun b inside => ?_⟩
    · rw [before i (by omega), storeCode, if_neg (by omega), if_neg (by omega), if_neg (by omega)]
    cases b with
    | zero =>
      simp only [loadCode, Nat.add_zero]
      rw [before _ (by omega), before _ (by omega), before _ (by omega)]
      simp [storeCode]
    | succ b =>
      have last := blocks b (by omega)
      rw [show m + 1 + b = m + (b + 1) by omega] at last
      exact last

/-- Two buffers have the same block, up to one flipped bit. -/
def OneFlip (data original : Buffer) (m : ℕ) : Prop :=
  (∀ i < 256, data (256 * m + i) = original (256 * m + i)) ∨ ∃ (k : Fin 256) (j : Fin 8), ∀ i < 256,
      data (256 * m + i) = bufferXor original (unit (256 * m + k) j) (256 * m + i)

theorem verify256_oneFlip (flips : OneFlip data original m) :
    ¬ (hammingVerify256 data (256 * m) (hammingCompute256 original (256 * m))).1.Bad ∧
    ∀ i < 256, (hammingVerify256 data (256 * m) (hammingCompute256 original (256 * m))).2
      (256 * m + i) = original (256 * m + i) := by
  cases flips with
  | inl same =>
    obtain ⟨status, block⟩ := verify256_congr (hammingCompute256 original (256 * m)) same
    rw [verify256_clean] at status block
    rw [status]
    exact ⟨by simp [Status.Bad], block⟩
  | inr flipped =>
    obtain ⟨k, j, same⟩ := flipped
    obtain ⟨status, block⟩ := verify256_congr (hammingCompute256 original (256 * m)) same
    have corrected := verify256_data original (256 * m) k j
    simp only [flip] at corrected
    rw [corrected] at status block
    rw [status]
    exact ⟨by simp [Status.Bad], block⟩

theorem compute256x_codes (code : Buffer) (small : 256 * n < 2 ^ 31) (inside : m < n) :
    loadCode (hammingCompute256x original (256 * n) code) (3 * m) =
      hammingCompute256 original (256 * m) := by
  have loop := (computeLoop_spec n original 0 code).2 m inside
  simp only [Nat.zero_add] at loop
  rw [hammingCompute256x, toSsize_eq small]
  exact loop

theorem verify256x_corrects (garbage : ℤ) (code : Buffer) (small : 256 * n < 2 ^ 31)
    (flips : ∀ m < n, OneFlip data original m) :
    (∀ m < n, ¬ (blockStatus data (hammingCompute256x original (256 * n) code) m).Bad) ∧
    ∀ i < 256 * n, (hammingVerify256x garbage data (256 * n)
      (hammingCompute256x original (256 * n) code)).2 i = original i := by
  have good : ∀ m < n, ¬ (blockStatus data (hammingCompute256x original (256 * n) code) m).Bad := by
    intro m inside
    rw [blockStatus, compute256x_codes code small inside]
    exact (verify256_oneFlip (flips m inside)).1
  refine ⟨good, fun i inside => ?_⟩
  have blocks := (verifyLoop_data n data 0 (hammingCompute256x original (256 * n) code) garbage
    (by simpa only [Nat.zero_add] using good)).2 (i / 256) (by omega) (i % 256) (by omega)
  simp only [Nat.zero_add, Nat.div_add_mod] at blocks
  rw [hammingVerify256x, toSsize_eq small]
  refine blocks.trans ?_
  rw [compute256x_codes code small (by omega)]
  have last := (verify256_oneFlip (flips (i / 256) (by omega))).2 (i % 256) (by omega)
  rwa [Nat.div_add_mod] at last

/-- What is returned says what happened to the blocks, for every value of the uninitialized
variable, exactly if there is a block that is not clean. Blocks with at most one flipped data bit
are corrected. -/
theorem verify256x_reports (data code : Buffer) {n : ℕ} (large : 256 * n < 2 ^ 32) :
    ((∀ garbage, Reports (hammingVerify256x garbage data (256 * n) code).1
      (blockStatus data code) n) ↔ 256 * n < 2 ^ 31 ∧ ∃ m < n, blockStatus data code m ≠ .success) ∧
    ∀ garbage original, 256 * n < 2 ^ 31 → (∀ m < n, OneFlip data original m) →
      (∀ m < n, ¬ (blockStatus data (hammingCompute256x original (256 * n) code) m).Bad) ∧
      ∀ i < 256 * n, (hammingVerify256x garbage data (256 * n)
        (hammingCompute256x original (256 * n) code)).2 i = original i :=
  ⟨reports_iff data code large, fun garbage _ small flips =>
    verify256x_corrects garbage code small flips⟩

/-- The codes of two blocks of zeros. -/
def zeroCodes : Buffer := hammingCompute256x (fun _ => 0) (256 * 2) fun _ => 0

/-- Two blocks of zeros, of which the second one has a flipped bit. -/
def secondFlipped : Buffer := bufferXor (fun _ => 0) (unit (256 * 1 + 3) 5)

/-- The flipped bit of the second block is reported and corrected. -/
theorem verify256x_reports_corrected : 256 * 2 < 2 ^ 32 ∧ ∀ garbage,
    Reports (hammingVerify256x garbage secondFlipped (256 * 2) zeroCodes).1
        (blockStatus secondFlipped zeroCodes) 2 ∧
      ∀ i < 256 * 2, (hammingVerify256x garbage secondFlipped (256 * 2) zeroCodes).2 i = 0 := by
  have single : blockStatus secondFlipped zeroCodes 1 = .singlebit := by
    have corrected := verify256_data (fun _ => 0) (256 * 1) 3 5
    rw [blockStatus, zeroCodes, compute256x_codes _ (by decide) (by decide)]
    exact congrArg Prod.fst corrected
  have flips : ∀ m < 2, OneFlip secondFlipped (fun _ => 0) m := by
    intro m inside
    obtain rfl | rfl : m = 0 ∨ m = 1 := by omega
    · refine .inl fun i below => ?_
      rw [secondFlipped, bufferXor, unit, if_neg (by omega)]
      rfl
    · exact .inr ⟨3, 5, fun _ _ => rfl⟩
  have reports := (verify256x_reports secondFlipped zeroCodes (n := 2) (by decide)).1
  refine ⟨by decide, fun garbage => ⟨reports.2 ⟨by decide, 1, by decide, ?_⟩ garbage, ?_⟩⟩
  · rw [single]
    decide
  · exact ((verify256x_reports secondFlipped (fun _ => 0) (n := 2) (by decide)).2 garbage _
      (by decide) flips).2

/-- One clean block: what is returned is what the variable happens to hold. -/
theorem clean_block_returns_garbage :
    blockStatus (fun _ => 0) zeroCodes 0 = .success ∧
      ∀ garbage, (hammingVerify256x garbage (fun _ => 0) 256 zeroCodes).1 = garbage := by
  have clean : blockStatus (fun _ => 0) zeroCodes 0 = .success := by
    rw [blockStatus, zeroCodes, compute256x_codes _ (by decide) (by decide)]
    exact congrArg Prod.fst (verify256_clean (fun _ => 0) 0)
  refine ⟨clean, fun garbage => verify256x_clean garbage (n := 1) (by decide) fun m inside => ?_⟩
  rw [Nat.lt_one_iff.1 inside]
  exact clean

end NuttxRtos.Hamming

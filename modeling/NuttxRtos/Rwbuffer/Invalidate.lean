import NuttxRtos.Rwbuffer.Coherence

/-!
# Invalidation

What `rwb_invalidate_writebuffer` and `rwb_invalidate_readahead` leave in the two buffers.
-/

namespace NuttxRtos.Rwbuffer

open Overlay Option

variable {β : Type} {g : Geometry} {rwb rwb' : Rwb β} {startblock : ℤ} {blockcount : ℕ}

def wrLookup (rwb : Rwb β) (b : ℤ) : Option β :=
  if InWr rwb b then some (rwb.wrbuffer (b - rwb.wrblockstart).toNat) else none

def rhLookup (rwb : Rwb β) (b : ℤ) : Option β := if InRh rwb b then some (rhCopy rwb b) else none

/-- Any buffers that the driver can have: blocks of the media, and no more than fit. -/
structure Filled (g : Geometry) (rwb : Rwb β) : Prop where
  wrsem : rwb.wrsem = 1
  rhsem : rwb.rhsem = 1
  wr_media : rwb.wrblockstart = -1 ∧ rwb.wrnblocks = 0 ∨ InMedia g rwb.wrblockstart rwb.wrnblocks
  wr_fits : rwb.wrnblocks ≤ g.wrmaxblocks
  expected : 0 < rwb.wrnblocks → rwb.wrexpectedblock = rwb.wrblockstart + rwb.wrnblocks
  rh_media : rwb.rhblockstart = -1 ∧ rwb.rhnblocks = 0 ∨ InMedia g rwb.rhblockstart rwb.rhnblocks

/-- `new` is `old` without the blocks of a region. Other blocks may be missing if the media has
them. -/
def Invalidated (old new : ℤ → Option β) (media : ℤ → β) (startblock : ℤ) (blockcount : ℕ) : Prop :=
  ∀ b, if startblock ≤ b ∧ b < startblock + blockcount then new b = none
    else new b = old b ∨ new b = none ∧ old b = some (media b)

/-- Blocks that are written next can be found under their own numbers, and no other block
changes. -/
def StoresOwn (g : Geometry) (rwb : Rwb β) : Prop :=
  ∀ (startblock : ℤ) (nblocks : ℕ) (wrbuffer : ℕ → β), 0 ≤ startblock →
    startblock + nblocks ≤ 2 ^ 31 → nblocks ≤ g.wrmaxblocks →
    (∀ i < nblocks,
      wrLookup (rwbWritebuffer g rwb startblock nblocks wrbuffer) (startblock + (i : ℕ)) =
      some (wrbuffer i)) ∧
    contents (rwbWritebuffer g rwb startblock nblocks wrbuffer) =
      overlay (contents rwb) startblock nblocks wrbuffer

def BeginsInside (blockstart : ℤ) (nblocks : ℕ) (startblock : ℤ) : Prop :=
  blockstart < startblock ∧ startblock < blockstart + nblocks

/-! ## Following writes -/

theorem appendWrbuffer_lookup {nblocks i : ℕ} (wrbuffer : ℕ → β)
    (follows : rwb.wrnblocks = 0 ∨ startblock = rwb.wrblockstart + rwb.wrnblocks)
    (inside : i < nblocks) :
    wrLookup (appendWrbuffer rwb startblock nblocks wrbuffer) (startblock + i) =
      some (wrbuffer i) := by
  obtain ⟨first, hfirst, start⟩ := append_first follows
  unfold wrLookup InWr appendWrbuffer
  simp only [hfirst]
  rw [if_pos (by omega), splice, if_pos (by omega)]
  congr 2
  omega

theorem storesOwn_of_expected
    (expected : 0 < rwb.wrnblocks → rwb.wrexpectedblock = rwb.wrblockstart + rwb.wrnblocks) :
    StoresOwn g rwb := by
  intro startblock nblocks wrbuffer _ _ _
  unfold rwbWritebuffer
  by_cases miss : writebufferMiss g rwb startblock nblocks = true
  · rw [if_pos miss]
    refine ⟨fun i inside => appendWrbuffer_lookup wrbuffer (.inl rfl) inside, ?_⟩
    rw [appendWrbuffer_contents (.inl rfl) wrbuffer]
    exact congrArg (overlay · startblock nblocks wrbuffer) contents_flushed
  rw [if_neg miss]
  have follows := follows_of_hit expected miss
  exact ⟨fun i inside => appendWrbuffer_lookup wrbuffer follows inside,
    appendWrbuffer_contents follows wrbuffer⟩

theorem writeReadahead_same (free : rwb.rhsem = 1) {nblocks : ℕ}
    (returns : writeReadahead g rwb startblock nblocks = some rwb') : SameButRh rwb rwb' := by
  unfold writeReadahead at returns
  split at returns
  · rw [takeRhsem_eq free] at returns
    simp only [bind_eq_bind, bind_some, pure] at returns
    split at returns
    · split at returns
      · -- The semaphore is taken already: only a removal from an empty buffer returns.
        unfold rwbInvalidateReadahead at returns
        split at returns
        · cases returns
        cases returns
        rw [giveRhsem_eq free]
        rfl
      · cases returns
        simp [SameButRh, giveRhsem, rwbResetrhbuffer, free]
    cases returns
    rw [giveRhsem_eq free]
    rfl
  · cases returns
    rfl

theorem StoresOwn.rwbWrite (stores : StoresOwn g rwb) (buffered : 0 < g.wrmaxblocks)
    (wrsem : rwb.wrsem = 1) (rhsem : rwb.rhsem = 1) {nblocks : ℕ} {wrbuffer : ℕ → β}
      (low : 0 ≤ startblock)
    (high : startblock + nblocks ≤ 2 ^ 31)
    (returns : rwbWrite g rwb startblock nblocks wrbuffer = some rwb') :
    contents rwb' = overlay (contents rwb) startblock nblocks wrbuffer := by
  obtain ⟨next, ahead, returns⟩ := bind_eq_some_iff.1 returns
  have same := writeReadahead_same rhsem ahead
  have free : next.wrsem = 1 := by
    rw [same]
    exact wrsem
  simp only [bind_eq_bind, bind_some, if_pos buffered, takeWrsem_eq free,
    rwbWrflush_locked free, rwbWritebuffer_locked free, pure] at returns
  rw [← same.contents]
  split at returns
  · cases returns
    have empty : (rwbWrflush next).wrnblocks = 0 := by
      unfold rwbWrflush
      split
      · rfl
      · omega
    have kept : contents (rwbWrflush next) = contents next := by
      unfold rwbWrflush
      split
      · exact contents_flushed
      · rfl
    have direct : contents (wrflush (rwbWrflush next) wrbuffer startblock nblocks) =
        overlay (rwbWrflush next).media startblock nblocks wrbuffer := contents_of_empty empty
    rw [direct, ← kept, contents_of_empty empty]
  cases returns
  have stored := (stores startblock nblocks wrbuffer low high (by omega)).2
  rw [← same.contents] at stored
  rw [← stored]
  rw [same]
  unfold rwbWritebuffer writebufferMiss
  split <;> rfl

/-- A write of the block that is wrongly expected goes to the block behind the buffer. -/
theorem not_storesOwn (positive : 0 < rwb.wrnblocks) (room : rwb.wrnblocks < g.wrmaxblocks)
    (low : -1 ≤ rwb.wrblockstart) (wrong : rwb.wrblockstart + rwb.wrnblocks < rwb.wrexpectedblock)
    (high : rwb.wrexpectedblock < 2 ^ 31) : ¬ StoresOwn g rwb := by
  intro stores
  obtain ⟨found, _⟩ := stores rwb.wrexpectedblock 1 rwb.wrbuffer (by omega) (by omega) (by omega)
  have missing : wrLookup (rwbWritebuffer g rwb rwb.wrexpectedblock 1 rwb.wrbuffer)
      (rwb.wrexpectedblock + (0 : ℕ)) = none := by
    have hit : writebufferMiss g rwb rwb.wrexpectedblock 1 = false := by
      simp only [writebufferMiss, decide_eq_false_iff_not]
      omega
    unfold rwbWritebuffer
    rw [hit, if_neg (by decide)]
    apply if_neg
    simp only [InWr, appendWrbuffer]
    omega
  rw [found 0 (by decide)] at missing
  cases missing

/-! ## A removal in either buffer -/

/-- What a buffer has that begins with the block `start`. -/
def lookup (buffer : ℕ → β) (start : ℤ) (n : ℕ) (b : ℤ) : Option β :=
  if start ≤ b ∧ b < start + n then some (buffer (b - start).toNat) else none

variable {buffer : ℕ → β} {start : ℤ} {n : ℕ} {media : ℤ → β}

theorem Invalidated.of_none {old new : ℤ → Option β}
    (kept : ∀ b, ¬ (startblock ≤ b ∧ b < startblock + blockcount) → new b = old b)
    (removed : ∀ b, startblock ≤ b → b < startblock + blockcount → new b = none) :
    Invalidated old new media startblock blockcount := by
  intro b
  split
  · rename_i inside
    exact removed b inside.1 inside.2
  · rename_i outside
    exact .inl (kept b outside)

theorem invalidated_apart
    (apart : n = 0 ∨ start + n ≤ startblock ∨ startblock + blockcount ≤ start) :
    Invalidated (lookup buffer start n) (lookup buffer start n) media startblock blockcount :=
  .of_none (fun _ _ => rfl) fun b _ _ => if_neg (by omega)

theorem invalidated_whole (whole : startblock ≤ start ∧ start + n ≤ startblock + blockcount) :
    Invalidated (lookup buffer start n) (lookup buffer start 0) media startblock blockcount := by
  have nothing : ∀ b, lookup buffer start 0 b = none := fun b => if_neg (by omega)
  refine .of_none (fun b outside => ?_) fun b _ _ => nothing b
  rw [nothing]
  exact (if_neg (by omega)).symm

theorem invalidated_front (front : startblock ≤ start ∧ start < startblock + blockcount ∧
    startblock + blockcount < start + n) :
    Invalidated (lookup buffer start n)
      (lookup (splice buffer 0 (n - (startblock + blockcount - start).toNat) fun i =>
        buffer ((startblock + blockcount - start).toNat + i)) (startblock + blockcount)
        (n - (startblock + blockcount - start).toNat)) media startblock blockcount := by
  refine .of_none (fun b outside => ?_) fun b _ _ => if_neg (by omega)
  unfold lookup
  by_cases inside : start ≤ b ∧ b < start + n
  · rw [if_pos inside, if_pos (by omega), splice, if_pos (by omega)]
    congr 2
    omega
  · rw [if_neg inside, if_neg (by omega)]

/-! ## The write buffer -/

/-- A region that does not begin inside the write buffer is removed, and the block behind the buffer
stays the expected one. Any other region leaves a wrong one. -/
theorem rwbInvalidateWritebuffer_iff (good : Good g) (filled : Filled g rwb) (low : 0 ≤ startblock)
    (high : startblock + blockcount < 2 ^ 31) :
    ∃ rwb', rwbInvalidateWritebuffer g rwb startblock blockcount = some rwb' ∧
      rwb'.wrsem = 1 ∧ rwb'.rhsem = 1 ∧
      (Invalidated (wrLookup rwb) (wrLookup rwb') rwb'.media startblock blockcount ∧
        StoresOwn g rwb' ↔ ¬ BeginsInside rwb.wrblockstart rwb.wrnblocks startblock) := by
  have stores : StoresOwn g rwb := storesOwn_of_expected filled.expected
  unfold BeginsInside
  by_cases empty : rwb.wrnblocks = 0
  · refine ⟨rwb, by simp [rwbInvalidateWritebuffer, empty], filled.wrsem, filled.rhsem, ?_⟩
    exact iff_of_true ⟨invalidated_apart (.inl empty), stores⟩ (by omega)
  have positive : 0 < rwb.wrnblocks := Nat.pos_of_ne_zero empty
  have media := good.media
  have fits := filled.wr_fits
  have expected := filled.expected positive
  have bounds := buffer_bounds filled.wr_media
  refine ⟨_, by
    rw [rwbInvalidateWritebuffer, if_pos ⟨good.wr, positive⟩, takeWrsem_eq filled.wrsem]
    simp only [bind_eq_bind, bind_some]
    rw [toOff_eq (by omega) (by omega), toOff_eq (by omega) (by omega)]
    rfl, ?_⟩
  split_ifs with apart whole middle rest
  · refine ⟨rfl, filled.rhsem, iff_of_true ⟨invalidated_apart (.inr apart), ?_⟩ (by omega)⟩
    exact storesOwn_of_expected filled.expected
  · refine ⟨rfl, filled.rhsem, iff_of_true ⟨invalidated_whole whole, ?_⟩ (by omega)⟩
    exact storesOwn_of_expected nofun
  · refine ⟨rfl, filled.rhsem, iff_of_false (fun both => ?_) (by omega)⟩
    apply not_storesOwn _ _ _ _ _ both.2
    all_goals
      simp only [giveWrsem, wrflush]
      omega
  · refine ⟨rfl, filled.rhsem, iff_of_false (fun both => ?_) (by omega)⟩
    apply not_storesOwn _ _ _ _ _ both.2
    all_goals
      simp only [giveWrsem]
      omega
  · refine ⟨rfl, filled.rhsem, iff_of_true ⟨invalidated_front (by omega), ?_⟩ (by omega)⟩
    apply storesOwn_of_expected
    simp only [giveWrsem]
    omega

/-! ## The read-ahead buffer -/

/-- What the removal of a region that begins inside the read-ahead buffer needs: the blocks that it
drops in addition are on the media, and a region at the end of the buffer is at most half of it. -/
def RhRemovable (rwb : Rwb β) (startblock : ℤ) (blockcount : ℕ) : Prop :=
  let rhbend := rwb.rhblockstart + rwb.rhnblocks
  let invend := startblock + blockcount
  if invend < rhbend then ∀ b, invend ≤ b → b < rhbend → rhCopy rwb b = rwb.media b
  else rhbend - startblock ≤ startblock - rwb.rhblockstart ∧
    ∀ b, rwb.rhblockstart + (rhbend - startblock) ≤ b → b < startblock → rhCopy rwb b = rwb.media b

theorem rhLookup_cut (n : ℕ) (shorter : n ≤ rwb.rhnblocks) (b : ℤ) :
    rhLookup { rwb with rhnblocks := n } b =
      if b < rwb.rhblockstart + n then rhLookup rwb b else none := by
  unfold rhLookup
  by_cases kept : b < rwb.rhblockstart + n
  · rw [if_pos kept]
    by_cases inside : InRh rwb b
    · rw [if_pos inside]
      exact if_pos ⟨inside.1, kept⟩
    rw [if_neg inside]
    apply if_neg
    unfold InRh at *
    simp only
    omega
  · rw [if_neg kept]
    exact if_neg fun inside => kept inside.2

/-- A cut is a removal if it takes away the region and nothing else that is not on the media. -/
theorem invalidated_cut {n : ℕ} (shorter : n ≤ rwb.rhnblocks) :
    Invalidated (rhLookup rwb) (rhLookup { rwb with rhnblocks := n }) rwb.media startblock
        blockcount ↔
      ∀ b, InRh rwb b → if startblock ≤ b ∧ b < startblock + blockcount
        then rwb.rhblockstart + n ≤ b
        else rwb.rhblockstart + n ≤ b → rhCopy rwb b = rwb.media b := by
  refine forall_congr' fun b => ?_
  rw [rhLookup_cut n shorter]
  by_cases inside : InRh rwb b
  · have found : rhLookup rwb b = some (rhCopy rwb b) := if_pos inside
    by_cases kept : b < rwb.rhblockstart + n
    · simp only [found, kept, inside, if_true, true_imp_iff, reduceCtorEq, true_or]
      split <;> simp [kept]
    · simp [found, kept, inside, Int.not_lt.1 kept]
  · have missing : rhLookup rwb b = none := if_neg inside
    simp [missing, inside]

theorem rwbInvalidateReadahead_iff (good : Good g) (filled : Filled g rwb) (low : 0 ≤ startblock)
    (high : startblock + blockcount < 2 ^ 31) :
    ∃ rwb', rwbInvalidateReadahead g rwb startblock blockcount = some rwb' ∧
      (Invalidated (rhLookup rwb) (rhLookup rwb') rwb'.media startblock blockcount ↔
        (BeginsInside rwb.rhblockstart rwb.rhnblocks startblock →
          RhRemovable rwb startblock blockcount)) := by
  unfold BeginsInside
  by_cases empty : rwb.rhnblocks = 0
  · refine ⟨rwb, by simp [rwbInvalidateReadahead, empty], ?_⟩
    exact iff_of_true (invalidated_apart (.inl empty)) (by omega)
  have positive : 0 < rwb.rhnblocks := Nat.pos_of_ne_zero empty
  have media := good.media
  have bounds := buffer_bounds filled.rh_media
  refine ⟨_, by
    rw [rwbInvalidateReadahead, if_pos ⟨good.rh, positive⟩, takeRhsem_eq filled.rhsem]
    simp only [bind_eq_bind, bind_some]
    rw [toOff_eq (by omega) (by omega), toOff_eq (by omega) (by omega)]
    rfl, ?_⟩
  split_ifs with apart whole middle rest
  · exact iff_of_true (invalidated_apart (.inr apart)) (by omega)
  · exact iff_of_true (invalidated_whole whole) (by omega)
  · refine (invalidated_cut (n := (startblock - rwb.rhblockstart).toNat) (by omega)).trans ?_
    unfold RhRemovable
    rw [if_pos middle.2]
    constructor
    · intro removed _ b behind before_end
      have kept := removed b ⟨by omega, by omega⟩
      rw [if_neg (by omega)] at kept
      exact kept (by omega)
    intro clean b inside
    unfold InRh at inside
    split
    · omega
    · intro cut
      exact clean ⟨middle.1, by omega⟩ b (by omega) (by omega)
  · refine (invalidated_cut
      (n := (rwb.rhblockstart + rwb.rhnblocks - startblock).toNat) (by omega)).trans ?_
    unfold RhRemovable
    rw [if_neg (by omega)]
    constructor
    · intro removed begins
      refine ⟨?_, fun b behind before_start => ?_⟩
      · have first := removed startblock ⟨by omega, by omega⟩
        rw [if_pos (by omega)] at first
        omega
      have kept := removed b ⟨by omega, by omega⟩
      rw [if_neg (by omega)] at kept
      exact kept (by omega)
    intro removable b inside
    unfold InRh at inside
    obtain ⟨half, clean⟩ := removable (by omega)
    split
    · omega
    · intro cut
      exact clean b (by omega) (by omega)
  · exact iff_of_true (invalidated_front (by omega)) (by omega)

/-- `rwb_invalidate_writebuffer` removes a region, and leaves a buffer in which later writes are
stored under their own numbers, exactly if the region does not begin inside the buffer.
`rwb_invalidate_readahead` does exactly if the same holds or what it drops is on the media and the
region is not more than the second half of the buffer. -/
theorem invalidate_iff (good : Good g) (filled : Filled g rwb) (low : 0 ≤ startblock)
    (high : startblock + blockcount < 2 ^ 31) :
    (∃ rwb', rwbInvalidateWritebuffer g rwb startblock blockcount = some rwb' ∧
      (Invalidated (wrLookup rwb) (wrLookup rwb') rwb'.media startblock blockcount ∧
        StoresOwn g rwb' ↔ ¬ BeginsInside rwb.wrblockstart rwb.wrnblocks startblock) ∧
      (StoresOwn g rwb' → ∀ (b : ℤ) (n : ℕ) (wrbuffer : ℕ → β) rwb'', 0 ≤ b → b + n ≤ 2 ^ 31 →
        rwbWrite g rwb' b n wrbuffer = some rwb'' →
          contents rwb'' = overlay (contents rwb') b n wrbuffer)) ∧
    ∃ rwb', rwbInvalidateReadahead g rwb startblock blockcount = some rwb' ∧
      (Invalidated (rhLookup rwb) (rhLookup rwb') rwb'.media startblock blockcount ↔
        (BeginsInside rwb.rhblockstart rwb.rhnblocks startblock →
          RhRemovable rwb startblock blockcount)) := by
  obtain ⟨rwb', returns, wrsem, rhsem, removed⟩ := rwbInvalidateWritebuffer_iff good filled low high
  refine ⟨⟨rwb', returns, removed, ?_⟩, rwbInvalidateReadahead_iff good filled low high⟩
  intro stores b n wrbuffer rwb'' b_low b_high written
  exact stores.rwbWrite good.wr wrsem rhsem b_low b_high written

/-- The small card with blocks 10 to 13 in both buffers; their data is their number. -/
def bothFilled : Rwb ℕ where
  wrsem := 1
  wrbuffer i := 10 + i
  wrnblocks := 4
  wrblockstart := 10
  wrexpectedblock := 14
  rhsem := 1
  rhbuffer i := 10 + i
  rhnblocks := 4
  rhblockstart := 10
  media b := b.toNat

theorem bothFilled_filled : Filled (smallCard true) bothFilled :=
  ⟨rfl, rfl, .inr ⟨by decide, by decide⟩, by decide, fun _ => rfl, .inr ⟨by decide, by decide⟩⟩

/-- The first two blocks are removed. -/
theorem invalidate_iff_front :
    ∃ rwb', rwbInvalidateWritebuffer (smallCard true) bothFilled 9 3 = some rwb' ∧
      Invalidated (wrLookup bothFilled) (wrLookup rwb') rwb'.media 9 3 ∧
      StoresOwn (smallCard true) rwb' := by
  have good : Good (smallCard true) := by constructor <;> decide
  have removal := invalidate_iff good bothFilled_filled (show (0 : ℤ) ≤ 9 by decide)
    (show (9 : ℤ) + (3 : ℕ) < 2 ^ 31 by decide)
  obtain ⟨⟨rwb', returns, removed, _⟩, _⟩ := removal
  have outside : ¬ BeginsInside bothFilled.wrblockstart bothFilled.wrnblocks 9 := by
    unfold BeginsInside
    decide
  exact ⟨rwb', returns, removed.2 outside⟩

/-- Block 12 is removed from the write buffer, and block 14 is then stored as block 12. The last
three blocks are removed from either buffer: block 11 is still there. -/
theorem invalidate_keeps_wrong_blocks :
    (∃ rwb' rwb'', rwbInvalidateWritebuffer (smallCard true) bothFilled 12 1 = some rwb' ∧
      rwbWrite (smallCard true) rwb' 14 1 (fun _ => 99) = some rwb'' ∧
      wrLookup rwb'' 12 = some 99 ∧ wrLookup rwb'' 14 = none ∧ rwb''.media 14 = 14) ∧
    (∃ rwb', rwbInvalidateWritebuffer (smallCard true) bothFilled 11 3 = some rwb' ∧
      wrLookup rwb' 11 = some 11) ∧
    ∃ rwb', rwbInvalidateReadahead (smallCard true) bothFilled 11 3 = some rwb' ∧
      rhLookup rwb' 11 = some 11 :=
  ⟨⟨_, _, rfl, rfl, rfl, rfl, rfl⟩, ⟨_, rfl, rfl⟩, ⟨_, rfl, rfl⟩⟩

end NuttxRtos.Rwbuffer

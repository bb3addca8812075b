import NuttxRtos.Rwbuffer.Model

/-!
# Coherence of the two buffers

The array of blocks that clients see is the media with the write buffer laid over it. A block in the
read-ahead buffer may be stale only while it is also in the write buffer, because a read takes it
from there. A flush of the write buffer must find no such block: after it nothing hides the stale
copy.
-/

namespace NuttxRtos.Rwbuffer

open Overlay List Option

variable {β : Type} {g : Geometry} {rwb rwb' : Rwb β}

/-! ## Block numbers -/

variable {x : ℤ}

theorem toOff_eq (low : -2 ^ 31 ≤ x) (high : x < 2 ^ 31) : toOff x = x := by
  unfold toOff
  omega

theorem toSize_eq (low : 0 ≤ x) (high : x < 2 ^ 32) : (toSize x : ℤ) = x := by
  unfold toSize
  omega

/-- What `rwb_initialize` asserts, and a media whose blocks all have an `off_t`. -/
structure Good (g : Geometry) : Prop where
  wr : 0 < g.wrmaxblocks
  rh : 0 < g.rhmaxblocks
  rh_lt : g.rhmaxblocks < 2 ^ 16
  media : g.nblocks < 2 ^ 31

structure InMedia (g : Geometry) (startblock : ℤ) (nblocks : ℕ) : Prop where
  low : 0 ≤ startblock
  high : startblock + nblocks ≤ g.nblocks

theorem buffer_bounds {start : ℤ} {n : ℕ} (buffer : start = -1 ∧ n = 0 ∨ InMedia g start n) :
    -1 ≤ start ∧ start + n ≤ g.nblocks := by
  rcases buffer with empty | ⟨low, high⟩
  · omega
  · exact ⟨by omega, high⟩

theorem rwbOverlap_iff {blockstart1 blockstart2 : ℤ} {nblocks1 nblocks2 : ℕ}
    (low1 : -1 ≤ blockstart1) (high1 : blockstart1 + nblocks1 < 2 ^ 31)
    (low2 : -1 ≤ blockstart2) (high2 : blockstart2 + nblocks2 < 2 ^ 31) :
    rwbOverlap blockstart1 nblocks1 blockstart2 nblocks2 = true ↔
      blockstart2 < blockstart1 + nblocks1 ∧ blockstart1 < blockstart2 + nblocks2 := by
  unfold rwbOverlap
  rw [toOff_eq (by omega) (by omega), toOff_eq (by omega) (by omega)]
  simp only [Bool.not_eq_true', Bool.or_eq_false_iff, decide_eq_false_iff_not]
  omega

/-! ## Semaphores -/

theorem takeWrsem_eq (free : rwb.wrsem = 1) : takeWrsem rwb = some { rwb with wrsem := 0 } := by
  rw [takeWrsem, free]
  rfl

theorem takeRhsem_eq (free : rwb.rhsem = 1) : takeRhsem rwb = some { rwb with rhsem := 0 } := by
  rw [takeRhsem, free]
  rfl

theorem giveRhsem_eq (free : rwb.rhsem = 1) : giveRhsem { rwb with rhsem := 0 } = rwb := by
  cases rwb
  cases free
  rfl

/-! ## The array of blocks and the invariant -/

def InWr (rwb : Rwb β) (b : ℤ) : Prop := rwb.wrblockstart ≤ b ∧ b < rwb.wrblockstart + rwb.wrnblocks

def InRh (rwb : Rwb β) (b : ℤ) : Prop := rwb.rhblockstart ≤ b ∧ b < rwb.rhblockstart + rwb.rhnblocks

instance (rwb : Rwb β) (b : ℤ) : Decidable (InWr rwb b) := inferInstanceAs (Decidable (_ ∧ _))

instance (rwb : Rwb β) (b : ℤ) : Decidable (InRh rwb b) := inferInstanceAs (Decidable (_ ∧ _))

/-- The array of blocks that clients see. -/
def contents (rwb : Rwb β) : ℤ → β :=
  overlay rwb.media rwb.wrblockstart rwb.wrnblocks rwb.wrbuffer

def rhCopy (rwb : Rwb β) (b : ℤ) : β := rwb.rhbuffer (b - rwb.rhblockstart).toNat

/-- The read-ahead buffer holds blocks of the media, stale at most where the write buffer is
newer. -/
structure RhSound (g : Geometry) (rwb : Rwb β) : Prop where
  rh_media : rwb.rhblockstart = -1 ∧ rwb.rhnblocks = 0 ∨ InMedia g rwb.rhblockstart rwb.rhnblocks
  fresh : ∀ b, InRh rwb b → ¬ InWr rwb b → rhCopy rwb b = rwb.media b

structure Inv (g : Geometry) (rwb : Rwb β) : Prop where
  wrsem : rwb.wrsem = 1
  rhsem : rwb.rhsem = 1
  wr_media : rwb.wrblockstart = -1 ∧ rwb.wrnblocks = 0 ∨ InMedia g rwb.wrblockstart rwb.wrnblocks
  expected : 0 < rwb.wrnblocks → rwb.wrexpectedblock = rwb.wrblockstart + rwb.wrnblocks
  rh : RhSound g rwb

variable {b : ℤ}

theorem contents_of_not_inWr (outside : ¬ InWr rwb b) : contents rwb b = rwb.media b :=
  if_neg outside

theorem rwbInitialize_inv (media : ℤ → β) (wrbuffer rhbuffer : ℕ → β) :
    Inv g (rwbInitialize media wrbuffer rhbuffer) where
  wrsem := rfl
  rhsem := rfl
  wr_media := .inl ⟨rfl, rfl⟩
  expected positive := absurd positive (lt_irrefl 0)
  rh := {
    rh_media := .inl ⟨rfl, rfl⟩
    fresh b inside _ := by
      simp only [InRh, rwbInitialize] at inside
      omega }

/-! ## The read-ahead loop -/

/-- The two states differ at most in the read-ahead buffer. -/
def SameButRh (rwb rwb' : Rwb β) : Prop :=
  rwb' = { rwb with
    rhbuffer := rwb'.rhbuffer, rhnblocks := rwb'.rhnblocks, rhblockstart := rwb'.rhblockstart }

theorem SameButRh.trans {rwb'' : Rwb β} (first : SameButRh rwb rwb')
    (second : SameButRh rwb' rwb'') : SameButRh rwb rwb'' := by
  rw [first] at second
  exact second

theorem SameButRh.media (same : SameButRh rwb rwb') : rwb'.media = rwb.media := by
  rw [same]

theorem SameButRh.inWr (same : SameButRh rwb rwb') : InWr rwb' b ↔ InWr rwb b := by
  rw [same]
  rfl

variable {startblock : ℤ} {remaining : ℕ}

/-- The blocks that a reload at `startblock` loads. -/
def window (g : Geometry) (startblock : ℤ) : ℕ := min g.rhmaxblocks (g.nblocks - startblock).toNat

theorem rwbRhreload_eq (good : Good g) (low : 0 ≤ startblock) (high : startblock < g.nblocks) :
    rwbRhreload g rwb startblock = .ok { rwb with
      rhbuffer := rhreload rwb startblock (window g startblock)
      rhnblocks := window g startblock
      rhblockstart := startblock } := by
  have media := good.media
  have small := good.rh_lt
  have start := toSize_eq low (by omega)
  have endblock : (toSize (toOff (startblock + g.rhmaxblocks)) : ℤ) =
    startblock + g.rhmaxblocks := by
    unfold toSize toOff
    omega
  have count : toSize ((if g.nblocks < toSize (toOff (startblock + g.rhmaxblocks)) then
      toOff g.nblocks else toOff (startblock + g.rhmaxblocks)) - startblock) =
      window g startblock := by
    unfold window
    split
    · rw [toOff_eq (by omega) (by omega)]
      have := toSize_eq (x := g.nblocks - startblock) (by omega) (by omega)
      omega
    rw [toOff_eq (by omega) (by omega)]
    have := toSize_eq (x := startblock + g.rhmaxblocks - startblock) (by omega) (by omega)
    omega
  unfold rwbRhreload
  rw [if_neg (by omega)]
  simp only [count]
  rfl

theorem rwbRhreload_spec (rwb : Rwb β) (good : Good g) (low : 0 ≤ startblock)
    (high : startblock < g.nblocks) :
    ∃ rwb', rwbRhreload g rwb startblock = .ok rwb' ∧ SameButRh rwb rwb' ∧
      RhSound g rwb' ∧ InRh rwb' startblock := by
  have positive := good.rh
  refine ⟨_, rwbRhreload_eq good low high, rfl, ⟨.inr ⟨low, ?_⟩, ?_⟩, ?_⟩
  · show startblock + (window g startblock : ℤ) ≤ g.nblocks
    unfold window
    omega
  · intro b inside _
    obtain ⟨from_start, before_end⟩ := inside
    simp only at from_start before_end
    simp only [rhCopy, rhreload, splice]
    rw [if_pos (by omega)]
    congr 1
    omega
  constructor
  · exact le_rfl
  show startblock < startblock + (window g startblock : ℤ)
  unfold window
  omega

theorem rwbBufferread_eq (sound : RhSound g rwb) {n : ℕ}
    (inside : ∀ i < n, InRh rwb (startblock + (i : ℕ)))
    (outside : ∀ i < n, ¬ InWr rwb (startblock + (i : ℕ))) :
    rwbBufferread rwb startblock n = slice rwb.media startblock n := by
  apply map_congr_left
  intro i hi
  have hi := mem_range.1 hi
  rw [← sound.fresh _ (inside i hi) (outside i hi), rhCopy]
  have := (inside 0 (by omega)).1
  congr 1
  omega

theorem rwbAvailable_spec (good : Good g) (sound : RhSound g rwb) (startblock : ℤ) (remaining : ℕ) :
    ∃ n, rwbAvailable rwb startblock remaining = n ∧ n ≤ remaining ∧
      (0 < remaining → InRh rwb startblock → 0 < n) ∧ ∀ i < n, InRh rwb (startblock + (i : ℕ)) := by
  have media := good.media
  have bounds := buffer_bounds sound.rh_media
  refine ⟨_, rfl, ?_⟩
  unfold rwbAvailable InRh
  rw [toOff_eq (by omega) (by omega)]
  dsimp only
  split_ifs
  · refine ⟨by omega, by omega, ?_⟩
    intro i hi
    omega
  all_goals exact ⟨Nat.zero_le _, by omega, nofun⟩

/-- The loop delivers blocks of the media that are not in the write buffer. A pass that delivers
nothing reloads the buffer, and the next pass delivers. -/
theorem rwbReadLoop_spec (good : Good g) {fuel : ℕ} (out : List β)
    (sound : RhSound g rwb) (request : InMedia g startblock remaining)
    (outside : ∀ i < remaining, ¬ InWr rwb (startblock + (i : ℕ)))
    (enough : remaining + 2 ≤ fuel ∨ InRh rwb startblock ∧ remaining + 1 ≤ fuel) :
    ∃ rwb', rwbReadLoop g fuel rwb startblock remaining out =
        some (.ok (out ++ slice rwb.media startblock remaining), rwb') ∧
      SameButRh rwb rwb' ∧ RhSound g rwb' := by
  induction fuel generalizing rwb remaining startblock out with
  | zero => omega
  | succ fuel ih =>
    by_cases finished : remaining = 0
    · subst finished
      exact ⟨rwb, by simp [rwbReadLoop], rfl, sound⟩
    obtain ⟨n, available, le, progress, inside⟩ :=
      rwbAvailable_spec good sound startblock remaining
    have copied := rwbBufferread_eq sound inside fun i hi => outside i (by omega)
    have low := request.low
    have high := request.high
    rw [rwbReadLoop, if_neg finished]
    simp only [available, copied]
    by_cases more : 0 < remaining - n
    · obtain ⟨next, loaded, same, sound_next, covers⟩ :=
        rwbRhreload_spec rwb good (show 0 ≤ startblock + n by omega) (by omega)
      have rest : ∀ i < remaining - n, ¬ InWr next (startblock + n + (i : ℕ)) := by
        intro i hi
        rw [same.inWr]
        have := outside (n + i) (by omega)
        simpa [Int.add_assoc] using this
      have fuel_left : remaining - n + 2 ≤ fuel ∨
          InRh next (startblock + n) ∧ remaining - n + 1 ≤ fuel := by
        right
        refine ⟨covers, ?_⟩
        cases enough with
        | inl enough => omega
        | inr enough =>
          have := progress (by omega) enough.1
          omega
      obtain ⟨last, result, same_last, sound_last⟩ :=
        ih _ sound_next ⟨by omega, by omega⟩ rest fuel_left
      refine ⟨last, ?_, same.trans same_last, sound_last⟩
      rw [if_pos more, loaded]
      simp only
      rw [result, same.media, append_assoc, slice_append, Nat.add_sub_cancel' le]
    · rw [if_neg more, show remaining = n by omega]
      exact ⟨rwb, rfl, rfl, sound⟩

variable {nblocks : ℕ}

theorem rwbReadRaw_spec (good : Good g) (free : rwb.rhsem = 1)
    (sound : RhSound g rwb) (request : InMedia g startblock nblocks)
    (outside : ∀ i < nblocks, ¬ InWr rwb (startblock + (i : ℕ))) :
    ∃ rwb', rwbRead_ g rwb startblock nblocks =
        some (.ok (slice rwb.media startblock nblocks), rwb') ∧
      SameButRh rwb rwb' ∧ RhSound g rwb' := by
  have locked : RhSound g { rwb with rhsem := 0 } := ⟨sound.rh_media, sound.fresh⟩
  obtain ⟨last, result, same, sound_last⟩ :=
    rwbReadLoop_spec good [] locked request outside (.inl (le_refl (nblocks + 2)))
  refine ⟨giveRhsem last, ?_, ?_, ⟨sound_last.rh_media, sound_last.fresh⟩⟩
  · unfold rwbRead_
    rw [if_pos good.rh, takeRhsem_eq free]
    simp only [bind_eq_bind, bind_some, result]
    rfl
  unfold SameButRh at *
  rw [same]
  simp [giveRhsem, free]

/-! ## Reading -/

theorem overlap_iff (good : Good g) {start : ℤ} {n : ℕ}
    (buffer : start = -1 ∧ n = 0 ∨ InMedia g start n) (request : InMedia g startblock nblocks) :
    rwbOverlap start n startblock nblocks = true ↔
      startblock < start + n ∧ start < startblock + nblocks := by
  have bounds := buffer_bounds buffer
  have := good.media
  have := request.low
  have := request.high
  exact rwbOverlap_iff bounds.1 (by omega) (by omega) (by omega)

theorem Inv.reloaded (inv : Inv g rwb) (same : SameButRh rwb rwb') (sound : RhSound g rwb') :
    Inv g rwb' where
  wrsem := by rw [same]; exact inv.wrsem
  rhsem := by rw [same]; exact inv.rhsem
  wr_media := by rw [same]; exact inv.wr_media
  expected := by rw [same]; exact inv.expected
  rh := sound

theorem SameButRh.contents (same : SameButRh rwb rwb') : contents rwb' = contents rwb := by
  rw [same]
  rfl

theorem readBefore_spec (good : Good g) (free : rwb.rhsem = 1) (sound : RhSound g rwb)
    (low : 0 ≤ startblock) (high : rwb.wrblockstart ≤ g.nblocks) :
    ∃ rwb', readBefore g rwb startblock =
        some (.ok (slice (contents rwb) startblock (rwb.wrblockstart - startblock).toNat), rwb') ∧
      SameButRh rwb rwb' ∧ RhSound g rwb' := by
  unfold readBefore
  by_cases before : startblock < rwb.wrblockstart
  · have outside : ∀ i < (rwb.wrblockstart - startblock).toNat,
        ¬ InWr rwb (startblock + (i : ℕ)) := by
      intro i hi inside
      have := inside.1
      omega
    rw [if_pos before, slice_congr fun i hi => contents_of_not_inWr (outside i hi)]
    exact rwbReadRaw_spec good free sound ⟨low, by omega⟩ outside
  · rw [if_neg before, show (rwb.wrblockstart - startblock).toNat = 0 by omega]
    exact ⟨rwb, rfl, rfl, sound⟩

theorem copyWrbuffer_spec (nblocks : ℕ) (low : rwb.wrblockstart ≤ startblock)
    (high : startblock ≤ rwb.wrblockstart + rwb.wrnblocks) :
    ∃ k ≤ nblocks, copyWrbuffer rwb startblock nblocks = slice (contents rwb) startblock k ∧
      (k = nblocks ∨ startblock + k = rwb.wrblockstart + rwb.wrnblocks) := by
  have pass : (if rwb.wrblockstart < startblock then (startblock - rwb.wrblockstart).toNat
      else 0) = (startblock - rwb.wrblockstart).toNat := by
    split <;> omega
  obtain ⟨k, hk⟩ : ∃ k, (if rwb.wrnblocks - (startblock - rwb.wrblockstart).toNat < nblocks then
      rwb.wrnblocks - (startblock - rwb.wrblockstart).toNat else nblocks) = k := ⟨_, rfl⟩
  refine ⟨k, by split at hk <;> omega, ?_, by split at hk <;> omega⟩
  unfold copyWrbuffer
  simp only [pass, hk]
  apply map_congr_left
  intro i hi
  have hi := mem_range.1 hi
  rw [contents, overlay_inside (by omega) (by split at hk <;> omega)]
  congr 1
  omega

/-- The part of a read up to the end of the write buffer; no block behind it is in the write
buffer. -/
theorem readWrbuffer_spec (good : Good g) (inv : Inv g rwb)
    (request : InMedia g startblock nblocks) :
    ∃ k rwb', k ≤ nblocks ∧ readWrbuffer g rwb startblock nblocks =
        some (.ok (slice (contents rwb) startblock k), rwb') ∧
      SameButRh rwb rwb' ∧ RhSound g rwb' ∧
      ∀ i, k ≤ i → i < nblocks → ¬ InWr rwb (startblock + (i : ℕ)) := by
  have overlap := overlap_iff good inv.wr_media request
  have high := request.high
  unfold readWrbuffer
  rw [takeWrsem_eq inv.wrsem]
  simp only [bind_eq_bind, bind_some]
  by_cases overlaps : rwbOverlap rwb.wrblockstart rwb.wrnblocks startblock nblocks = true
  · obtain ⟨from_start, to_end⟩ := overlap.1 overlaps
    have locked : RhSound g { rwb with wrsem := 0 } := ⟨inv.rh.rh_media, inv.rh.fresh⟩
    have free : ({ rwb with wrsem := 0 } : Rwb β).rhsem = 1 := inv.rhsem
    obtain ⟨next, before, same, sound⟩ :=
      readBefore_spec good free locked request.low (show rwb.wrblockstart ≤ g.nblocks by omega)
    obtain ⟨b, hb⟩ : ∃ b, (rwb.wrblockstart - startblock).toNat = b := ⟨_, rfl⟩
    have start_next : next.wrblockstart = rwb.wrblockstart := by rw [same]
    have count_next : next.wrnblocks = rwb.wrnblocks := by rw [same]
    obtain ⟨k, hk, copied, ends⟩ :=
      copyWrbuffer_spec (nblocks - b) (show next.wrblockstart ≤ startblock + b by omega)
        (show startblock + b ≤ next.wrblockstart + next.wrnblocks by omega)
    rw [if_pos overlaps]
    refine ⟨b + k, giveWrsem next, by omega, ?_, ?_, ⟨sound.rh_media, sound.fresh⟩, ?_⟩
    · rw [before, hb]
      simp only [bind_some, length_slice]
      rw [copied, same.contents]
      exact congrArg (fun blocks => some (Except.ok blocks, giveWrsem next)) slice_append
    · unfold SameButRh at *
      rw [same]
      simp [giveWrsem, inv.wrsem]
    intro i low hi inside
    unfold InWr at inside
    omega
  rw [if_neg overlaps, show giveWrsem { rwb with wrsem := 0 } = rwb by
    simp [giveWrsem, ← inv.wrsem]]
  refine ⟨0, rwb, Nat.zero_le _, rfl, rfl, inv.rh, ?_⟩
  intro i _ hi inside
  unfold InWr at inside
  exact overlaps (overlap.2 (by omega))

theorem rwbRead_spec (good : Good g) (inv : Inv g rwb) (request : InMedia g startblock nblocks) :
    ∃ rwb', rwbRead g rwb startblock nblocks =
        some (.ok (slice (contents rwb) startblock nblocks), rwb') ∧
      Inv g rwb' ∧ contents rwb' = contents rwb := by
  obtain ⟨k, next, le, head, same, sound, behind⟩ := readWrbuffer_spec good inv request
  have low := request.low
  have high := request.high
  have inv_next := inv.reloaded same sound
  have outside : ∀ i < nblocks - k, ¬ InWr next (startblock + k + (i : ℕ)) := by
    intro i hi inside
    apply behind (k + i) (by omega) (by omega)
    rw [← same.inWr]
    simpa [Int.add_assoc] using inside
  obtain ⟨last, rest, same_last, sound_last⟩ :=
    rwbReadRaw_spec good inv_next.rhsem sound ⟨by omega, by omega⟩ outside
  refine ⟨last, ?_, inv_next.reloaded same_last sound_last, ?_⟩
  · have media : slice next.media (startblock + k) (nblocks - k) =
        slice (contents rwb) (startblock + k) (nblocks - k) := by
      rw [← same.contents]
      exact (slice_congr fun i hi => contents_of_not_inWr (outside i hi)).symm
    unfold rwbRead
    rw [if_pos good.wr, head]
    simp only [bind_eq_bind, bind_some, length_slice]
    rw [rest, media]
    simp only [bind_some, Except.map, slice_append, Nat.add_sub_cancel' le]
    rfl
  · rw [same_last.contents, same.contents]

/-! ## Flushing -/

/-- Every block that is in both buffers has the same contents there. -/
def Agree (rwb : Rwb β) : Prop :=
  ∀ b, InWr rwb b → InRh rwb b → rhCopy rwb b = contents rwb b

theorem Agree.fresh (agree : Agree rwb) (sound : RhSound g rwb) (inside : InRh rwb b) :
    rhCopy rwb b = contents rwb b := by
  by_cases buffered : InWr rwb b
  · exact agree b buffered inside
  · rw [contents_of_not_inWr buffered]
    exact sound.fresh b inside buffered

theorem contents_of_empty (empty : rwb.wrnblocks = 0) : contents rwb = rwb.media := by
  rw [contents, empty, overlay_zero]

def flushed (rwb : Rwb β) : Rwb β :=
  rwbResetwrbuffer (wrflush rwb rwb.wrbuffer rwb.wrblockstart rwb.wrnblocks)

theorem contents_flushed : contents (flushed rwb) = contents rwb :=
  contents_of_empty rfl

theorem flushed_inv (inv : Inv g rwb) (agree : Agree rwb) : Inv g (flushed rwb) where
  wrsem := inv.wrsem
  rhsem := inv.rhsem
  wr_media := .inl ⟨rfl, rfl⟩
  expected positive := absurd positive (lt_irrefl 0)
  rh := ⟨inv.rh.rh_media, fun _ inside _ => agree.fresh inv.rh inside⟩

theorem rwbWrflush_spec (inv : Inv g rwb) (agree : Agree rwb) :
    Inv g (rwbWrflush rwb) ∧ contents (rwbWrflush rwb) = contents rwb ∧
      (rwbWrflush rwb).wrnblocks = 0 := by
  unfold rwbWrflush
  split
  · exact ⟨flushed_inv inv agree, contents_flushed, rfl⟩
  · exact ⟨inv, rfl, by omega⟩

theorem rwbWrflush_locked (free : rwb.wrsem = 1) :
    giveWrsem (rwbWrflush { rwb with wrsem := 0 }) = rwbWrflush rwb := by
  cases rwb
  cases free
  unfold rwbWrflush
  split <;> rfl

theorem rwbFlush_eq (free : rwb.wrsem = 1) : rwbFlush rwb = some (rwbWrflush rwb) := by
  unfold rwbFlush
  rw [takeWrsem_eq free]
  exact congrArg some (rwbWrflush_locked free)

/-! ## Writing -/

section

variable (follows : rwb.wrnblocks = 0 ∨ startblock = rwb.wrblockstart + rwb.wrnblocks)
include follows

theorem append_first :
    ∃ first, (if rwb.wrnblocks = 0 then startblock else rwb.wrblockstart) = first ∧
      startblock = first + rwb.wrnblocks :=
  ⟨_, rfl, by split <;> omega⟩

theorem appendWrbuffer_contents (wrbuffer : ℕ → β) :
    contents (appendWrbuffer rwb startblock nblocks wrbuffer) =
      overlay (contents rwb) startblock nblocks wrbuffer := by
  obtain ⟨first, hfirst, start⟩ := append_first follows
  have old : contents rwb = overlay rwb.media first rwb.wrnblocks rwb.wrbuffer := by
    split at hfirst
    · rename_i empty
      rw [contents_of_empty empty, empty, overlay_zero]
    · rw [contents, hfirst]
  rw [old, start, overlay_overlay]
  simp only [contents, appendWrbuffer]
  rw [← start, hfirst]

theorem appendWrbuffer_spec (good : Good g) (inv : Inv g rwb)
    (wrbuffer : ℕ → β) (request : InMedia g startblock nblocks) :
    Inv g (appendWrbuffer rwb startblock nblocks wrbuffer) ∧
      contents (appendWrbuffer rwb startblock nblocks wrbuffer) =
        overlay (contents rwb) startblock nblocks wrbuffer := by
  have media := good.media
  have low := request.low
  have high := request.high
  obtain ⟨first, hfirst, start⟩ := append_first follows
  have low_first : 0 ≤ first := by
    cases inv.wr_media with
    | inl empty =>
      omega
    | inr inside =>
      have := inside.low
      split at hfirst <;> omega
  refine ⟨?_, appendWrbuffer_contents follows wrbuffer⟩
  exact {
    wrsem := inv.wrsem
    rhsem := inv.rhsem
    wr_media := by
      right
      simp only [appendWrbuffer, hfirst]
      exact ⟨low_first, by omega⟩
    expected := by
      intro _
      exact toOff_eq (by omega) (by omega)
    rh := by
      refine ⟨inv.rh.rh_media, ?_⟩
      intro b inside outside
      -- A block outside the larger run is also outside the old one.
      apply inv.rh.fresh b inside
      intro buffered
      apply outside
      simp only [InWr, appendWrbuffer, hfirst] at buffered ⊢
      split at hfirst <;> omega }

end

variable {wrbuffer : ℕ → β}

theorem follows_of_hit
    (expected : 0 < rwb.wrnblocks → rwb.wrexpectedblock = rwb.wrblockstart + rwb.wrnblocks)
    (hit : ¬ writebufferMiss g rwb startblock nblocks = true) :
    rwb.wrnblocks = 0 ∨ startblock = rwb.wrblockstart + rwb.wrnblocks := by
  simp only [writebufferMiss, decide_eq_true_eq] at hit
  by_cases empty : rwb.wrnblocks = 0
  · exact .inl empty
  right
  rw [← expected (by omega)]
  by_contra other
  exact hit (.inl ⟨other, empty⟩)

theorem rwbWritebuffer_spec (good : Good g) (inv : Inv g rwb)
    (request : InMedia g startblock nblocks)
    (agree : writebufferMiss g rwb startblock nblocks = true → Agree rwb) :
    Inv g (rwbWritebuffer g rwb startblock nblocks wrbuffer) ∧
      contents (rwbWritebuffer g rwb startblock nblocks wrbuffer) =
        overlay (contents rwb) startblock nblocks wrbuffer := by
  unfold rwbWritebuffer
  by_cases miss : writebufferMiss g rwb startblock nblocks = true
  · have written :=
      appendWrbuffer_spec (.inl rfl) good (flushed_inv inv (agree miss)) wrbuffer request
    rw [contents_flushed] at written
    rw [if_pos miss]
    exact written
  rw [if_neg miss]
  exact appendWrbuffer_spec (follows_of_hit inv.expected miss) good inv wrbuffer request

/-- The state after the read-ahead buffer was kept clear of the blocks. -/
def cleared (rwb : Rwb β) (startblock : ℤ) (nblocks : ℕ) : Rwb β :=
  if rwbOverlap rwb.rhblockstart rwb.rhnblocks startblock nblocks then rwbResetrhbuffer rwb else rwb

theorem writeReadahead_eq (good : Good g) (free : rwb.rhsem = 1)
    (returns : rwbOverlap rwb.rhblockstart rwb.rhnblocks startblock nblocks = true →
      g.invalidate = false) :
    writeReadahead g rwb startblock nblocks = some (cleared rwb startblock nblocks) := by
  unfold writeReadahead cleared
  rw [if_pos good.rh, takeRhsem_eq free]
  simp only [bind_eq_bind, bind_some]
  by_cases overlaps : rwbOverlap rwb.rhblockstart rwb.rhnblocks startblock nblocks = true
  · rw [if_pos overlaps, if_pos overlaps, returns overlaps]
    cases rwb
    cases free
    rfl
  · rw [if_neg overlaps, if_neg overlaps]
    exact congrArg some (giveRhsem_eq free)

theorem cleared_spec (good : Good g) (inv : Inv g rwb) (request : InMedia g startblock nblocks) :
    Inv g (cleared rwb startblock nblocks) ∧
      contents (cleared rwb startblock nblocks) = contents rwb ∧
      ∀ b, InRh (cleared rwb startblock nblocks) b → b < startblock ∨ startblock + nblocks ≤ b := by
  have overlap := overlap_iff good inv.rh.rh_media request
  unfold cleared
  split
  · refine ⟨⟨inv.wrsem, inv.rhsem, inv.wr_media, inv.expected, .inl ⟨rfl, rfl⟩, ?_⟩, rfl, ?_⟩
    all_goals
      intro b inside
      simp only [InRh, rwbResetrhbuffer] at inside
      omega
  rename_i apart
  refine ⟨inv, rfl, ?_⟩
  intro b inside
  rw [overlap] at apart
  unfold InRh at inside
  omega

theorem rwbWritebuffer_locked (free : rwb.wrsem = 1) :
    giveWrsem (rwbWritebuffer g { rwb with wrsem := 0 } startblock nblocks wrbuffer) =
      rwbWritebuffer g rwb startblock nblocks wrbuffer := by
  have locked : writebufferMiss g { rwb with wrsem := 0 } startblock nblocks =
      writebufferMiss g rwb startblock nblocks := rfl
  simp only [rwbWritebuffer, locked]
  split
  all_goals
    cases rwb
    cases free
    rfl

theorem rwbWrite_eq (good : Good g) (inv : Inv g rwb)
    (returns : rwbOverlap rwb.rhblockstart rwb.rhnblocks startblock nblocks = true →
      g.invalidate = false) :
    rwbWrite g rwb startblock nblocks wrbuffer = some (if g.wrmaxblocks < nblocks then
        wrflush (rwbWrflush (cleared rwb startblock nblocks)) wrbuffer startblock nblocks
      else rwbWritebuffer g (cleared rwb startblock nblocks) startblock nblocks wrbuffer) := by
  have free : (cleared rwb startblock nblocks).wrsem = 1 := by
    unfold cleared
    split <;> exact inv.wrsem
  unfold rwbWrite
  rw [writeReadahead_eq good inv.rhsem returns]
  simp only [bind_eq_bind, bind_some]
  rw [if_pos good.wr, takeWrsem_eq free]
  simp only [bind_some, rwbWrflush_locked free, rwbWritebuffer_locked free]
  split <;> rfl

def Valid (g : Geometry) : Op β → Prop
  | .write startblock nblocks _ => InMedia g startblock nblocks
  | .read startblock nblocks => InMedia g startblock nblocks
  | .flush => True
  | .timeout => True

/-- A call that flushes the write buffer finds no block with other contents in the read-ahead
buffer, and with `CONFIG_DRVR_INVALIDATE` no write overlaps the read-ahead buffer. -/
def Synced (g : Geometry) (rwb : Rwb β) : Op β → Prop
  | .write startblock nblocks _ =>
    if rwbOverlap rwb.rhblockstart rwb.rhnblocks startblock nblocks then g.invalidate = false
    else writebufferMiss g rwb startblock nblocks = true → Agree rwb
  | .read _ _ => True
  | .flush => Agree rwb
  | .timeout => Agree rwb

/-- What a call does to the array of blocks. -/
def apply (blocks : ℤ → β) : Op β → ℤ → β
  | .write startblock nblocks wrbuffer => overlay blocks startblock nblocks wrbuffer
  | .read _ _ => blocks
  | .flush => blocks
  | .timeout => blocks

theorem agree_cleared
    (synced : Synced g rwb (.write startblock nblocks wrbuffer))
    (miss : writebufferMiss g (cleared rwb startblock nblocks) startblock nblocks = true) :
    Agree (cleared rwb startblock nblocks) := by
  unfold cleared at *
  by_cases overlaps : rwbOverlap rwb.rhblockstart rwb.rhnblocks startblock nblocks = true
  · rw [if_pos overlaps]
    intro b _ inside
    simp only [InRh, rwbResetrhbuffer] at inside
    omega
  rw [if_neg overlaps] at miss ⊢
  rw [Synced, if_neg overlaps] at synced
  exact synced miss

theorem rwbWrite_spec (good : Good g) (inv : Inv g rwb) (request : InMedia g startblock nblocks)
    (synced : Synced g rwb (.write startblock nblocks wrbuffer)) :
    ∃ rwb', rwbWrite g rwb startblock nblocks wrbuffer = some rwb' ∧ Inv g rwb' ∧
      contents rwb' = overlay (contents rwb) startblock nblocks wrbuffer := by
  have returns : rwbOverlap rwb.rhblockstart rwb.rhnblocks startblock nblocks = true →
      g.invalidate = false := by
    intro overlaps
    simpa [Synced, overlaps] using synced
  obtain ⟨inv_next, same, clear⟩ := cleared_spec good inv request
  have agree := agree_cleared synced
  refine ⟨_, rwbWrite_eq good inv returns, ?_⟩
  rw [← same]
  generalize cleared rwb startblock nblocks = next at *
  split
  · rename_i large
    have miss : writebufferMiss g next startblock nblocks = true := by
      simp only [writebufferMiss, decide_eq_true_eq]
      omega
    obtain ⟨inv_last, contents_last, empty⟩ := rwbWrflush_spec inv_next (agree miss)
    rw [← contents_last]
    refine ⟨⟨inv_last.wrsem, inv_last.rhsem, inv_last.wr_media, inv_last.expected,
      inv_last.rh.rh_media, ?_⟩, ?_⟩
    · intro b inside outside
      have apart := clear b (by unfold rwbWrflush at inside; split at inside <;> exact inside)
      exact (inv_last.rh.fresh b inside outside).trans (overlay_outside apart).symm
    · rw [contents_of_empty empty]
      exact contents_of_empty empty
  · exact rwbWritebuffer_spec good inv_next request agree

/-! ## Runs -/

/-- The array of blocks after the calls: each block is as the last write of it left it. -/
def latest (media : ℤ → β) (ops : List (Op β)) : ℤ → β := ops.foldl apply media

/-- Calls on blocks of the media, each of which flushes only what agrees with the read-ahead buffer,
and the state that they lead to. -/
inductive Run (g : Geometry) (media : ℤ → β) : List (Op β) → Rwb β → Prop where
  | init (wrbuffer rhbuffer : ℕ → β) : Run g media [] (rwbInitialize media wrbuffer rhbuffer)
  | step {ops : List (Op β)} {op : Op β} {out : Except Error (List β)} {rwb rwb' : Rwb β}
      (before : Run g media ops rwb) (valid : Valid g op) (synced : Synced g rwb op)
      (returns : step g rwb op = some (out, rwb')) : Run g media (ops ++ [op]) rwb'

/-- One call returns, keeps the invariant and does to the array of blocks what it should; a read
delivers the blocks of the array, and after a flush they are on the media. -/
theorem step_spec (good : Good g) (inv : Inv g rwb) {op : Op β} (valid : Valid g op)
    (synced : Synced g rwb op) :
    ∃ out rwb', step g rwb op = some (out, rwb') ∧ Inv g rwb' ∧
      contents rwb' = apply (contents rwb) op ∧
      (∀ startblock nblocks, op = .read startblock nblocks →
        out = .ok (slice (contents rwb) startblock nblocks)) ∧
      (op = .flush → rwb'.media = contents rwb) := by
  cases op with
  | write startblock nblocks wrbuffer =>
    obtain ⟨next, result, inv_next, written⟩ := rwbWrite_spec good inv valid synced
    exact ⟨.ok [], next, by simp [step, result], inv_next, written, nofun, nofun⟩
  | read startblock nblocks =>
    obtain ⟨next, result, inv_next, same⟩ := rwbRead_spec good inv valid
    refine ⟨_, next, result, inv_next, same, ?_, nofun⟩
    intro _ _ same_op
    cases same_op
    rfl
  | flush =>
    obtain ⟨inv_next, same, empty⟩ := rwbWrflush_spec inv synced
    refine ⟨.ok [], rwbWrflush rwb, by simp [step, rwbFlush_eq inv.wrsem], inv_next,
      same, nofun, ?_⟩
    intro _
    rw [← same, contents_of_empty empty]
  | timeout =>
    obtain ⟨inv_next, same, _⟩ := rwbWrflush_spec inv synced
    exact ⟨.ok [], rwbWrflush rwb, by
      simp [step, show rwbWrtimeout rwb = _ from rwbFlush_eq inv.wrsem], inv_next, same, nofun,
      nofun⟩

theorem Run.inv (good : Good g) {media : ℤ → β} {ops : List (Op β)} (run : Run g media ops rwb) :
    Inv g rwb ∧ contents rwb = latest media ops := by
  induction run with
  | init wrbuffer rhbuffer => exact ⟨rwbInitialize_inv media wrbuffer rhbuffer, overlay_zero⟩
  | step _ valid synced returns ih =>
    obtain ⟨inv, blocks⟩ := ih
    obtain ⟨_, _, result, inv_next, applied, _⟩ := step_spec good inv valid synced
    rw [returns] at result
    cases result
    refine ⟨inv_next, ?_⟩
    rw [applied, blocks, latest, latest, foldl_append]
    rfl

/-- After any such run the next call returns, a read delivers the last write of every block, and
after `rwb_flush` the media holds the same blocks. -/
theorem run_coherent (good : Good g) {media : ℤ → β} {ops : List (Op β)} {op : Op β}
    (run : Run g media ops rwb) (valid : Valid g op) (synced : Synced g rwb op) :
    ∃ out rwb', step g rwb op = some (out, rwb') ∧
      (∀ startblock nblocks, op = .read startblock nblocks →
        out = .ok (slice (latest media ops) startblock nblocks)) ∧
      (op = .flush → rwb'.media = latest media ops) := by
  obtain ⟨inv, blocks⟩ := run.inv good
  obtain ⟨out, next, result, _, _, delivered, written⟩ := step_spec good inv valid synced
  rw [blocks] at delivered written
  exact ⟨out, next, result, delivered, written⟩

def smallCard (invalidate : Bool) : Geometry := ⟨16, 4, 4, invalidate⟩

/-- A read around a block that is still in the write buffer. -/
theorem run_coherent_buffered :
    ∃ rwb : Rwb ℕ, Run (smallCard false) (fun _ => 0) [.write 5 1 fun _ => 1] rwb ∧
      ∃ out rwb', step (smallCard false) rwb (.read 4 3) = some (out, rwb') ∧
        out = .ok [0, 1, 0] := by
  have good : Good (smallCard false) := by constructor <;> decide
  have run : Run (smallCard false) (fun _ => 0) [.write 5 1 fun _ => 1] _ :=
    .step (.init (fun _ => 0) fun _ => 0) ⟨by decide, by decide⟩ (nofun) rfl
  have valid : Valid (smallCard false) (.read 4 3 : Op ℕ) := ⟨by decide, by decide⟩
  obtain ⟨out, next, result, delivered, _⟩ := run_coherent good run valid trivial
  exact ⟨_, run, out, next, result, delivered 4 3 rfl⟩

/-- A read loads blocks into the read-ahead buffer while a newer version of one of them is in the
write buffer; after a flush the old version is delivered. -/
theorem flush_leaves_stale_block :
    (run (smallCard false) (rwbInitialize (fun _ => 0) (fun _ => 0) fun _ => 0)
        [.write 5 1 fun _ => 1, .read 3 1, .flush, .read 5 1]).map (·.1) =
      some [.ok [], .ok [0], .ok [], .ok [0]] ∧
    latest (fun _ => 0) [.write 5 1 fun _ => 1, .read 3 1, .flush] 5 = 1 := by
  constructor
  · decide +kernel
  · rfl

end NuttxRtos.Rwbuffer

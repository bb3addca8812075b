import Mathlib.Data.List.Intervals
import NuttxRtos.Mtdconfig.Walk

/-!
# Consolidation

Both ways of consolidation move the active entries one by one to the front. The destination never
overtakes the source: an entry that fits the rest of its own block fits the same rest of an earlier
one. So every entry that is overwritten or erased has been moved before.
-/

namespace NuttxRtos.Mtdconfig

open Segment List
open Function (update update_eq_self update_of_ne update_self)

def live (es : List Entry) : List Entry := es.filter fun e => !e.released

/-- The active entries of the blocks from `lo` up to `hi`. -/
def gather (B : ℕ → List Entry) (lo hi : ℕ) : List Entry :=
  (List.Ico lo hi).flatMap fun b => live (B b)

variable {g : Geometry} {mem : Flash} {B : ℕ → List Entry} {b lo mid hi limit : ℕ}
  {es done rest L : List Entry} {e : Entry}

@[simp] theorem live_nil : live [] = [] := rfl

theorem live_append (es es' : List Entry) : live (es ++ es') = live es ++ live es' :=
  filter_append es es'

theorem live_cons_released (released : e.released = true) : live (e :: es) = live es :=
  filter_cons_of_neg (by simp [released])

theorem live_cons_active (active : e.released = false) : live (e :: es) = e :: live es :=
  filter_cons_of_pos (by simp [active])

/-! ## Entries of several blocks -/

theorem gather_append (low : lo ≤ mid) (high : mid ≤ hi) :
    gather B lo hi = gather B lo mid ++ gather B mid hi := by
  unfold gather
  rw [← List.Ico.append_consecutive low high, flatMap_append]

@[simp] theorem gather_succ_self (B : ℕ → List Entry) (b : ℕ) :
    gather B b (b + 1) = live (B b) := by
  unfold gather
  rw [List.Ico.succ_singleton]
  exact flatMap_singleton _ _

theorem gather_of_le (empty : hi ≤ lo) : gather B lo hi = [] := by
  unfold gather
  rw [List.Ico.eq_nil_of_le empty]
  rfl

theorem gather_cons (low : lo < hi) : gather B lo hi = live (B lo) ++ gather B (lo + 1) hi := by
  rw [gather_append (Nat.le_succ lo) low, gather_succ_self]

theorem gather_update_outside (outside : b < lo ∨ hi ≤ b) :
    gather (update B b es) lo hi = gather B lo hi := by
  refine flatMap_congr fun d member => ?_
  have := List.Ico.mem.mp member
  rw [update_of_ne (by omega)]

theorem gather_update (low : lo ≤ b) (high : b < hi) :
    (gather (update B b es) lo hi).Perm
      (live es ++ gather (update B b []) lo hi) := by
  have split : ∀ es, gather (update B b es) lo hi =
      gather B lo b ++ (live es ++ gather B (b + 1) hi) := by
    intro es
    rw [gather_append low (high.le), gather_cons high, update_self,
      gather_update_outside (.inr (le_rfl)), gather_update_outside (.inl (Nat.lt_succ_self _))]
  rw [split, split]
  exact perm_append_comm_assoc ..

theorem gather_perm (low : lo ≤ b) (high : b < hi) :
    (gather B lo hi).Perm (live (B b) ++ gather (update B b []) lo hi) := by
  have split : (gather (update B b (B b)) lo hi).Perm _ := gather_update low high
  rwa [update_eq_self] at split

theorem gather_append_entry (active : e.released = false) (low : lo ≤ b) (high : b < hi) :
    (gather (update B b (B b ++ [e])) lo hi).Perm (e :: gather B lo hi) := by
  refine (gather_update low high).trans ?_
  rw [live_append, live_cons_active active, live_nil, append_assoc]
  exact perm_middle.trans ((gather_perm low high).symm.cons e)

/-! ## The destination -/

/-- Blocks filled from the front. The destination is before `limit`, and if it is the last block
before it, it has at most the size of `done` in it. -/
structure Packed (g : Geometry) (r : Relocation) (B : ℕ → List Entry) (limit : ℕ)
    (done : List Entry) : Prop where
  repr : Repr g r.mem B
  place : r.dstOffset = r.dstBlock * g.erasesize + 3 + total (B r.dstBlock)
  ahead : r.dstBlock + 1 < limit ∨ r.dstBlock + 1 = limit ∧ total (B r.dstBlock) ≤ total done
  between : ∀ b, r.dstBlock < b → b < limit → B b = []
  kept : ∀ b ≤ r.dstBlock, ∀ e ∈ B b, e.released = false
  inside : limit ≤ g.neraseblocks

variable {r : Relocation}

namespace Packed

section

variable (packed : Packed g r B limit done)
include packed

theorem dst_lt : r.dstBlock < g.neraseblocks := by
  have := packed.ahead
  have := packed.inside
  omega

theorem fits : 3 + total (B r.dstBlock) ≤ g.erasesize :=
  (packed.repr.block _ packed.dst_lt).fits

theorem mono {done' : List Entry} (more : total done ≤ total done') : Packed g r B limit done' :=
  { packed with ahead := packed.ahead.imp_right fun last => ⟨last.1, le_trans last.2 more⟩ }

theorem nextBlock (free : r.dstBlock + 1 < limit) : Packed g (r.nextBlock g) B limit done := by
  have empty : B (r.dstBlock + 1) = [] := packed.between _ (Nat.lt_succ_self _) free
  refine ⟨packed.repr, ?_, ?_, fun b low => packed.between b (Nat.lt_of_succ_lt low), ?_,
    packed.inside⟩
  · unfold Relocation.nextBlock
    rw [empty, total_nil]
  · unfold Relocation.nextBlock
    dsimp only
    rw [empty, total_nil]
    omega
  intro b low
  by_cases last : b = r.dstBlock + 1
  · rw [last, empty]
    exact nofun
  · exact packed.kept b (Nat.le_of_lt_succ (Nat.lt_of_le_of_ne low last))

/-- After a move to the next block there is room for a header, unless source and destination both
are at the end of their blocks. -/
theorem advance :
    Packed g (r.advance g) B limit done ∨
      g.erasesize ≤ 3 + total done + 6 ∧ r.advance g = r.nextBlock g ∧ r.dstBlock + 1 = limit := by
  unfold Relocation.advance
  split
  next full =>
    obtain free | ⟨last, behind⟩ := packed.ahead
    · exact .inl (packed.nextBlock free)
    refine .inr ⟨?_, rfl, last⟩
    rw [packed.place, g.end_eq] at full
    omega
  next => exact .inl packed

theorem le_advance : r.dstOffset ≤ (r.advance g).dstOffset := by
  have fits := packed.fits
  unfold Relocation.advance
  split
  · unfold Relocation.nextBlock
    dsimp only
    rw [packed.place, g.end_eq]
    omega
  · exact le_rfl

theorem put (active : e.released = false) (room : 3 + total (B r.dstBlock) + e.size ≤ g.erasesize) :
    ∃ mem, r.put g e.header (some e.data) =
        .ok { r with mem := mem, dstOffset := r.dstOffset + 6 + e.header.len.toNat } ∧
      Packed g { r with mem := mem, dstOffset := r.dstOffset + 6 + e.header.len.toNat }
        (update B r.dstBlock (B r.dstBlock ++ [e])) limit (done ++ [e]) := by
  have inside := packed.dst_lt
  obtain ⟨mem₁, mem₂, wrote₁, wrote₂, block, same, low⟩ :=
    (packed.repr.block _ inside).write inside room packed.place
  refine ⟨mem₂, ?_, packed.repr.update block same low, ?_, ?_, ?_, ?_, packed.inside⟩
  · unfold Relocation.put
    rw [wrote₁]
    dsimp only [Option.bind_some]
    rw [wrote₂]
  · dsimp only
    rw [update_self, packed.place, total_append, total_cons, total_nil, e.header_len]
    unfold Entry.size
    omega
  · dsimp only
    rw [update_self, total_append, total_append]
    have := packed.ahead
    omega
  · intro b low high
    rw [update_of_ne (low.ne')]
    exact packed.between b low high
  intro b low e' member
  by_cases last : b = r.dstBlock
  · rw [last, update_self] at member
    obtain old | new := mem_append.mp member
    · exact packed.kept _ (le_rfl) e' old
    · rw [mem_singleton.mp new]
      exact active
  · rw [update_of_ne last] at member
    exact packed.kept b low e' member

end

end Packed

theorem Repr.reformat (repr : Repr g mem B) :
    ∃ mem', writebytes g (erase g mem 0) 0 sig = some mem' ∧
      Repr g mem' (Function.update B 0 []) := by
  have roomy := g.roomy
  have inside := Geometry.end_le_size (g := g) (b := 0) g.nonempty
  have blank : ∀ i < g.erasesize, erase g mem 0 i = 0xff#8 :=
    fun i low => if_pos (Nat.div_eq_of_lt low)
  obtain ⟨mem', wrote, same, held⟩ :=
    writebytes_spec g (erase g mem 0) 0 sig (by simp [sig]; omega)
  have three : sig.length = 3 := rfl
  refine ⟨mem', wrote, held fun i _ high => blank i (by omega), fun b inUse => ?_⟩
  by_cases first : b = 0
  · subst first
    rw [Function.update_self]
    refine ⟨by rw [total_nil]; omega, trivial, fun i low high => ?_⟩
    rw [same i (.inr (by omega))]
    exact blank i (by omega)
  rw [Function.update_of_ne first]
  refine (repr.block b inUse).congr fun i home => ?_
  have away : i / g.erasesize ≠ 0 := by omega
  have : g.erasesize ≤ i := Nat.le_of_not_lt fun low => away (Nat.div_eq_of_lt low)
  rw [same i (.inr (by omega)), erase_other away]

/-! ## Consolidation with a block in reserve -/

variable {c : Consolidation}

/-- The source is in front of `rest`; the entries of `L` are in the blocks packed so far and in
what is still to be moved. -/
structure Moving (g : Geometry) (c : Consolidation) (B : ℕ → List Entry)
    (done rest L : List Entry) : Prop where
  packed : Packed g c.toRelocation B c.srcBlock done
  split : B c.srcBlock = done ++ rest
  place : c.srcOffset = c.srcBlock * g.erasesize + 3 + total done
  beyond : ∀ b, g.neraseblocks ≤ b → B b = []
  held : (gather B 0 c.srcBlock ++ (live rest ++ gather B (c.srcBlock + 1) g.neraseblocks)).Perm L

theorem endRound_left (gone : skipEnd g c.srcBlock c.srcOffset = (c.srcBlock + 1) *
    g.erasesize + 3) :
    c.endRound g =
      { ({ c.toRelocation with mem := erase g c.mem c.srcBlock } : Relocation).advance g with
        srcBlock := c.srcBlock + 1, srcOffset := (c.srcBlock + 1) * g.erasesize + 3 } := by
  have := g.roomy
  have block : ((c.srcBlock + 1) * g.erasesize + 3) / g.erasesize = c.srcBlock + 1 :=
    g.block_eq (by omega) (by omega)
  unfold Consolidation.endRound
  dsimp only
  rw [gone, block]
  simp

theorem endRound_stayed (room : c.srcOffset + 6 < c.srcBlock * g.erasesize + g.erasesize)
    (low : c.srcBlock * g.erasesize ≤ c.srcOffset) :
    c.endRound g = { c with toRelocation := c.toRelocation.advance g } := by
  have block : c.srcOffset / g.erasesize = c.srcBlock := g.block_eq low (by omega)
  have stay : skipEnd g c.srcBlock c.srcOffset = c.srcOffset :=
    if_neg (by rw [g.end_eq]; omega)
  unfold Consolidation.endRound
  dsimp only
  rw [stay, block]
  simp

theorem endRound_skipEnd (offset : ℕ) :
    { c with srcOffset := skipEnd g c.srcBlock offset }.endRound g =
      { c with srcOffset := offset }.endRound g := by
  have twice (b : ℕ) : skipEnd g b (skipEnd g b offset) = skipEnd g b offset := by
    unfold skipEnd
    split
    · rw [if_pos (by omega)]
    · rfl
  unfold Consolidation.endRound
  rw [twice]

/-- When the source block is left, everything in it has been moved, and it is erased. -/
theorem Packed.leave (packed : Packed g c.toRelocation B c.srcBlock done)
    (inside : c.srcBlock < g.neraseblocks) (beyond : ∀ b, g.neraseblocks ≤ b → B b = [])
    (held : (gather B 0 c.srcBlock ++ gather B (c.srcBlock + 1) g.neraseblocks).Perm L)
    (gone : skipEnd g c.srcBlock c.srcOffset = (c.srcBlock + 1) * g.erasesize + 3) :
    Moving g (c.endRound g) (update B c.srcBlock []) [] (B (c.srcBlock + 1)) L ∧
      c.dstOffset ≤ (c.endRound g).dstOffset ∧
      (c.endRound g).srcOffset = (c.srcBlock + 1) * g.erasesize + 3 := by
  have ahead := packed.ahead
  have other : c.dstBlock ≠ c.srcBlock := by omega
  have erased : Packed g { c.toRelocation with mem := erase g c.mem c.srcBlock }
      (update B c.srcBlock []) (c.srcBlock + 1) [] := by
    refine ⟨packed.repr.update (BlockAt.erase g c.mem c.srcBlock) (fun i => erase_other) ?_, ?_, ?_,
      ?_, ?_, inside⟩
    · intro i low
      have := g.roomy
      have : i / g.erasesize = 0 := Nat.div_eq_of_lt (by omega)
      exact erase_other (by omega)
    · rw [update_of_ne other]
      exact packed.place
    · dsimp only
      omega
    · intro b low high
      by_cases last : b = c.srcBlock
      · rw [last, update_self]
      · rw [update_of_ne last]
        exact packed.between b low (by omega)
    intro b low e member
    have low : b ≤ c.dstBlock := low
    rw [update_of_ne (by omega)] at member
    exact packed.kept b low e member
  have next : Packed g
      (({ c.toRelocation with mem := erase g c.mem c.srcBlock } : Relocation).advance g)
      (update B c.srcBlock []) (c.srcBlock + 1) [] := by
    obtain advanced | ⟨-, -, last⟩ := erased.advance
    · exact advanced
    · dsimp only at last
      omega
  rw [endRound_left gone]
  refine ⟨⟨next, update_of_ne (Nat.succ_ne_self _) _ _, rfl, ?_, ?_⟩, erased.le_advance, rfl⟩
  · intro b low
    rw [update_of_ne (by omega)]
    exact beyond b low
  dsimp only
  rw [gather_append (Nat.zero_le _) (Nat.le_succ c.srcBlock), gather_succ_self,
    update_self, live_nil, append_nil,
    gather_update_outside (.inr (le_rfl)), gather_update_outside (.inl (by omega))]
  by_cases more : c.srcBlock + 1 < g.neraseblocks
  · rwa [gather_cons more] at held
  have last : g.neraseblocks ≤ c.srcBlock + 1 := Nat.le_of_not_lt more
  have none : gather B (c.srcBlock + 1 + 1) g.neraseblocks = [] :=
    gather_of_le (Nat.le_succ_of_le last)
  rw [beyond _ last, none]
  rwa [show gather B (c.srcBlock + 1) g.neraseblocks = [] from gather_of_le last] at held

theorem Moving.endRound (moving : Moving g c B done rest L) (inside : c.srcBlock < g.neraseblocks) :
    ∃ B' done' rest', Moving g (c.endRound g) B' done' rest' L ∧
      3 + total done' + 6 < g.erasesize ∧ c.dstOffset ≤ (c.endRound g).dstOffset ∧
      c.srcOffset ≤ (c.endRound g).srcOffset := by
  have place := moving.place
  have block := moving.packed.repr.block _ inside
  have fits := block.fits
  have := g.roomy
  rw [moving.split, total_append] at fits
  by_cases room : 3 + total done + 6 < g.erasesize
  · have stayed := endRound_stayed (g := g) (c := c) (by omega) (by omega)
    obtain advanced | ⟨full, -⟩ := moving.packed.advance
    · refine ⟨B, done, rest, ?_, room, ?_, ?_⟩
      · rw [stayed]
        exact ⟨advanced, moving.split, place, moving.beyond, moving.held⟩
      · rw [stayed]
        exact moving.packed.le_advance
      · rw [stayed]
    · omega
  obtain rfl : rest = [] := eq_nil_of_total_le (by omega)
  have gone : skipEnd g c.srcBlock c.srcOffset = (c.srcBlock + 1) * g.erasesize + 3 :=
    if_pos (by rw [g.end_eq]; omega)
  obtain ⟨left, dst, src⟩ := moving.packed.leave inside moving.beyond moving.held gone
  refine ⟨_, _, _, left, by rw [total_nil]; omega, dst, ?_⟩
  rw [src, g.end_eq]
  omega

/-- A round goes well and moves the source or the destination. -/
def Proceeds (g : Geometry) (c : Consolidation) (L : List Entry) : Prop :=
  ∃ c' B' done' rest', c.relocate g = .ok c' ∧ Moving g c' B' done' rest' L ∧
    3 + total done' + 6 < g.erasesize ∧ c.srcOffset + c.dstOffset < c'.srcOffset + c'.dstOffset

theorem Moving.round_blank (moving : Moving g c B done [] L) (inside : c.srcBlock < g.neraseblocks)
    (room : 3 + total done + 6 < g.erasesize) : Proceeds g c L := by
  have block := moving.packed.repr.block _ inside
  rw [moving.split, append_nil] at block
  have read := block.readHdr_blank inside (room.le)
  rw [← moving.place] at read
  have gone : skipEnd g c.srcBlock ((c.srcBlock + 1) * g.erasesize + 3) =
      (c.srcBlock + 1) * g.erasesize + 3 :=
    if_pos (by omega)
  obtain ⟨left, dst, src⟩ := Packed.leave
    (c := { c with srcOffset := (c.srcBlock + 1) * g.erasesize + 3 })
    moving.packed inside moving.beyond moving.held gone
  refine ⟨_, _, _, _, ?_, left, by have := g.roomy; rw [total_nil]; omega, ?_⟩
  · unfold Consolidation.relocate
    rw [read]
    dsimp only
    rw [if_pos Header.erased_flags, if_pos Header.erased_id]
  have further : c.srcOffset < (c.srcBlock + 1) * g.erasesize + 3 := by
    rw [moving.place, g.end_eq]
    omega
  dsimp only at dst src
  omega

section

variable (moving : Moving g c B done (e :: rest) L) (inside : c.srcBlock < g.neraseblocks)

include moving inside

theorem Moving.block : BlockAt g c.mem c.srcBlock (done ++ e :: rest) :=
  moving.split ▸ moving.packed.repr.block _ inside

theorem Moving.readHdr : readHdr g c.mem c.srcOffset = some e.header :=
  moving.place ▸ (moving.block inside).readHdr inside

omit inside in
theorem Moving.passed : c.srcOffset + 6 + e.header.len.toNat =
    c.srcBlock * g.erasesize + 3 + total (done ++ [e]) := by
  rw [e.header_len, moving.place, total_append, total_cons, total_nil]
  unfold Entry.size
  omega

omit inside in
theorem Moving.split_next : B c.srcBlock = (done ++ [e]) ++ rest := by
  rw [moving.split, append_assoc]
  rfl

theorem Moving.round_released (released : e.released = true) : Proceeds g c L := by
  have held := moving.held
  rw [live_cons_released released] at held
  have skipped : Moving g { c with srcOffset := c.srcOffset + 6 + e.header.len.toNat } B
      (done ++ [e]) rest L :=
    ⟨moving.packed.mono (by rw [total_append]; omega), moving.split_next, moving.passed,
      moving.beyond, held⟩
  obtain ⟨B', done', rest', ended, room', dst, src⟩ := skipped.endRound inside
  refine ⟨_, B', done', rest', ?_, ended, room', ?_⟩
  · unfold Consolidation.relocate
    rw [moving.readHdr inside]
    dsimp only
    rw [if_neg (by rw [e.flags_eq, released]; decide), endRound_skipEnd]
  · dsimp only at dst src
    omega

omit inside in
theorem Moving.left (able : g.Able) :
    ((c.dstBlock + 1) * g.erasesize - c.dstOffset) % 2 ^ 16 =
      g.erasesize - 3 - total (B c.dstBlock) := by
  have short := able.short
  rw [g.end_eq, moving.packed.place, Nat.mod_eq_of_lt (by omega)]
  omega

/-- An entry that does not fit the destination is not moved before the next block. -/
theorem Moving.round_full (able : g.Able) (room : 3 + total done + 6 < g.erasesize)
    (active : e.released = false)
    (full : g.erasesize - 3 - total (B c.dstBlock) < e.size) : Proceeds g c L := by
  have fits := (moving.block inside).fits_split
  have free : c.dstBlock + 1 < c.srcBlock := by
    have := moving.packed.ahead
    omega
  refine ⟨{ c with toRelocation := c.toRelocation.nextBlock g }, B, done, e :: rest, ?_,
    { moving with packed := moving.packed.nextBlock free }, room, ?_⟩
  · unfold Consolidation.relocate
    rw [moving.readHdr inside]
    dsimp only
    rw [if_pos (e.flags_eq.mpr active), if_neg (e.header_id ▸ e.id_ne),
      moving.left able, e.header_len, if_pos (by unfold Entry.size at full; omega)]
  have := moving.packed.fits
  unfold Relocation.nextBlock
  dsimp only
  rw [moving.packed.place, g.end_eq]
  omega

theorem Moving.round_put (able : g.Able) (active : e.released = false)
    (fit : e.size ≤ g.erasesize - 3 - total (B c.dstBlock)) : Proceeds g c L := by
  have size := e.size_gt
  have ahead := moving.packed.ahead
  obtain ⟨mem, put, packed⟩ := moving.packed.put (e := e) active (by omega)
  have data := (moving.block inside).readData inside
  rw [← moving.place] at data
  have other : c.srcBlock ≠ c.dstBlock := by omega
  have moved : Moving g
      { mem := mem, dstBlock := c.dstBlock, dstOffset := c.dstOffset + 6 + e.header.len.toNat
        srcBlock := c.srcBlock, srcOffset := c.srcOffset + 6 + e.header.len.toNat }
      (update B c.dstBlock (B c.dstBlock ++ [e])) (done ++ [e]) rest L := by
    refine ⟨packed, ?_, moving.passed, ?_, ?_⟩
    · rw [update_of_ne other, moving.split_next]
    · intro b low
      rw [update_of_ne (by omega)]
      exact moving.beyond b low
    refine .trans ?_ moving.held
    have same : gather (update B c.dstBlock (B c.dstBlock ++ [e])) (c.srcBlock + 1)
        g.neraseblocks = gather B (c.srcBlock + 1) g.neraseblocks :=
      gather_update_outside (.inl (by omega))
    have more : (gather (update B c.dstBlock (B c.dstBlock ++ [e])) 0 c.srcBlock).Perm
        (e :: gather B 0 c.srcBlock) :=
      gather_append_entry active (Nat.zero_le _) (by omega)
    rw [live_cons_active active]
    rw [same]
    exact (more.append_right _).trans perm_middle.symm
  obtain ⟨B', done', rest', ended, room', dst, src⟩ := moved.endRound inside
  refine ⟨_, B', done', rest', ?_, ended, room', ?_⟩
  · unfold Consolidation.relocate
    rw [moving.readHdr inside]
    dsimp only
    rw [if_pos (e.flags_eq.mpr active), if_neg (e.header_id ▸ e.id_ne),
      moving.left able, if_neg (by rw [e.header_len]; unfold Entry.size at fit; omega),
      show readbytes g c.mem (c.srcOffset + 6) e.header.len.toNat = some e.data from
        e.header_len ▸ data, put]
    rfl
  · dsimp only at dst src
    omega

end

theorem Moving.round (able : g.Able) (moving : Moving g c B done rest L)
    (inside : c.srcBlock < g.neraseblocks) (room : 3 + total done + 6 < g.erasesize) :
    Proceeds g c L := by
  cases rest with
  | nil => exact moving.round_blank inside room
  | cons e rest =>
    cases released : e.released with
    | true => exact moving.round_released inside released
    | false =>
      by_cases fit : e.size ≤ g.erasesize - 3 - total (B c.dstBlock)
      · exact moving.round_put inside able released fit
      · exact moving.round_full inside able room released (Nat.lt_of_not_le fit)

/-- All active entries are in front, and nothing else is on the device. -/
structure Consolidated (g : Geometry) (mem : Flash) (B : ℕ → List Entry) (L : List Entry) : Prop
    extends WellFormed g mem B where
  held : (gather B 0 g.neraseblocks).Perm L
  kept : ∀ b, ∀ e ∈ B b, e.released = false

/-- When the last source block has been left, the reserved block is empty again. -/
theorem Moving.finish (moving : Moving g c B done rest L)
    (reserve : g.endblock + 1 = g.neraseblocks)
    (ended : c.srcBlock = g.neraseblocks) : Consolidated g c.mem B L := by
  have nothing : done = [] ∧ rest = [] := by
    have split := moving.split
    rw [moving.beyond _ (le_of_eq ended.symm)] at split
    exact append_eq_nil_iff.mp split.symm
  have ahead := moving.packed.ahead
  rw [nothing.1, total_nil] at ahead
  have behind : ∀ b, c.dstBlock < b → B b = [] := by
    intro b low
    by_cases high : b < g.neraseblocks
    · exact moving.packed.between b low (by omega)
    · exact moving.beyond b (Nat.le_of_not_lt high)
  refine ⟨⟨moving.packed.repr, fun b low => ?_⟩, ?_, fun b e member => ?_⟩
  · by_cases last : b = c.dstBlock
    · exact eq_nil_of_total_le (by rw [last]; omega)
    · exact behind b (by omega)
  · have held := moving.held
    have none : gather B (g.neraseblocks + 1) g.neraseblocks = [] := gather_of_le (Nat.le_succ _)
    rw [nothing.2, ended, none, live_nil, append_nil, append_nil] at held
    exact held
  by_cases low : b ≤ c.dstBlock
  · exact moving.packed.kept b low e member
  · rw [behind b (Nat.lt_of_not_le low)] at member
    cases member

theorem Moving.le_end (moving : Moving g c B done rest L) :
    c.srcOffset ≤ g.size + 3 ∧ c.dstOffset ≤ g.size := by
  have dst := Geometry.end_le_size moving.packed.dst_lt
  have dstFits := moving.packed.fits
  have inside := moving.packed.inside
  rw [moving.place, moving.packed.place]
  refine ⟨?_, by omega⟩
  by_cases more : c.srcBlock < g.neraseblocks
  · have src := Geometry.end_le_size more
    have fits := (moving.packed.repr.block _ more).fits
    rw [moving.split, total_append] at fits
    omega
  have split := moving.split
  rw [moving.beyond _ (Nat.le_of_not_lt more)] at split
  rw [(append_eq_nil_iff.mp split.symm).1, total_nil,
    Nat.le_antisymm inside (Nat.le_of_not_lt more)]
  exact le_rfl

theorem Geometry.Able.byteRead (able : g.Able) (reserve : g.endblock + 1 = g.neraseblocks) :
    g.byteRead = true := by
  obtain read | ram | one := able.reads
  · exact read
  · rw [Geometry.endblock, if_pos ram] at reserve
    omega
  · rw [Geometry.endblock, one, if_pos rfl, ite_self] at reserve
    omega

theorem consolidateLoop_spec (able : g.Able) (reserve : g.endblock + 1 = g.neraseblocks) :
    ∀ (fuel : ℕ) (c : Consolidation) (B : ℕ → List Entry) (done rest : List Entry),
      Moving g c B done rest L → 3 + total done + 6 < g.erasesize →
      2 * g.size + 3 < fuel + c.srcOffset + c.dstOffset →
      ∃ B', Consolidated g (consolidateLoop g fuel c) B' L := by
  intro fuel
  induction fuel with
  | zero =>
    intro c B done rest moving room enough
    have := moving.le_end
    omega
  | succ fuel ih =>
    intro c B done rest moving room enough
    unfold consolidateLoop
    split
    next inside =>
      obtain ⟨c', B', done', rest', ok, moving', room', further⟩ :=
        moving.round able inside room
      rw [Consolidation.round, if_pos (able.byteRead reserve), ok]
      exact ih c' B' done' rest' moving' room' (by omega)
    next ended =>
      exact ⟨B, moving.finish reserve
        (Nat.le_antisymm moving.packed.inside (Nat.le_of_not_lt ended))⟩

theorem Repr.moving {mem' : Flash} (repr : Repr g mem' (Function.update
      (Function.update B (g.neraseblocks - 1) (B 0)) 0 []))
    (more : 1 < g.neraseblocks) (last : B (g.neraseblocks - 1) = [])
    (beyond : ∀ b, g.neraseblocks ≤ b → B b = []) :
    Moving g { mem := mem', dstBlock := 0, dstOffset := 3, srcBlock := 1
               srcOffset := g.erasesize + 3 }
      (Function.update (Function.update B (g.neraseblocks - 1) (B 0)) 0 []) []
      (Function.update (Function.update B (g.neraseblocks - 1) (B 0)) 0 [] 1)
      (gather B 0 g.neraseblocks) := by
  refine ⟨⟨repr, ?_, ?_, ?_, ?_, more.le⟩, rfl, ?_, ?_, ?_⟩
  · rw [Function.update_self, Nat.zero_mul]
    rfl
  · exact .inr ⟨rfl, le_rfl⟩
  · intro b low high
    exact absurd high (not_lt.mpr low)
  · intro b low e member
    obtain rfl := Nat.le_zero.mp low
    cases member
  · rw [one_mul]
    rfl
  · intro b low
    rw [Function.update_of_ne (by omega), Function.update_of_ne (by omega)]
    exact beyond b low
  rw [gather_succ_self, Function.update_self, live_nil, nil_append, ← gather_cons more,
    gather_update_outside (.inl Nat.one_pos), gather_cons (Nat.lt_of_succ_lt more)]
  refine (gather_update (by omega) (by omega)).trans ?_
  rw [← last, Function.update_eq_self]

/-- The active entries stay on the device; without memory for the buffer nothing is moved. -/
theorem consolidate_spec (able : g.Able) (wf : WellFormed g mem B)
    (reserve : g.endblock + 1 = g.neraseblocks) (pbuf : Bool) :
    ∃ B', WellFormed g (consolidate g pbuf mem) B' ∧
      (gather B' 0 g.neraseblocks).Perm (gather B 0 g.neraseblocks) ∧
      (pbuf = true → ∀ b, ∀ e ∈ B' b, e.released = false) ∧ (pbuf = false → B' = B) := by
  have roomy := g.roomy
  have used := g.endblock_pos
  have last : B (g.neraseblocks - 1) = [] := wf.spare _ (by omega)
  have front : ∀ i < 3, i / g.erasesize ≠ g.neraseblocks - 1 := by
    intro i low
    rw [Nat.div_eq_of_lt (by omega)]
    omega
  have erased : Repr g (erase g mem (g.neraseblocks - 1)) B := by
    have erased := wf.toRepr.update (BlockAt.erase g mem (g.neraseblocks - 1))
      (fun i => erase_other) fun i low => erase_other (front i low)
    rwa [← last, update_eq_self] at erased
  unfold consolidate
  cases pbuf with
  | false => exact ⟨B, ⟨erased, wf.spare⟩, .refl _, nofun, fun _ => rfl⟩
  | true =>
    have empty := erased.block (g.neraseblocks - 1) (by omega)
    rw [last] at empty
    have copied := erased.update ((erased.block 0 g.nonempty).copyBlock0 empty)
      (fun i other => if_neg other) fun i low => if_neg (front i low)
    obtain ⟨mem', wrote, repr⟩ := copied.reformat
    dsimp only
    rw [if_pos rfl, wrote]
    have moving := repr.moving (by omega) last fun b low => wf.spare b (by omega)
    obtain ⟨B', done⟩ := consolidateLoop_spec able reserve (2 * g.size + 2) _ _ _ _ moving
      (by rw [total_nil]; omega) (by dsimp only; omega)
    exact ⟨B', done.toWellFormed, done.held, fun _ => done.kept, nofun⟩

/-! ## Consolidation in memory -/

variable {pbuf : ℕ → Byte} {s offset : ℕ}

/-- The state before block `s` is read: its entries and those behind it are in their places. -/
structure Between (g : Geometry) (r : Relocation) (B : ℕ → List Entry) (s : ℕ) (L : List Entry) :
    Prop where
  repr : Repr g r.mem B
  place : r.dstBlock < s ∧ r.dstOffset = r.dstBlock * g.erasesize + 3 + total (B r.dstBlock) ∨
    r.dstBlock = s ∧ r.dstOffset = s * g.erasesize + 3
  between : ∀ b, r.dstBlock < b → b < s → B b = []
  kept : ∀ b ≤ r.dstBlock, b < s → ∀ e ∈ B b, e.released = false
  held : (gather B 0 g.neraseblocks).Perm L

theorem BlockAt.shift (block : BlockAt g mem b es) :
    BlockAt g (fun i => mem (b * g.erasesize + i)) 0 es := by
  refine ⟨block.fits, block.entries.move fun i _ => ?_,
    fun i low high => block.blank _ (by omega) (by omega)⟩
  rw [Nat.zero_mul, Nat.zero_add, Nat.add_assoc]

section

variable (packed : Packed g r B (s + 1) done) (inside : s < g.neraseblocks)
  (held : (gather B 0 (s + 1) ++ gather B (s + 1) g.neraseblocks).Perm L)

include packed inside held

theorem Packed.between_blocks :
    Between g r B (s + 1) L where
  repr := packed.repr
  place := .inl ⟨by have := packed.ahead; omega, packed.place⟩
  between := packed.between
  kept := fun b low _ => packed.kept b low
  held := by
    rw [gather_append (Nat.zero_le _) inside]
    exact held

theorem Packed.between_fresh (last : r.dstBlock + 1 = s + 1) :
    Between g (r.nextBlock g) B (s + 1) L where
  repr := packed.repr
  place := .inr ⟨last, congrArg (· * g.erasesize + 3) last⟩
  between := fun b low => packed.between b (Nat.lt_of_succ_lt low)
  kept := fun b _ high => packed.kept b (by omega)
  held := by
    rw [gather_append (Nat.zero_le _) inside]
    exact held

end

theorem BlockAt.next_place (source : BlockAt g pbuf 0 (done ++ rest)) :
    (if g.erasesize < 3 + total done + 6 then g.erasesize else 3 + total done) =
        3 + total done ∧ 3 + total done + 6 ≤ g.erasesize ∨
      (if g.erasesize < 3 + total done + 6 then g.erasesize else 3 + total done) =
        g.erasesize ∧ rest = [] := by
  have fits := source.fits
  rw [total_append] at fits
  split
  next full => exact .inr ⟨rfl, eq_nil_of_total_le (by omega)⟩
  next room => exact .inl ⟨rfl, by omega⟩

theorem ofBytes_read {h : Header} (held : At pbuf offset h.bytes) :
    Header.ofBytes (read pbuf offset 6) = h := by
  rw [held.read (show h.bytes.length = 6 from rfl), ofBytes_bytes]

/-- An active entry goes to the destination, or to the next block when it does not fit. -/
theorem Packed.put_fitting (packed : Packed g r B limit done) (active : e.released = false)
    (fits : 3 + total done + e.size ≤ g.erasesize) :
    ∃ r' B', (if (r.dstBlock + 1) * g.erasesize - r.dstOffset < 6 + e.header.len.toNat then
          r.nextBlock g else r).put g e.header (some e.data) = .ok r' ∧
      Packed g r' B' limit (done ++ [e]) ∧ (gather B' 0 limit).Perm (e :: gather B 0 limit) ∧
      ∀ hi, gather B' limit hi = gather B limit hi := by
  have finish : ∀ {r : Relocation}, Packed g r B limit done →
      3 + total (B r.dstBlock) + e.size ≤ g.erasesize →
      ∃ r' B', r.put g e.header (some e.data) = .ok r' ∧ Packed g r' B' limit (done ++ [e]) ∧
        (gather B' 0 limit).Perm (e :: gather B 0 limit) ∧
        ∀ hi, gather B' limit hi = gather B limit hi := by
    intro r packed room
    have ahead := packed.ahead
    obtain ⟨mem, put, packed'⟩ := packed.put active room
    exact ⟨_, _, put, packed', gather_append_entry active (Nat.zero_le _) (by omega),
      fun hi => gather_update_outside (.inl (by omega))⟩
  have ahead := packed.ahead
  have size : e.size = 6 + e.data.length := rfl
  rw [packed.place, g.end_eq, e.header_len]
  split
  next full =>
    have free : r.dstBlock + 1 < limit := by omega
    refine finish (packed.nextBlock free) ?_
    rw [show B (r.nextBlock g).dstBlock = [] from packed.between _ (Nat.lt_succ_self _) free,
      total_nil]
    omega
  next room =>
    exact finish packed (by omega)

theorem ramconsolidateBlock_end (source : BlockAt g pbuf 0 es) (fuel : ℕ) (r : Relocation)
    (ended : offset = 3 + total es ∧ 3 + total es + 6 ≤ g.erasesize ∨ offset = g.erasesize) :
    ramconsolidateBlock g pbuf fuel offset r = .ok r := by
  cases fuel with
  | zero => rfl
  | succ fuel =>
    unfold ramconsolidateBlock
    obtain ⟨rfl, room⟩ | rfl := ended
    · have blank : ∀ k < 6, pbuf (3 + total es + k) = 0xff#8 :=
        fun k low => source.blank _ (by omega) (by omega)
      have erased : At pbuf (3 + total es) Header.erased.bytes :=
        ⟨blank 0 (by omega), blank 1 (by omega), blank 2 (by omega), blank 3 (by omega),
          blank 4 (by omega), blank 5 (by omega), trivial⟩
      rw [if_pos (by omega), ofBytes_read erased]
      exact if_pos Header.erased_id
    · exact if_neg (lt_irrefl _)

theorem ramconsolidateBlock_spec (source : BlockAt g pbuf 0 es) (inside : s < g.neraseblocks) :
    ∀ (rest : List Entry) (fuel : ℕ) (r : Relocation) (B : ℕ → List Entry) (done : List Entry)
      (offset : ℕ), es = done ++ rest → Packed g r B (s + 1) done →
      (gather B 0 (s + 1) ++ (live rest ++ gather B (s + 1) g.neraseblocks)).Perm L →
      offset = 3 + total done ∧ 3 + total done + 6 ≤ g.erasesize ∨
        offset = g.erasesize ∧ rest = [] →
      g.erasesize ≤ fuel + offset →
      ∃ r' B', ramconsolidateBlock g pbuf fuel offset r = .ok r' ∧ Between g r' B' (s + 1) L := by
  intro rest
  induction rest with
  | nil =>
    intro fuel r B done offset split packed held place enough
    rw [append_nil] at split
    subst split
    refine ⟨r, B, ramconsolidateBlock_end source fuel r (place.imp_right And.left),
      packed.between_blocks inside held⟩
  | cons e rest ih =>
    intro fuel r B done offset split packed held place enough
    subst split
    have size := e.size_gt
    have fits := source.fits_split
    obtain ⟨rfl, -⟩ | ⟨-, ⟨⟩⟩ := place
    obtain _ | fuel := fuel
    · omega
    have header : At pbuf (3 + total done) e.header.bytes := by
      have := source.split.1
      rwa [Nat.zero_mul, Nat.zero_add] at this
    have data : read pbuf (3 + total done + 6) e.header.len.toNat = e.data := by
      have := source.split.2
      rw [Nat.zero_mul, Nat.zero_add] at this
      exact this.read e.header_len.symm
    have passed : 3 + total done + 6 + e.header.len.toNat = 3 + total (done ++ [e]) := by
      rw [e.header_len, total_append, total_cons, total_nil]
      unfold Entry.size
      omega
    have split : done ++ e :: rest = (done ++ [e]) ++ rest := by
      rw [append_assoc]
      rfl
    have more : total (done ++ [e]) = total done + e.size := by
      rw [total_append, total_cons, total_nil, add_zero]
    have place := BlockAt.next_place (split ▸ source)
    unfold ramconsolidateBlock
    rw [if_pos (by omega), ofBytes_read header]
    dsimp only
    rw [if_neg (e.header_id ▸ e.id_ne), data, passed]
    have enough : g.erasesize ≤ fuel + if g.erasesize < 3 + total (done ++ [e]) + 6 then
        g.erasesize else 3 + total (done ++ [e]) := by
      split <;> omega
    cases released : e.released with
    | true =>
      rw [if_neg (by rw [e.flags_eq, released]; decide)]
      rw [live_cons_released released] at held
      exact ih fuel r B (done ++ [e]) _ split (packed.mono (by omega)) held place enough
    | false =>
      rw [if_pos (e.flags_eq.mpr released)]
      obtain ⟨r₁, B₁, put, packed₁, gained, same⟩ := packed.put_fitting released (by omega)
      rw [put]
      have held₁ : (gather B₁ 0 (s + 1) ++
          (live rest ++ gather B₁ (s + 1) g.neraseblocks)).Perm L := by
        refine .trans ?_ held
        rw [same, live_cons_active released]
        exact (gained.append_right _).trans perm_middle.symm
      obtain advanced | ⟨full, next, last⟩ := packed₁.advance
      · exact ih fuel _ B₁ (done ++ [e]) _ split advanced held₁ place enough
      -- Source and destination have both come to the end of the block.
      · obtain rfl : rest = [] := eq_nil_of_total_le (by omega)
        refine ⟨r₁.advance g, B₁, ramconsolidateBlock_end (split ▸ source) fuel _ ?_, ?_⟩
        · rw [append_nil]
          exact place.imp_right And.left
        · rw [next]
          exact packed₁.between_fresh inside held₁ last

theorem Repr.eraseBlock (repr : Repr g mem B) (s : ℕ) :
    ∃ mem', eraseBlock g mem s = .ok mem' ∧ Repr g mem' (Function.update B s []) := by
  unfold Mtdconfig.eraseBlock
  by_cases first : s = 0
  · subst first
    obtain ⟨mem', wrote, repr'⟩ := repr.reformat
    refine ⟨mem', ?_, repr'⟩
    rw [if_pos rfl, wrote]
  refine ⟨_, if_neg first, repr.update (BlockAt.erase g mem s) (fun i => erase_other)
    fun i low => erase_other ?_⟩
  have := g.roomy
  rw [Nat.div_eq_of_lt (by omega)]
  exact Ne.symm first

theorem Between.take (between : Between g r B s L) (inside : s < g.neraseblocks) :
    ∃ mem, eraseBlock g r.mem s = .ok mem ∧
      Packed g { r with mem := mem } (update B s []) (s + 1) [] ∧
      (gather (update B s []) 0 (s + 1) ++
        (live (B s) ++ gather (update B s []) (s + 1) g.neraseblocks)).Perm L := by
  obtain ⟨mem, taken, repr⟩ := between.repr.eraseBlock s
  refine ⟨mem, taken, ⟨repr, ?_, ?_, ?_, ?_, inside⟩, ?_⟩
  · obtain ⟨before, place⟩ | ⟨here, place⟩ := between.place
    · rw [update_of_ne (ne_of_lt before), place]
    · rw [place, here, update_self, total_nil]
  · obtain ⟨before, -⟩ | ⟨here, -⟩ := between.place
    · exact .inl (Nat.succ_lt_succ before)
    · rw [here, update_self]
      exact .inr ⟨rfl, le_rfl⟩
  · intro b low high
    by_cases last : b = s
    · rw [last, update_self]
    · rw [update_of_ne last]
      exact between.between b low (by omega)
  · intro b low e member
    have low : b ≤ r.dstBlock := low
    by_cases last : b = s
    · rw [last, update_self] at member
      cases member
    rw [update_of_ne last] at member
    have := between.place
    exact between.kept b low (by omega) e member
  refine .trans ?_ between.held
  refine perm_append_comm_assoc .. |>.trans ?_
  rw [← gather_append (Nat.zero_le _) inside]
  exact (gather_perm (Nat.zero_le _) inside).symm

theorem ramconsolidateLoop_spec :
    ∀ (count s : ℕ) (r : Relocation) (B : ℕ → List Entry), s + count = g.neraseblocks →
      Between g r B s L →
      ∃ r' B', ramconsolidateLoop g count s r = .ok r' ∧ Between g r' B' g.neraseblocks L := by
  intro count
  induction count with
  | zero =>
    rintro s r B rfl between
    exact ⟨r, B, rfl, between⟩
  | succ count ih =>
    intro s r B last between
    have inside : s < g.neraseblocks := by omega
    have roomy := g.roomy
    have below := Geometry.end_le_size inside
    obtain ⟨mem, taken, packed, held⟩ := between.take inside
    obtain ⟨r₁, B₁, block, between₁⟩ := ramconsolidateBlock_spec
      (between.repr.block s inside).shift inside (B s) (g.size + 1) _ _ [] 3 rfl packed held
      (.inl ⟨rfl, by rw [total_nil]; omega⟩) (by omega)
    obtain ⟨r', B', rest, ended⟩ := ih (s + 1) r₁ B₁ (by omega) between₁
    refine ⟨r', B', ?_, ended⟩
    unfold ramconsolidateLoop
    rw [taken]
    dsimp only [bind, Except.bind]
    rw [block]
    exact rest

theorem ramconsolidate_spec (wf : WellFormed g mem B) (all : g.endblock = g.neraseblocks)
    (pbuf : Bool) :
    ∃ B', WellFormed g (ramconsolidate g pbuf mem) B' ∧
      (gather B' 0 g.neraseblocks).Perm (gather B 0 g.neraseblocks) ∧
      (pbuf = true → ∀ b, ∀ e ∈ B' b, e.released = false) ∧ (pbuf = false → B' = B) := by
  cases pbuf with
  | false => exact ⟨B, wf, .refl _, nofun, fun _ => rfl⟩
  | true =>
    have start : Between g ⟨mem, 0, 3⟩ B 0 (gather B 0 g.neraseblocks) :=
      ⟨wf.toRepr, .inr ⟨rfl, by rw [Nat.zero_mul]⟩, fun b low high => absurd high (by omega),
        fun b _ high => absurd high (by omega), .refl _⟩
    obtain ⟨r, B', loop, ended⟩ :=
      ramconsolidateLoop_spec g.neraseblocks 0 _ B (zero_add _) start
    -- Blocks behind the device are nobody's.
    let B'' : ℕ → List Entry := fun b => if b < g.neraseblocks then B' b else []
    have same : ∀ b < g.neraseblocks, B'' b = B' b := fun b low => if_pos low
    have gathered : gather B'' 0 g.neraseblocks = gather B' 0 g.neraseblocks :=
      flatMap_congr fun b member => by rw [same b (List.Ico.mem.mp member).2]
    unfold ramconsolidate
    rw [if_pos rfl, loop]
    refine ⟨B'', ⟨⟨ended.repr.signature, fun b low => ?_⟩, fun b low => ?_⟩, ?_, ?_, nofun⟩
    · rw [same b low]
      exact ended.repr.block b low
    · exact if_neg (by omega)
    · rw [gathered]
      exact ended.held
    intro _ b e member
    by_cases inside : b < g.neraseblocks
    · rw [same b inside] at member
      by_cases packed : b ≤ r.dstBlock
      · exact ended.kept b packed inside e member
      · rw [ended.between b (Nat.lt_of_not_le packed) inside] at member
        cases member
    · rw [show B'' b = [] from if_neg inside] at member
      cases member

end NuttxRtos.Mtdconfig

import NuttxRtos.Heap.Free
import NuttxRtos.Heap.Sections

/-!
# Regions

`mm_initialize` sets up the bucket heads, `mm_addregion` adds a region that is one free chunk
between two guards, and `mm_extend` turns the end guard of a region into a block that reaches to a
new end guard.
-/

namespace NuttxRtos.Heap

open Memory Word List

variable {nodelist : ℕ} {m m' : Memory} {rs : List Region}

/-! ## The empty heap -/

variable {k s base : ℕ} {r : Region} {loose : Set ℕ} {B : Buckets}

theorem linkHeads_off (m : Memory) {x : ℕ} (off : x < nodelist + 8 ∨ nodelist + 16 * k + 16 ≤ x) :
    linkHeads m nodelist k x = m x := by
  induction k with
  | zero => rfl
  | succ k ih =>
    simp only [linkHeads, LinkFields.setNext, LinkFields.setPrev, freenode, bucketHead,
      sizeofMmFreenode]
    rw [store32_off _ (by omega), store32_off _ (by omega)]
    exact ih (by omega)

theorem linkHeads_size (m : Memory) (k i : ℕ) :
    size (linkHeads m nodelist k) (bucketHead nodelist i) = size m (bucketHead nodelist i) := by
  induction k with
  | zero => rfl
  | succ k ih =>
    rw [← ih]
    simp only [linkHeads, size, LinkFields.setNext, LinkFields.setPrev, freenode, bucketHead,
      sizeofMmFreenode]
    rw [load32_store32_off _ (by omega), load32_store32_off _ (by omega)]

theorem linkHeads_links {m : Memory} (small : nodelist + headBytes < 2 ^ 32)
    (zero : ∀ i < 19, freenode.next m (bucketHead nodelist i) = 0) (hk : k < 19) :
    freenode.Links (linkHeads m nodelist k) ((List.range (k + 1)).map (bucketHead nodelist)) := by
  have apart {i j : ℕ} (ne : i ≠ j) :
      freenode.Apart (bucketHead nodelist i) (bucketHead nodelist j) := by
    simp only [LinkFields.Apart, freenode, bucketHead, sizeofMmFreenode]
    omega
  have addr {i : ℕ} (hi : i < 19) : bucketHead nodelist i < 2 ^ 32 := by
    simp only [bucketHead, sizeofMmFreenode, headBytes] at *
    omega
  induction k with
  | zero => exact zero 0 hk
  | succ k ih =>
    have old := ih (by omega)
    have unlinked : freenode.next (linkHeads m nodelist k) (bucketHead nodelist (k + 1)) = 0 := by
      rw [← zero (k + 1) hk]
      refine load32_congr fun i hi => linkHeads_off m (.inr ?_)
      simp only [freenode, bucketHead, sizeofMmFreenode]
      omega
    rw [range_succ, map_append, map_singleton] at old
    rw [range_succ, range_succ, append_assoc, map_append]
    refine LinkFields.links_append.2 ⟨?_, ?_, ?_, ?_⟩
    · refine (LinkFields.links_append.1 old).1.congr (fun x hx => ?_) fun x hx => ?_
      · obtain ⟨i, hi, rfl⟩ := mem_map.1 hx
        have := mem_range.1 hi
        exact (LinkFields.next_setPrev (.inr (apart (by omega)))).trans
          (LinkFields.next_setNext_apart (apart (by omega)))
      obtain ⟨i, hi, rfl⟩ : ∃ i < k + 1, bucketHead nodelist i = x := by
        rcases mem_append.1 hx with hx | hx
        · obtain ⟨i, hi, rfl⟩ := mem_map.1 hx
          exact ⟨i, Nat.lt_succ_of_lt (mem_range.1 hi), rfl⟩
        · exact ⟨k, k.lt_succ_self, (mem_singleton.1 hx).symm⟩
      refine (LinkFields.prev_setPrev_apart (apart (by omega))).trans (LinkFields.prev_setNext ?_)
      by_cases e : k = i
      · exact .inl (e ▸ rfl)
      · exact .inr (apart e)
    · exact (LinkFields.next_setPrev (.inr (apart (by omega)))).trans
        (LinkFields.next_setNext_same (addr hk))
    · exact LinkFields.prev_setPrev_same (addr (by omega))
    · exact (LinkFields.next_setPrev (.inl rfl)).trans
        ((LinkFields.next_setNext_apart (apart (by omega))).trans unlinked)

theorem initHeads_tiled (m : Memory) (pos : 0 < nodelist) (small : nodelist + headBytes < 2 ^ 32) :
    Tiled nodelist (linkHeads (memset m nodelist 0 (sizeofMmFreenode * mmNnodes)) nodelist
      (mmNnodes - 1)) [] := by
  have zero (a : ℕ) (ha : nodelist ≤ a ∧ a + 4 ≤ nodelist + headBytes) :
      load32 (memset m nodelist 0 (sizeofMmFreenode * mmNnodes)) a = 0 := load32_memset_zero m ha
  have heads : chain nodelist (fun _ => []) = (List.range 19).map (bucketHead nodelist) :=
    (map_eq_flatMap ..).symm
  refine ⟨⟨by simp, by simp, pos, small, by simp⟩, by simp, fun _ => [], fun i hi => ?_, ?_, ?_,
    by simp, by simp, ?_⟩
  · rw [linkHeads_size]
    refine zero _ ?_
    simp only [bucketHead, sizeofMmFreenode, headBytes]
    omega
  · refine linkHeads_links small (fun i hi => zero _ ?_) (by decide)
    simp only [bucketHead, sizeofMmFreenode, headBytes, freenode]
    omega
  · rw [heads]
    refine nodup_range.map fun i j h => ?_
    simp only [bucketHead, sizeofMmFreenode] at h
    omega
  · simp [At]

/-! ## A new region -/

theorem Region.last_add (r : Region) : r.last + 8 = r.stop := by
  unfold last stop
  omega

theorem Listed.append (ls : Listed nodelist m rs loose B) (lay : Layout nodelist (rs ++ [r]))
    (single : r.mids = [.free s]) (same : SameOff r.Bytes m m') :
    Listed nodelist m' (rs ++ [r]) (insert (r.base + 8) loose) B := by
  have far : ∀ r' ∈ rs, Region.Apart r' r := fun r' hr' =>
    (pairwise_append.1 lay.disjoint).2.2 r' hr' r (by simp)
  refine ls.sameOff same (fun x hx b hb _ => ?_) fun x t => ?_
  · unfold Region.Bytes
    rcases ls.linkable hx with ⟨i, hi, rfl⟩ | ⟨t, r', hr', hx⟩
    · have := lay.apart r (by simp)
      simp only [bucketHead, sizeofMmFreenode, headBytes] at *
      omega
    have := (lay.ok r' (by simp [hr'])).bounds hx
    have := far r' hr'
    simp only [Region.Apart] at *
    omega
  have split : At (rs ++ [r]) x (.free t) ↔ At rs x (.free t) ∨ x = r.base + 8 ∧ t = s := by
    simp [At, or_and_right, exists_or, single]
  rw [split, Set.mem_insert_iff, not_or]
  constructor
  · rintro ⟨⟨r', hr', hx⟩, hl⟩
    refine ⟨.inl ⟨r', hr', hx⟩, ?_, hl⟩
    have := (lay.ok r' (by simp [hr'])).bounds hx
    have := far r' hr'
    simp only [Region.Apart, Region.stop] at *
    omega
  rintro ⟨h | h, hn, hl⟩
  · exact ⟨h, hl⟩
  · exact absurd h.1 hn

/-- The memory with the guards and the free chunk of a new region. -/
def writeRegion (m : Memory) (base s : ℕ) : Memory :=
  setPreceding (setSize (setPreceding (setSize (setPreceding (setSize m base 8) base (2 ^ 31))
    (base + 8) s) (base + 8) 8) (base + 8 + s) 8) (base + 8 + s) (s + 2 ^ 31)

theorem writeRegion_headers (ok : (Region.mk base [.free s]).Ok) :
    Headers (writeRegion m base s) base 0 (Region.mk base [.free s]).chunks := by
  unfold writeRegion
  have sizes := ok.sizes (.free s) (by simp)
  have tagged := ok.tagged
  simp only [extent_cons, extent_nil] at sizes tagged
  refine ⟨⟨?_, ?_, fun f _ i hi => absurd hi (by simp)⟩, ⟨?_, ?_, by simp⟩,
    ⟨?_, ?_, fun f _ i hi => absurd hi (by simp)⟩, trivial⟩
  all_goals simp (disch := omega)

structure Region.Fits (r : Region) (nodelist : ℕ) (rs : List Region) : Prop where
  ok : r.Ok
  disjoint : ∀ r' ∈ rs, Region.Apart r' r
  apart : r.stop ≤ nodelist ∨ nodelist + headBytes ≤ r.base

theorem Layout.append (lay : Layout nodelist rs) (fits : r.Fits nodelist rs) :
    Layout nodelist (rs ++ [r]) := by
  refine ⟨?_, ?_, lay.nodelist_pos, lay.nodelist_fits, ?_⟩
  · exact forall_mem_append.2 ⟨lay.ok, forall_mem_singleton.2 fits.ok⟩
  · refine pairwise_append.2 ⟨lay.disjoint, pairwise_singleton _ _, fun r' hr' => ?_⟩
    exact forall_mem_singleton.2 (fits.disjoint r' hr')
  · exact forall_mem_append.2 ⟨lay.apart, forall_mem_singleton.2 fits.apart⟩

theorem mmAddregion_spec {maxRegions heapstart bytes stop : ℕ} {h : MmHeap}
    (tiled : Tiled h.nodelist h.mem rs) (starts : h.heapstart.length = rs.length)
    (ends : h.heapend.length = rs.length) (room : rs.length < maxRegions)
    (hbase : base = (heapstart + 15) / 16 * 16) (hstop : stop = (heapstart + bytes) / 16 * 16)
    (large : base + 32 ≤ stop) (small : heapstart + bytes < 2 ^ 32)
    (fits : (Region.mk base [.free (stop - base - 16)]).Fits h.nodelist rs) :
    ∃ m', mmAddregion maxRegions h heapstart bytes = some { h with
        mem := m'
        heapsize := add32 h.heapsize (stop - base)
        heapstart := h.heapstart ++ [base]
        heapend := h.heapend ++ [stop - 8] } ∧
      Tiled h.nodelist m' (rs ++ [⟨base, [.free (stop - base - 16)]⟩]) := by
  obtain ⟨lay, flux⟩ := tiled
  have lay' := lay.append fits
  have tagged := fits.ok.tagged
  generalize hs : stop - base - 16 = s at *
  have span : (Region.mk base [.free s]).stop = stop := by
    simp [Region.stop]
    omega
  -- the values that the function computes
  have idx : (if 1 < maxRegions then h.heapstart.length else 0) = h.heapstart.length := by
    split_ifs <;> omega
  have e₁ : mmAlignUp heapstart = base := by rw [mmAlignUp_eq (by omega), hbase]
  have e₂ : mmAlignDown (add32 heapstart bytes) = stop := by
    have mask : mmGranMask = 2 ^ 4 - 1 := rfl
    rw [add32_eq small, mmAlignDown, mask, and_not32_mask small (by omega)]
    omega
  have e₃ : sub32 stop base = stop - base := sub32_eq (by omega) (by omega)
  have e₄ : add32 base sizeofMmAllocnode = base + 8 := add32_allocnode (by omega)
  have e₅ : sub32 stop sizeofMmAllocnode = base + 8 + s := by
    rw [sub32_eq (by simp only [sizeofMmAllocnode]; omega) (by omega)]
    simp only [sizeofMmAllocnode]
    omega
  have e₆ : sub32 (stop - base) (2 * sizeofMmAllocnode) = s := by
    rw [sub32_eq (by simp only [sizeofMmAllocnode]; omega) (by omega)]
    simp only [sizeofMmAllocnode]
    omega
  have e₇ : size (setSize (setPreceding (setSize (setPreceding (setSize h.mem base 8) base
      (2 ^ 31)) (base + 8) s) (base + 8) 8) (base + 8 + s) 8) (base + 8) = s := by
    simp (disch := omega)
  have e₈ : s ||| 2 ^ 31 = s + 2 ^ 31 := or_allocBit tagged
  -- the new region is in place with its chunk still loose
  have same : SameOff (Region.mk base [.free s]).Bytes h.mem (writeRegion h.mem base s) := by
    have inner {a : ℕ} (ha : base ≤ a ∧ a + 4 ≤ stop) :
        ∀ i < 4, (Region.mk base [.free s]).Bytes (a + i) := fun i hi => by
      refine ⟨by simp only; omega, ?_⟩
      omega
    exact ((((((SameOff.refl _ h.mem).store32 _ (inner (by omega))).store32 _
      (inner (by omega))).store32 _ (inner (by omega))).store32 _ (inner (by omega))).store32 _
      (inner (by omega))).store32 _ (inner (by omega))
  obtain ⟨B, ls⟩ := flux.listed
  have loose := ls.append lay' rfl same
  have placedNode : At (rs ++ [⟨base, [.free s]⟩]) (base + 8) (.free s) :=
    ⟨⟨base, [.free s]⟩, by simp, by simp⟩
  have headers : ∀ r ∈ rs ++ [⟨base, [.free s]⟩],
      Headers (writeRegion h.mem base s) r.base 0 r.chunks := by
    refine forall_mem_append.2
      ⟨fun r hr => ?_, forall_mem_singleton.2 (writeRegion_headers fits.ok)⟩
    refine (lay.ok r hr).headers (flux.headers r hr) fun b hb => same b ?_
    have := fits.disjoint r hr
    simp only [Region.Apart, Region.Bytes] at *
    omega
  have added : Flux h.nodelist (writeRegion h.mem base s) (rs ++ [⟨base, [.free s]⟩])
      (insert (base + 8) ∅) := ⟨headers, B, loose⟩
  obtain ⟨m', run, listed⟩ := added.addfreechunk lay' placedNode (by simp)
  refine ⟨m', ?_, lay', listed⟩
  simp only [mmAddregion, idx, e₁, e₂, e₃, e₄, e₅, e₆]
  rw [if_neg (by omega)]
  simp only [show sizeofMmAllocnode = 8 from rfl, show mmAllocBit = 2 ^ 31 from rfl]
  unfold writeRegion at run
  simp only [e₇, e₈, run, Option.bind_eq_bind, Option.bind_some]
  rw [take_of_length_le (by omega), drop_of_length_le (by omega),
    take_of_length_le (by omega), drop_of_length_le (by omega),
    show base + 8 + s = stop - 8 by omega]
  rfl

/-! ## Extending a region -/

/-- The region with its end guard turned into a block of `n` bytes. -/
def Region.extend (r : Region) (n : ℕ) (g : ℕ → UInt8) : Region := ⟨r.base, r.mids ++ [.used n g]⟩

theorem Region.extend_stop (r : Region) (n : ℕ) (g : ℕ → UInt8) :
    (r.extend n g).stop = r.stop + n := by
  simp only [extend, stop, extent_append, extent_cons, extent_nil]
  omega

section Extend

variable {before after : List Region} {r : Region} {n : ℕ} {g : ℕ → UInt8}

/-- The size word of the old end guard and the bytes of the added block. -/
def ExtendBytes (r : Region) (n b : ℕ) : Prop :=
  r.last ≤ b ∧ b < r.last + 4 ∨ r.stop ≤ b ∧ b < r.stop + n

theorem at_extend {x : ℕ} {c : Chunk} : At (before ++ r.extend n g :: after) x c ↔
    At (before ++ r :: after) x c ∨ x = r.last ∧ c = .used n g := by
  have here : (x, c) ∈ placed (r.base + 8) (r.mids ++ [.used n g]) ↔
      (x, c) ∈ placed (r.base + 8) r.mids ∨ x = r.last ∧ c = .used n g := by
    simp [Region.last]
  simp only [At, mem_append, mem_cons, Region.extend, or_and_right, exists_or, exists_eq_left, here]
  constructor
  · rintro (h | (h | h) | h)
    · exact .inl (.inl h)
    · exact .inl (.inr (.inl h))
    · exact .inr h
    · exact .inl (.inr (.inr h))
  rintro ((h | h | h) | h)
  · exact .inl h
  · exact .inr (.inl (.inl h))
  · exact .inr (.inr h)
  · exact .inr (.inl (.inr h))

/-- The bytes that `mm_extend` writes belong to no other region and to no bucket head. -/
theorem extendBytes_other (lay' : Layout nodelist (before ++ r.extend n g :: after)) {b : ℕ}
    (hb : ExtendBytes r n b) :
    (∀ r', r' ∈ before ∨ r' ∈ after → ¬ r'.Bytes b) ∧
      (b < nodelist ∨ nodelist + headBytes ≤ b) := by
  have stop := r.extend_stop n g
  have last := r.last_add
  have base : r.base + 8 ≤ r.last := by
    unfold Region.last
    omega
  constructor
  · intro r' hr'
    have far := lay'.apart_other hr'
    simp only [Region.Apart, stop, Region.Bytes, ExtendBytes] at *
    have : (r.extend n g).base = r.base := rfl
    omega
  have apart := lay'.apart (r.extend n g) (by simp)
  have : (r.extend n g).base = r.base := rfl
  simp only [ExtendBytes] at hb
  omega

section

variable (lay : Layout nodelist (before ++ r :: after))
  (lay' : Layout nodelist (before ++ r.extend n g :: after))

include lay lay'

theorem Listed.extend {B : Buckets} (ls : Listed nodelist m (before ++ r :: after) ∅ B)
    (same : SameOff (ExtendBytes r n) m m') :
    Listed nodelist m' (before ++ r.extend n g :: after) ∅ B := by
  refine ls.sameOff same (fun x hx b hb _ hw => ?_) fun x t => ?_
  · obtain ⟨other, head⟩ := extendBytes_other lay' hw
    rcases ls.linkable hx with ⟨i, hi, rfl⟩ | ⟨t, r', hr', hx⟩
    · simp only [bucketHead, sizeofMmFreenode, headBytes] at *
      omega
    have bounds := (lay.ok r' hr').bounds hx
    simp only [mem_append, mem_cons] at hr'
    rcases hr' with hr' | rfl | hr'
    · exact other r' (.inl hr') (by simp only [Region.Bytes] at *; omega)
    · simp only [ExtendBytes, Region.last, Region.stop] at *
      omega
    · exact other r' (.inr hr') (by simp only [Region.Bytes] at *; omega)
  · rw [at_extend]
    simp

theorem Flux.extend (flux : Flux nodelist m (before ++ r :: after) ∅)
    (same : SameOff (ExtendBytes r n) m m')
    (oldSize : size m' r.last = n) (newSize : size m' (r.last + n) = 8)
    (newPreceding : preceding m' (r.last + n) = n + 2 ^ 31)
    (data : ∀ i, g i = m' (r.last + 8 + i)) :
    Flux nodelist m' (before ++ r.extend n g :: after) ∅ := by
  obtain ⟨B, ls⟩ := flux.listed
  have other (r' : Region) (hr' : r' ∈ before ∨ r' ∈ after) : Headers m' r'.base 0 r'.chunks := by
    have mem : r' ∈ before ++ r :: after := by
      simp only [mem_append, mem_cons]
      tauto
    refine (lay.ok r' mem).headers (flux.headers r' mem) fun b hb => same b fun hw => ?_
    exact (extendBytes_other lay' hw).1 r' hr' hb
  refine ⟨fun r' hr' => ?_, B, ls.extend lay lay' same⟩
  simp only [mem_append, mem_cons] at hr'
  rcases hr' with hr' | rfl | hr'
  · exact other r' (.inl hr')
  · have ok := lay.ok r (by simp)
    have old := flux.headers r (by simp)
    have last : r.base + extent (guard :: r.mids) = r.last := by
      simp only [extent_cons, guard_size, Region.last]
      omega
    have split : r.chunks = (guard :: r.mids) ++ [guard] := rfl
    rw [split, headers_append, last] at old
    rw [show (r.extend n g).chunks = (guard :: r.mids) ++ [.used n g, guard] by
      simp [Region.chunks, Region.extend], headers_append]
    change Headers m' r.base 0 _ ∧ Headers m' (r.base + _) _ _
    rw [last]
    refine ⟨old.1.congr fun x c hx b hb => same b fun hw => ?_, ⟨oldSize, ?_, ?_⟩,
      ⟨newSize, newPreceding, fun f _ i hi => absurd hi (by simp)⟩, trivial⟩
    · have bounds := placed_bounds hx
      have size := ok.chunk_size (c := c) (by rw [split]; exact mem_append_left _ bounds.1)
      simp only [ExtendBytes, Region.stop, Region.last] at *
      rcases hb with hb | hb <;> omega
    · rw [Chunk.tag_used, ← guard_tag, ← old.2.1.precedingWord]
      exact load32_sameOff same fun i hi => by
        simp only [ExtendBytes, Region.stop, Region.last]
        omega
    · rintro _ ⟨⟩ i -
      exact (data i).symm
  · exact other r' (.inr hr')

end

/-- `mm_extend` by a block that follows the end guard: the new bytes are free. -/
theorem mmExtend_spec {h : MmHeap} (tiled : Tiled h.nodelist h.mem (before ++ r :: after))
    (ends : h.heapend = (before ++ r :: after).map Region.last) (large : 16 ≤ n)
    (aligned : n % 16 = 0) (lay' : ∀ g, Layout h.nodelist (before ++ r.extend n g :: after)) :
    ∃ m' rs' g, mmExtend h r.stop n before.length = some { h with
        mem := m'
        heapend := (before ++ r.extend n g :: after).map Region.last } ∧
      Tiled h.nodelist m' rs' ∧
      Evolve (before ++ r.extend n g :: after) rs' {(r.last, .used n g)} ∅ ∧
      (Coalesced (before ++ r :: after) → Coalesced rs') := by
  obtain ⟨lay, flux⟩ := tiled
  have last := r.last_add
  have ok := (lay' fun _ => 0).ok _ (mem_append_right _ mem_cons_self)
  have fits := ok.fits
  have tagged := ok.tagged
  rw [Region.extend_stop] at fits
  simp only [Region.extend, extent_append, extent_cons, extent_nil] at tagged
  have oldnode : h.heapend.getD before.length 0 = r.last := by simp [ends]
  have newnode : sub32 (add32 r.stop n) sizeofMmAllocnode = r.last + n := by
    rw [add32_eq fits, ← last, show r.last + 8 + n = r.last + n + 8 by omega]
    exact sub32_allocnode (by omega)
  have value : size (setSize (setSize h.mem r.last n) (r.last + n) 8) r.last = n := by
    simp (disch := omega)
  generalize hm₁ : setPreceding (setSize (setSize h.mem r.last n) (r.last + n) 8) (r.last + n)
    (n + 2 ^ 31) = m₁
  have same : SameOff (ExtendBytes r n) h.mem m₁ := by
    rw [← hm₁]
    refine (((SameOff.refl _ h.mem).store32 _ ?_).store32 _ ?_).store32 _ ?_ <;>
      intro i hi <;> unfold ExtendBytes <;> omega
  have extended : Tiled h.nodelist m₁ (before ++ r.extend n (fun i => m₁ (r.last + 8 + i)) ::
      after) := by
    refine ⟨lay' _, flux.extend lay (lay' _) same ?_ ?_ ?_ fun i => rfl⟩ <;> rw [← hm₁]
    all_goals simp (disch := omega)
  obtain ⟨m', rs', run, tiled', ev, co⟩ := freeSection_spec extended
    (at_extend.2 (.inr ⟨rfl, rfl⟩))
  refine ⟨m', rs', _, ?_, tiled', ev, fun h => co ?_⟩
  · simp only [mmExtend, oldnode, newnode]
    simp only [show sizeofMmAllocnode = 8 from rfl, value, or_allocBit (show n < 2 ^ 31 by omega),
      hm₁, mmFree]
    rw [if_neg (by omega), ← last]
    simp only [Bool.false_eq_true, if_false, run, Option.bind_eq_bind, Option.bind_some]
    have table : h.heapend.set before.length (r.last + n) = (before ++
        r.extend n (fun i => m₁ (r.last + 8 + i)) :: after).map Region.last := by
      simp [ends, Region.extend, Region.last, add_assoc]
    rw [table]
    rfl
  intro r' hr'
  simp only [mem_append, mem_cons] at hr'
  rcases hr' with hr' | rfl | hr'
  · exact h r' (by simp [hr'])
  · exact isChain_append.2 ⟨h r (by simp), isChain_singleton _, fun x _ y hy =>
      .inr (by simp at hy; simp [← hy])⟩
  · exact h r' (by simp [hr'])

end Extend

end NuttxRtos.Heap

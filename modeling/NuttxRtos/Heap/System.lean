import NuttxRtos.Heap.Calls

/-!
# Runs of the heap

A state is the heap and the payload addresses that clients hold. `step` runs one call to its end,
and `Valid` says which calls clients may make. Every valid call returns, and every run keeps `Rep`
and the coalescing of free chunks (`Run.inv`).
-/

namespace NuttxRtos.Heap

open Memory Word List Option

inductive Op where
  | addregion (heapstart heapsize : ℕ)
  | extend (size region : ℕ)
  | malloc (size : ℕ)
  | calloc (n elemSize : ℕ)
  | memalign (alignment size : ℕ)
  | realloc (oldmem size : ℕ)
  | free (deferred : Bool) (mem : ℕ)
  | store (mem offset : ℕ) (value : UInt8)

structure State where
  heap : MmHeap
  live : List ℕ

def State.own (s : State) (r : MmHeap × ℕ) : State :=
  ⟨r.1, if r.2 = 0 then s.live else r.2 :: s.live⟩

/-- The state after `mm_realloc (oldmem, size)`: the old block is given up when a block is returned
and when the request was for zero bytes. -/
def State.exchange (s : State) (oldmem size : ℕ) (r : MmHeap × ℕ) : State :=
  ⟨r.1, if r.2 ≠ 0 then r.2 :: s.live.erase oldmem
    else if size = 0 then s.live.erase oldmem else s.live⟩

def step (maxRegions : ℕ) (s : State) : Op → Option State
  | .addregion start bytes =>
    (mmAddregion maxRegions s.heap start bytes).map fun h => ⟨h, s.live⟩
  | .extend bytes region =>
    (mmExtend s.heap (s.heap.heapend.getD region 0 + 8) bytes region).map fun h => ⟨h, s.live⟩
  | .malloc n => (mmMalloc s.heap n).map s.own
  | .calloc n elem => (mmCalloc s.heap n elem).map s.own
  | .memalign alignment n => (mmMemalign s.heap alignment n).map s.own
  | .realloc p n => (mmRealloc s.heap p n).map (s.exchange p n)
  | .free deferred p => (mmFree s.heap deferred p).map fun h => ⟨h, s.live.erase p⟩
  | .store p i v => some ⟨{ s.heap with mem := Function.update s.heap.mem (p + i) v }, s.live⟩

/-! ## Valid calls -/

def regionBase (start : ℕ) : ℕ := (start + 15) / 16 * 16

def regionStop (start bytes : ℕ) : ℕ := (start + bytes) / 16 * 16

/-- A region for `mm_addregion`: in the address space, with room for the guards and a free node
below `limit` bytes, and apart from the bucket heads and the regions of the table `spans`. -/
structure NewRegion (limit nodelist : ℕ) (spans : List (ℕ × ℕ)) (start bytes : ℕ) : Prop where
  fits : start + bytes < 2 ^ 32
  large : regionBase start + 32 ≤ regionStop start bytes
  small : regionStop start bytes < regionBase start + 16 + limit
  disjoint : ∀ s ∈ spans, s.2 + 8 ≤ regionBase start ∨ regionStop start bytes ≤ s.1
  apart : regionStop start bytes ≤ nodelist ∨ nodelist + headBytes ≤ regionBase start

/-- A block for `mm_extend` behind the end guard of a region: aligned, in the address space and
apart from the other regions. -/
structure Extension (limit nodelist : ℕ) (spans : List (ℕ × ℕ)) (bytes region : ℕ) : Prop where
  region_lt : region < spans.length
  large : 16 ≤ bytes
  aligned : bytes % 16 = 0
  fits : (spans.getD region (0, 0)).2 + 8 + bytes < 2 ^ 32
  small : (spans.getD region (0, 0)).2 + bytes < (spans.getD region (0, 0)).1 + 8 + limit
  disjoint : ∀ s ∈ spans.eraseIdx region, s.2 + 8 ≤ (spans.getD region (0, 0)).1 ∨
    (spans.getD region (0, 0)).2 + 8 + bytes ≤ s.1
  apart : (spans.getD region (0, 0)).2 + 8 + bytes ≤ nodelist ∨
    nodelist + headBytes ≤ (spans.getD region (0, 0)).1

def MmHeap.spans (h : MmHeap) : List (ℕ × ℕ) := h.heapstart.zip h.heapend

/-- What clients may ask for in a state; free chunks stay below `limit` bytes. -/
def Valid (limit maxRegions : ℕ) (s : State) : Op → Prop
  | .addregion start bytes =>
    1 < maxRegions ∧ maxRegions ≤ s.heap.heapstart.length ∨ s.heap.heapstart.length < maxRegions ∧
        NewRegion limit s.heap.nodelist s.heap.spans start bytes
  | .extend bytes region => Extension limit s.heap.nodelist s.heap.spans bytes region
  | .malloc n => n + 23 < 2 ^ 32
  | .calloc n elem => n * elem + 23 < 2 ^ 32 ∨ 2 ^ 32 ≤ n * elem
  | .memalign alignment n => (∃ j, alignment = 2 ^ j) ∧ MemalignFits alignment n
  | .realloc p n => (p = 0 ∨ p ∈ s.live) ∧ n + 23 < 2 ^ 32
  | .free _ p => p = 0 ∨ p ∈ s.live
  | .store p i _ => p ∈ s.live ∧ i + 8 < size s.heap.mem (p - 8)

inductive Run (limit maxRegions : ℕ) : List Op → State → Prop where
  | init {m : Memory} {nodelist start bytes : ℕ} {h : MmHeap} (regions : 0 < maxRegions)
      (pos : 0 < nodelist) (fits : nodelist + headBytes < 2 ^ 32)
      (region : NewRegion limit nodelist [] start bytes)
      (run : mmInitialize maxRegions m nodelist start bytes = some h) :
      Run limit maxRegions [] ⟨h, []⟩
  | step {ops : List Op} {s s' : State} {op : Op} (before : Run limit maxRegions ops s)
      (valid : Valid limit maxRegions s op) (run : step maxRegions s op = some s') :
      Run limit maxRegions (ops ++ [op]) s'

/-! ## The size of the regions -/

def total (rs : List Region) : ℕ := (rs.map fun r => r.stop - r.base).sum

variable {nodelist : ℕ}

variable {rs : List Region} {start bytes n p : ℕ}

theorem Layout.total_lt (lay : Layout nodelist rs) : total rs < 2 ^ 32 := by
  have nodup : (rs.flatMap fun r => range' r.base (r.stop - r.base)).Nodup := by
    refine nodup_flatMap.2 ⟨fun r _ => nodup_range', ?_⟩
    refine lay.disjoint.imp fun {r r'} far x hx hx' => ?_
    have := mem_range'_1.1 hx
    have := mem_range'_1.1 hx'
    simp only [Region.Apart] at far
    omega
  have inside : (rs.flatMap fun r => range' r.base (r.stop - r.base)) ⊆ range (2 ^ 32 - 1) := by
    intro x hx
    obtain ⟨r, hr, hx⟩ := mem_flatMap.1 hx
    have := (lay.ok r hr).fits
    have := mem_range'_1.1 hx
    rw [mem_range]
    omega
  have bytes := (subperm_of_subset nodup inside).length_le
  rw [length_flatMap, length_range] at bytes
  simp only [length_range'] at bytes
  exact Nat.lt_of_le_of_lt bytes (by decide)

variable {rs' : List Region}

theorem total_eq_of_spans (h : rs'.map Region.span = rs.map Region.span) :
    total rs' = total rs := by
  have e : ∀ rs : List Region, total rs = ((rs.map Region.span).map fun s => s.2 - s.1).sum := by
    intro rs
    simp [total, Region.span, Function.comp_def]
  rw [e, e, h]

/-! ## Every valid call returns and keeps the invariant -/

/-- The bytes that a call adds to a region behind the back of `mm_heapsize`. -/
def Op.extended : Op → ℕ
  | .extend bytes _ => bytes
  | _ => 0

/-- The invariant of the runs: a coalesced tiling, whose regions are counted in `mm_heapsize` except
for `extra` bytes. -/
def Inv (extra : ℕ) (s : State) : Prop :=
  ∃ rs delayed, Rep s.heap rs s.live delayed ∧ Coalesced rs ∧ s.heap.heapsize + extra = total rs

variable {limit maxRegions extra : ℕ} {s : State} {rs : List Region} {delayed : List ℕ}

variable {h : MmHeap} {live : List ℕ}

theorem Rep.spans (rep : Rep h rs live delayed) : h.spans = rs.map fun r => (r.base, r.last) := by
  rw [MmHeap.spans, rep.starts, rep.ends, zip_map']

theorem Inv.of_step {h' : MmHeap} {live' delayed' keep : List ℕ}
    (co : Coalesced rs) (sum : h.heapsize + extra = total rs) (step : Step h rs h' rs' keep)
    (rep' : Rep h' rs' live' delayed') : Inv extra ⟨h', live'⟩ :=
  ⟨rs', delayed', rep', step.coalesced co, by
    rw [total_eq_of_spans step.spans, ← sum, ← step.heapsize]⟩

theorem NewRegion.region
    (new : NewRegion limit nodelist (rs.map fun r => (r.base, r.last)) start bytes)
    (small : limit ≤ 2 ^ 31) :
    (Region.mk (regionBase start) [.free (regionStop start bytes - regionBase start - 16)]).Fits
      nodelist rs := by
  obtain ⟨fits, large, below, disjoint, apart⟩ := new
  have aligned : regionBase start % 16 = 0 ∧ regionStop start bytes % 16 = 0 := by
    unfold regionBase regionStop
    omega
  have bound : regionStop start bytes ≤ start + bytes := Nat.div_mul_le_self _ _
  have stop : (Region.mk (regionBase start) [.free (regionStop start bytes - regionBase start -
      16)]).stop = regionStop start bytes := by
    simp only [Region.stop, extent_cons, extent_nil]
    omega
  refine ⟨⟨Nat.dvd_of_mod_eq_zero aligned.1, ?_, ?_, ?_⟩, fun r hr => ?_, ?_⟩
  · simp
    omega
  · simp
    omega
  · omega
  · have := disjoint (r.base, r.last) (mem_map.2 ⟨r, hr, rfl⟩)
    have last := r.last_add
    rw [Region.Apart, stop]
    simp only at *
    omega
  · rw [stop]
    exact apart

theorem Layout.extend {before after : List Region} {r : Region}
    (lay : Layout nodelist (before ++ r :: after)) (large : 16 ≤ n) (aligned : n % 16 = 0)
    (fits : r.stop + n < 2 ^ 32) (tagged : extent r.mids + n < 2 ^ 31)
    (far : ∀ r' ∈ before ++ after, r'.stop ≤ r.base ∨ r.stop + n ≤ r'.base)
    (apart : r.stop + n ≤ nodelist ∨ nodelist + headBytes ≤ r.base) (g : ℕ → UInt8) :
    Layout nodelist (before ++ r.extend n g :: after) := by
  have old := lay.ok r (by simp)
  have stop := r.extend_stop n g
  refine lay.replace ⟨old.aligned, fun c hc => ?_, ?_, by rwa [stop]⟩ (fun q hq => ?_)
    (by rwa [stop])
  · simp only [Region.extend, mem_append, mem_singleton] at hc
    rcases hc with hc | rfl
    · exact old.sizes c hc
    · exact ⟨Nat.dvd_of_mod_eq_zero aligned, large⟩
  · simpa [Region.extend] using tagged
  rw [Region.Apart, stop]
  exact far q (mem_append.2 hq)

theorem zero_not_live (rep : Rep h rs live delayed) : 0 ∉ live :=
  fun mem => absurd (rep.addr (mem_append_left _ mem)).1 (by omega)

theorem own_inv {r : MmHeap × ℕ} (co : Coalesced rs) (sum : s.heap.heapsize + extra = total rs)
    (call : Step s.heap rs r.1 rs' s.live)
    (result : ∃ delayed', r.2 = 0 ∧ Rep r.1 rs' s.live delayed' ∨
      ∃ x, r.2 = x + 8 ∧ Rep r.1 rs' ((x + 8) :: s.live) delayed') : Inv extra (s.own r) := by
  unfold State.own
  obtain ⟨delayed', result⟩ := result
  rcases result with ⟨zero, rep'⟩ | ⟨x, e, rep'⟩
  · rw [if_pos zero]
    exact Inv.of_step co sum call rep'
  · rw [if_neg (by omega), e]
    exact Inv.of_step co sum call rep'

section

variable (rep : Rep h rs live delayed) (co : Coalesced rs) (sum : h.heapsize + extra = total rs)
include rep co sum

theorem addregion_inv (room : rs.length < maxRegions) (small : limit ≤ 2 ^ 31)
    (new : NewRegion limit h.nodelist h.spans start bytes) :
    ∃ h', mmAddregion maxRegions h start bytes = some h' ∧ Inv extra ⟨h', live⟩ := by
  rw [rep.spans] at new
  have fits := new.region small
  have base : regionBase start = (start + 15) / 16 * 16 := rfl
  have stop : regionStop start bytes = (start + bytes) / 16 * 16 := rfl
  obtain ⟨m', run, tiled'⟩ := mmAddregion_spec rep.tiled (by simp [rep.starts])
    (by simp [rep.ends]) room base stop new.large new.fits fits
  have count : total (rs ++ [⟨regionBase start, [.free (regionStop start bytes -
      regionBase start - 16)]⟩]) = total rs + (regionStop start bytes - regionBase start) := by
    have := new.large
    simp [total, Region.stop]
    omega
  have bound := tiled'.lay.total_lt
  refine ⟨_, run, _, delayed, rep.regions tiled' blocks_append_free ?_ ?_,
    coalesced_append_free co, ?_⟩
  · simp [rep.starts]
  · have := new.large
    simp [rep.ends, Region.last]
    omega
  simp only
  rw [add32_eq (by omega)]
  omega

theorem extend_inv {region : ℕ} (small : limit ≤ 2 ^ 31)
    (ext : Extension limit h.nodelist h.spans bytes region) :
    ∃ h', mmExtend h (h.heapend.getD region 0 + 8) bytes region = some h' ∧
      Inv (extra + bytes) ⟨h', live⟩ := by
  rw [rep.spans] at ext
  obtain ⟨lt, large, aligned, fits, below, disjoint, apart⟩ := ext
  rw [length_map] at lt
  obtain ⟨before, r, after, rfl, rfl⟩ : ∃ before r after, rs = before ++ r :: after ∧
      before.length = region :=
    ⟨rs.take region, rs[region], rs.drop (region + 1), by simp, by simp [lt.le]⟩
  have entry : ((before ++ r :: after).map fun r => (r.base, r.last)).getD before.length (0, 0) =
      (r.base, r.last) := by simp
  have others : ((before ++ r :: after).map fun r => (r.base, r.last)).eraseIdx before.length =
      (before ++ after).map fun r => (r.base, r.last) := by
    simp [eraseIdx_append_of_length_le]
  have stop := Region.last_add
  have base : r.last = r.base + 8 + extent r.mids := rfl
  rw [entry] at fits below disjoint apart
  rw [others] at disjoint
  have lay' (g : ℕ → UInt8) : Layout h.nodelist (before ++ r.extend bytes g :: after) := by
    refine rep.tiled.lay.extend large aligned ?_ (by simp only at below; omega) (fun r' hr' => ?_)
      ?_ g
    · rw [← stop]
      exact fits
    · have := disjoint (r'.base, r'.last) (mem_map.2 ⟨r', hr', rfl⟩)
      rw [← stop, ← stop]
      exact this
    · rw [← stop]
      exact apart
  obtain ⟨m', rs', g, run, tiled', ev, co'⟩ := mmExtend_spec rep.tiled rep.ends large aligned lay'
  have count : total rs' = total (before ++ r :: after) + bytes := by
    rw [total_eq_of_spans ev.spans]
    simp only [total, map_append, map_cons, sum_append, sum_cons, Region.extend_stop]
    have : (r.extend bytes g).base = r.base := rfl
    have := stop r
    omega
  have bases : rs'.map Region.base = (before ++ r :: after).map Region.base := by
    rw [bases_of_spans ev.spans]
    simp [Region.extend]
  have mem : h.heapend.getD before.length 0 + 8 = r.stop := by
    rw [rep.ends]
    simp [stop]
  rw [mem]
  refine ⟨_, run, rs', delayed, rep.regions tiled' (blocks_extend (lay' g) ev rep.tiled.lay)
    (rep.starts.trans bases.symm) (lasts_of_spans ev.spans).symm, co' co, ?_⟩
  simp only
  omega

theorem store_inv {i : ℕ} {v : UInt8} (hp : p ∈ live) (hi : i + 8 < size h.mem (p - 8)) :
    Inv extra ⟨{ h with mem := Function.update h.mem (p + i) v }, live⟩ := by
  obtain ⟨x, s, f, rfl, hx⟩ := rep.block (mem_append_left _ hp)
  obtain ⟨q, header⟩ := rep.tiled.flux.header hx
  rw [Nat.add_sub_cancel, header.sizeWord] at hi
  have same : SameOff (fun b => x + 8 ≤ b ∧ b < x + s) h.mem
      (Function.update h.mem (x + 8 + i) v) := fun b hb =>
    Function.update_of_ne (by rintro rfl; simp only at hi; omega) _ _
  obtain ⟨rs', rep', step, -⟩ := rep.write hp hx same
  exact Inv.of_step co sum step rep'

theorem free_inv (deferred : Bool) (hp : p = 0 ∨ p ∈ live) :
    ∃ h', mmFree h deferred p = some h' ∧ Inv extra ⟨h', live.erase p⟩ := by
  rcases hp with rfl | hp
  · refine ⟨h, by simp [mmFree], rs, delayed, ?_, co, sum⟩
    rwa [erase_of_not_mem (zero_not_live rep)]
  cases deferred with
  | false =>
    obtain ⟨h', rs', run, rep', step, -⟩ := mmFree_spec rep hp
    exact ⟨h', run, Inv.of_step co sum step rep'⟩
  | true =>
    have ne := (rep.addr (mem_append_left _ hp)).1.ne'
    obtain ⟨rs', rep', step⟩ := mmAddDelaylist_spec rep hp
    exact ⟨_, by simp [mmFree, ne], Inv.of_step co sum step rep'⟩

end

theorem realloc_inv (rep : Rep s.heap rs s.live delayed) (co : Coalesced rs)
    (sum : s.heap.heapsize + extra = total rs) (hp : p = 0 ∨ p ∈ s.live) (fits : n + 23 < 2 ^ 32) :
    ∃ r, mmRealloc s.heap p n = some r ∧ Inv extra (s.exchange p n r) := by
  unfold State.exchange
  rcases hp with rfl | hp
  · -- a null block makes it `mm_malloc`
    rw [erase_of_not_mem (zero_not_live rep)]
    obtain ⟨h', ret, rs', run, call, -, result⟩ := mmMalloc_spec rep fits
    refine ⟨_, by rw [mmRealloc, if_pos rfl, run], ?_⟩
    rcases result with ⟨rfl, rep', -⟩ | ⟨x, g, rfl, -, -, rep', -⟩
    all_goals simpa using Inv.of_step co sum call rep'
  have ne := (rep.addr (mem_append_left _ hp)).1.ne'
  by_cases zero : n = 0
  · -- a request for no bytes makes it `mm_free`
    subst zero
    obtain ⟨h', rs', run, rep', step, -⟩ := mmFree_spec rep hp
    refine ⟨(h', 0), by simp [mmRealloc, ne, run], ?_⟩
    simpa using Inv.of_step co sum step rep'
  obtain ⟨h', ret, rs', delayed', run, call, result⟩ :=
    mmRealloc_spec rep hp (by omega) fits
  refine ⟨_, run, ?_⟩
  rcases result with ⟨rfl, rep', -⟩ | ⟨x, s, g, rfl, -, -, rep', -⟩
  · simpa [zero] using Inv.of_step co sum call rep'
  · simpa using Inv.of_step co sum call rep'

theorem step_inv (small : limit ≤ 2 ^ 31) {op : Op} (inv : Inv extra s)
    (valid : Valid limit maxRegions s op) :
    ∃ s', step maxRegions s op = some s' ∧ Inv (extra + op.extended) s' := by
  obtain ⟨rs, delayed, rep, co, sum⟩ := inv
  cases op with
  | addregion start bytes =>
    rcases valid with ⟨many, full⟩ | ⟨room, new⟩
    · refine ⟨s, ?_, rs, delayed, rep, co, sum⟩
      simp [step, mmAddregion, many, full]
    rw [rep.starts, length_map] at room
    obtain ⟨h', run, inv⟩ := addregion_inv rep co sum room small new
    exact ⟨_, by rw [step, run, map_some], inv⟩
  | extend bytes region =>
    obtain ⟨h', run, inv⟩ := extend_inv rep co sum small valid
    exact ⟨_, by rw [step, run, map_some], inv⟩
  | malloc n =>
    obtain ⟨h', ret, rs', run, call, -, result⟩ := mmMalloc_spec rep valid
    refine ⟨_, by rw [step, run, map_some], own_inv co sum call ⟨[], ?_⟩⟩
    refine result.imp (fun h => ⟨h.1, h.2.1⟩) ?_
    rintro ⟨x, g, e, -, -, rep', -⟩
    exact ⟨x, e, rep'⟩
  | calloc n elem =>
    obtain ⟨h', ret, rs', delayed', run, call, result⟩ := mmCalloc_spec rep valid
    refine ⟨_, by rw [step, run, map_some], own_inv co sum call ⟨delayed', ?_⟩⟩
    refine result.imp id ?_
    rintro ⟨x, g, e, -, -, -, rep'⟩
    exact ⟨x, e, rep'⟩
  | memalign alignment n =>
    obtain ⟨⟨j, rfl⟩, fits⟩ := valid
    obtain ⟨h', ret, rs', run, call, result⟩ := mmMemalign_spec rep fits
    refine ⟨_, by rw [step, run, map_some], own_inv co sum (call co) ⟨[], ?_⟩⟩
    refine result.imp id ?_
    rintro ⟨x, n, g, e, -, -, -, rep', -⟩
    exact ⟨x, e, rep'⟩
  | realloc p n =>
    obtain ⟨hp, fits⟩ := valid
    obtain ⟨r, run, inv⟩ := realloc_inv rep co sum hp fits
    exact ⟨_, by rw [step, run, map_some], inv⟩
  | free deferred p =>
    obtain ⟨h', run, inv⟩ := free_inv rep co sum deferred valid
    exact ⟨_, by rw [step, run, map_some], inv⟩
  | store p i v => exact ⟨_, rfl, store_inv rep co sum valid.1 valid.2⟩

theorem init_inv {m : Memory} (regions : 0 < maxRegions) (pos : 0 < nodelist)
    (fits : nodelist + headBytes < 2 ^ 32) (small : limit ≤ 2 ^ 31)
    (region : NewRegion limit nodelist [] start bytes) :
    ∃ h, mmInitialize maxRegions m nodelist start bytes = some h ∧ Inv 0 ⟨h, []⟩ := by
  have empty : Rep ⟨linkHeads (memset m nodelist 0 (sizeofMmFreenode * mmNnodes)) nodelist
      (mmNnodes - 1), nodelist, 0, [], [], 0⟩ [] [] [] :=
    ⟨initHeads_tiled m pos fits, rfl, rfl, rfl, by simp, by simp [Payloads, Blocks, At]⟩
  exact addregion_inv empty (by simp [Coalesced]) rfl regions small region

/-- A heap of 1 KiB. -/
theorem exists_init : ∃ h, mmInitialize 1 (fun _ => 0) 256 4096 1024 = some h ∧
    Run (2 ^ 31) 1 [] ⟨h, []⟩ := by
  have region : NewRegion (2 ^ 31) 256 [] 4096 1024 :=
    ⟨by decide, by decide, by decide, by simp, by decide⟩
  obtain ⟨h, init, -⟩ := init_inv (m := fun _ => 0) Nat.one_pos (by decide : 0 < 256)
    (by decide) le_rfl region
  exact ⟨h, init, .init Nat.one_pos (by decide) (by decide) region init⟩

/-- On that heap two blocks are allocated, and an interrupt handler frees the second. -/
def twoBlocks : Option State := do
  let h ← mmInitialize 1 (fun _ => 0) 256 4096 1024
  let s ← step 1 ⟨h, []⟩ (.malloc 24)
  let s ← step 1 s (.malloc 600)
  step 1 s (.free true 4144)

theorem exists_twoBlocks : ∃ h, twoBlocks = some ⟨h, [4112]⟩ ∧
    Run (2 ^ 31) 1 [.malloc 24, .malloc 600, .free true 4144] ⟨h, [4112]⟩ := by
  obtain ⟨h, init, first⟩ := exists_init
  have run : ((mmInitialize 1 (fun _ => 0) 256 4096 1024).bind fun h =>
      (step 1 ⟨h, []⟩ (.malloc 24)).bind fun s => (step 1 s (.malloc 600)).bind fun s' =>
      (step 1 s' (.free true 4144)).map fun t => (s'.live, t.live)) =
      some ([4144, 4112], [4112]) := by
    decide +kernel
  rw [init, bind_some] at run
  simp only [bind_eq_some_iff, map_eq_some_iff, Prod.mk.injEq] at run
  obtain ⟨s₁, run₁, s₂, run₂, ⟨h', live⟩, run₃, before, rfl⟩ := run
  refine ⟨h', by simp [twoBlocks, init, run₁, run₂, run₃], ?_⟩
  exact ((first.step (by simp [Valid]) run₁).step (by simp [Valid]) run₂).step
    (by simp [Valid, before]) run₃

/-- Every run keeps the invariant; `mm_heapsize` misses what `mm_extend` added. -/
theorem Run.inv {ops : List Op} (run : Run limit maxRegions ops s) (small : limit ≤ 2 ^ 31) :
    Inv (ops.map Op.extended).sum s := by
  induction run with
  | init regions pos fits region run =>
    obtain ⟨h, run', inv⟩ := init_inv regions pos fits small region
    obtain rfl := Option.some.inj (run.symm.trans run')
    exact inv
  | step before valid run ih =>
    obtain ⟨s', run', inv⟩ := step_inv small ih valid
    obtain rfl := Option.some.inj (run.symm.trans run')
    simpa using inv

end NuttxRtos.Heap

import NuttxRtos.Heap.Malloc
import NuttxRtos.Heap.Regions

/-!
# The public functions

`Rep h rs live delayed` ties a heap structure to its tiling and says who owns the allocated blocks:
the clients own the blocks with a payload address in `live`, and those in `delayed` wait on
`mm_delaylist`. `Step` is what a public function guarantees for the blocks that it was not asked to
change.
-/

namespace NuttxRtos.Heap

open Memory Word List Focus

/-! ## Ownership -/

def Payloads (rs : List Region) : Set ℕ := {p | ∃ b ∈ Blocks rs, p = b.1 + 8}

/-- The list that is threaded through the first payload words, from `p` on. -/
def DelayChain (m : Memory) : ℕ → List ℕ → Prop
  | p, [] => p = 0
  | p, x :: l => p = x ∧ x ≠ 0 ∧ DelayChain m (load32 m x) l

/-- The heap structure, its tiling, and the owners of the blocks. -/
structure Rep (h : MmHeap) (rs : List Region) (live delayed : List ℕ) : Prop where
  tiled : Tiled h.nodelist h.mem rs
  starts : h.heapstart = rs.map Region.base
  ends : h.heapend = rs.map Region.last
  chain : DelayChain h.mem h.delaylist delayed
  nodup : (live ++ delayed).Nodup
  owned : ∀ p, p ∈ live ++ delayed ↔ p ∈ Payloads rs

/-- What a call leaves alone: the table of regions, and the blocks in `keep` with their bytes. -/
structure Step (h : MmHeap) (rs : List Region) (h' : MmHeap) (rs' : List Region)
    (keep : List ℕ) : Prop where
  nodelist : h'.nodelist = h.nodelist
  heapsize : h'.heapsize = h.heapsize
  spans : rs'.map Region.span = rs.map Region.span
  kept : ∀ b ∈ Blocks rs, b.1 + 8 ∈ keep → b ∈ Blocks rs'
  coalesced : Coalesced rs → Coalesced rs'

theorem Step.refl (h : MmHeap) (rs : List Region) (keep : List ℕ) : Step h rs h rs keep :=
  ⟨rfl, rfl, rfl, fun _ hb _ => hb, id⟩

theorem Step.trans {h h' h'' : MmHeap} {rs rs' rs'' : List Region} {keep keep' : List ℕ}
    (first : Step h rs h' rs' keep) (second : Step h' rs' h'' rs'' keep') (sub : keep ⊆ keep') :
    Step h rs h'' rs'' keep :=
  ⟨second.nodelist.trans first.nodelist, second.heapsize.trans first.heapsize,
    second.spans.trans first.spans,
    fun b hb hk => second.kept b (first.kept b hb hk) (sub hk),
    fun co => second.coalesced (first.coalesced co)⟩

theorem Step.mono {h h' : MmHeap} {rs rs' : List Region} {keep keep' : List ℕ}
    (step : Step h rs h' rs' keep') (sub : keep ⊆ keep') : Step h rs h' rs' keep :=
  { step with kept := fun b hb hk => step.kept b hb (sub hk) }

variable {nodelist nodelist' : ℕ} {m m' : Memory} {rs rs' : List Region} {h h' : MmHeap}
  {live delayed : List ℕ}

variable {b : ℕ × Chunk} {x s q : ℕ}

theorem Layout.block_unique (lay : Layout nodelist rs) {b' : ℕ × Chunk} (hb : b ∈ Blocks rs)
    (hb' : b' ∈ Blocks rs) (same : b.1 = b'.1) : b = b' :=
  Prod.ext same (lay.at_unique hb.1 (same ▸ hb'.1))

theorem Evolve.payloads {gone come : Set (ℕ × Chunk)} (ev : Evolve rs rs' gone come)
    (lay : Layout nodelist rs) (p : ℕ) : p ∈ Payloads rs' ↔
      (p ∈ Payloads rs ∧ ∀ b ∈ gone, p ≠ b.1 + 8) ∨ ∃ b ∈ come, p = b.1 + 8 := by
  constructor
  · rintro ⟨b, hb, rfl⟩
    by_cases new : b ∈ come
    · exact .inr ⟨b, new, rfl⟩
    have old : b ∈ Blocks rs \ gone := ev.others ▸ ⟨hb, new⟩
    refine .inl ⟨⟨b, old.1, rfl⟩, fun b' hb' e => old.2 ?_⟩
    rwa [lay.block_unique old.1 (ev.gone_sub hb') (by omega)]
  rintro (⟨⟨b, hb, rfl⟩, stays⟩ | ⟨b, hb, rfl⟩)
  · have old : b ∈ Blocks rs' \ come := ev.others ▸ ⟨hb, fun hg => stays b hg rfl⟩
    exact ⟨b, old.1, rfl⟩
  · exact ⟨b, ev.come_sub hb, rfl⟩

theorem Evolve.kept {gone come : Set (ℕ × Chunk)} (ev : Evolve rs rs' gone come)
    (hb : b ∈ Blocks rs) (stays : b ∉ gone) : b ∈ Blocks rs' :=
  (ev.others ▸ ⟨hb, stays⟩ : b ∈ Blocks rs' \ come).1

variable {f : ℕ → UInt8} {i : ℕ}

theorem Tiled.payload (tiled : Tiled nodelist m rs)
    (hb : (x, Chunk.used s f) ∈ Blocks rs) (hi : i < s - 8) : m (x + 8 + i) = f i := by
  obtain ⟨q, hq⟩ := tiled.flux.header hb.1
  exact hq.payload f rfl i hi

theorem Tiled.payload_eq (tiled : Tiled nodelist m rs) (tiled' : Tiled nodelist' m' rs')
    (hb : b ∈ Blocks rs) (hb' : b ∈ Blocks rs') (hi : i < b.2.size - 8) :
    m' (b.1 + 8 + i) = m (b.1 + 8 + i) := by
  rcases b with ⟨x, s, _ | f⟩
  · exact absurd rfl hb.2
  · rw [tiled.payload hb hi, tiled'.payload hb' hi]

variable {p : ℕ} {l : List ℕ}

theorem DelayChain.keep (tiled : Tiled nodelist m rs) (tiled' : Tiled nodelist' m' rs')
    (chain : DelayChain m p l)
    (stays : ∀ q ∈ l, ∃ b ∈ Blocks rs, b ∈ Blocks rs' ∧ q = b.1 + 8) : DelayChain m' p l := by
  induction l generalizing p with
  | nil => exact chain
  | cons x l ih =>
    obtain ⟨rfl, ne, rest⟩ := chain
    obtain ⟨b, hb, hb', e⟩ := stays p (by simp)
    refine ⟨rfl, ne, ?_⟩
    have := tiled.lay.chunk_bounds hb.1
    rw [e, load32_congr fun i hi => tiled.payload_eq tiled' hb hb' (by omega), ← e]
    exact ih rest fun q hq => stays q (mem_cons_of_mem _ hq)

theorem Rep.block (rep : Rep h rs live delayed) (hp : p ∈ live ++ delayed) :
    ∃ x s f, p = x + 8 ∧ At rs x (.used s f) := by
  obtain ⟨⟨x, s, _ | f⟩, hb, rfl⟩ := (rep.owned p).1 hp
  · exact absurd rfl hb.2
  · exact ⟨x, s, f, rfl, hb.1⟩

theorem bases_of_spans (spans : rs'.map Region.span = rs.map Region.span) :
    rs'.map Region.base = rs.map Region.base := by
  have base : Region.base = Prod.fst ∘ Region.span := rfl
  rw [base, ← map_map, ← map_map, spans]

theorem lasts_of_spans (spans : rs'.map Region.span = rs.map Region.span) :
    rs'.map Region.last = rs.map Region.last := by
  have last : Region.last = (fun s : ℕ × ℕ => s.2 - 8) ∘ Region.span := by
    funext r
    simp only [Function.comp, Region.span, Region.stop, Region.last]
    omega
  rw [last, ← map_map, ← map_map, spans]

theorem Tiled.write (tiled : Tiled nodelist m rs)
    (hx : At rs x (.used s f)) (same : SameOff (fun b => x + 8 ≤ b ∧ b < x + s) m m') :
    ∃ rs', Tiled nodelist m' rs' ∧ Evolve rs rs' {(x, .used s f)}
      {(x, .used s fun i => m' (x + 8 + i))} ∧ (Coalesced rs → Coalesced rs') := by
  obtain ⟨lay, flux⟩ := tiled
  obtain ⟨F, rfl, rfl⟩ := exists_plug hx
  have bounds := bounds₁ lay
  have head := flux.window.1
  have next := flux.next₁
  simp only at bounds next
  have lay' : Layout nodelist (F.plug [.used s fun i => m' (F.lo + 8 + i)]) :=
    layout_plug lay rfl (by simp; omega)
  refine ⟨_, ⟨lay', flux.retile lay (by simp) (by simp) (by simp) rfl ?_ ⟨⟨?_, ?_, ?_⟩, trivial⟩
    ?_⟩, by simpa using evolve lay lay' rfl, fun co => (outer co).plug_used⟩
  · refine same.mono fun b hb => .inl ?_
    simp only [extent_cons, extent_nil]
    omega
  · exact (load32_sameOff same fun i hi => by omega).trans head.sizeWord
  · exact (load32_sameOff same fun i hi => by omega).trans head.precedingWord
  · rintro _ ⟨⟩ i -
    rfl
  · simp only [extent_cons, extent_nil, add_zero, lastSize_cons, lastSize_nil]
    exact (load32_sameOff same fun i hi => by omega).trans next.precedingWord

section

variable (rep : Rep h rs live delayed)
include rep

/-- A step of the tiling under a heap structure: one block may go and one may come. -/
theorem Rep.evolve {gone come : Set (ℕ × Chunk)}
    (tiled' : Tiled h.nodelist m' rs') (ev : Evolve rs rs' gone come) {live' : List ℕ}
    (nodup : (live' ++ delayed).Nodup)
    (owned : ∀ p, p ∈ live' ↔ (p ∈ live ∧ ∀ b ∈ gone, p ≠ b.1 + 8) ∨ ∃ b ∈ come, p = b.1 + 8)
    (waits : ∀ p ∈ delayed, ∀ b ∈ gone, p ≠ b.1 + 8) :
    Rep { h with mem := m' } rs' live' delayed := by
  refine ⟨tiled', rep.starts.trans (bases_of_spans ev.spans).symm,
    rep.ends.trans (lasts_of_spans ev.spans).symm,
    rep.chain.keep rep.tiled tiled' fun q hq => ?_, nodup, fun p => ?_⟩
  · obtain ⟨b, hb, rfl⟩ := (rep.owned q).1 (mem_append_right _ hq)
    exact ⟨b, hb, ev.kept hb fun hg => waits _ hq b hg rfl, rfl⟩
  rw [ev.payloads rep.tiled.lay, ← rep.owned p, mem_append, mem_append, owned p]
  constructor
  · rintro ((⟨h, hg⟩ | h) | h)
    · exact .inl ⟨.inl h, hg⟩
    · exact .inr h
    · exact .inl ⟨.inr h, waits p h⟩
  rintro (⟨h | h, hg⟩ | h)
  · exact .inl (.inl ⟨h, hg⟩)
  · exact .inr h
  · exact .inl (.inr h)

theorem Rep.other (hp : p ∈ live) (hq : q ∈ live.erase p ++ delayed) : q ≠ p := by
  rintro rfl
  obtain ⟨nodup, -, disj⟩ := nodup_append.1 rep.nodup
  rcases mem_append.1 hq with hq | hq
  · exact (nodup.mem_erase_iff.1 hq).1 rfl
  · exact disj _ hp _ hq rfl

theorem Rep.step {c : Chunk} {come : Set (ℕ × Chunk)}
    (hp : x + 8 ∈ live) (ev : Evolve rs rs' {(x, c)} come) (co : Coalesced rs → Coalesced rs') :
    Step h rs { h with mem := m' } rs' (live.erase (x + 8) ++ delayed) :=
  ⟨rfl, rfl, ev.spans, fun _ hb hk => ev.kept hb fun hg =>
    rep.other hp hk (by rw [Set.mem_singleton_iff.1 hg]), co⟩

/-! ## `mm_free` -/

theorem mmFree_spec (hp : p ∈ live) :
    ∃ h' rs', mmFree h false p = some h' ∧ Rep h' rs' (live.erase p) delayed ∧
      Step h rs h' rs' (live.erase p ++ delayed) ∧ h'.delaylist = h.delaylist := by
  obtain ⟨x, s, f, rfl, hx⟩ := rep.block (mem_append_left _ hp)
  obtain ⟨m', rs', run, tiled', ev, co⟩ := freeSection_spec rep.tiled hx
  refine ⟨{ h with mem := m' }, rs', ?_, ?_, rep.step hp ev co, rfl⟩
  · simp only [mmFree, Bool.false_eq_true, if_false, run, Option.bind_eq_bind, Option.bind_some]
    rfl
  refine rep.evolve tiled' ev ?_ (fun p => ?_) ?_
  · exact rep.nodup.sublist (erase_sublist.append_right _)
  · simp [rep.nodup.of_append_left.mem_erase_iff, and_comm]
  · simpa using fun p hp' => rep.other hp (mem_append_right _ hp')

/-! ## Writing into a block -/

theorem Rep.write (hp : x + 8 ∈ live)
    (hx : At rs x (.used s f)) (same : SameOff (fun b => x + 8 ≤ b ∧ b < x + s) h.mem m') :
    ∃ rs', Rep { h with mem := m' } rs' live delayed ∧
      Step h rs { h with mem := m' } rs' (live.erase (x + 8) ++ delayed) ∧
      At rs' x (.used s fun i => m' (x + 8 + i)) := by
  obtain ⟨rs', tiled', ev, co⟩ := rep.tiled.write hx same
  refine ⟨rs', rep.evolve tiled' ev rep.nodup (fun p => ?_) ?_, rep.step hp ev co,
    (ev.come_sub rfl).1⟩
  · by_cases e : p = x + 8
    · simp [e, hp]
    · simp [e]
  · simpa using fun p hp' => rep.other hp (mem_append_right _ hp')

/-! ## The delay list -/

theorem Rep.delaylist_lt : h.delaylist < 2 ^ 32 := by
  have chain := rep.chain
  cases delayed with
  | nil => rw [show h.delaylist = 0 from chain]; decide
  | cons p l =>
    obtain ⟨x, s, f, rfl, hx⟩ := rep.block (p := p) (by simp)
    have := rep.tiled.lay.chunk_bounds hx
    rw [chain.1]
    omega

theorem mmAddDelaylist_spec (hp : p ∈ live) :
    ∃ rs', Rep (mmAddDelaylist h p) rs' (live.erase p) (p :: delayed) ∧
      Step h rs (mmAddDelaylist h p) rs' (live.erase p ++ delayed) := by
  obtain ⟨x, s, f, rfl, hx⟩ := rep.block (mem_append_left _ hp)
  have bounds := rep.tiled.lay.chunk_bounds hx
  simp only at bounds
  have same : SameOff (fun b => x + 8 ≤ b ∧ b < x + s) h.mem
      (store32 h.mem (x + 8) h.delaylist) :=
    (SameOff.refl _ h.mem).store32 _ fun i hi => by omega
  obtain ⟨rs', rep', step, -⟩ := rep.write hp hx same
  have perm : (live.erase (x + 8) ++ (x + 8) :: delayed).Perm (live ++ delayed) :=
    perm_middle.trans ((perm_cons_erase hp).symm.append_right delayed)
  refine ⟨rs', ⟨rep'.tiled, rep'.starts, rep'.ends, ⟨rfl, by omega, ?_⟩, ?_, fun p => ?_⟩,
    { step with }⟩
  · have word : load32 (mmAddDelaylist h (x + 8)).mem (x + 8) = h.delaylist :=
      load32_store32_same _ rep.delaylist_lt
    rw [word]
    exact rep'.chain
  · exact perm.nodup_iff.2 rep'.nodup
  · exact perm.mem_iff.trans (rep'.owned p)

omit rep in
theorem freeDelaylistLoop_spec {fuel tmp : ℕ} (rep : Rep h rs (l ++ live) [])
    (chain : DelayChain h.mem tmp l) (enough : l.length < fuel) :
    ∃ h' rs', freeDelaylistLoop fuel h tmp = some h' ∧ Rep h' rs' live [] ∧
      Step h rs h' rs' live := by
  induction l generalizing fuel tmp h rs with
  | nil =>
    obtain ⟨fuel, rfl⟩ := Nat.exists_eq_add_of_lt enough
    obtain rfl : tmp = 0 := chain
    exact ⟨h, rs, by simp [freeDelaylistLoop], rep, Step.refl h rs live⟩
  | cons x l ih =>
    obtain ⟨fuel, rfl⟩ := Nat.exists_eq_add_of_lt enough
    obtain ⟨rfl, ne, rest⟩ := chain
    obtain ⟨h₁, rs₁, run, rep₁, step₁, -⟩ := mmFree_spec rep (p := tmp) (by simp)
    rw [cons_append, erase_cons_head] at rep₁ step₁
    have rest₁ : DelayChain h₁.mem (load32 h.mem tmp) l := by
      refine rest.keep rep.tiled rep₁.tiled fun q hq => ?_
      obtain ⟨b, hb, e⟩ := (rep.owned q).1 (by simp [hq])
      exact ⟨b, hb, step₁.kept b hb (by simp [← e, hq]), e⟩
    obtain ⟨h₂, rs₂, run₂, rep₂, step₂⟩ := ih rep₁ rest₁
      (show l.length < (tmp :: l).length + fuel by simp; omega)
    refine ⟨h₂, rs₂, ?_, rep₂, (step₁.mono ?_).trans step₂ (List.Subset.refl _)⟩
    · rw [freeDelaylistLoop, if_neg ne, run]
      exact run₂
    · simp

theorem Rep.addr (hp : p ∈ live ++ delayed) : 0 < p ∧ p < 2 ^ 32 := by
  obtain ⟨x, s, f, rfl, hx⟩ := rep.block hp
  have := rep.tiled.lay.chunk_bounds hx
  omega

theorem mmFreeDelaylist_spec :
    ∃ h' rs', mmFreeDelaylist h = some h' ∧ Rep h' rs' live [] ∧ Step h rs h' rs' live := by
  have detached : Rep { h with delaylist := 0 } rs (delayed ++ live) [] := by
    refine ⟨rep.tiled, rep.starts, rep.ends, rfl, ?_, fun p => ?_⟩
    · rw [append_nil]
      exact perm_append_comm.nodup_iff.1 rep.nodup
    · rw [append_nil, ← rep.owned p]
      exact perm_append_comm.mem_iff
  have short : delayed.length < walkFuel := by
    refine length_le_walkFuel (l := 0 :: delayed) (nodup_cons.2 ⟨fun zero => ?_,
      (nodup_append.1 rep.nodup).2.1⟩) fun p hp => ?_
    · exact absurd (rep.addr (mem_append_right _ zero)).1 (by omega)
    rcases mem_cons.1 hp with rfl | hp
    · decide
    · exact (rep.addr (mem_append_right _ hp)).2
  obtain ⟨h', rs', run, rep', step⟩ := freeDelaylistLoop_spec detached rep.chain short
  exact ⟨h', rs', run, rep', { step with }⟩

end

theorem exists_walkFuel : ∃ k, walkFuel = k + 1 := ⟨2 ^ 32 - 1, rfl⟩

theorem Rep.drain_nil (rep : Rep h rs live []) : mmFreeDelaylist h = some h := by
  obtain ⟨k, fuel⟩ := exists_walkFuel
  have null : h.delaylist = 0 := rep.chain
  rw [mmFreeDelaylist, null, fuel, freeDelaylistLoop, if_pos rfl, ← null]

/-! ## `mm_malloc` and `mm_calloc` -/

def chunkFor (n : ℕ) : ℕ := (n + 8 + 15) / 16 * 16

variable {n : ℕ}

theorem chunkFor_spec (fits : n + 23 < 2 ^ 32) :
    mmAlignUp (add32 n sizeofMmAllocnode) = chunkFor n := by
  rw [add32_allocnode (by omega), mmAlignUp_eq (by omega), chunkFor]

theorem chunkFor_bounds (n : ℕ) :
    n + 8 ≤ chunkFor n ∧ chunkFor n < n + 24 ∧ chunkFor n % 16 = 0 ∧ 16 ≤ chunkFor n := by
  unfold chunkFor
  omega

variable {g : ℕ → UInt8}

theorem Rep.come (rep : Rep h rs live delayed)
    (tiled' : Tiled h.nodelist m' rs') (ev : Evolve rs rs' ∅ {(x, .used s g)})
    (fresh : ∀ c, (x, c) ∉ Blocks rs) : Rep { h with mem := m' } rs' ((x + 8) :: live) delayed := by
  refine rep.evolve tiled' ev (nodup_cons.2 ⟨fun mem => ?_, rep.nodup⟩) (fun p => ?_) (by simp)
  · obtain ⟨b, hb, e⟩ := (rep.owned _).1 mem
    exact fresh b.2 (by rw [show x = b.1 by omega]; exact hb)
  · simp [or_comm]

theorem mmMalloc_eq {h₁ : MmHeap} {ret : ℕ} (drain : mmFreeDelaylist h = some h₁) (pos : 0 < n)
    (run : mallocSection h₁.nodelist h₁.mem (mmAlignUp (add32 n sizeofMmAllocnode)) =
      some (m', ret)) : mmMalloc h n = some ({ h₁ with mem := m' }, ret) := by
  simp only [mmMalloc, drain, run, Option.bind_eq_bind, Option.bind_some]
  rw [if_neg (by omega)]
  rfl

theorem Rep.replace {F F' : Focus} {s' : ℕ}
    (rep : Rep h (F.plug [.used s f]) live delayed) (hp : F.lo + 8 ∈ live)
    (re : Replace h.nodelist F s f m' F' s' g) :
    Rep { h with mem := m' } (F'.plug [.used s' g]) ((F'.lo + 8) :: live.erase (F.lo + 8)) delayed ∧
      (∀ b ∈ Blocks (F.plug [.used s f]), b.1 + 8 ∈ live.erase (F.lo + 8) ++ delayed →
        b ∈ Blocks (F'.plug [.used s' g])) := by
  have kept (b : ℕ × Chunk) (hb : b ∈ Blocks (F.plug [.used s f]))
      (hk : b.1 + 8 ∈ live.erase (F.lo + 8) ++ delayed) :
      b ∈ Blocks (F'.plug [.used s' g]) \ {(F'.lo, .used s' g)} := by
    rw [re.evolve.others]
    exact ⟨hb, fun hg => rep.other hp hk (by rw [Set.mem_singleton_iff.1 hg])⟩
  refine ⟨rep.evolve re.tiled re.evolve (nodup_cons.2 ⟨fun mem => ?_, ?_⟩) (fun p => ?_) ?_,
    fun b hb hk => (kept b hb hk).1⟩
  · -- another block at the new address would still be there
    have old : F'.lo + 8 ∈ live ++ delayed :=
      (erase_sublist.append_right delayed).subset mem
    obtain ⟨b, hb, e⟩ := (rep.owned _).1 old
    have stays := kept b hb (e ▸ mem)
    refine stays.2 (Set.mem_singleton_iff.2 ?_)
    exact re.tiled.lay.block_unique stays.1 (re.evolve.come_sub rfl) (by simp only; omega)
  · exact rep.nodup.sublist (erase_sublist.append_right _)
  · simp [rep.nodup.of_append_left.mem_erase_iff, and_comm, or_comm]
  · simpa using fun p hp' => rep.other hp (mem_append_right _ hp')

theorem mmMemalign_eq {alignment raw : ℕ} (above : ¬ alignment ≤ mmMinChunk)
    (run : mmMalloc h (add32 (mmAlignUp n) (2 * alignment % 2 ^ 32)) = some (h', raw)) :
    mmMemalign h alignment n = if raw = 0 then some (h', 0) else
      (memalignSection h'.nodelist h'.mem alignment (mmAlignUp n)
        (add32 (mmAlignUp n) (2 * alignment % 2 ^ 32)) raw).map
        fun r => ({ h' with mem := r.1 }, r.2) := by
  simp only [mmMemalign, if_neg above, run, Option.bind_eq_bind, Option.bind_some]
  split_ifs
  · rfl
  · cases memalignSection h'.nodelist h'.mem alignment (mmAlignUp n)
      (add32 (mmAlignUp n) (2 * alignment % 2 ^ 32)) raw <;> rfl

theorem mmRealloc_done (hp : p ≠ 0) (hn : 0 < n)
    (run : reallocSection h.nodelist h.mem p (mmAlignUp (add32 n sizeofMmAllocnode)) =
      some (m', .done q)) : mmRealloc h p n = some ({ h with mem := m' }, q) := by
  simp only [mmRealloc, if_neg hp, if_neg (show ¬ n < 1 by omega), run, Option.bind_eq_bind,
    Option.bind_some]
  rfl

theorem mmRealloc_move {oldsize : ℕ} {h₁ : MmHeap} (hp : p ≠ 0) (hn : 0 < n)
    (run : reallocSection h.nodelist h.mem p (mmAlignUp (add32 n sizeofMmAllocnode)) =
      some (h.mem, .move oldsize)) (alloc : mmMalloc h n = some (h₁, q)) :
    mmRealloc h p n = if q ≠ 0 then
      (mmFree { h₁ with mem := memcpy h₁.mem q p oldsize } false p).map fun h₂ => (h₂, q)
      else some (h₁, q) := by
  simp only [mmRealloc, if_neg hp, if_neg (show ¬ n < 1 by omega), run, Option.bind_eq_bind,
    Option.bind_some, alloc]
  split_ifs
  · cases mmFree { h₁ with mem := memcpy h₁.mem q p oldsize } false p <;> rfl
  · rfl

theorem mmCalloc_eq (h : MmHeap) (n elem : ℕ) : mmCalloc h n elem =
    if 0 < n * elem ∧ n * elem < 2 ^ 32 then mmZalloc h (n * elem) else some (h, 0) := by
  by_cases pos : 0 < n ∧ 0 < elem
  · have limit : n ≤ (2 ^ 32 - 1) / elem ↔ n * elem < 2 ^ 32 := by
      rw [Nat.le_div_iff_mul_le pos.2]
      omega
    rw [mmCalloc, if_pos pos]
    simp only [limit, Nat.mul_pos pos.1 pos.2, true_and]
    split_ifs with small
    · rw [Nat.mod_eq_of_lt small]
    · rfl
  · have zero : n * elem = 0 := by
      rw [mul_eq_zero]
      omega
    rw [mmCalloc, if_neg pos, zero]
    rfl

section

variable (rep : Rep h rs live delayed)
include rep

/-- `mm_malloc` of a request that does not wrap: null if no free chunk is large enough after the
delay list was drained, else a new block. -/
theorem mmMalloc_spec (fits : n + 23 < 2 ^ 32) :
    ∃ h' ret rs', mmMalloc h n = some (h', ret) ∧ Step h rs h' rs' live ∧ h'.delaylist = 0 ∧
      (ret = 0 ∧ Rep h' rs' live [] ∧
          (n = 0 ∨ ∀ x s, At rs' x (.free s) → s < chunkFor n) ∧ mmFreeDelaylist h = some h' ∨
        ∃ x g, ret = x + 8 ∧ 0 < n ∧ At rs' x (.used (chunkFor n) g) ∧
          Rep h' rs' ((x + 8) :: live) [] ∧ (Coalesced rs → ¬ FreeBefore rs' x)) := by
  obtain ⟨h₁, rs₁, drain, rep₁, step₁⟩ := mmFreeDelaylist_spec rep
  have empty : h₁.delaylist = 0 := rep₁.chain
  by_cases zero : n = 0
  · subst zero
    refine ⟨h₁, 0, rs₁, ?_, step₁, empty, .inl ⟨rfl, rep₁, .inl rfl, drain⟩⟩
    simp [mmMalloc, drain]
  have bounds := chunkFor_bounds n
  obtain ⟨m₂, ret, run, found⟩ := mallocSection_spec (a := chunkFor n) rep₁.tiled (by omega)
    (by omega)
  have call := mmMalloc_eq drain (by omega) (chunkFor_spec fits ▸ run)
  refine ⟨{ h₁ with mem := m₂ }, ret, ?_⟩
  rcases found with ⟨rfl, rfl, none⟩ | ⟨x, rs₂, g, rfl, ⟨s, hs, -⟩, tiled₂, ev, co⟩
  · exact ⟨rs₁, call, step₁, empty, .inl ⟨rfl, rep₁, .inr none, drain⟩⟩
  have fresh (c : Chunk) : (x, c) ∉ Blocks rs₁ := fun hb =>
    hb.2 (by rw [rep₁.tiled.lay.at_unique hb.1 hs])
  have rep₂ := rep₁.come tiled₂ ev fresh
  refine ⟨rs₂, call, ?_, empty, .inr ⟨x, g, rfl, by omega, (ev.come_sub rfl).1, rep₂,
    fun h => (co (step₁.coalesced h)).2⟩⟩
  exact step₁.trans ⟨rfl, rfl, ev.spans, fun b hb _ => ev.kept hb (by simp),
    fun h => (co h).1⟩ (List.Subset.refl _)

theorem mmZalloc_spec (fits : n + 23 < 2 ^ 32) :
    ∃ h' ret rs', mmZalloc h n = some (h', ret) ∧ Step h rs h' rs' live ∧
      (ret = 0 ∧ Rep h' rs' live [] ∨
        ∃ x g, ret = x + 8 ∧ 0 < n ∧ At rs' x (.used (chunkFor n) g) ∧ (∀ i < n, g i = 0) ∧
          Rep h' rs' ((x + 8) :: live) []) := by
  obtain ⟨h₁, ret, rs₁, run, step₁, -, ⟨rfl, rep₁, -⟩ | ⟨x, g, rfl, pos, hx, rep₁, -⟩⟩ :=
    mmMalloc_spec rep fits
  · exact ⟨h₁, 0, rs₁, by simp [mmZalloc, run], step₁, .inl ⟨rfl, rep₁⟩⟩
  have bounds := chunkFor_bounds n
  have same : SameOff (fun b => x + 8 ≤ b ∧ b < x + chunkFor n) h₁.mem
      (memset h₁.mem (x + 8) 0 n) := fun b hb => memset_off _ _ (by omega)
  obtain ⟨rs₂, rep₂, step₂, hx₂⟩ := rep₁.write (by simp) hx same
  rw [erase_cons_head, append_nil] at step₂
  refine ⟨_, x + 8, rs₂, ?_, step₁.trans step₂ (List.Subset.refl _),
    .inr ⟨x, _, rfl, pos, hx₂, fun i hi => ?_, rep₂⟩⟩
  · simp [mmZalloc, run]
  · exact if_pos (by omega)

/-! ## `mm_memalign` -/

/-- The sums of `mm_memalign` do not wrap; an alignment up to the granule is left to `mm_malloc`. -/
def MemalignFits (alignment n : ℕ) : Prop :=
  if alignment ≤ 16 then n + 23 < 2 ^ 32
  else n + 15 < 2 ^ 32 ∧ (n + 15) / 16 * 16 + 2 * alignment + 23 < 2 ^ 32

/-- The chunk at `x` that `mm_memalign` returns has `s` bytes; what it cut off in front of it, from
the chunk that `mm_malloc` gave it, is a free chunk of `rs`. -/
def Carved (h : MmHeap) (alignment n : ℕ) (rs : List Region) (x s : ℕ) : Prop :=
  if alignment ≤ 16 then s = chunkFor n
  else s = (n + 15) / 16 * 16 + 16 ∧
    ∃ h₁ raw, mmMalloc h ((n + 15) / 16 * 16 + 2 * alignment) = some (h₁, raw + 8) ∧
      (x = raw ∨ raw + 16 ≤ x ∧ At rs raw (.free (x - raw)))

/-- `mm_memalign` of a request that does not wrap: null, or a new block at an aligned address. -/
theorem mmMemalign_spec {j : ℕ} (fits : MemalignFits (2 ^ j) n) :
    ∃ h' ret rs', mmMemalign h (2 ^ j) n = some (h', ret) ∧ (Coalesced rs → Step h rs h' rs' live) ∧
      (ret = 0 ∧ Rep h' rs' live [] ∨
        ∃ x s g, ret = x + 8 ∧ ret % 2 ^ j = 0 ∧ At rs' x (.used s g) ∧ n + 8 ≤ s ∧
          Rep h' rs' ((x + 8) :: live) [] ∧ Carved h (2 ^ j) n rs' x s) := by
  unfold MemalignFits at fits
  unfold Carved
  by_cases granule : 2 ^ j ≤ 16
  · simp only [if_pos granule] at fits ⊢
    have hj : j ≤ 4 :=
      (Nat.pow_le_pow_iff_right (by omega : 1 < 2)).1 (show 2 ^ j ≤ 2 ^ 4 from granule)
    have run : mmMemalign h (2 ^ j) n = mmMalloc h n := by
      rw [mmMemalign, if_pos (show 2 ^ j ≤ mmMinChunk from granule)]
    rw [run]
    obtain ⟨h₁, ret, rs₁, run₁, step₁, -, ⟨rfl, rep₁, -⟩ | ⟨x, g, rfl, pos, hx, rep₁, -⟩⟩ :=
      mmMalloc_spec rep fits
    · exact ⟨h₁, 0, rs₁, run₁, fun _ => step₁, .inl ⟨rfl, rep₁⟩⟩
    have bounds := rep₁.tiled.lay.chunk_bounds hx
    refine ⟨h₁, x + 8, rs₁, run₁, fun _ => step₁, .inr ⟨x, _, g, rfl, ?_, hx,
      (chunkFor_bounds n).1, rep₁, rfl⟩⟩
    exact Nat.mod_eq_zero_of_dvd ((Nat.pow_dvd_pow 2 hj).trans
      (show 2 ^ 4 ∣ x + 8 by omega))
  simp only [if_neg granule] at fits ⊢
  have pow : 2 ^ 4 < 2 ^ j := by omega
  have hj := (Nat.pow_lt_pow_iff_right (by omega : 1 < 2)).1 pow
  have j32 := (Nat.pow_lt_pow_iff_right (by omega : 1 < 2)).1 (show 2 ^ j < 2 ^ 32 by omega)
  have pow16 : 2 ^ j % 16 = 0 := Nat.mod_eq_zero_of_dvd (Nat.pow_dvd_pow 2 hj.le)
  have above : ¬ 2 ^ j ≤ mmMinChunk := granule
  obtain ⟨fits₁, fits₂⟩ := fits
  have up : mmAlignUp n = (n + 15) / 16 * 16 := mmAlignUp_eq fits₁
  generalize hbytes : (n + 15) / 16 * 16 = bytes at *
  have total : add32 bytes (2 * 2 ^ j % 2 ^ 32) = bytes + 2 * 2 ^ j := by
    rw [Nat.mod_eq_of_lt (by omega), add32_eq (by omega)]
  obtain ⟨h₁, ret, rs₁, run₁, step₁, empty, ⟨rfl, rep₁, -⟩ | ⟨x, g, rfl, pos, hx, rep₁, sep⟩⟩ :=
    mmMalloc_spec rep (n := bytes + 2 * 2 ^ j) (by omega)
  · refine ⟨h₁, 0, rs₁, ?_, fun _ => step₁, .inl ⟨rfl, rep₁⟩⟩
    rw [mmMemalign_eq above (by rw [up, total]; exact run₁), if_pos rfl]
  obtain ⟨F, rfl, rfl⟩ := exists_plug hx
  have room := chunkFor_bounds (bytes + 2 * 2 ^ j)
  obtain ⟨m₂, F₂, g₂, k, run₂, aligned, lo, re, out, front⟩ := memalignSection_spec rep₁.tiled
    (show 5 ≤ j by omega) j32 (show bytes % 16 = 0 by omega) (by omega)
  obtain ⟨rep₂, kept⟩ := rep₁.replace (by simp) re
  rw [erase_cons_head] at rep₂ kept
  refine ⟨_, F₂.lo + 8, _, ?_, fun co => ?_, .inr ⟨F₂.lo, _, g₂, rfl, aligned,
    (re.evolve.come_sub rfl).1, by omega, rep₂, rfl, h₁, F.lo, run₁, ?_⟩⟩
  · rw [mmMemalign_eq above (by rw [up, total]; exact run₁), if_neg (by omega), up, total, run₂,
      Option.map_some]
  refine step₁.trans ⟨rfl, rfl, re.evolve.spans, fun b hb hk => kept b hb ?_, fun co₁ => ?_⟩
    (List.Subset.refl _)
  · rw [append_nil]
    exact hk
  · refine (out (outer co₁) (.inr fun free => sep co ?_)).plug_used
    obtain ⟨y, hy, e⟩ := exists_at_prev free
    exact ⟨y, _, hy, e⟩
  refine front.imp (by omega) fun ⟨large, free⟩ => ⟨by omega, ?_⟩
  obtain ⟨y, hy, e⟩ := exists_at_prev (F := F₂) (by rw [free])
  rw [← prev_size, free] at hy e
  obtain rfl : y = F.lo := Nat.add_right_cancel (e.trans lo)
  rwa [lo, Nat.add_sub_cancel_left]

/-! ## `mm_realloc` -/

/-- The new block holds the contents of the old one as far as both reach. -/
def SameContents (rs : List Region) (p n : ℕ) (g : ℕ → UInt8) : Prop :=
  ∀ x s f, p = x + 8 → At rs x (.used s f) → ∀ i, i < s - 8 → i < n → g i = f i

/-- `mm_realloc` of a client's block: the block stays when null is returned, else it is replaced by
one that is large enough and has the old contents. -/
theorem mmRealloc_spec (hp : p ∈ live) (pos : 0 < n)
    (fits : n + 23 < 2 ^ 32) :
    ∃ h' ret rs' delayed', mmRealloc h p n = some (h', ret) ∧ Step h rs h' rs' (live.erase p) ∧
      (ret = 0 ∧ Rep h' rs' live delayed' ∧ Step h rs h' rs' live ∧ mmFreeDelaylist h = some h' ∨
        ∃ x s g, ret = x + 8 ∧ At rs' x (.used s g) ∧ n + 8 ≤ s ∧
          Rep h' rs' ((x + 8) :: live.erase p) delayed' ∧ SameContents rs p n g) := by
  obtain ⟨x, s, f, rfl, hx⟩ := rep.block (mem_append_left _ hp)
  have bounds := rep.tiled.lay.chunk_bounds hx
  have need := chunkFor_bounds n
  simp only at bounds
  have contents {g : ℕ → UInt8} (same : ∀ i, i < s - 8 → i < n → g i = f i) :
      SameContents rs (x + 8) n g := by
    intro x' s' f' e hx' i hi hn
    obtain rfl : x = x' := by omega
    obtain ⟨rfl, ⟨⟩⟩ := Chunk.mk.inj (rep.tiled.lay.at_unique hx hx')
    exact same i hi hn
  have section' := chunkFor_spec fits
  obtain ⟨F, rfl, rfl⟩ := exists_plug hx
  rcases reallocSection_spec rep.tiled (n := chunkFor n) (by omega) (by omega) (by omega) with
    ⟨m₁, F₁, g, run, same, re, out⟩ | ⟨run, lt⟩
  · rw [← section'] at run
    obtain ⟨rep₁, kept⟩ := rep.replace hp re
    refine ⟨_, F₁.lo + 8, _, delayed, mmRealloc_done (by omega) pos run,
      ⟨rfl, rfl, re.evolve.spans, fun b hb hk => kept b hb (mem_append_left _ hk),
        fun co => (out (outer co)).plug_used⟩,
      .inr ⟨F₁.lo, _, g, rfl, (re.evolve.come_sub rfl).1, by omega, rep₁, contents ?_⟩⟩
    exact fun i hi hn => same i hi (by omega)
  rw [← section'] at run
  obtain ⟨h₁, ret, rs₁, alloc, step₁, -, ⟨rfl, rep₁, -, drain⟩ | ⟨y, g, rfl, -, hy, rep₁, -⟩⟩ :=
    mmMalloc_spec rep fits
  · refine ⟨h₁, 0, rs₁, [], ?_, step₁.mono (erase_subset), .inl ⟨rfl, rep₁, step₁, drain⟩⟩
    rw [mmRealloc_move (by omega) pos run alloc, if_neg (by simp)]
  -- the old block is still there, apart from the new one
  have old : (F.lo, Chunk.used s f) ∈ Blocks rs₁ :=
    step₁.kept _ ⟨hx, by simp⟩ (by simpa using hp)
  have far := rep₁.tiled.lay.chunks_apart hy old.1
  have ne : y + 8 ≠ F.lo + 8 := by
    have := (nodup_cons.1 rep₁.nodup).1
    exact fun e => this (by rw [e]; simpa using hp)
  have apart : y + chunkFor n ≤ F.lo ∨ F.lo + s ≤ y := by
    rcases far with e | far
    · exact absurd (congrArg Prod.fst e) (by simp only; omega)
    · exact far
  have same : SameOff (fun b => y + 8 ≤ b ∧ b < y + chunkFor n) h₁.mem
      (memcpy h₁.mem (y + 8) (F.lo + 8) s) := fun b hb => memcpy_off _ (by omega)
  obtain ⟨rs₂, rep₂, step₂, hy₂⟩ := rep₁.write (by simp) hy same
  rw [erase_cons_head, append_nil] at step₂
  obtain ⟨h₃, rs₃, free, rep₃, step₃, -⟩ := mmFree_spec rep₂ (p := F.lo + 8) (by simp [hp])
  rw [erase_cons_tail (by simpa using ne)] at rep₃ step₃
  have stays : (y, _) ∈ Blocks rs₃ := step₃.kept _ ⟨hy₂, by simp⟩ (by simp)
  refine ⟨h₃, y + 8, rs₃, [], ?_, ?_, .inr ⟨y, _, _, rfl, stays.1, by omega, rep₃,
    contents fun i hi _ => ?_⟩⟩
  · rw [mmRealloc_move (by omega) pos run alloc, if_pos (by omega), free, Option.map_some]
  · refine ((step₁.mono (erase_subset)).trans (step₂.mono (erase_subset))
      (List.Subset.refl _)).trans step₃ ?_
    intro q hq
    simp [hq]
  have moved : memcpy h₁.mem (y + 8) (F.lo + 8) s (y + 8 + i) = h₁.mem (F.lo + 8 + i) :=
    memcpy_block _ (by omega) (by omega)
  exact moved.trans (rep₁.tiled.payload old hi)

/-- `mm_calloc`: the product is checked, so that only the sums of `mm_malloc` can wrap. -/
theorem mmCalloc_spec {elem : ℕ} (fits : n * elem + 23 < 2 ^ 32 ∨
    2 ^ 32 ≤ n * elem) :
    ∃ h' ret rs' delayed', mmCalloc h n elem = some (h', ret) ∧ Step h rs h' rs' live ∧
      (ret = 0 ∧ Rep h' rs' live delayed' ∨
        ∃ x g, ret = x + 8 ∧ 0 < n * elem ∧ At rs' x (.used (chunkFor (n * elem)) g) ∧
          (∀ i < n * elem, g i = 0) ∧ Rep h' rs' ((x + 8) :: live) delayed') := by
  rw [mmCalloc_eq]
  split_ifs with small
  · obtain ⟨h', ret, rs', run, step, result⟩ := mmZalloc_spec rep (n := n * elem) (by omega)
    exact ⟨h', ret, rs', [], run, step, result⟩
  · exact ⟨h, 0, rs, delayed, rfl, Step.refl h rs live, .inl ⟨rfl, rep⟩⟩

/-! ## Regions -/

theorem Rep.regions {heapsize : ℕ} {starts ends : List ℕ}
    (tiled' : Tiled h.nodelist m' rs') (same : Blocks rs' = Blocks rs)
    (hs : starts = rs'.map Region.base) (he : ends = rs'.map Region.last) :
    Rep { h with mem := m', heapsize := heapsize, heapstart := starts, heapend := ends } rs' live
      delayed := by
  refine ⟨tiled', hs, he, rep.chain.keep rep.tiled tiled' fun q hq => ?_, rep.nodup, fun p => ?_⟩
  · obtain ⟨b, hb, e⟩ := (rep.owned q).1 (mem_append_right _ hq)
    exact ⟨b, hb, same ▸ hb, e⟩
  · rw [rep.owned p, Payloads, Payloads, same]

end

theorem blocks_append_free {base : ℕ} : Blocks (rs ++ [⟨base, [.free s]⟩]) = Blocks rs := by
  ext ⟨x, c⟩
  refine and_congr_left fun hc => ⟨?_, fun ⟨r, hr, hx⟩ => ⟨r, by simp [hr], hx⟩⟩
  rintro ⟨r, hr, hx⟩
  rcases mem_append.1 hr with hr | hr
  · exact ⟨r, hr, hx⟩
  rw [mem_singleton.1 hr] at hx
  simp only [placed_cons, placed_nil, mem_singleton, Prod.mk.injEq] at hx
  rw [hx.2] at hc
  exact absurd rfl hc

theorem coalesced_append_free {base : ℕ} (co : Coalesced rs) :
    Coalesced (rs ++ [⟨base, [.free s]⟩]) := by
  intro r hr
  rcases mem_append.1 hr with hr | hr
  · exact co r hr
  · rw [mem_singleton.1 hr]
    exact isChain_singleton _

theorem blocks_extend {before after : List Region} {r : Region}
    (lay : Layout nodelist (before ++ r.extend n g :: after))
    (ev : Evolve (before ++ r.extend n g :: after) rs' {(r.last, .used n g)} ∅)
    (old : Layout nodelist (before ++ r :: after)) :
    Blocks rs' = Blocks (before ++ r :: after) := by
  ext ⟨x, c⟩
  have others := Set.ext_iff.1 ev.others (x, c)
  simp only [Set.mem_sdiff, Set.mem_empty_iff_false, not_false_eq_true, and_true] at others
  rw [others]
  constructor
  · rintro ⟨⟨hx, hc⟩, ne⟩
    rcases at_extend.1 hx with h | ⟨rfl, rfl⟩
    · exact ⟨h, hc⟩
    · exact absurd rfl ne
  rintro ⟨hx, hc⟩
  refine ⟨⟨at_extend.2 (.inl hx), hc⟩, fun e => ?_⟩
  obtain ⟨rfl, rfl⟩ := Prod.mk.inj e
  -- no chunk between the old guards starts at the end guard
  obtain ⟨r', hr', hx⟩ := hx
  have bounds := (old.ok r' hr').bounds hx
  simp only [mem_append, mem_cons] at hr'
  have far : r' = r ∨ Region.Apart r' (r.extend n g) := by
    rcases hr' with hr' | hr' | hr'
    · exact .inr (lay.apart_other (.inl hr'))
    · exact .inl hr'
    · exact .inr (lay.apart_other (.inr hr'))
  rcases far with rfl | far
  · simp only [Region.last, Region.stop] at *
    omega
  rw [Region.Apart, Region.extend_stop] at far
  have base : (r.extend n g).base = r.base := rfl
  simp only [Region.last, Region.stop] at *
  omega

end NuttxRtos.Heap

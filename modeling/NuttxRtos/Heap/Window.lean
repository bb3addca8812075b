import NuttxRtos.Heap.FreeList

/-!
# Refilling a window

The operations of the heap write inside a window of one region and into the `preceding` word of the
chunk behind it. `Flux.retile` turns such a write into a new tiling: it is enough to read back the
headers of the new chunks. `Evolve` says what a tiling step means for the clients of the heap, and
`Coalesced` is the absence of adjacent free chunks.
-/

namespace NuttxRtos.Heap

open Memory Word List Focus

variable {nodelist : ℕ} {m m' : Memory} {F : Focus} {mid mid' : List Chunk} {loose loose' : Set ℕ}

/-! ## Header words -/

section Words

variable {a b v : ℕ}

@[simp] theorem size_setSize_same (small : v < 2 ^ 32) : size (setSize m a v) a = v :=
  load32_store32_same m small

@[simp] theorem size_setSize (off : a + 4 ≤ b ∨ b + 4 ≤ a) : size (setSize m a v) b = size m b :=
  load32_store32_off m off

@[simp] theorem size_setPreceding (off : a + 8 ≤ b ∨ b ≤ a) :
    size (setPreceding m a v) b = size m b :=
  load32_store32_off m (by omega)

@[simp] theorem size_updatePreceding (off : a + 8 ≤ b ∨ b ≤ a) :
    size (updatePreceding m a v) b = size m b :=
  size_setPreceding off

@[simp] theorem preceding_setPreceding_same (small : v < 2 ^ 32) :
    preceding (setPreceding m a v) a = v :=
  load32_store32_same m small

@[simp] theorem preceding_setPreceding (off : a + 4 ≤ b ∨ b + 4 ≤ a) :
    preceding (setPreceding m a v) b = preceding m b :=
  load32_store32_off m (by omega)

@[simp] theorem preceding_setSize (off : a ≤ b ∨ b + 8 ≤ a) :
    preceding (setSize m a v) b = preceding m b :=
  load32_store32_off m (by omega)

end Words

/-! ## The allocation mark -/

theorem Chunk.tag_cases (c : Chunk) : c.tag = 0 ∨ c.tag = 2 ^ 31 :=
  c.tag_eq.imp And.left And.left

variable {p : ℕ}

theorem tagged_and (hp : p < 2 ^ 31) (c : Chunk) : (p + c.tag) &&& mmAllocBit = c.tag := by
  rw [show mmAllocBit = 2 ^ 31 from rfl, and_top]
  · rcases c.tag_cases with e | e <;> rw [e] <;> split_ifs <;> omega
  · rcases c.tag_cases with e | e <;> omega

theorem tagged_and_not (hp : p < 2 ^ 31) (c : Chunk) : (p + c.tag) &&& not32 mmAllocBit = p := by
  rw [show not32 mmAllocBit = 2 ^ 31 - 1 from rfl, Nat.and_two_pow_sub_one_eq_mod]
  rcases c.tag_cases with e | e <;> omega

theorem or_allocBit (hp : p < 2 ^ 31) : p ||| mmAllocBit = p + 2 ^ 31 := or_top hp

variable {a v : ℕ} {c : Chunk} {rs : List Region}

theorem Header.free_iff (h : Header m a p c) (hp : p < 2 ^ 31) :
    preceding m a &&& mmAllocBit = 0 ↔ c.data = none := by
  rw [h.precedingWord, tagged_and hp]
  rcases c.tag_eq with ⟨e, hd⟩ | ⟨e, hd⟩ <;> simp [e, hd]

theorem Header.updatePreceding_eq {m' : Memory} (h : Header m a p c)
    (same : preceding m' a = preceding m a) (hp : p < 2 ^ 31) (hv : v < 2 ^ 31) :
    updatePreceding m' a v = setPreceding m' a (v + c.tag) := by
  rw [updatePreceding, same, h.precedingWord, tagged_and hp]
  rcases c.tag_cases with e | e <;> rw [e]
  · simp
  · rw [or_top hv]

/-! ## Node and payload addresses -/

variable {x : ℕ}

theorem sub32_allocnode (h : x + 8 < 2 ^ 32) : sub32 (x + 8) sizeofMmAllocnode = x := by
  unfold sub32 sizeofMmAllocnode
  omega

theorem add32_allocnode (h : x + 8 < 2 ^ 32) : add32 x sizeofMmAllocnode = x + 8 :=
  add32_eq h

/-! ## Reading around a window -/

def Region.Bytes (r : Region) (b : ℕ) : Prop := r.base ≤ b ∧ b < r.stop

theorem Region.Ok.chunk_size {r : Region} (ok : r.Ok) {c : Chunk}
    (hc : c ∈ r.chunks) : 8 ≤ c.size := by
  simp only [Region.chunks, mem_cons, mem_append, not_mem_nil, or_false] at hc
  rcases hc with rfl | hc | rfl
  · exact guard_size.ge
  · have := ok.sizes c hc
    omega
  · exact guard_size.ge

theorem Region.Ok.headers {r : Region} (ok : r.Ok) (h : Headers m r.base 0 r.chunks)
    (same : ∀ b, r.Bytes b → m' b = m b) : Headers m' r.base 0 r.chunks := by
  refine h.congr fun x c hx b hb => same b ?_
  have bounds := placed_bounds hx
  have size := ok.chunk_size bounds.1
  simp only [Region.chunks, extent_cons, extent_append, guard_size, extent_nil] at bounds
  unfold Region.Bytes Region.stop
  rcases hb with hb | hb <;> omega

def FreeBefore (rs : List Region) (x : ℕ) : Prop := ∃ y s, At rs y (.free s) ∧ y + s = x

namespace Focus

variable (F) in
def prev : Chunk := F.pre.getLastD guard

theorem lastSize_eq_getLastD (c : Chunk) (l : List Chunk) :
    lastSize c.size l = (l.getLastD c).size := by
  induction l generalizing c with
  | nil => rfl
  | cons d l ih => rw [lastSize_cons, ih, getLastD_cons]

theorem prev_size : F.prev.size = F.prevSize := (lastSize_eq_getLastD guard F.pre).symm

theorem prevSize_pos (lay : Layout nodelist (F.plug mid)) : 0 < F.prevSize := by
  rw [← prev_size]
  rcases eq_nil_or_concat' F.pre with e | ⟨pre, c, e⟩
  · simp [prev, e]
  have := (lay.ok _ region_mem).sizes c (by simp [region, e])
  simp only [prev, e, getLastD_concat]
  omega

theorem exists_pre (h : F.prev.data = none) : ∃ pre, F.pre = pre ++ [Chunk.free F.prevSize] := by
  rcases eq_nil_or_concat' F.pre with e | ⟨pre, c, e⟩
  · simp [prev, e, guard] at h
  refine ⟨pre, ?_⟩
  have hc : F.prev = c := by simp [prev, e]
  rw [e, ← prev_size, hc]
  rcases c with ⟨s, d⟩
  simp_all [Chunk.free]

theorem exists_post (h : F.next.data = none) : ∃ post, F.post = Chunk.free F.next.size :: post := by
  rcases e : F.post with _ | ⟨⟨s, d⟩, post⟩
  · simp [next, e, guard] at h
  simp only [next, e, headD_cons] at h
  subst h
  exact ⟨post, by simp [next, e, Chunk.free]⟩

theorem prev_of_at (lay : Layout nodelist (F.plug mid)) {y : ℕ} {c : Chunk}
    (h : At (F.plug mid) y c) (touch : y + c.size = F.lo) : F.prev = c := by
  have size := lay.chunk_bounds h
  rcases at_plug.1 h with (⟨r, hr, hy⟩ | hy | hy) | hy
  · have hr' : r ∈ F.plug mid := by
      simp only [plug, mem_append, mem_cons] at hr ⊢
      tauto
    have far := lay.apart_other (mem_append.1 hr)
    have := (lay.ok r hr').bounds hy
    have := window_bounds lay
    simp only [Region.Apart, region_base] at far
    omega
  · obtain ⟨pre, post, split, rfl⟩ := placed_split hy
    have rest : extent post = 0 := by
      simp only [lo, split, extent_append, extent_cons] at touch
      omega
    cases post with
    | nil => simp [prev, split]
    | cons d post =>
      have := (lay.ok _ region_mem).sizes d (by simp [region, split])
      rw [extent_cons] at rest
      omega
  all_goals
    have := placed_bounds hy
    omega

theorem prev_of_freeBefore (lay : Layout nodelist (F.plug mid)) (h : FreeBefore (F.plug mid) F.lo) :
    F.prev.data = none := by
  obtain ⟨y, s, hy, touch⟩ := h
  rw [prev_of_at lay hy touch]

theorem exists_at_prev (h : F.prev.data = none) :
    ∃ y, At (F.plug mid) y (.free F.prevSize) ∧ y + F.prevSize = F.lo := by
  obtain ⟨pre, hpre⟩ := F.exists_pre h
  have lo := lo_widenPrev hpre
  refine ⟨(F.widenPrev pre).lo, ?_, lo⟩
  rw [← plug_widenPrev hpre]
  exact at_plug.2 (.inr (by simp))

theorem behind_eq : ∃ rest, F.post ++ [guard] = F.next :: rest := by
  cases h : F.post with
  | nil => exact ⟨[], by simp [next, h]⟩
  | cons c post => exact ⟨post ++ [guard], by simp [next, h]⟩

theorem headers_region : Headers m F.base 0 (F.region mid).chunks ↔
    Headers m F.base 0 (guard :: F.pre) ∧ Headers m F.lo F.prevSize mid ∧
      Headers m (F.lo + extent mid) (lastSize F.prevSize mid) (F.post ++ [guard]) := by
  have split : (F.region mid).chunks = (guard :: F.pre) ++ (mid ++ (F.post ++ [guard])) := by
    simp [Region.chunks, region]
  rw [split, headers_append, headers_append]
  simp only [extent_cons, guard_size, lastSize_cons, ← add_assoc]
  rfl

end Focus

section Reading

variable (flux : Flux nodelist m (F.plug mid) loose)

include flux

theorem Flux.window : Headers m F.lo F.prevSize mid :=
  (headers_region.1 (flux.headers _ region_mem)).2.1

theorem Flux.next : Header m (F.lo + extent mid) (lastSize F.prevSize mid) F.next := by
  have h := (headers_region.1 (flux.headers _ region_mem)).2.2
  obtain ⟨rest, e⟩ := F.behind_eq
  rw [e] at h
  exact h.1

omit flux in
theorem Flux.next₁ {c : Chunk} (flux : Flux nodelist m (F.plug [c]) loose) :
    Header m (F.lo + c.size) c.size F.next := by
  simpa using flux.next

omit flux in
theorem Flux.next₂ {c d : Chunk} (flux : Flux nodelist m (F.plug [c, d]) loose) :
    Header m (F.lo + c.size + d.size) d.size F.next := by
  simpa [add_assoc] using flux.next

theorem Flux.prev (lay : Layout nodelist (F.plug mid)) : F.prevSize ≤ F.lo ∧
    ∃ q < 2 ^ 31, Header m (F.lo - F.prevSize) q F.prev := by
  have h := (headers_region.1 (flux.headers _ region_mem)).1
  rcases eq_nil_or_concat' F.pre with e | ⟨pre, c, e⟩
  · simp only [Focus.lo, Focus.prevSize, Focus.prev, e, extent_nil, lastSize_nil, getLastD_nil]
    refine ⟨by omega, 0, by omega, ?_⟩
    exact h.1
  have bounds := (lay.ok _ region_mem).tagged
  have last := lastSize_le 8 pre
  rw [e, ← cons_append, headers_append] at h
  simp only [Focus.region, e, extent_append, extent_cons, extent_nil] at bounds
  simp only [Focus.lo, Focus.prevSize, Focus.prev, e, extent_append, extent_cons, extent_nil,
    lastSize_append, lastSize_cons, lastSize_nil, getLastD_concat]
  refine ⟨by omega, lastSize 8 pre, by omega, ?_⟩
  rw [show F.base + 8 + (extent pre + (c.size + 0)) - c.size = F.base + (8 + extent pre) by omega]
  exact h.2.1

end Reading

/-! ## Writing into a window -/

/-- The bytes of the window and the `preceding` word behind it. -/
def Focus.Writes (F : Focus) (mid : List Chunk) (b : ℕ) : Prop :=
  F.lo ≤ b ∧ b < F.lo + extent mid ∨ F.lo + extent mid + 4 ≤ b ∧ b < F.lo + extent mid + 8

/-- One word is written, in the window or as the `preceding` word behind it. -/
theorem Focus.sameOff_store32 (same : SameOff (F.Writes mid) m m')
    (place : F.lo ≤ a ∧ a + 4 ≤ F.lo + extent mid ∨ a = F.lo + extent mid + 4) :
    SameOff (F.Writes mid) m (m'.store32 a v) :=
  same.store32 v fun i hi => by
    unfold Focus.Writes
    omega

theorem Listed.sameOff {rs' : List Region} {S : ℕ → Prop} {B : Buckets}
    (ls : Listed nodelist m rs loose B) (same : SameOff S m m')
    (out : ∀ x ∈ chain nodelist B, ∀ b, x ≤ b ∧ b < x + 16 →
      (x + 8 ≤ b ∨ ∃ i < 19, x = bucketHead nodelist i) → ¬ S b)
    (nodes : ∀ x t, At rs x (.free t) ∧ x ∉ loose ↔ At rs' x (.free t) ∧ x ∉ loose') :
    Listed nodelist m' rs' loose' B := by
  refine ⟨fun i hi => ?_, ls.links.sameOff same ?_, ls.nodup, ls.sorted, ls.index,
    fun x t => (ls.nodes x t).trans (nodes x t)⟩
  · rw [← ls.heads i hi]
    exact load32_sameOff same fun j hj => out _ (mem_chain.2 ⟨i, hi, .inl rfl⟩) _ (by omega)
      (.inr ⟨i, hi, rfl⟩)
  rintro b ⟨x, hx, hb⟩
  simp only [freenode] at hb
  exact out x hx b (by omega) (.inl (by omega))

section Retile

variable (lay : Layout nodelist (F.plug mid))

include lay

variable {b : ℕ}

theorem Focus.writes_bounds (h : F.Writes mid b) : F.base + 8 ≤ b ∧ b < (F.region mid).stop := by
  have := window_bounds lay
  unfold Focus.Writes at h
  omega

theorem Focus.headers_other (same : SameOff (F.Writes mid) m m') {r : Region}
    (hr : r ∈ F.before ∨ r ∈ F.after) (h : Headers m r.base 0 r.chunks) :
    Headers m' r.base 0 r.chunks := by
  have far := lay.apart_other hr
  have ok : r.Ok := lay.ok r (by rcases hr with hr | hr <;> simp [Focus.plug, hr])
  refine ok.headers h fun b hb => same b fun hw => ?_
  have := writes_bounds lay hw
  simp only [Region.Apart, Region.Bytes, region_base] at *
  omega

theorem Focus.headers_pre (same : SameOff (F.Writes mid) m m')
    (h : Headers m F.base 0 (guard :: F.pre)) : Headers m' F.base 0 (guard :: F.pre) := by
  refine h.congr fun x c hx b hb => same b fun hw => ?_
  have bounds := placed_bounds hx
  have size : 8 ≤ c.size := by
    refine (lay.ok _ region_mem).chunk_size ?_
    have := mem_cons.1 bounds.1
    simp only [Region.chunks, Focus.region, mem_cons, mem_append]
    tauto
  have inside : b < x + c.size := by
    rcases hb with hb | hb <;> omega
  simp only [extent_cons, guard_size, Focus.Writes, Focus.lo] at *
  omega

/-- Writing in a window keeps the chunks behind it, once the first one names its new predecessor. -/
theorem Focus.headers_post (same : SameOff (F.Writes mid) m m') {p' : ℕ}
    (h : Headers m (F.lo + extent mid) p (F.post ++ [guard]))
    (prec : preceding m' (F.lo + extent mid) = p' + F.next.tag) :
    Headers m' (F.lo + extent mid) p' (F.post ++ [guard]) := by
  obtain ⟨rest, e⟩ := F.behind_eq
  have sizes : 8 ≤ F.next.size := by
    refine (lay.ok _ region_mem).chunk_size ?_
    simp [Region.chunks, Focus.region, e]
  rw [e] at h ⊢
  refine ⟨⟨?_, prec, fun f hf i hi => ?_⟩, h.2.congr fun x c hx b hb => same b fun hw => ?_⟩
  · rw [← h.1.sizeWord]
    exact load32_sameOff same fun i hi hw => by
      unfold Focus.Writes at hw
      omega
  · rw [← h.1.payload f hf i hi]
    exact same _ fun hw => by
      unfold Focus.Writes at hw
      omega
  have := placed_bounds hx
  unfold Focus.Writes at hw
  rcases hb with hb | hb <;> omega

theorem Focus.writes_linkable (hx : Linkable nodelist (F.plug mid) x)
    (out : x < F.lo ∨ F.lo + extent mid ≤ x) (hb : x ≤ b ∧ b < x + 16)
    (head : x + 8 ≤ b ∨ ∃ i < 19, x = bucketHead nodelist i) : ¬ F.Writes mid b := by
  intro hw
  have inside := writes_bounds lay hw
  rcases hx with ⟨i, hi, rfl⟩ | ⟨s, hx⟩
  · have := lay.apart _ region_mem
    simp only [bucketHead, sizeofMmFreenode, headBytes, region_base] at *
    omega
  have node : x + 8 ≤ b := by
    rcases head with h | ⟨i, hi, rfl⟩
    · exact h
    have := lay.nodelist_apart hx
    have := lay.chunk_bounds hx
    simp only [bucketHead, sizeofMmFreenode, headBytes] at *
    omega
  rcases at_plug.1 hx with h | h
  · have := rest_apart lay h
    have := lay.chunk_bounds hx
    unfold Focus.Writes at hw
    omega
  have := placed_bounds h
  simp only at this
  have := lay.chunk_bounds hx
  simp only at this
  omega

variable (all : ∀ x s, (x, Chunk.free s) ∈ placed F.lo mid → x ∈ loose)
  (all' : ∀ x s, (x, Chunk.free s) ∈ placed F.lo mid' → x ∈ loose')
  (inside : ∀ x, x ∈ loose ∨ x ∈ loose' → F.lo ≤ x ∧ x < F.lo + extent mid)
  (span : extent mid' = extent mid) (same : SameOff (F.Writes mid) m m')
include all all' inside span same

theorem Listed.retile {B : Buckets} (ls : Listed nodelist m (F.plug mid) loose B) :
    Listed nodelist m' (F.plug mid') loose' B := by
  have rest {x s : ℕ} (h : F.Rest (F.lo + extent mid) x (.free s)) :
      x < F.lo ∨ F.lo + extent mid ≤ x := by
    have := rest_apart lay h
    have := lay.chunk_bounds (at_plug.2 (.inl h))
    omega
  have out : ∀ x ∈ chain nodelist B, x < F.lo ∨ F.lo + extent mid ≤ x := by
    intro x hx
    obtain ⟨i, hi, rfl | ⟨s, hs⟩⟩ := mem_chain.1 hx
    · have := lay.apart _ region_mem
      have := window_bounds lay
      simp only [bucketHead, sizeofMmFreenode, headBytes, region_base] at *
      omega
    obtain ⟨hx, hl⟩ := ls.node hs
    rcases at_plug.1 hx with h | h
    · exact rest h
    · exact absurd (all x s h) hl
  refine ls.sameOff same (fun x hx b hb => writes_linkable lay (ls.linkable hx) (out x hx) hb)
    fun x s => ?_
  rw [at_plug, at_plug, span]
  constructor
  · rintro ⟨h | h, hl⟩
    · refine ⟨.inl h, fun hl' => ?_⟩
      have := rest h
      have := inside x (.inr hl')
      omega
    · exact absurd (all x s h) hl
  rintro ⟨h | h, hl⟩
  · refine ⟨.inl h, fun hl' => ?_⟩
    have := rest h
    have := inside x (.inl hl')
    omega
  · exact absurd (all' x s h) hl

theorem Flux.retile (flux : Flux nodelist m (F.plug mid) loose)
    (headers : Headers m' F.lo F.prevSize mid')
    (prec : preceding m' (F.lo + extent mid) = lastSize F.prevSize mid' + F.next.tag) :
    Flux nodelist m' (F.plug mid') loose' := by
  obtain ⟨B, ls⟩ := flux.listed
  refine ⟨fun r hr => ?_, B, ls.retile lay all all' inside span same⟩
  simp only [Focus.plug, mem_append, mem_cons] at hr
  rcases hr with hr | rfl | hr
  · exact headers_other lay same (.inl hr) (flux.headers r (by simp [Focus.plug, hr]))
  · obtain ⟨pre, -, post⟩ := headers_region.1 (flux.headers _ region_mem)
    refine headers_region.2 ⟨headers_pre lay same pre, headers, ?_⟩
    rw [span]
    exact headers_post lay same post prec
  · exact headers_other lay same (.inr hr) (flux.headers r (by simp [Focus.plug, hr]))

end Retile

/-- The chunk in front takes over the free one behind it. -/
theorem Flux.join {s t : ℕ} {d : Option (ℕ → UInt8)}
    (lay : Layout nodelist (F.plug [⟨s, d⟩, .free t]))
    (flux : Flux nodelist m (F.plug [⟨s, d⟩, .free t]) (insert (F.lo + s) loose))
    (front : ∀ x ∈ loose, x = F.lo) (free : d = none → F.lo ∈ loose) :
    Flux nodelist (updatePreceding (setSize m F.lo (s + t)) (F.lo + s + t) (s + t))
      (F.plug [⟨s + t, d.map fun _ i => m (F.lo + 8 + i)⟩]) loose := by
  have bounds := bounds₂ lay
  have head := flux.window.1.precedingWord
  have tag := F.next.tag_cases
  simp only [Chunk.tag] at bounds head
  rw [flux.next₂.updatePreceding_eq (by simp (disch := omega)) (by simp only; omega) (by omega)]
  refine flux.retile lay ?_ (by simpa) ?_ (by simp) ?_ ⟨⟨?_, ?_, ?_⟩, trivial⟩ ?_
  · simp only [placed_cons, placed_nil, mem_cons, Prod.mk.injEq, Chunk.mk.injEq]
    rintro x _ (⟨rfl, -, none⟩ | ⟨rfl, -⟩ | h)
    · exact .inr (free none.symm)
    · exact .inl rfl
    · cases h
  · rintro x ((rfl | hx) | hx)
    · simp
      omega
    all_goals
      simp [front x hx]
      omega
  · iterate 2 refine sameOff_store32 ?_ (by simp; omega)
    exact .refl _ m
  · simp (disch := omega)
  · simp (disch := omega) [Chunk.tag, head]
  · rintro _ used i hi
    obtain ⟨_, -, rfl⟩ := Option.map_eq_some_iff.1 used
    simp only at hi
    simp (disch := omega) only [setSize, setPreceding, store32_off]
  · simp (disch := omega) [← add_assoc]

/-! ## Taking a free neighbour into the window -/

section Take

variable {c : Chunk} (lay : Layout nodelist (F.plug [c]))
  (flux : Flux nodelist m (F.plug [c]) loose)

include lay flux

theorem Flux.takeNext (free : F.next.data = none) (listed : F.lo + c.size ∉ loose) :
    ∃ post t, F.post = .free t :: post ∧ t = F.next.size ∧
      (F.widenNext post).plug [c, .free t] = F.plug [c] ∧
      Layout nodelist ((F.widenNext post).plug [c, .free t]) ∧
      Flux nodelist (freenode.unlink m (F.lo + c.size)) ((F.widenNext post).plug [c, .free t])
        (insert (F.lo + c.size) loose) := by
  obtain ⟨post, hpost⟩ := F.exists_post free
  have widen : (F.widenNext post).plug ([c] ++ [.free F.next.size]) = F.plug [c] :=
    plug_widenNext hpost
  rw [← widen] at lay flux
  refine ⟨post, _, hpost, rfl, widen, lay, flux.unlink (s := F.next.size) lay ?_ listed⟩
  exact at_plug.2 (.inr (by simp))

theorem Flux.takePrev (free : F.prev.data = none) (listed : F.lo - F.prevSize ∉ loose) :
    ∃ pre, F.pre = pre ++ [.free F.prevSize] ∧ (F.widenPrev pre).lo = F.lo - F.prevSize ∧
      F.prevSize ≤ F.lo ∧ (F.widenPrev pre).plug [.free F.prevSize, c] = F.plug [c] ∧
      Layout nodelist ((F.widenPrev pre).plug [.free F.prevSize, c]) ∧
      Flux nodelist (freenode.unlink m (F.lo - F.prevSize))
        ((F.widenPrev pre).plug [.free F.prevSize, c]) (insert (F.lo - F.prevSize) loose) := by
  obtain ⟨pre, hpre⟩ := F.exists_pre free
  have widen : (F.widenPrev pre).plug [.free F.prevSize, c] = F.plug [c] :=
    plug_widenPrev hpre
  have lo := lo_widenPrev hpre
  simp only at lo
  have lo' : (F.widenPrev pre).lo = F.lo - F.prevSize := by omega
  rw [← widen] at lay flux
  refine ⟨pre, hpre, lo', by omega, widen, lay, flux.unlink (s := F.prevSize) lay ?_ listed⟩
  exact at_plug.2 (.inr (by simp [lo']))

end Take

/-! ## What a step means for the clients -/

def Blocks (rs : List Region) : Set (ℕ × Chunk) := {b | At rs b.1 b.2 ∧ b.2.data ≠ none}

def Region.span (r : Region) : ℕ × ℕ := (r.base, r.stop)

/-- The spans stay, and apart from blocks that go and blocks that come the blocks stay. -/
structure Evolve (rs rs' : List Region) (gone come : Set (ℕ × Chunk)) : Prop where
  spans : rs'.map Region.span = rs.map Region.span
  gone_sub : gone ⊆ Blocks rs
  come_sub : come ⊆ Blocks rs'
  others : Blocks rs' \ come = Blocks rs \ gone

theorem Evolve.trans {rs' rs'' : List Region} {gone mid come : Set (ℕ × Chunk)}
    (first : Evolve rs rs' gone mid) (second : Evolve rs' rs'' mid come) :
    Evolve rs rs'' gone come :=
  ⟨second.spans.trans first.spans, first.gone_sub, second.come_sub,
    second.others.trans first.others⟩

theorem Evolve.refl {same : Set (ℕ × Chunk)} (sub : same ⊆ Blocks rs) :
    Evolve rs rs same same := ⟨rfl, sub, sub, rfl⟩

def placedBlocks (a : ℕ) (l : List Chunk) : Set (ℕ × Chunk) :=
  {b | b ∈ placed a l ∧ b.2.data ≠ none}

@[simp] theorem placedBlocks_nil (a : ℕ) : placedBlocks a [] = ∅ := by
  simp [placedBlocks]

@[simp] theorem placedBlocks_free (a s : ℕ) (l : List Chunk) :
    placedBlocks a (.free s :: l) = placedBlocks (a + s) l := by
  ext ⟨x, c⟩
  simp only [placedBlocks, placed_cons, mem_cons, Set.mem_ofPred_eq, Prod.mk.injEq]
  refine and_congr_left fun hc => or_iff_right ?_
  rintro ⟨-, rfl⟩
  exact hc rfl

@[simp] theorem placedBlocks_used (a s : ℕ) (f : ℕ → UInt8) (l : List Chunk) :
    placedBlocks a (.used s f :: l) = insert (a, .used s f) (placedBlocks (a + s) l) := by
  ext ⟨x, c⟩
  simp only [placedBlocks, placed_cons, mem_cons, Set.mem_ofPred_eq, Prod.mk.injEq,
    Set.mem_insert_iff]
  constructor
  · rintro ⟨h | h, hc⟩
    · exact .inl h
    · exact .inr ⟨h, hc⟩
  rintro (⟨rfl, rfl⟩ | h)
  · exact ⟨.inl ⟨rfl, rfl⟩, by simp⟩
  · exact ⟨.inr h.1, h.2⟩

theorem Focus.evolve (lay : Layout nodelist (F.plug mid)) (lay' : Layout nodelist (F.plug mid'))
    (span : extent mid' = extent mid) :
    Evolve (F.plug mid) (F.plug mid') (placedBlocks F.lo mid) (placedBlocks F.lo mid') := by
  have out {mid : List Chunk} (lay : Layout nodelist (F.plug mid)) {x : ℕ} {c : Chunk}
      (h : F.Rest (F.lo + extent mid) x c) : (x, c) ∉ placed F.lo mid := fun hx => by
    have := rest_apart lay h
    have := placed_bounds hx
    have := lay.chunk_bounds (at_plug.2 (.inl h))
    omega
  refine ⟨?_, fun b hb => ⟨at_plug.2 (.inr hb.1), hb.2⟩, fun b hb => ⟨at_plug.2 (.inr hb.1), hb.2⟩,
    Set.ext fun b => ?_⟩
  · simp [plug, Region.span, region_stop span]
  simp only [Blocks, placedBlocks, Set.mem_sdiff, Set.mem_ofPred_eq, at_plug, span]
  constructor
  · rintro ⟨⟨h | h, hd⟩, hn⟩
    · exact ⟨⟨.inl h, hd⟩, fun hb => out lay h hb.1⟩
    · exact absurd ⟨h, hd⟩ hn
  rintro ⟨⟨h | h, hd⟩, hn⟩
  · exact ⟨⟨.inl h, hd⟩, fun hb => out lay' (span ▸ h) hb.1⟩
  · exact absurd ⟨h, hd⟩ hn

/-! ## Coalesced heaps -/

def Spaced (l : List Chunk) : Prop := l.IsChain fun c d => c.data ≠ none ∨ d.data ≠ none

/-- No two adjacent chunks are both free. -/
def Coalesced (rs : List Region) : Prop := ∀ r ∈ rs, Spaced r.mids

namespace Focus

variable (F) in
/-- No two adjacent chunks outside the window are both free. -/
structure Outer : Prop where
  others : ∀ r, r ∈ F.before ∨ r ∈ F.after → Spaced r.mids
  pre : Spaced F.pre
  post : Spaced F.post

theorem outer (co : Coalesced (F.plug mid)) : F.Outer := by
  have here : Spaced (F.pre ++ mid ++ F.post) := co _ region_mem
  refine ⟨fun r hr => co r ?_, ?_, ?_⟩
  · simp only [plug, mem_append, mem_cons]
    tauto
  · exact (isChain_append.1 (isChain_append.1 here).1).1
  · exact (isChain_append.1 here).2.1

variable {s : ℕ}

theorem Outer.widenNext (out : F.Outer) {post : List Chunk} (h : F.post = .free s :: post) :
    (F.widenNext post).Outer ∧ (F.widenNext post).next.data ≠ none := by
  have spaced := out.post
  rw [h] at spaced
  refine ⟨⟨out.others, out.pre, spaced.tail⟩, ?_⟩
  cases post with
  | nil => simp [Focus.widenNext, next, guard]
  | cons c post => exact (isChain_cons_cons.1 spaced).1.resolve_left (by simp)

theorem Outer.widenPrev (out : F.Outer) {pre : List Chunk} (h : F.pre = pre ++ [.free s]) :
    (F.widenPrev pre).Outer ∧ (F.widenPrev pre).prev.data ≠ none := by
  have spaced := out.pre
  rw [h] at spaced
  obtain ⟨left, -, joint⟩ := isChain_append.1 spaced
  refine ⟨⟨out.others, left, out.post⟩, ?_⟩
  rcases eq_nil_or_concat' pre with rfl | ⟨pre, c, rfl⟩
  · simp [Focus.widenPrev, prev, guard]
  · have := (joint c (by simp) (.free s) (by simp)).resolve_right (by simp)
    simpa [Focus.widenPrev, prev] using this

theorem free_sides (co : Coalesced (F.plug [.free s])) :
    F.prev.data ≠ none ∧ F.next.data ≠ none := by
  have here : Spaced (F.pre ++ [.free s] ++ F.post) := co _ region_mem
  obtain ⟨left, -, right⟩ := isChain_append.1 here
  have left := (isChain_append.1 left).2.2
  constructor
  · rcases eq_nil_or_concat' F.pre with e | ⟨pre, c, e⟩
    · simp [prev, e, guard]
    · have := (left c (by simp [e]) (.free s) (by simp)).resolve_right (by simp)
      simpa [prev, e] using this
  rcases e : F.post with _ | ⟨c, post⟩
  · simp [next, e, guard]
  · have := (right (.free s) (by simp) c (by simp [e])).resolve_left (by simp)
    simpa [next, e] using this

variable {c : Chunk}

theorem Outer.narrow (out : F.Outer) (h : c.data ≠ none ∨ F.next.data ≠ none) :
    (F.narrow c).Outer := by
  refine ⟨out.others, out.pre, ?_⟩
  have spaced := out.post
  simp only [Focus.narrow, next] at h ⊢
  rcases e : F.post with _ | ⟨d, post⟩
  · exact isChain_singleton _
  · rw [e] at spaced h
    exact isChain_cons_cons.2 ⟨h, spaced⟩

theorem Outer.narrowPrev (out : F.Outer) (h : F.prev.data ≠ none ∨ c.data ≠ none) :
    (F.narrowPrev c).Outer := by
  refine ⟨out.others, isChain_append.2 ⟨out.pre, isChain_singleton _, ?_⟩, out.post⟩
  intro x hx y hy
  obtain rfl : c = y := by simpa using hy
  rwa [prev, getLastD_eq_getLast?, hx] at h

/-- A window filled with chunks that fit at its edges gives a coalesced heap. -/
theorem Outer.plug (out : F.Outer) {l : List Chunk} (spaced : Spaced (c :: l))
    (left : F.prev.data ≠ none ∨ c.data ≠ none)
    (right : (l.getLastD c).data ≠ none ∨ F.next.data ≠ none) : Coalesced (F.plug (c :: l)) := by
  intro r hr
  simp only [Focus.plug, mem_append, mem_cons] at hr
  rcases hr with hr | rfl | hr
  · exact out.others r (.inl hr)
  · refine isChain_append.2 ⟨isChain_append.2 ⟨out.pre, spaced, ?_⟩, out.post, ?_⟩
    · intro x hx y hy
      obtain rfl : c = y := by simpa using hy
      rcases left with h | h
      · left
        rwa [prev, getLastD_eq_getLast?, hx] at h
      · exact .inr h
    intro x hx y hy
    have ex : l.getLastD c = x := by
      simpa [getLast?_append, getLast?_cons, getLastD_eq_getLast?] using hx
    have ey : F.next = y := by
      rw [next, headD_eq_head?_getD, hy]
      rfl
    rwa [ex, ey] at right
  · exact out.others r (.inr hr)

theorem Outer.plug_used (out : F.Outer) {f : ℕ → UInt8} : Coalesced (F.plug [.used s f]) :=
  out.plug (isChain_singleton _) (.inr (by simp)) (.inl (by simp))

end Focus

/-- The memory holds the regions `rs`, and their free chunks are the listed ones. -/
structure Tiled (nodelist : ℕ) (m : Memory) (rs : List Region) : Prop where
  lay : Layout nodelist rs
  flux : Flux nodelist m rs ∅

theorem Flux.list {x s : ℕ} (flux : Flux nodelist m (F.plug mid) {x})
    (lay : Layout nodelist (F.plug mid)) (hx : (x, .free s) ∈ placed F.lo mid) :
    ∃ m', mmAddfreechunk nodelist m x = some m' ∧ Tiled nodelist m' (F.plug mid) := by
  rw [← insert_empty_eq] at flux
  obtain ⟨m', run, listed⟩ := flux.addfreechunk lay (at_plug.2 (.inr hx)) (by simp)
  exact ⟨m', run, lay, listed⟩

end NuttxRtos.Heap

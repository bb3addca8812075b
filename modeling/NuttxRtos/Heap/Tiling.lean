import NuttxRtos.Heap.Model
import Mathlib.Data.List.Chain

/-!
# Chunk tilings

A `Region` is a base address and the chunks between its two guards, a `Chunk` a size and the payload
it protects when it is allocated. Addresses follow from the sizes (`placed`), so a list of chunks
tiles its region by construction. `At rs x c` says that chunk `c` starts at address `x`, `Layout`
that the regions are well placed.

Every operation rewrites a short window of one region. A `Focus` is a heap with such a window cut
out, `Focus.plug` puts a list of chunks into it.
-/

namespace NuttxRtos.Heap

open List

/-- A chunk: its size with the header and, when allocated, the bytes of its payload. -/
structure Chunk where
  size : ℕ
  data : Option (ℕ → UInt8)

abbrev Chunk.free (s : ℕ) : Chunk := ⟨s, none⟩

abbrev Chunk.used (s : ℕ) (f : ℕ → UInt8) : Chunk := ⟨s, some f⟩

/-- The contribution of the allocation mark to the `preceding` word. -/
def Chunk.tag (c : Chunk) : ℕ := if c.data.isSome then 2 ^ 31 else 0

@[simp] theorem Chunk.tag_free (s : ℕ) : (Chunk.free s).tag = 0 := rfl

@[simp] theorem Chunk.tag_used (s : ℕ) (f : ℕ → UInt8) : (Chunk.used s f).tag = 2 ^ 31 := rfl

theorem Chunk.tag_eq (c : Chunk) : c.tag = 0 ∧ c.data = none ∨ c.tag = 2 ^ 31 ∧ c.data ≠ none := by
  rcases c with ⟨s, _ | f⟩
  · exact .inl ⟨rfl, rfl⟩
  · exact .inr ⟨rfl, by simp⟩

/-- The allocated node at each end of a region. -/
def guard : Chunk := ⟨8, some fun _ => 0⟩

@[simp] theorem guard_size : guard.size = 8 := rfl

@[simp] theorem guard_tag : guard.tag = 2 ^ 31 := rfl

/-- The number of bytes that a list of chunks covers. -/
def extent (l : List Chunk) : ℕ := (l.map Chunk.size).sum

def lastSize (p : ℕ) : List Chunk → ℕ
  | [] => p
  | c :: l => lastSize c.size l

def placed (a : ℕ) : List Chunk → List (ℕ × Chunk)
  | [] => []
  | c :: l => (a, c) :: placed (a + c.size) l

@[simp] theorem extent_nil : extent [] = 0 := rfl

@[simp] theorem extent_cons (c : Chunk) (l : List Chunk) :
    extent (c :: l) = c.size + extent l := by simp [extent]

@[simp] theorem extent_append (l l' : List Chunk) : extent (l ++ l') = extent l + extent l' := by
  simp [extent]

@[simp] theorem lastSize_nil (p : ℕ) : lastSize p [] = p := rfl

@[simp] theorem lastSize_cons (p : ℕ) (c : Chunk) (l : List Chunk) :
    lastSize p (c :: l) = lastSize c.size l := rfl

@[simp] theorem lastSize_append (p : ℕ) (l l' : List Chunk) :
    lastSize p (l ++ l') = lastSize (lastSize p l) l' := by
  induction l generalizing p with
  | nil => rfl
  | cons c l ih => exact ih c.size

theorem lastSize_le (p : ℕ) (l : List Chunk) : lastSize p l ≤ max p (extent l) := by
  induction l generalizing p with
  | nil => simp
  | cons c l ih =>
    have := ih c.size
    simp only [lastSize_cons, extent_cons]
    omega

@[simp] theorem placed_nil (a : ℕ) : placed a [] = [] := rfl

@[simp] theorem placed_cons (a : ℕ) (c : Chunk) (l : List Chunk) :
    placed a (c :: l) = (a, c) :: placed (a + c.size) l := rfl

@[simp] theorem placed_append (a : ℕ) (l l' : List Chunk) :
    placed a (l ++ l') = placed a l ++ placed (a + extent l) l' := by
  induction l generalizing a with
  | nil => simp
  | cons c l ih => simp [ih, add_assoc]

variable {x : ℕ} {c : Chunk} {l : List Chunk}

theorem placed_bounds {a : ℕ} (h : (x, c) ∈ placed a l) :
    c ∈ l ∧ a ≤ x ∧ x + c.size ≤ a + extent l := by
  induction l generalizing a with
  | nil => simp at h
  | cons d l ih =>
    rcases mem_cons.1 h with h | h
    · obtain ⟨rfl, rfl⟩ := Prod.mk.inj h
      simp
    obtain ⟨hc, hx, hs⟩ := ih h
    rw [extent_cons]
    exact ⟨mem_cons_of_mem _ hc, by omega, by omega⟩

theorem placed_apart {a y : ℕ} {d : Chunk} (hx : (x, c) ∈ placed a l)
    (hy : (y, d) ∈ placed a l) : (x, c) = (y, d) ∨ x + c.size ≤ y ∨ y + d.size ≤ x := by
  induction l generalizing a with
  | nil => simp at hx
  | cons e l ih =>
    rcases mem_cons.1 hx with ex | hx <;> rcases mem_cons.1 hy with ey | hy
    · exact .inl (ex.trans ey.symm)
    · obtain ⟨rfl, rfl⟩ := Prod.mk.inj ex
      have := placed_bounds hy
      omega
    · obtain ⟨rfl, rfl⟩ := Prod.mk.inj ey
      have := placed_bounds hx
      omega
    · exact ih hx hy

theorem placed_split {a : ℕ} (h : (x, c) ∈ placed a l) :
    ∃ pre post, l = pre ++ c :: post ∧ x = a + extent pre := by
  induction l generalizing a with
  | nil => simp at h
  | cons d l ih =>
    rcases mem_cons.1 h with h | h
    · obtain ⟨rfl, rfl⟩ := Prod.mk.inj h
      exact ⟨[], l, rfl, by simp⟩
    · obtain ⟨pre, post, rfl, rfl⟩ := ih h
      exact ⟨d :: pre, post, rfl, by simp [add_assoc]⟩

/-! ## Regions -/

/-- A region: its base address and the chunks between its guards. -/
structure Region where
  base : ℕ
  mids : List Chunk

namespace Region

def chunks (r : Region) : List Chunk := guard :: (r.mids ++ [guard])

def last (r : Region) : ℕ := r.base + 8 + extent r.mids

def stop (r : Region) : ℕ := r.base + 16 + extent r.mids

/-- The shape of a region: aligned chunks whose sizes leave the tag bit of a header free. -/
structure Ok (r : Region) : Prop where
  aligned : 16 ∣ r.base
  sizes : ∀ c ∈ r.mids, 16 ∣ c.size ∧ 16 ≤ c.size
  tagged : extent r.mids < 2 ^ 31
  fits : r.stop < 2 ^ 32

end Region

def Region.Apart (r r' : Region) : Prop := r.stop ≤ r'.base ∨ r'.stop ≤ r.base

instance : Std.Symm Region.Apart := ⟨fun _ _ h => h.symm⟩

def At (rs : List Region) (x : ℕ) (c : Chunk) : Prop :=
  ∃ r ∈ rs, (x, c) ∈ placed (r.base + 8) r.mids

def headBytes : ℕ := 304

/-- The regions and the bucket heads are well placed in the address space. -/
structure Layout (nodelist : ℕ) (rs : List Region) : Prop where
  ok : ∀ r ∈ rs, r.Ok
  disjoint : rs.Pairwise Region.Apart
  nodelist_pos : 0 < nodelist
  nodelist_fits : nodelist + headBytes < 2 ^ 32
  apart : ∀ r ∈ rs, r.stop ≤ nodelist ∨ nodelist + headBytes ≤ r.base

theorem extent_dvd (h : ∀ c ∈ l, 16 ∣ c.size ∧ 16 ≤ c.size) : 16 ∣ extent l := by
  induction l with
  | nil => simp
  | cons c l ih =>
    exact Nat.dvd_add (h c (by simp)).1 (ih fun d hd => h d (mem_cons_of_mem _ hd))

theorem Region.Ok.bounds {r : Region} (ok : r.Ok) (h : (x, c) ∈ placed (r.base + 8) r.mids) :
    r.base + 8 ≤ x ∧ x + c.size + 8 ≤ r.stop ∧ 16 ≤ c.size ∧ c.size < 2 ^ 31 ∧
      x % 16 = 8 ∧ c.size % 16 = 0 := by
  obtain ⟨hc, hx, hs⟩ := placed_bounds h
  obtain ⟨pre, post, hm, rfl⟩ := placed_split h
  have hd : 16 ∣ extent pre := extent_dvd fun d hd => ok.sizes d (by simp [hm, hd])
  have hb := ok.aligned
  have hsz := ok.sizes c hc
  have ht := ok.tagged
  unfold Region.stop
  omega

section Places

variable {nodelist : ℕ} {rs : List Region} (lay : Layout nodelist rs)

include lay

theorem Layout.bounds (h : At rs x c) :
    ∃ r ∈ rs, r.base + 8 ≤ x ∧ x + c.size + 8 ≤ r.stop ∧ r.stop < 2 ^ 32 ∧ 16 ≤ c.size ∧
      c.size < 2 ^ 31 ∧ x % 16 = 8 ∧ c.size % 16 = 0 := by
  obtain ⟨r, hr, hx⟩ := h
  have := (lay.ok r hr).bounds hx
  have := (lay.ok r hr).fits
  exact ⟨r, hr, by omega⟩

theorem Layout.chunk_bounds (h : At rs x c) :
    8 ≤ x ∧ x + c.size + 8 < 2 ^ 32 ∧ 16 ≤ c.size ∧ c.size < 2 ^ 31 ∧ x % 16 = 8 ∧
      c.size % 16 = 0 := by
  obtain ⟨r, -, h⟩ := lay.bounds h
  omega

theorem Layout.chunks_apart {y : ℕ} {d : Chunk} (hx : At rs x c) (hy : At rs y d) :
    (x, c) = (y, d) ∨ x + c.size ≤ y ∨ y + d.size ≤ x := by
  obtain ⟨r, hr, hx⟩ := hx
  obtain ⟨r', hr', hy⟩ := hy
  by_cases same : r = r'
  · subst same
    exact placed_apart hx hy
  have far := lay.disjoint.forall hr hr' same
  unfold Region.Apart at far
  have := (lay.ok r hr).bounds hx
  have := (lay.ok r' hr').bounds hy
  omega

omit lay in
theorem Layout.apart_other {before after : List Region} {r r' : Region}
    (lay : Layout nodelist (before ++ r :: after)) (hr' : r' ∈ before ∨ r' ∈ after) :
    Region.Apart r' r := by
  obtain ⟨-, disj₂, disj₃⟩ := pairwise_append.1 lay.disjoint
  rcases hr' with hr' | hr'
  · exact disj₃ r' hr' r mem_cons_self
  · exact ((pairwise_cons.1 disj₂).1 r' hr').symm

omit lay in
theorem Layout.replace {before after : List Region} {r r' : Region}
    (lay : Layout nodelist (before ++ r :: after)) (ok : r'.Ok)
    (far : ∀ q, q ∈ before ∨ q ∈ after → Region.Apart q r')
    (apart : r'.stop ≤ nodelist ∨ nodelist + headBytes ≤ r'.base) :
    Layout nodelist (before ++ r' :: after) := by
  have cases {P : Region → Prop} (here : P r') (rest : ∀ q ∈ before ++ r :: after, P q) :
      ∀ q ∈ before ++ r' :: after, P q := by
    simp only [mem_append, mem_cons] at rest ⊢
    rintro q (hq | rfl | hq)
    · exact rest q (.inl hq)
    · exact here
    · exact rest q (.inr (.inr hq))
  obtain ⟨disj₁, disj₂, disj₃⟩ := pairwise_append.1 lay.disjoint
  refine ⟨cases ok lay.ok, pairwise_append.2 ⟨disj₁, pairwise_cons.2
    ⟨fun q hq => (far q (.inr hq)).symm, (pairwise_cons.1 disj₂).2⟩, fun q hq q' hq' => ?_⟩,
    lay.nodelist_pos, lay.nodelist_fits, cases apart lay.apart⟩
  rcases mem_cons.1 hq' with rfl | hq'
  · exact far q (.inl hq)
  · exact disj₃ q hq q' (mem_cons_of_mem _ hq')

theorem Layout.nodelist_apart (h : At rs x c) :
    x + c.size ≤ nodelist ∨ nodelist + headBytes ≤ x := by
  obtain ⟨r, hr, hx⟩ := h
  have := lay.apart r hr
  have := (lay.ok r hr).bounds hx
  omega

end Places

/-! ## Windows -/

/-- A heap with a window cut out of one region: the regions before and after it, the base of the
region, and its chunks before and behind the window. -/
structure Focus where
  before : List Region
  after : List Region
  base : ℕ
  pre : List Chunk
  post : List Chunk

namespace Focus

variable (F : Focus)

def region (mid : List Chunk) : Region := ⟨F.base, F.pre ++ mid ++ F.post⟩

def plug (mid : List Chunk) : List Region := F.before ++ F.region mid :: F.after

def lo : ℕ := F.base + 8 + extent F.pre

def prevSize : ℕ := lastSize 8 F.pre

def next : Chunk := F.post.headD guard

def Rest (hi x : ℕ) (c : Chunk) : Prop :=
  (∃ r ∈ F.before ++ F.after, (x, c) ∈ placed (r.base + 8) r.mids) ∨
    (x, c) ∈ placed (F.base + 8) F.pre ∨ (x, c) ∈ placed hi F.post

def widenNext (post : List Chunk) : Focus := { F with post := post }

def widenPrev (pre : List Chunk) : Focus := { F with pre := pre }

def narrow (c : Chunk) : Focus := { F with post := c :: F.post }

def narrowPrev (c : Chunk) : Focus := { F with pre := F.pre ++ [c] }

variable {F} {nodelist : ℕ} {mid mid' : List Chunk}

theorem plug_narrowPrev : (F.narrowPrev c).plug mid = F.plug (c :: mid) := by
  simp [plug, region, narrowPrev]

@[simp] theorem lo_narrowPrev : (F.narrowPrev c).lo = F.lo + c.size := by
  simp [lo, narrowPrev, add_assoc]

theorem plug_narrow : (F.narrow c).plug mid = F.plug (mid ++ [c]) := by
  simp [plug, region, narrow]

@[simp] theorem lo_narrow : (F.narrow c).lo = F.lo := rfl

variable {post : List Chunk}

theorem plug_widenNext (h : F.post = c :: post) :
    (F.widenNext post).plug (mid ++ [c]) = F.plug mid := by
  simp [plug, region, widenNext, h]

variable {pre : List Chunk}

theorem plug_widenPrev (h : F.pre = pre ++ [c]) :
    (F.widenPrev pre).plug (c :: mid) = F.plug mid := by
  simp [plug, region, widenPrev, h]

@[simp] theorem lo_widenNext : (F.widenNext post).lo = F.lo := rfl

theorem lo_widenPrev (h : F.pre = pre ++ [c]) : (F.widenPrev pre).lo + c.size = F.lo := by
  simp only [lo, widenPrev, h, extent_append, extent_cons, extent_nil]
  omega

theorem region_mem : F.region mid ∈ F.plug mid := by simp [plug]

@[simp] theorem region_base : (F.region mid).base = F.base := rfl

theorem mem_region : (x, c) ∈ placed (F.base + 8) (F.region mid).mids ↔
    (x, c) ∈ placed (F.base + 8) F.pre ∨ (x, c) ∈ placed F.lo mid ∨
      (x, c) ∈ placed (F.lo + extent mid) F.post := by
  simp only [region, lo, placed_append, mem_append, extent_append, add_assoc, or_assoc]

theorem at_plug :
    At (F.plug mid) x c ↔ F.Rest (F.lo + extent mid) x c ∨ (x, c) ∈ placed F.lo mid := by
  simp only [At, plug, Rest, mem_append, mem_cons]
  constructor
  · rintro ⟨r, hr | rfl | hr, h⟩
    · exact .inl (.inl ⟨r, .inl hr, h⟩)
    · rcases mem_region.1 h with h | h | h
      · exact .inl (.inr (.inl h))
      · exact .inr h
      · exact .inl (.inr (.inr h))
    · exact .inl (.inl ⟨r, .inr hr, h⟩)
  rintro ((⟨r, hr | hr, h⟩ | h | h) | h)
  · exact ⟨r, .inl hr, h⟩
  · exact ⟨r, .inr (.inr hr), h⟩
  · exact ⟨_, .inr (.inl rfl), mem_region.2 (.inl h)⟩
  · exact ⟨_, .inr (.inl rfl), mem_region.2 (.inr (.inr h))⟩
  · exact ⟨_, .inr (.inl rfl), mem_region.2 (.inr (.inl h))⟩

theorem exists_plug {rs : List Region} (h : At rs x c) :
    ∃ F : Focus, rs = F.plug [c] ∧ F.lo = x := by
  obtain ⟨⟨base, mids⟩, hr, hx⟩ := h
  obtain ⟨before, after, rfl⟩ := append_of_mem hr
  obtain ⟨pre, post, hm, rfl⟩ := placed_split hx
  simp only at hm
  exact ⟨⟨before, after, base, pre, post⟩, by simp [plug, region, hm], rfl⟩

theorem region_stop (same : extent mid' = extent mid) :
    (F.region mid').stop = (F.region mid).stop := by
  simp [region, Region.stop, same]

theorem layout_plug (lay : Layout nodelist (F.plug mid)) (same : extent mid' = extent mid)
    (sizes : ∀ c ∈ mid', 16 ∣ c.size ∧ 16 ≤ c.size) : Layout nodelist (F.plug mid') := by
  have stop := region_stop (F := F) same
  have ok := lay.ok _ region_mem
  apply lay.replace
  · refine ⟨ok.aligned, ?_, ?_, stop ▸ ok.fits⟩
    · intro c hc
      simp only [region, mem_append] at hc
      rcases hc with (hc | hc) | hc
      · exact ok.sizes c (by simp [region, hc])
      · exact sizes c hc
      · exact ok.sizes c (by simp [region, hc])
    have := ok.tagged
    simp only [region, extent_append, same] at this ⊢
    exact this
  · intro q hq
    have := lay.apart_other hq
    rwa [Region.Apart, stop]
  rw [stop]
  exact lay.apart _ region_mem

theorem window_bounds (lay : Layout nodelist (F.plug mid)) :
    F.base + 8 ≤ F.lo ∧ F.lo + extent mid + 8 ≤ (F.region mid).stop ∧
      (F.region mid).stop < 2 ^ 32 ∧ F.lo % 16 = 8 ∧ extent mid < 2 ^ 31 ∧ F.prevSize < 2 ^ 31 := by
  have ok := lay.ok _ region_mem
  have fits := ok.fits
  have tagged := ok.tagged
  have aligned : 16 ∣ F.base := ok.aligned
  have last := lastSize_le 8 F.pre
  have pre16 : 16 ∣ extent F.pre := extent_dvd fun c hc => ok.sizes c (by simp [region, hc])
  simp only [region, Region.stop, extent_append, lo, prevSize] at *
  omega

theorem bounds₁ (lay : Layout nodelist (F.plug [c])) :
    8 ≤ F.lo ∧ F.lo + c.size + 8 < 2 ^ 32 ∧ F.lo % 16 = 8 ∧ c.size % 16 = 0 ∧ 16 ≤ c.size ∧
      c.size < 2 ^ 31 ∧ F.prevSize < 2 ^ 31 := by
  have bounds := window_bounds lay
  have := (lay.ok _ region_mem).sizes c (by simp [region])
  simp only [extent_cons, extent_nil] at bounds
  omega

theorem bounds₂ {d : Chunk} (lay : Layout nodelist (F.plug [c, d])) :
    8 ≤ F.lo ∧ F.lo + c.size + d.size + 8 < 2 ^ 32 ∧ F.lo % 16 = 8 ∧ c.size % 16 = 0 ∧
      d.size % 16 = 0 ∧ 16 ≤ c.size ∧ 16 ≤ d.size ∧ c.size + d.size < 2 ^ 31 ∧
      F.prevSize < 2 ^ 31 := by
  have bounds := window_bounds lay
  have := (lay.ok _ region_mem).sizes c (by simp [region])
  have := (lay.ok _ region_mem).sizes d (by simp [region])
  simp only [extent_cons, extent_nil] at bounds
  omega

theorem rest_apart (lay : Layout nodelist (F.plug mid))
    (h : F.Rest (F.lo + extent mid) x c) : x + c.size ≤ F.lo ∨ F.lo + extent mid ≤ x := by
  rcases h with ⟨r, hr, h⟩ | h | h
  · have far := lay.apart_other (mem_append.1 hr)
    have hr' : r ∈ F.plug mid := by
      simp only [plug, mem_append, mem_cons] at hr ⊢
      tauto
    have := (lay.ok r hr').bounds h
    have := window_bounds lay
    simp only [Region.Apart, region_base] at far
    omega
  · have := placed_bounds h
    simp only [lo]
    omega
  · exact .inr (placed_bounds h).2.1

end Focus

end NuttxRtos.Heap

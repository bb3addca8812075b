import NuttxRtos.Heap.Tiling
import Mathlib.Data.List.Nodup
import Mathlib.Data.List.Perm.Subperm

/-!
# Headers and the free list in memory

`Headers` relates the header words and the protected payloads in memory to a list of chunks, and
`Listed` relates the `mm_nodelist` chain to the free chunks. Between two writes of an operation the
chain may lack some free chunks; those are the `loose` ones, and `Flux` is the invariant with a set
of loose chunks. `Flux.unlink` and `Flux.addfreechunk` move a chunk into that set and out of it.
-/

namespace NuttxRtos.Heap

open List Prod

open Function (forall_update_iff update update_eq_self update_of_ne update_self)

open Memory Word

/-! ## Headers -/

/-- The header at `a` of chunk `c` behind a chunk of `p` bytes, and the payload it protects. -/
structure Header (m : Memory) (a p : ℕ) (c : Chunk) : Prop where
  sizeWord : size m a = c.size
  precedingWord : preceding m a = p + c.tag
  payload : ∀ f, c.data = some f → ∀ i < c.size - 8, m (a + 8 + i) = f i

def Headers (m : Memory) (a p : ℕ) : List Chunk → Prop
  | [] => True
  | c :: l => Header m a p c ∧ Headers m (a + c.size) c.size l

variable {m m' : Memory}

@[simp] theorem headers_nil (a p : ℕ) : Headers m a p [] := trivial

variable {c : Chunk} {l : List Chunk}

variable {a p x : ℕ} {rs : List Region} {loose : Set ℕ}

@[simp] theorem headers_cons :
    Headers m a p (c :: l) ↔ Header m a p c ∧ Headers m (a + c.size) c.size l := .rfl

theorem headers_append {l' : List Chunk} : Headers m a p (l ++ l') ↔
    Headers m a p l ∧ Headers m (a + extent l) (lastSize p l) l' := by
  induction l generalizing a p with
  | nil => simp
  | cons c l ih => simp [ih, and_assoc, add_assoc]

/-- The bytes that a chunk's header and protected payload occupy. -/
def Owned (x : ℕ) (c : Chunk) (b : ℕ) : Prop :=
  x ≤ b ∧ b < x + 8 ∨ c.data ≠ none ∧ x + 8 ≤ b ∧ b < x + c.size

theorem Header.congr (h : Header m a p c) (same : ∀ b, Owned a c b → m' b = m b) :
    Header m' a p c := by
  refine ⟨?_, ?_, fun f hf i hi => ?_⟩
  · rw [← h.sizeWord]
    exact load32_congr fun i hi => same _ (.inl (by omega))
  · rw [← h.precedingWord]
    exact load32_congr fun i hi => same _ (.inl (by omega))
  · rw [← h.payload f hf i hi]
    exact same _ (.inr ⟨by simp [hf], by omega⟩)

theorem Headers.congr (h : Headers m a p l)
    (same : ∀ x c, (x, c) ∈ placed a l → ∀ b, Owned x c b → m' b = m b) : Headers m' a p l := by
  induction l generalizing a p with
  | nil => trivial
  | cons c l ih =>
    refine ⟨h.1.congr fun b hb => same a c (by simp) b hb, ih h.2 fun x d hx b hb => ?_⟩
    exact same x d (by simp [hx]) b hb

theorem Headers.get (h : Headers m a p l) (hx : (x, c) ∈ placed a l) : ∃ q, Header m x q c := by
  obtain ⟨pre, post, rfl, rfl⟩ := placed_split hx
  exact ⟨_, (headers_append.1 h).2.1⟩

/-! ## Bucket indices -/

theorem size2ndxLoop_le (fuel : ℕ) {bytes k : ℕ} (ndx : ℕ) (h : bytes < 2 ^ (k + 1)) :
    size2ndxLoop fuel bytes ndx ≤ ndx + k := by
  induction fuel generalizing bytes ndx k with
  | zero => simp [size2ndxLoop]
  | succ fuel ih =>
    rw [size2ndxLoop]
    split_ifs with hb
    · cases k with
      | zero => omega
      | succ k =>
        have half : bytes >>> 1 < 2 ^ (k + 1) := by
          omega
        have := ih (ndx + 1) half
        omega
    · omega

theorem mmSize2ndx_lt (bytes : ℕ) : mmSize2ndx bytes < 19 := by
  unfold mmSize2ndx
  split_ifs with h
  · decide
  have small : bytes < 2 ^ 22 := Nat.lt_of_not_le h
  have shifted : bytes >>> mmMinShift < 2 ^ (17 + 1) := by
    simp only [mmMinShift]
    omega
  have := size2ndxLoop_le 32 0 shifted
  omega

/-! ## The chain of the free list -/

/-- The free nodes of each bucket: address and size. -/
abbrev Buckets := ℕ → List (ℕ × ℕ)

def bucketSeg (nodelist : ℕ) (B : Buckets) (i : ℕ) : List ℕ :=
  bucketHead nodelist i :: (B i).map fst

def chain (nodelist : ℕ) (B : Buckets) : List ℕ := (List.range 19).flatMap (bucketSeg nodelist B)

def chainBefore (nodelist : ℕ) (B : Buckets) (i : ℕ) : List ℕ :=
  (List.range i).flatMap (bucketSeg nodelist B)

def chainAfter (nodelist : ℕ) (B : Buckets) (i : ℕ) : List ℕ :=
  (List.range' (i + 1) (18 - i)).flatMap (bucketSeg nodelist B)

variable {nodelist : ℕ} {B : Buckets} {i : ℕ}

theorem chain_split (hi : i < 19) : chain nodelist B =
    chainBefore nodelist B i ++
      bucketHead nodelist i :: ((B i).map fst ++ chainAfter nodelist B i) := by
  have split : List.range 19 = List.range i ++ i :: List.range' (i + 1) (18 - i) := by
    rw [range_eq_range', range_eq_range', ← range'_succ, show 18 - i + 1 = 19 - i by omega]
    have := range'_append_1 (s := 0) (m := i) (n := 19 - i)
    rw [Nat.zero_add, Nat.add_sub_cancel' hi.le] at this
    exact this.symm
  rw [chain, split, flatMap_append, flatMap_cons]
  rfl

variable {nodes : List (ℕ × ℕ)}

theorem chain_update (hi : i < 19) (nodes : List (ℕ × ℕ)) :
    chain nodelist (update B i nodes) = chainBefore nodelist B i ++
      bucketHead nodelist i :: (nodes.map fst ++ chainAfter nodelist B i) := by
  have others : ∀ j, j ≠ i → bucketSeg nodelist (update B i nodes) j = bucketSeg nodelist B j :=
    fun j ne => by rw [bucketSeg, update_of_ne ne, bucketSeg]
  rw [chain_split hi, update_self, chainBefore, chainAfter,
    flatMap_congr fun j hj => others j (by simp at hj; omega),
    flatMap_congr fun j hj => others j (by simp at hj; omega), ← chainBefore, ← chainAfter]

/-- The chain when the rest of a bucket behind the node `p` is replaced. -/
theorem chain_cut (hi : i < 19) {b₁ : List (ℕ × ℕ)} {l : List ℕ} {p : ℕ} (cut :
      chainBefore nodelist B i ++ bucketHead nodelist i :: b₁.map fst = l ++ [p])
    (b : List (ℕ × ℕ)) : chain nodelist (update B i (b₁ ++ b)) =
      l ++ p :: (b.map fst ++ chainAfter nodelist B i) := by
  rw [chain_update hi]
  simpa using congrArg (· ++ (b.map fst ++ chainAfter nodelist B i)) cut

theorem chainAfter_cases (nodelist : ℕ) (B : Buckets) (hi : i < 19) : chainAfter nodelist B i = [] ∨
    ∃ j < 19, ∃ l, chainAfter nodelist B i = bucketHead nodelist j :: l := by
  rcases lt_or_ge i 18 with h | h
  · rw [chainAfter, show 18 - i = (17 - i) + 1 by omega, range'_succ, flatMap_cons,
      bucketSeg, cons_append]
    exact .inr ⟨i + 1, by omega, _, rfl⟩
  · rw [chainAfter, show 18 - i = 0 by omega]
    exact .inl rfl

theorem mem_chain : x ∈ chain nodelist B ↔
    ∃ i < 19, x = bucketHead nodelist i ∨ ∃ s, (x, s) ∈ B i := by
  simp [chain, bucketSeg]

/-! ## The invariant -/

/-- The chain `B` holds exactly the free chunks that are not `loose`, each in its bucket and in
the order of the sizes. -/
structure Listed (nodelist : ℕ) (m : Memory) (rs : List Region) (loose : Set ℕ) (B : Buckets) :
    Prop where
  heads : ∀ i < 19, size m (bucketHead nodelist i) = 0
  links : freenode.Links m (chain nodelist B)
  nodup : (chain nodelist B).Nodup
  sorted : ∀ i, (B i).Pairwise fun n n' => n.2 ≤ n'.2
  index : ∀ i, ∀ n ∈ B i, mmSize2ndx n.2 = i
  nodes : ∀ x s, (x, s) ∈ B (mmSize2ndx s) ↔ At rs x (.free s) ∧ x ∉ loose

/-- The memory holds the regions `rs`, and all free chunks but the loose ones are listed. -/
structure Flux (nodelist : ℕ) (m : Memory) (rs : List Region) (loose : Set ℕ) : Prop where
  headers : ∀ r ∈ rs, Headers m r.base 0 r.chunks
  listed : ∃ B, Listed nodelist m rs loose B

theorem Flux.header (flux : Flux nodelist m rs loose) (h : At rs x c) : ∃ p, Header m x p c := by
  obtain ⟨r, hr, hx⟩ := h
  refine (flux.headers r hr).get ?_
  simp [Region.chunks, hx]

/-- The nodes that may stand on the chain. -/
def Linkable (nodelist : ℕ) (rs : List Region) (x : ℕ) : Prop :=
  (∃ i < 19, x = bucketHead nodelist i) ∨ ∃ s, At rs x (.free s)

section Linkable

variable {rs : List Region} (lay : Layout nodelist rs)

variable {x : ℕ}

theorem chunk_cases {r : Region} (hr : r ∈ rs) (h : (x, c) ∈ placed r.base r.chunks) :
    At rs x c ∨ c = guard ∧ (x = r.base ∨ x + 8 = r.stop) := by
  simp only [Region.chunks, placed_cons, placed_append, placed_nil, mem_cons,
    mem_append, guard_size, not_mem_nil, or_false, mk.injEq] at h
  rcases h with ⟨rfl, rfl⟩ | h | ⟨rfl, rfl⟩
  · exact .inr ⟨rfl, .inl rfl⟩
  · exact .inl ⟨r, hr, h⟩
  refine .inr ⟨rfl, .inr ?_⟩
  unfold Region.stop
  omega

include lay

theorem Linkable.addr (h : Linkable nodelist rs x) : 0 < x ∧ x + 16 < 2 ^ 32 := by
  rcases h with ⟨i, hi, rfl⟩ | ⟨s, h⟩
  · have := lay.nodelist_pos
    have := lay.nodelist_fits
    simp only [bucketHead, sizeofMmFreenode, headBytes] at *
    omega
  have := lay.chunk_bounds h
  omega

theorem Linkable.apart {y : ℕ} (hx : Linkable nodelist rs x) (hy : Linkable nodelist rs y)
    (ne : x ≠ y) : freenode.Apart x y := by
  simp only [LinkFields.Apart, freenode]
  rcases hx with ⟨i, hi, rfl⟩ | ⟨s, hx⟩ <;> rcases hy with ⟨j, hj, rfl⟩ | ⟨t, hy⟩
  · simp only [bucketHead, sizeofMmFreenode] at *
    omega
  · have far := lay.nodelist_apart hy
    have := lay.chunk_bounds hy
    simp only [bucketHead, sizeofMmFreenode, headBytes] at *
    omega
  · have far := lay.nodelist_apart hx
    have := lay.chunk_bounds hx
    simp only [bucketHead, sizeofMmFreenode, headBytes] at *
    omega
  have := lay.chunk_bounds hx
  have := lay.chunk_bounds hy
  rcases lay.chunks_apart hx hy with e | e
  · exact absurd (congrArg fst e) ne
  · simp only at *
    omega

section

variable {l : List ℕ} (hl : ∀ y ∈ l, Linkable nodelist rs y)

include hl

/-- Link words of listed nodes never lie in a header or in a protected payload. -/
theorem Layout.owned_linkBytes {r : Region} (hr : r ∈ rs) {x : ℕ}
    (h : (x, c) ∈ placed r.base r.chunks) {b : ℕ} (hb : Owned x c b) :
    ¬ freenode.LinkBytes l b := by
  rintro ⟨y, hy, hyb⟩
  have hyb : y + 8 ≤ b ∧ b < y + 16 := by
    simp only [freenode] at hyb
    omega
  have inside : r.base ≤ b ∧ b < r.stop := by
    have := placed_bounds h
    have e : extent r.chunks = 16 + extent r.mids := by
      simp only [Region.chunks, extent_cons, extent_append, guard_size, extent_nil]
      omega
    unfold Region.stop
    rcases chunk_cases hr h with h | ⟨rfl, -⟩
    · have := lay.chunk_bounds h
      rcases hb with hb | hb <;> omega
    · rcases hb with hb | hb <;> simp only [guard_size] at * <;> omega
  rcases hl y hy with ⟨i, hi, rfl⟩ | ⟨s, hys⟩
  · have := lay.apart r hr
    simp only [bucketHead, sizeofMmFreenode, headBytes] at *
    omega
  rcases chunk_cases hr h with hx | ⟨rfl, hx⟩
  · have := lay.chunk_bounds hys
    rcases lay.chunks_apart hx hys with e | e
    · obtain ⟨rfl, rfl⟩ := mk.inj e
      rcases hb with hb | hb
      · omega
      · exact hb.1 rfl
    · simp only at *
      rcases hb with hb | hb <;> omega
  -- a guard: the free chunk lies between the guards of its own region
  obtain ⟨r', hr', hy'⟩ := hys
  have bound := (lay.ok r' hr').bounds hy'
  by_cases same : r = r'
  · subst same
    rcases hb with hb | hb
    · omega
    · simp only [guard_size] at hb
      omega
  have far := lay.disjoint.forall hr hr' same
  simp only [Region.Apart] at far
  omega

theorem headers_sameOff (same : SameOff (freenode.LinkBytes l) m m')
    (h : ∀ r ∈ rs, Headers m r.base 0 r.chunks) : ∀ r ∈ rs, Headers m' r.base 0 r.chunks := by
  intro r hr
  exact (h r hr).congr fun x c hx b hb => same b (lay.owned_linkBytes hl hr hx hb)

theorem heads_sameOff (same : SameOff (freenode.LinkBytes l) m m')
    (h : ∀ i < 19, size m (bucketHead nodelist i) = 0) :
    ∀ i < 19, size m' (bucketHead nodelist i) = 0 := by
  intro i hi
  rw [← h i hi]
  refine load32_sameOff same fun j hj => ?_
  rintro ⟨y, hy, hyb⟩
  have hyb : y + 8 ≤ bucketHead nodelist i + j ∧ bucketHead nodelist i + j < y + 16 := by
    simp only [freenode] at hyb
    omega
  by_cases e : y = bucketHead nodelist i
  · omega
  have far := (hl y hy).apart lay (.inl ⟨i, hi, rfl⟩) e
  simp only [LinkFields.Apart, freenode] at far
  omega

end

end Linkable

theorem Listed.node (ls : Listed nodelist m rs loose B) {i : ℕ} {n : ℕ × ℕ} (hn : n ∈ B i) :
    At rs n.1 (.free n.2) ∧ n.1 ∉ loose :=
  (ls.nodes n.1 n.2).1 (by rwa [ls.index i n hn])

theorem Listed.linkable (ls : Listed nodelist m rs loose B) (hx : x ∈ chain nodelist B) :
    Linkable nodelist rs x := by
  obtain ⟨i, hi, rfl | ⟨s, hs⟩⟩ := mem_chain.1 hx
  · exact .inl ⟨i, hi, rfl⟩
  · exact .inr ⟨s, (ls.node hs).1⟩

section

variable {rs : List Region} {loose : Set ℕ} (lay : Layout nodelist rs)
  (ls : Listed nodelist m rs loose B)

include lay ls

theorem Listed.apart : (chain nodelist B).Pairwise freenode.Apart :=
  List.Nodup.pairwise_of_forall_ne ls.nodup fun _ hx _ hy ne =>
    (ls.linkable hx).apart lay (ls.linkable hy) ne

theorem Listed.addr : ∀ x ∈ chain nodelist B, 0 < x ∧ x < 2 ^ 32 := by
  intro x hx
  have := (ls.linkable hx).addr lay
  omega

end

theorem Layout.at_unique (lay : Layout nodelist rs) {d : Chunk} (hc : At rs x c) (hd : At rs x d) :
    c = d := by
  have := lay.chunk_bounds hc
  have := lay.chunk_bounds hd
  rcases lay.chunks_apart hc hd with e | e
  · exact (mk.inj e).2
  · omega

/-! ## Taking a node off the list -/

section Edits

variable {rs : List Region} {loose : Set ℕ} {x s : ℕ} (lay : Layout nodelist rs)

include lay

theorem Flux.unlink (flux : Flux nodelist m rs loose) (hx : At rs x (.free s))
    (listed : x ∉ loose) : Flux nodelist (freenode.unlink m x) rs (insert x loose) := by
  obtain ⟨B, ls⟩ := flux.listed
  have hi := mmSize2ndx_lt s
  obtain ⟨b₁, b₂, split⟩ := append_of_mem ((ls.nodes x s).2 ⟨hx, listed⟩)
  -- the node has a predecessor: its bucket head at the latest
  obtain ⟨l, p, hp⟩ : ∃ l p, chainBefore nodelist B (mmSize2ndx s) ++
      bucketHead nodelist (mmSize2ndx s) :: b₁.map fst = l ++ [p] := by
    refine (eq_nil_or_concat' _).resolve_left ?_
    simp
  have old := chain_cut hi hp ((x, s) :: b₂)
  have new := chain_cut hi hp b₂
  rw [← split, update_eq_self, map_cons, cons_append] at old
  generalize b₂.map fst ++ chainAfter nodelist B (mmSize2ndx s) = after at old new
  have links := ls.links
  have far := ls.apart lay
  have addr := ls.addr lay
  have nodup := ls.nodup
  rw [old] at links far addr nodup
  have sub : (l ++ p :: after).Sublist (l ++ p :: x :: after) := by simp
  have same := LinkFields.unlink_sameOff links (by
    have := (pairwise_append.1 far).2.1
    exact (pairwise_cons.1 this).1 x (by simp))
  have linkable : ∀ y ∈ l ++ p :: after, Linkable nodelist rs y :=
    fun y hy => ls.linkable (old ▸ sub.subset hy)
  refine ⟨headers_sameOff lay linkable same flux.headers, update B (mmSize2ndx s) (b₁ ++ b₂), ?_⟩
  refine ⟨heads_sameOff lay linkable same ls.heads, new ▸ LinkFields.links_unlink links far addr,
    new ▸ nodup.sublist sub, (forall_update_iff B _).2 ⟨?_, fun i _ => ls.sorted i⟩,
    (forall_update_iff B fun i b => ∀ n ∈ b, mmSize2ndx n.2 = i).2
      ⟨fun n hn => ls.index _ n (by rw [split]; simp at hn ⊢; tauto), fun i _ => ls.index i⟩,
    fun y t => ?_⟩
  · exact (split ▸ ls.sorted (mmSize2ndx s)).sublist (by simp)
  simp only [Set.mem_insert_iff, not_or]
  rw [← and_assoc, and_right_comm, ← ls.nodes y t]
  have gone : x ∉ chain nodelist (update B (mmSize2ndx s) (b₁ ++ b₂)) := by
    rw [new, append_cons]
    rw [append_cons] at nodup
    exact (nodup_cons.1 (nodup_middle.1 nodup)).1
  by_cases e : mmSize2ndx t = mmSize2ndx s
  · have other : (y, t) ∈ b₁ ++ b₂ → y ≠ x := by
      rintro member rfl
      exact gone (mem_chain.2 ⟨_, hi, .inr ⟨t, by rwa [update_self]⟩⟩)
    rw [e, update_self, split, mem_append, mem_append, mem_cons, mk.injEq]
    rw [mem_append] at other
    tauto
  rw [update_of_ne e]
  refine ⟨fun h => ⟨h, ?_⟩, fun h => h.1⟩
  rintro rfl
  have := lay.at_unique ((ls.nodes y t).1 h).1 hx
  exact e (by rw [Chunk.mk.inj this |>.1])

end Edits

/-! ## Putting a node on the list -/

/-- The search loop stops behind the last node of the bucket that is smaller than `bytes`. -/
theorem addfreechunkLoop_spec (bytes : ℕ) {fuel prev : ℕ} {b : List (ℕ × ℕ)} {after : List ℕ}
    (links : freenode.Links m (prev :: (b.map fst ++ after)))
    (sizes : ∀ n ∈ b, n.1 ≠ 0 ∧ size m n.1 = n.2 ∧ n.2 ≠ 0)
    (stop : after.headD 0 = 0 ∨ size m (after.headD 0) = 0) (enough : b.length < fuel) :
    ∃ b₁ b₂ l p, b = b₁ ++ b₂ ∧ (∀ n ∈ b₁, n.2 < bytes) ∧ (∀ n ∈ b₂.head?, bytes ≤ n.2) ∧
      prev :: b₁.map fst = l ++ [p] ∧
      addfreechunkLoop m bytes fuel prev ((b.map fst ++ after).headD 0) =
        some (p, (b₂.map fst ++ after).headD 0) := by
  induction b generalizing prev fuel with
  | nil =>
    obtain ⟨fuel, rfl⟩ := Nat.exists_eq_add_of_lt enough
    refine ⟨[], [], [], prev, rfl, by simp, by simp, rfl, ?_⟩
    rw [addfreechunkLoop, if_neg]
    tauto
  | cons n b ih =>
    obtain ⟨fuel, rfl⟩ := Nat.exists_eq_add_of_lt enough
    obtain ⟨hn, hs, hz⟩ := sizes n (by simp)
    simp only [map_cons, cons_append, headD_cons, addfreechunkLoop, hs]
    by_cases small : n.2 < bytes
    · have tail : freenode.Links m (n.1 :: (b.map fst ++ after)) := links.tail
      obtain ⟨b₁, b₂, l, p, rfl, lt, ge, hp, hl⟩ := ih tail
        (fun n' hn' => sizes n' (mem_cons_of_mem _ hn'))
        (show b.length < (n :: b).length + fuel by simp; omega)
      refine ⟨n :: b₁, b₂, prev :: l, p, rfl, ?_, ge, by simp [hp], ?_⟩
      · simpa [small] using lt
      · rw [if_pos ⟨hn, hz, small⟩, tail.next_eq]
        exact hl
    refine ⟨[], n :: b, [], prev, rfl, by simp, by simpa using small, rfl, ?_⟩
    rw [if_neg (by tauto)]
    simp

theorem length_le_walkFuel {l : List ℕ} (nodup : l.Nodup) (addr : ∀ x ∈ l, x < 2 ^ 32) :
    l.length ≤ walkFuel := by
  have sub : l ⊆ List.range walkFuel := fun x hx => mem_range.2 (addr x hx)
  simpa using (subperm_of_subset nodup sub).length_le

theorem sorted_insert {b₁ b₂ : List (ℕ × ℕ)} {n : ℕ × ℕ}
    (sorted : (b₁ ++ b₂).Pairwise fun n n' => n.2 ≤ n'.2) (lt : ∀ n' ∈ b₁, n'.2 < n.2)
    (ge : ∀ n' ∈ b₂.head?, n.2 ≤ n'.2) : (b₁ ++ n :: b₂).Pairwise fun n n' => n.2 ≤ n'.2 := by
  obtain ⟨s₁, s₂, cross⟩ := pairwise_append.1 sorted
  have below : ∀ n' ∈ b₂, n.2 ≤ n'.2 := by
    cases b₂ with
    | nil => simp
    | cons n₀ b₂ =>
      have first : n.2 ≤ n₀.2 := ge n₀ (by simp)
      intro n' hn'
      rcases mem_cons.1 hn' with rfl | hn'
      · exact first
      · exact first.trans ((pairwise_cons.1 s₂).1 n' hn')
  refine pairwise_append.2 ⟨s₁, pairwise_cons.2 ⟨below, s₂⟩, fun a ha b hb => ?_⟩
  rcases mem_cons.1 hb with rfl | hb
  · exact (lt a ha).le
  · exact cross a ha b hb

section AddFree

variable {rs : List Region} {loose : Set ℕ} {x s : ℕ} (lay : Layout nodelist rs)

include lay

theorem Listed.place (ls : Listed nodelist m rs loose B)
    (headers : ∀ r ∈ rs, Headers m r.base 0 r.chunks) (s : ℕ) :
    ∃ b₁ b₂ l p, B (mmSize2ndx s) = b₁ ++ b₂ ∧ (∀ n ∈ b₁, n.2 < s) ∧ (∀ n ∈ b₂.head?, s ≤ n.2) ∧
      chainBefore nodelist B (mmSize2ndx s) ++
        bucketHead nodelist (mmSize2ndx s) :: b₁.map fst = l ++ [p] ∧
      addfreechunkLoop m s walkFuel (bucketHead nodelist (mmSize2ndx s))
        (freenode.next m (bucketHead nodelist (mmSize2ndx s))) =
        some (p, (b₂.map fst ++ chainAfter nodelist B (mmSize2ndx s)).headD 0) := by
  have hi := mmSize2ndx_lt s
  have links := ls.links
  have nodup := ls.nodup
  have addr := ls.addr lay
  rw [chain_split hi] at links nodup addr
  have rest := (LinkFields.links_append.1 links).2
  have short : (B (mmSize2ndx s)).length < walkFuel := by
    have := length_le_walkFuel nodup fun y hy => (addr y hy).2
    simp at this
    omega
  have sizes : ∀ n ∈ B (mmSize2ndx s), n.1 ≠ 0 ∧ size m n.1 = n.2 ∧ n.2 ≠ 0 := by
    intro n hn
    have at' := (ls.node hn).1
    obtain ⟨q, hq⟩ := (Flux.mk headers ⟨B, ls⟩).header at'
    have := lay.chunk_bounds at'
    refine ⟨by omega, hq.sizeWord, ?_⟩
    simp only at this
    omega
  have stop : (chainAfter nodelist B (mmSize2ndx s)).headD 0 = 0 ∨
      size m ((chainAfter nodelist B (mmSize2ndx s)).headD 0) = 0 := by
    rcases chainAfter_cases nodelist B hi with e | ⟨j, hj, l, e⟩
    · exact .inl (by rw [e]; rfl)
    · rw [e]
      exact .inr (ls.heads j hj)
  obtain ⟨b₁, b₂, l, p, split, lt, ge, hp, hl⟩ :=
    addfreechunkLoop_spec s rest sizes stop short
  refine ⟨b₁, b₂, chainBefore nodelist B (mmSize2ndx s) ++ l, p, split, lt, ge, ?_, ?_⟩
  · rw [hp, append_assoc]
  · rw [rest.next_eq]
    exact hl

theorem Flux.addfreechunk (flux : Flux nodelist m rs (insert x loose)) (hx : At rs x (.free s))
    (new : x ∉ loose) :
    ∃ m', mmAddfreechunk nodelist m x = some m' ∧ Flux nodelist m' rs loose := by
  obtain ⟨B, ls⟩ := flux.listed
  have hi := mmSize2ndx_lt s
  obtain ⟨q, hq⟩ := flux.header hx
  obtain ⟨b₁, b₂, l, p, split, lt, ge, hp, hl⟩ := ls.place lay flux.headers s
  have old := chain_cut hi hp b₂
  have now := chain_cut hi hp ((x, s) :: b₂)
  rw [← split, update_eq_self] at old
  rw [map_cons, cons_append] at now
  generalize b₂.map fst ++ chainAfter nodelist B (mmSize2ndx s) = after at old now hl
  have fresh : x ∉ chain nodelist B := by
    intro h
    obtain ⟨i, hi, rfl | ⟨t, ht⟩⟩ := mem_chain.1 h
    · have := lay.nodelist_apart hx
      have := lay.chunk_bounds hx
      simp only [bucketHead, sizeofMmFreenode, headBytes] at *
      omega
    exact (ls.node ht).2 (by simp)
  have links := ls.links
  have far := ls.apart lay
  have linkable : ∀ y ∈ x :: chain nodelist B, Linkable nodelist rs y := by
    intro y hy
    rcases mem_cons.1 hy with rfl | hy
    · exact .inr ⟨s, hx⟩
    · exact ls.linkable hy
  have addr : ∀ y ∈ x :: chain nodelist B, 0 < y ∧ y < 2 ^ 32 := fun y hy => by
    have := (linkable y hy).addr lay
    omega
  have farx : ∀ y ∈ chain nodelist B, freenode.Apart x y := fun y hy =>
    (linkable x (by simp)).apart lay (ls.linkable hy) (fun e => fresh (e ▸ hy))
  have nodup := ls.nodup
  rw [old] at links far linkable addr farx nodup fresh
  have same := LinkFields.insert_sameOff freenode m l after p x
  refine ⟨freenode.insert m p x (after.headD 0), ?_, headers_sameOff lay linkable same flux.headers,
    update B (mmSize2ndx s) (b₁ ++ (x, s) :: b₂), ?_⟩
  · simp only [mmAddfreechunk, hq.sizeWord, hl, Option.bind_eq_bind, Option.bind_some]
    rfl
  refine ⟨heads_sameOff lay linkable same ls.heads,
    now ▸ LinkFields.links_insert links far farx addr, ?_, (forall_update_iff B _).2
      ⟨sorted_insert (split ▸ ls.sorted _) lt ge, fun i _ => ls.sorted i⟩,
    (forall_update_iff B fun i b => ∀ n ∈ b, mmSize2ndx n.2 = i).2
      ⟨fun n hn => ?_, fun i _ => ls.index i⟩, fun y t => ?_⟩
  · rw [now]
    rw [append_cons] at fresh nodup ⊢
    exact nodup_middle.2 (nodup_cons.2 ⟨fresh, nodup⟩)
  · simp only [mem_append, mem_cons] at hn
    rcases hn with hn | rfl | hn
    · exact ls.index _ n (by simp [split, hn])
    · rfl
    · exact ls.index _ n (by simp [split, hn])
  have entry : (y, t) ∈ update B (mmSize2ndx s) (b₁ ++ (x, s) :: b₂) (mmSize2ndx t) ↔
      (y, t) ∈ B (mmSize2ndx t) ∨ (y, t) = (x, s) := by
    by_cases e : mmSize2ndx t = mmSize2ndx s
    · rw [e, update_self, split]
      simp only [mem_append, mem_cons]
      tauto
    rw [update_of_ne e]
    refine ⟨.inl, fun h => h.resolve_right ?_⟩
    rintro ⟨⟩
    exact e rfl
  rw [entry, ls.nodes y t]
  simp only [Set.mem_insert_iff, not_or, mk.injEq]
  constructor
  · rintro (h | ⟨rfl, rfl⟩)
    · exact ⟨h.1, h.2.2⟩
    · exact ⟨hx, new⟩
  rintro ⟨h, hl⟩
  by_cases e : y = x
  · subst e
    exact .inr ⟨rfl, (Chunk.mk.inj (lay.at_unique h hx)).1⟩
  · exact .inl ⟨h, e, hl⟩

end AddFree

end NuttxRtos.Heap

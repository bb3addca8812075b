import NuttxRtos.Mtdconfig.Layout

/-!
# The walk over a device in use

The searches of the driver go over the headers one behind the other and from block to block. The
places where they stop are listed here, in their order, and each search is shown to find the first
one of its kind. The place behind the end of a block is counted in 16 bits, so blocks are short.
-/

namespace NuttxRtos.Mtdconfig

open Segment List

/-- A place where a search stops: an entry, or the erased rest of a block. -/
structure Stop where
  offset : ℕ
  entry : Option Entry

namespace Stop

def header (s : Stop) : Header :=
  match s.entry with
  | some e => e.header
  | none => .erased

def active (s : Stop) : Bool := s.entry.all fun e => !e.released

def holds (item : Item) (s : Stop) : Bool :=
  s.entry.any fun e => !e.released && decide (e.item = item)

end Stop

open Stop

/-- The stops of a block from an offset on. -/
def stopsFrom (g : Geometry) (b : ℕ) : ℕ → List Entry → List Stop
  | offset, [] => if offset + 6 < b * g.erasesize + g.erasesize then [⟨offset, none⟩] else []
  | offset, e :: es => ⟨offset, some e⟩ :: stopsFrom g b (offset + e.size) es

def walkFrom (g : Geometry) (B : ℕ → List Entry) : ℕ → ℕ → List Stop
  | 0, _ => []
  | count + 1, b => stopsFrom g b (b * g.erasesize + 3) (B b) ++ walkFrom g B count (b + 1)

def walk (g : Geometry) (B : ℕ → List Entry) : List Stop := walkFrom g B g.endblock 0

variable {g : Geometry} {mem : Flash} {B : ℕ → List Entry} {b offset size fuel : ℕ}
  {s : Stop} {w : List Stop} {hdr : Header} {item : Item}

/-! ## From one stop to the next -/

def Geometry.nextBlock (g : Geometry) (b : ℕ) : Option ℕ :=
  if b + 1 < g.endblock then some (b * g.erasesize + g.erasesize + 3) else none

def Stop.next (g : Geometry) (b : ℕ) (s : Stop) : Option ℕ :=
  match s.entry with
  | some e =>
    if s.offset + e.size + 6 < b * g.erasesize + g.erasesize then some (s.offset + e.size)
    else g.nextBlock b
  | none => g.nextBlock b

/-- A stop in a block, with its header on the device. -/
structure Stop.Sound (g : Geometry) (mem : Flash) (b : ℕ) (s : Stop) : Prop where
  low : b * g.erasesize + 3 ≤ s.offset
  high : s.offset + 6 < b * g.erasesize + g.erasesize
  inUse : b < g.endblock
  fits : ∀ e, s.entry = some e → s.offset + e.size ≤ b * g.erasesize + g.erasesize
  read : readHdr g mem s.offset = some s.header

def Linked (g : Geometry) (mem : Flash) : List Stop → Prop
  | [] => True
  | s :: w => (∃ b, s.Sound g mem b ∧ s.next g b = w.head?.map Stop.offset) ∧ Linked g mem w

theorem Geometry.endblock_le (g : Geometry) : g.endblock ≤ g.neraseblocks := by
  unfold Geometry.endblock
  split
  · exact Nat.le_refl _
  · split <;> omega

theorem Geometry.endblock_pos (g : Geometry) : 0 < g.endblock := by
  have := g.nonempty
  unfold Geometry.endblock
  split
  · exact this
  · split <;> omega

theorem Geometry.end_le (inUse : b < g.endblock) :
    b * g.erasesize + g.erasesize ≤ g.endblock * g.erasesize := by
  rw [← g.end_eq]
  exact Nat.mul_le_mul_right _ inUse

theorem Geometry.le_start (unused : g.endblock ≤ b + 1) :
    g.endblock * g.erasesize ≤ b * g.erasesize + g.erasesize := by
  rw [← g.end_eq]
  exact Nat.mul_le_mul_right _ unused

theorem Stop.Sound.block_eq (sound : s.Sound g mem b) : s.offset / g.erasesize = b := by
  have := sound.low
  have := sound.high
  exact g.block_eq (by omega) (by omega)

variable {e : Entry}

theorem Stop.Sound.header_entry (entry : s.entry = some e) : s.header = e.header := by
  unfold Stop.header
  rw [entry]

theorem Stop.header_blank (blank : s.entry = none) : s.header = .erased := by
  unfold Stop.header
  rw [blank]

theorem Stop.Sound.lt_next {next : ℕ} (sound : s.Sound g mem b) (step : s.next g b = some next) :
    s.offset < next := by
  have high := sound.high
  have block : ∀ {o}, g.nextBlock b = some o → s.offset < o := by
    intro o start
    obtain ⟨_, ⟨⟩⟩ := Option.ite_none_right_eq_some.mp start
    omega
  unfold Stop.next at step
  split at step
  next e _ =>
    split at step
    · cases step
      have := e.size_gt
      omega
    · exact block step
  next => exact block step

theorem Linked.length_le (linked : Linked g mem (s :: w)) :
    s.offset + (s :: w).length ≤ g.endblock * g.erasesize := by
  induction w generalizing s with
  | nil =>
    obtain ⟨⟨b, sound, _⟩, _⟩ := linked
    have := sound.high
    have := Geometry.end_le sound.inUse
    rw [length_singleton]
    omega
  | cons t w ih =>
    obtain ⟨⟨b, sound, step⟩, rest⟩ := linked
    have := ih rest
    have := sound.lt_next step
    rw [length_cons]
    omega

theorem Linked.length_lt (linked : Linked g mem w) : w.length < g.size + 1 := by
  cases w with
  | nil => exact Nat.succ_pos _
  | cons s w =>
    have := linked.length_le
    have : g.endblock * g.erasesize ≤ g.size := Nat.mul_le_mul_right _ g.endblock_le
    omega

theorem Linked.of_append {before : List Stop} (linked : Linked g mem (before ++ w)) :
    Linked g mem w := by
  induction before with
  | nil => exact linked
  | cons _ _ ih => exact ih linked.2

/-! ## The stops of a device -/

theorem linked_stopsFrom {before es : List Entry} (block : BlockAt g mem b (before ++ es))
    (inUse : b < g.endblock) (linked : Linked g mem w)
    (next : w.head?.map Stop.offset = g.nextBlock b)
    (position : offset = b * g.erasesize + 3 + total before) :
    Linked g mem (stopsFrom g b offset es ++ w) ∧
      (stopsFrom g b offset es ++ w).head?.map Stop.offset =
        if offset + 6 < b * g.erasesize + g.erasesize then some offset else g.nextBlock b := by
  have inside : b < g.neraseblocks := Nat.lt_of_lt_of_le inUse g.endblock_le
  induction es generalizing before offset with
  | nil =>
    rw [append_nil] at block
    unfold stopsFrom
    split_ifs with room
    · refine ⟨⟨⟨b, ⟨?_, room, inUse, nofun, ?_⟩, next.symm⟩, linked⟩, rfl⟩
      · exact position ▸ Nat.le_add_right _ _
      · rw [position]
        exact block.readHdr_blank inside (by omega)
    · exact ⟨linked, next⟩
  | cons e es ih =>
    have fits := block.fits_split
    have := e.size_gt
    have behind : BlockAt g mem b ((before ++ [e]) ++ es) := by
      rw [append_assoc]
      exact block
    have position' : offset + e.size = b * g.erasesize + 3 + total (before ++ [e]) := by
      rw [position, total_append, total_cons, total_nil]
      omega
    obtain ⟨rest, head⟩ := ih behind position'
    rw [if_pos (by omega)]
    refine ⟨⟨⟨b, ⟨?_, ?_, inUse, ?_, ?_⟩, head.symm⟩, rest⟩, rfl⟩
    · exact position ▸ Nat.le_add_right _ _
    · dsimp only
      omega
    · rintro _ ⟨⟩
      dsimp only
      omega
    · rw [position]
      exact block.readHdr inside

theorem linked_walkFrom (repr : Repr g mem B) :
    ∀ (count b : ℕ), b + count = g.endblock →
      Linked g mem (walkFrom g B count b) ∧ (walkFrom g B count b).head?.map Stop.offset =
        if b < g.endblock then some (b * g.erasesize + 3) else none
  | 0, b, last => ⟨trivial, by rw [if_neg (by omega)]; rfl⟩
  | count + 1, b, last => by
    have inUse : b < g.endblock := by omega
    have := g.roomy
    obtain ⟨rest, head⟩ := linked_walkFrom repr count (b + 1) (by omega)
    rw [g.end_eq] at head
    have block := repr.block b (Nat.lt_of_lt_of_le inUse g.endblock_le)
    have stops := linked_stopsFrom (nil_append (B b) ▸ block) inUse rest head rfl
    rw [total_nil, if_pos (by omega)] at stops
    rw [if_pos inUse]
    exact stops

theorem linked_walk (repr : Repr g mem B) : Linked g mem (walk g B) :=
  (linked_walkFrom repr _ 0 (zero_add _)).1

theorem head_walk (repr : Repr g mem B) : ∃ s w, walk g B = s :: w ∧ s.offset = 3 := by
  have head := (linked_walkFrom repr _ 0 (zero_add _)).2
  rw [if_pos g.endblock_pos] at head
  obtain ⟨s, first, offset⟩ := Option.map_eq_some_iff.mp head
  obtain ⟨w, equal⟩ := head?_eq_some_iff.mp first
  exact ⟨s, w, equal, by rw [offset, Nat.zero_mul]⟩

theorem mem_stopsFrom {es : List Entry} :
    s ∈ stopsFrom g b offset es ↔
      (∃ before e after, es = before ++ e :: after ∧ s = ⟨offset + total before, some e⟩) ∨
      offset + total es + 6 < b * g.erasesize + g.erasesize ∧ s = ⟨offset + total es, none⟩ := by
  induction es generalizing offset with
  | nil =>
    rw [stopsFrom, total_nil, add_zero]
    by_cases room : offset + 6 < b * g.erasesize + g.erasesize <;> simp [room]
  | cons e es ih =>
    rw [stopsFrom, mem_cons, ih, total_cons, ← add_assoc, ← or_assoc]
    refine or_congr_left ⟨?_, ?_⟩
    · rintro (rfl | ⟨before, e', after, rfl, rfl⟩)
      · exact ⟨[], e, es, rfl, rfl⟩
      · exact ⟨e :: before, e', after, rfl, by rw [total_cons, add_assoc]⟩
    rintro ⟨_ | ⟨_, before⟩, e', after, equal, rfl⟩
    · cases equal
      exact .inl rfl
    · cases equal
      exact .inr ⟨before, e', after, rfl, by rw [total_cons, add_assoc]⟩

theorem mem_walkFrom (count : ℕ) :
    s ∈ walkFrom g B count b ↔
      ∃ d, b ≤ d ∧ d < b + count ∧ s ∈ stopsFrom g d (d * g.erasesize + 3) (B d) := by
  induction count generalizing b with
  | zero =>
    refine ⟨nofun, ?_⟩
    rintro ⟨d, low, high, _⟩
    omega
  | succ count ih =>
    rw [walkFrom, mem_append, ih]
    constructor
    · rintro (first | ⟨d, low, high, member⟩)
      · exact ⟨b, Nat.le_refl b, by omega, first⟩
      · exact ⟨d, by omega, by omega, member⟩
    rintro ⟨d, low, high, member⟩
    by_cases first : d = b
    · exact .inl (first ▸ member)
    · exact .inr ⟨d, by omega, by omega, member⟩

theorem mem_walk : s ∈ walk g B ↔
    ∃ b < g.endblock, s ∈ stopsFrom g b (b * g.erasesize + 3) (B b) := by
  unfold walk
  rw [mem_walkFrom]
  simp only [Nat.zero_le, Nat.zero_add, true_and]

/-! ## Searches -/

def Finds (result : ℕ × Header) (stop : Option Stop) : Prop :=
  match stop with
  | some s => result = (s.offset, s.header)
  | none => result.1 = 0

/-- What `findnextLoop` looks for: an active entry, or room for data. -/
def Stop.hit (g : Geometry) (size : ℕ) (s : Stop) : Bool :=
  match s.entry with
  | some e => !e.released && size == 0
  | none => decide (0 < size) &&
      decide (s.offset + size + 6 ≤ s.offset / g.erasesize * g.erasesize + g.erasesize)

theorem nextBlock_eq (g : Geometry) (b : ℕ) :
    (if g.endblock ≤ b + 1 then none else some (b * g.erasesize + g.erasesize + 3)) =
      g.nextBlock b := by
  unfold Geometry.nextBlock
  simp only [← Nat.not_lt, ite_not]

/-- The end of a block is counted in 16 bits, and entries are moved on the device only if it can
read single bytes. -/
structure Geometry.Able (g : Geometry) : Prop where
  short : g.erasesize < 2 ^ 16 + 3
  reads : g.byteRead = true ∨ g.ramConsolidate = true ∨ g.neraseblocks = 1

theorem nextOffset_eq (able : g.Able) (sound : s.Sound g mem b)
    (entry : s.entry = some e) : nextOffset g s.offset s.header = s.next g b := by
  have low := sound.low
  have fits := sound.fits e entry
  have size := e.size_gt
  have last := Geometry.end_le sound.inUse
  have short := able.short
  have place : s.offset + 6 + s.header.len.toNat = s.offset + e.size := by
    rw [Sound.header_entry entry, e.header_len, add_assoc]
    rfl
  unfold nextOffset Stop.next
  simp only [entry, place]
  by_cases full : s.offset + e.size = b * g.erasesize + g.erasesize
  -- The entry ends with the block: the header of the next block is skipped.
  · have block : (s.offset + e.size + 3) / g.erasesize = b + 1 :=
      g.block_eq (by rw [g.end_eq]; omega) (by rw [g.end_eq]; omega)
    have aligned : (s.offset + e.size) % g.erasesize = 0 := by
      rw [full, ← g.end_eq]
      exact Nat.mul_mod_left _ _
    rw [if_pos aligned, block, if_neg (show ¬s.offset + e.size + 6 < _ by omega), ← nextBlock_eq,
      g.end_eq, g.end_eq, full]
    by_cases unused : g.endblock ≤ b + 1
    · rw [if_pos unused, if_pos (by have := Geometry.le_start unused; omega)]
    have := Geometry.end_le (g := g) (b := b + 1) (by omega)
    rw [g.end_eq] at this
    rw [if_neg unused, if_neg (by omega), if_neg (by omega)]
  have block : (s.offset + e.size) / g.erasesize = b := g.block_eq (by omega) (by omega)
  have inner : (s.offset + e.size) % g.erasesize ≠ 0 := by
    have := Nat.div_add_mod' (s.offset + e.size) g.erasesize
    rw [block] at this
    omega
  rw [if_neg inner, if_neg (by omega), block, g.end_eq, Nat.mod_eq_of_lt (by omega)]
  by_cases room : s.offset + e.size + 6 < b * g.erasesize + g.erasesize
  · rw [if_neg (by omega), if_pos room]
  · rw [if_pos (by omega), if_neg room, nextBlock_eq]

theorem elim_nextBlock {α : Type} (g : Geometry) (b : ℕ) (last : α) (next : ℕ → α) :
    (if g.endblock ≤ b + 1 then last else next ((b + 1) * g.erasesize + 3)) =
      (g.nextBlock b).elim last next := by
  rw [← nextBlock_eq, g.end_eq]
  split <;> rfl

theorem findnextLoop_finds (able : g.Able) (linked : Linked g mem w) (enough : w.length ≤ fuel) :
    Finds ((w.head?.map Stop.offset).elim (0, hdr) fun offset =>
      findnextLoop g mem size fuel offset hdr) (w.find? (Stop.hit g size)) := by
  induction w generalizing fuel hdr with
  | nil => exact rfl
  | cons s w ih =>
    obtain ⟨⟨b, sound, step⟩, rest⟩ := linked
    obtain _ | fuel := fuel
    · cases enough
    have go : ∀ hdr, Finds ((s.next g b).elim (0, hdr) fun offset =>
        findnextLoop g mem size fuel offset hdr) (w.find? (Stop.hit g size)) := by
      rw [step]
      exact fun hdr => ih rest (Nat.le_of_succ_le_succ enough)
    have low := sound.low
    show Finds (findnextLoop g mem size (fuel + 1) s.offset hdr) _
    rw [findnextLoop, sound.read]
    cases entry : s.entry with
    | none =>
      have header := header_blank entry
      have left : ((b + 1) * g.erasesize - s.offset) % 2 ^ 16 =
          b * g.erasesize + g.erasesize - s.offset := by
        have short := able.short
        rw [g.end_eq, Nat.mod_eq_of_lt (by omega)]
      simp only [Stop.next, entry] at go
      dsimp only
      rw [header, if_pos ⟨rfl, rfl⟩, sound.block_eq, left]
      by_cases room : 0 < size ∧ size + 6 ≤ b * g.erasesize + g.erasesize - s.offset
      · rw [if_pos room, find?_cons_of_pos]
        · exact congrArg (Prod.mk _) header.symm
        · simp only [Stop.hit, entry, sound.block_eq, Bool.and_eq_true, decide_eq_true_eq]
          omega
      rw [if_neg room, find?_cons_of_neg]
      · rw [elim_nextBlock g b _ fun offset => findnextLoop g mem size fuel offset _]
        exact go _
      · simp only [Stop.hit, entry, sound.block_eq, Bool.and_eq_true, decide_eq_true_eq]
        omega
    | some e =>
      have header := Sound.header_entry entry
      have live : ¬(s.header.flags = 0xff#8 ∧ s.header.id = 0xffff#16) :=
        fun both => e.id_ne (by rw [← both.2, header]; rfl)
      have follow := nextOffset_eq able sound entry
      dsimp only
      split_ifs with wanted
      · rw [find?_cons_of_pos]
        · exact rfl
        · rw [header, e.flags_eq] at wanted
          simp [Stop.hit, entry, wanted]
      rw [find?_cons_of_neg, follow]
      · have found := go s.header
        revert found
        cases s.next g b <;> exact id
      rw [header, e.flags_eq] at wanted
      simp only [Stop.hit, entry, Bool.and_eq_true, Bool.not_eq_true', beq_iff_eq]
      exact wanted

theorem findnextentry_finds (able : g.Able) (linked : Linked g mem (s :: w))
    (entry : s.entry = some e) :
    Finds (findnextentry g mem s.offset s.header size) (w.find? (Stop.hit g size)) := by
  obtain ⟨⟨b, sound, step⟩, rest⟩ := linked
  have found : Finds ((w.head?.map Stop.offset).elim (0, s.header) fun offset =>
      findnextLoop g mem size (g.size + 1) offset s.header) (w.find? (Stop.hit g size)) :=
    findnextLoop_finds able rest (Nat.le_of_lt rest.length_lt)
  unfold findnextentry
  rw [nextOffset_eq able sound entry, step]
  revert found
  cases w.head?.map Stop.offset <;> exact id

/-! ## The first entry -/

/-- The first active stop. When all entries are released, the search may go into the block behind
those in use. -/
def FindsFirst (g : Geometry) (result : ℕ × Header) (stop : Option Stop) : Prop :=
  match stop with
  | some s => result = (s.offset, s.header)
  | none => result.1 = 0 ∨ result = (g.endblock * g.erasesize + 3, .erased)

theorem findfirstLoop_released (sound : s.Sound g mem b) (entry : s.entry = some e)
    (released : e.released = true) :
    findfirstLoop g mem (fuel + 1) s.offset hdr = (s.next g b).elim
        (if s.offset + e.size = b * g.erasesize + g.erasesize then
          findfirstLoop g mem fuel (g.endblock * g.erasesize + 3) s.header
        else (0, s.header)) fun offset => findfirstLoop g mem fuel offset s.header := by
  have low := sound.low
  have fits := sound.fits e entry
  have header := Sound.header_entry entry
  have place : s.offset + 6 + s.header.len.toNat = s.offset + e.size := by
    rw [header, e.header_len, add_assoc]
    rfl
  have flags : s.header.flags ≠ 0xff#8 := by
    rw [header, Ne, e.flags_eq, released]
    decide
  rw [findfirstLoop, sound.read]
  dsimp only
  rw [if_pos flags, place]
  simp only [Stop.next, entry]
  by_cases full : s.offset + e.size = b * g.erasesize + g.erasesize
  · have block : (s.offset + e.size) / g.erasesize = b + 1 :=
      g.block_eq (by rw [g.end_eq]; omega) (by rw [g.end_eq]; omega)
    rw [block, g.end_eq (b + 1), g.end_eq b, if_neg (by omega), if_pos (by omega), if_pos full,
      if_neg (show ¬s.offset + e.size + 6 < _ by omega), full]
    unfold Geometry.nextBlock
    split_ifs with unused
    · rfl
    have last : g.endblock = b + 1 := by
      have := sound.inUse
      omega
    rw [last, g.end_eq]
    rfl
  have block : (s.offset + e.size) / g.erasesize = b := g.block_eq (by omega) (by omega)
  rw [block, if_neg full]
  by_cases room : s.offset + e.size + 6 < b * g.erasesize + g.erasesize
  · rw [if_neg (by rw [g.end_eq]; omega), if_neg (by rw [g.end_eq]; omega), if_pos room]
    rfl
  · rw [if_pos (by rw [g.end_eq]; omega), if_neg room]
    exact elim_nextBlock g b _ fun offset => findfirstLoop g mem fuel offset s.header

theorem Stop.active_iff (entry : s.entry = some e) : s.active = true ↔ e.released = false := by
  unfold Stop.active
  rw [entry, Option.all_some, Bool.not_eq_true']

theorem Stop.released_of_not_active (no : ¬s.active = true) :
    ∃ e, s.entry = some e ∧ e.released = true := by
  cases entry : s.entry with
  | none =>
    unfold Stop.active at no
    rw [entry] at no
    exact absurd rfl no
  | some e =>
    rw [active_iff entry, Bool.not_eq_false] at no
    exact ⟨e, rfl, no⟩

theorem Stop.active_flags (active : s.active = true) : s.header.flags = 0xff#8 := by
  cases entry : s.entry with
  | none => rw [header_blank entry, Header.erased]
  | some e => rw [Sound.header_entry entry, e.flags_eq, ← active_iff entry, active]

theorem findfirstLoop_active (sound : s.Sound g mem b) (active : s.active = true) :
    findfirstLoop g mem (fuel + 1) s.offset hdr = (s.offset, s.header) := by
  rw [findfirstLoop, sound.read]
  exact if_neg (not_not_intro (active_flags active))

theorem findfirstLoop_finds
    (spare : ∀ hdr, readHdr g mem (g.endblock * g.erasesize + 3) = some hdr → hdr = .erased)
    (linked : Linked g mem (s :: w)) (enough : (s :: w).length < fuel) :
    FindsFirst g (findfirstLoop g mem fuel s.offset hdr) ((s :: w).find? Stop.active) := by
  induction fuel generalizing s w hdr with
  | zero => cases enough
  | succ fuel ih =>
    obtain ⟨⟨b, sound, step⟩, rest⟩ := linked
    by_cases active : s.active = true
    · rw [findfirstLoop_active sound active, find?_cons_of_pos active]
      exact rfl
    obtain ⟨e, entry, released⟩ := released_of_not_active active
    rw [findfirstLoop_released sound entry released, step, find?_cons_of_neg active]
    cases w with
    | cons t w => exact ih rest (Nat.lt_of_succ_lt_succ enough)
    | nil =>
      obtain _ | fuel := fuel
      · exact absurd enough (Nat.lt_irrefl 1)
      split
      · rw [findfirstLoop]
        cases read : readHdr g mem (g.endblock * g.erasesize + 3) with
        | none => exact .inl rfl
        | some hdr =>
          obtain rfl := spare hdr read
          exact .inr rfl
      · exact .inl rfl

/-- A device in use: there is nothing in the block that is kept for consolidation. -/
structure WellFormed (g : Geometry) (mem : Flash) (B : ℕ → List Entry) : Prop
    extends Repr g mem B where
  spare : ∀ b, g.endblock ≤ b → B b = []

theorem Repr.readSignature (repr : Repr g mem B) : readbytes g mem 0 3 = some sig := by
  have := g.roomy
  have := Geometry.end_le_size (g := g) (b := 0) g.nonempty
  unfold readbytes
  rw [if_pos (by omega), repr.signature.read (show sig.length = 3 from rfl)]

theorem findfirstentry_finds (wf : WellFormed g mem B) (hdr : Header) :
    FindsFirst g (findfirstentry g mem hdr) ((walk g B).find? Stop.active) := by
  have linked := linked_walk wf.toRepr
  obtain ⟨s, w, walked, offset⟩ := head_walk wf.toRepr
  unfold findfirstentry
  rw [if_pos wf.readSignature, walked, ← offset]
  rw [walked] at linked
  refine findfirstLoop_finds (fun hdr read => ?_) linked linked.length_lt
  by_cases kept : g.endblock < g.neraseblocks
  · have block := wf.block g.endblock kept
    rw [wf.spare _ (Nat.le_refl _)] at block
    have blank := block.readHdr_blank kept (by have := g.roomy; rw [total_nil]; omega)
    rw [total_nil, add_zero, read] at blank
    exact Option.some.inj blank
  have last : g.endblock = g.neraseblocks := Nat.le_antisymm g.endblock_le (Nat.not_lt.mp kept)
  unfold readHdr readbytes at read
  rw [if_neg (by rw [last]; exact Nat.not_le.mpr (by unfold Geometry.size; omega))] at read
  cases read

/-! ## The entry of an item -/

/-- A search for an item may start at the first stop of a kind that all its holders are of. -/
theorem find_holds {kind : Stop → Bool} (held : ∀ s, s.holds item = true → kind s = true)
    (w : List Stop) :
    match w.find? kind with
    | none => w.find? (Stop.holds item) = none
    | some t => ∃ before after, w = before ++ t :: after ∧
        w.find? (Stop.holds item) = (t :: after).find? (Stop.holds item) := by
  split
  next none =>
    rw [find?_eq_none] at none ⊢
    exact fun s member holds => none s member (held s holds)
  next t found =>
    obtain ⟨_, before, after, rfl, skipped⟩ := find?_eq_some_iff_append.mp found
    refine ⟨before, after, rfl, ?_⟩
    rw [find?_append, find?_eq_none.mpr, Option.none_or]
    intro s member holds
    simpa [held s holds] using skipped s member

theorem findentryLoop_zero : findentryLoop g mem item (fuel + 1) 0 hdr = (0, hdr) :=
  if_neg (fun both => absurd both.1 (Nat.lt_irrefl 0))

theorem Stop.Sound.pos (sound : s.Sound g mem b) : 0 < s.offset := by
  have := sound.low
  omega

theorem findentryLoop_next {next : ℕ × Header}
    (ih : ∀ t after, Linked g mem (t :: after) → (t :: after).length ≤ w.length → t.active = true →
      Finds (findentryLoop g mem item (fuel + 1) t.offset t.header)
        ((t :: after).find? (Stop.holds item)))
    (linked : Linked g mem w) (found : Finds next (w.find? (Stop.hit g 0))) :
    Finds (findentryLoop g mem item (fuel + 1) next.1 next.2) (w.find? (Stop.holds item)) := by
  have decided := find_holds (fun s (held : s.holds item = true) =>
    show s.hit g 0 = true by cases entry : s.entry <;> simp_all [Stop.hit, Stop.holds]) w
  cases first : w.find? (Stop.hit g 0) with
  | none =>
    rw [first] at found decided
    rw [decided, show next.1 = 0 from found, findentryLoop_zero]
    exact rfl
  | some t =>
    have hit := find?_some first
    rw [first] at found decided
    obtain ⟨before, after, rfl, same⟩ := decided
    rw [same, show next = (t.offset, t.header) from found]
    refine ih t after linked.of_append ?_ ?_
    · rw [length_append]
      omega
    · cases entry : t.entry <;> simp_all [Stop.hit, Stop.active]

theorem Stop.not_matches (named : item.id ≠ 0xffff#16) (blank : s.entry = none) :
    ¬s.header.Matches item := by
  rw [header_blank blank]
  exact fun both => named both.1.symm

theorem Stop.holds_iff (entry : s.entry = some e) (active : s.active = true) :
    s.holds item = true ↔ s.header.Matches item := by
  rw [Sound.header_entry entry, e.header_matches]
  unfold Stop.holds
  rw [entry, Option.any_some, (active_iff entry).mp active]
  simp

/-- At the erased rest of a block the search goes on with the next block. -/
theorem findentryLoop_blank (able : g.Able) (named : item.id ≠ 0xffff#16)
    (linked : Linked g mem (s :: w)) (blank : s.entry = none)
    (ih : ∀ t after, Linked g mem (t :: after) → (t :: after).length ≤ w.length → t.active = true →
      Finds (findentryLoop g mem item (fuel + 1) t.offset t.header)
        ((t :: after).find? (Stop.holds item))) :
    Finds (findentryLoop g mem item (fuel + 2) s.offset s.header)
      ((s :: w).find? (Stop.holds item)) := by
  obtain ⟨⟨b, sound, step⟩, rest⟩ := linked
  have := g.roomy
  have holdsNot : ¬s.holds item = true := by
    unfold Stop.holds
    rw [blank]
    exact nofun
  have start : (s.offset + g.erasesize) / g.erasesize * g.erasesize =
      b * g.erasesize + g.erasesize := by
    rw [Nat.add_div_right _ (by omega), sound.block_eq, Nat.succ_mul]
  have next : g.nextBlock b = w.head?.map Stop.offset := by
    rw [← step]
    unfold Stop.next
    rw [blank]
  rw [findentryLoop, if_pos ⟨sound.pos, not_matches named blank⟩, header_blank blank,
    if_pos Header.erased_id, start, find?_cons_of_neg holdsNot]
  unfold Geometry.nextBlock at next
  obtain _ | ⟨t, w⟩ := w
  · have last : ¬b + 1 < g.endblock := fun inUse => by
      rw [if_pos inUse] at next
      cases next
    have above := Geometry.le_start (g := g) (b := b) (by omega)
    rw [if_pos (by omega)]
    exact rfl
  obtain ⟨inUse, place⟩ := Option.ite_none_right_eq_some.mp next
  have place : b * g.erasesize + g.erasesize + 3 = t.offset := Option.some.inj place
  have below := Geometry.end_le inUse
  rw [g.end_eq] at below
  obtain ⟨⟨d, soundT, stepT⟩, restT⟩ := id rest
  rw [if_neg (by omega), place, soundT.read]
  dsimp only
  by_cases activeT : t.active = true
  · rw [if_pos (active_flags activeT)]
    exact ih t w rest (Nat.le_refl _) activeT
  obtain ⟨e, entryT, released⟩ := released_of_not_active activeT
  have flags : ¬t.header.flags = 0xff#8 := by
    rw [Sound.header_entry entryT, e.flags_eq, released]
    decide
  have holdsNotT : ¬t.holds item = true := by
    unfold Stop.holds
    rw [entryT, Option.any_some, released]
    exact nofun
  rw [if_neg flags, find?_cons_of_neg holdsNotT]
  exact findentryLoop_next (fun t after linked high => ih t after linked (Nat.le_succ_of_le high))
    restT (findnextentry_finds able rest entryT)

theorem findentryLoop_finds (able : g.Able) (named : item.id ≠ 0xffff#16)
    (linked : Linked g mem (s :: w)) (enough : (s :: w).length < fuel) (active : s.active = true) :
    Finds (findentryLoop g mem item fuel s.offset s.header) ((s :: w).find? (Stop.holds item)) := by
  induction fuel generalizing s w with
  | zero => cases enough
  | succ fuel ih =>
    obtain ⟨⟨b, sound, _⟩, rest⟩ := id linked
    obtain _ | fuel := fuel
    · exact absurd enough (Nat.not_lt.mpr (Nat.succ_le_succ (Nat.zero_le _)))
    have shorter : w.length < fuel + 1 := Nat.lt_of_succ_lt_succ enough
    have behind := fun t after (linked : Linked g mem (t :: after))
        (high : (t :: after).length ≤ w.length) (active : t.active = true) =>
      ih linked (Nat.lt_of_le_of_lt high shorter) active
    cases entry : s.entry with
    | none => exact findentryLoop_blank able named linked entry behind
    | some e =>
      rw [findentryLoop]
      by_cases matched : s.header.Matches item
      · rw [if_neg (fun both => both.2 matched),
          find?_cons_of_pos ((holds_iff entry active).mpr matched)]
        exact rfl
      have taken : s.header.id ≠ 0xffff#16 := by
        rw [Sound.header_entry entry]
        exact e.id_ne
      rw [if_pos ⟨sound.pos, matched⟩, if_neg taken,
        find?_cons_of_neg (mt (holds_iff entry active).mp matched)]
      exact findentryLoop_next behind rest (findnextentry_finds able linked entry)

theorem Stop.active_of_holds (held : s.holds item = true) : s.active = true := by
  cases entry : s.entry <;> simp_all [Stop.holds, Stop.active]

theorem lookup_finds (able : g.Able) (wf : WellFormed g mem B) (named : item.id ≠ 0xffff#16)
    {first : ℕ × Header} (found : FindsFirst g first ((walk g B).find? Stop.active)) :
    Finds (findentry g mem first.1 item first.2) ((walk g B).find? (Stop.holds item)) := by
  have linked := linked_walk wf.toRepr
  have decided := find_holds (fun s (held : s.holds item = true) => active_of_holds held)
    (walk g B)
  cases active : (walk g B).find? Stop.active with
  | none =>
    rw [active] at found decided
    rw [decided]
    obtain zero | equal := found
    · rw [zero]
      exact congrArg Prod.fst findentryLoop_zero
    rw [equal]
    dsimp only [findentry]
    have := g.roomy
    have block : (g.endblock * g.erasesize + 3 + g.erasesize) / g.erasesize = g.endblock + 1 :=
      g.block_eq (by rw [g.end_eq]; omega) (by rw [g.end_eq]; omega)
    rw [findentryLoop, if_pos ⟨Nat.succ_pos _, fun both => named both.1.symm⟩,
      if_pos Header.erased_id, block]
    rw [if_pos (by rw [g.end_eq]; omega)]
    exact rfl
  | some s =>
    have isActive := find?_some active
    rw [active] at found decided
    obtain ⟨before, after, equal, skipped⟩ := decided
    rw [equal] at linked
    rw [skipped, show first = (s.offset, s.header) from found]
    have rest := linked.of_append
    exact findentryLoop_finds able named rest rest.length_lt isActive

end NuttxRtos.Mtdconfig

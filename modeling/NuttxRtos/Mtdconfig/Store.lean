import NuttxRtos.Mtdconfig.Consolidate

/-!
# The store as a finite map

A device in use holds a map from items to their data: the active entries, of which no two have the
same item. Reads give the map, and what a call makes permanent is an update of it.
-/

namespace NuttxRtos.Mtdconfig

open Segment List
open Function (update update_eq_self update_of_ne update_self)

abbrev Store := Item → Option (List Byte)

structure Lists (L : List Entry) (store : Store) : Prop where
  distinct : (L.map Entry.item).Nodup
  holds : ∀ item data, store item = some data ↔ ∃ e ∈ L, e.item = item ∧ e.data = data

/-- A formatted device with the entries of a store. -/
structure Holds (g : Geometry) (mem : Flash) (B : ℕ → List Entry) (store : Store) : Prop
    extends WellFormed g mem B where
  lists : Lists (gather B 0 g.neraseblocks) store

/-- A device that is not formatted holds nothing. -/
def Refines (g : Geometry) (mem : Flash) (store : Store) : Prop :=
  readbytes g mem 0 3 ≠ some sig ∧ (store = fun _ => none) ∨ ∃ B, Holds g mem B store

variable {g : Geometry} {mem : Flash} {B : ℕ → List Entry} {store : Store} {L L' : List Entry}
  {e : Entry} {item : Item} {s : Stop} {hdr : Header} {data : List Byte}

/-! ## Entries and items -/

theorem Lists.nil : Lists [] fun _ => none :=
  ⟨nodup_nil, fun _ _ => ⟨nofun, nofun⟩⟩

theorem Lists.perm (lists : Lists L store) (same : L'.Perm L) : Lists L' store where
  distinct := (same.map Entry.item).nodup_iff.mpr lists.distinct
  holds := fun item data => by
    simp only [lists.holds, same.mem_iff]

theorem Lists.some_of_mem (lists : Lists L store) (member : e ∈ L) : store e.item = some e.data :=
  (lists.holds _ _).mpr ⟨e, member, rfl, rfl⟩

theorem Lists.erase (lists : Lists (e :: L) store) :
    Lists L (update store e.item none) := by
  have distinct := lists.distinct
  rw [map_cons, nodup_cons] at distinct
  refine ⟨distinct.2, fun item data => ?_⟩
  by_cases same : item = e.item
  · subst same
    rw [update_self]
    refine ⟨nofun, ?_⟩
    rintro ⟨e', member, equal, -⟩
    exact absurd (mem_map.mpr ⟨e', member, equal⟩) distinct.1
  rw [update_of_ne same, lists.holds]
  simp only [mem_cons, exists_eq_or_imp, Ne.symm same, false_and, false_or]

theorem Lists.insert (lists : Lists L store) (new : store e.item = none) :
    Lists (e :: L) (update store e.item (some e.data)) := by
  have absent : ∀ e' ∈ L, e'.item ≠ e.item := by
    intro e' member same
    have held := lists.some_of_mem member
    rw [same, new] at held
    cases held
  refine ⟨?_, fun item data => ?_⟩
  · rw [map_cons, nodup_cons]
    refine ⟨fun member => ?_, lists.distinct⟩
    obtain ⟨e', member, same⟩ := mem_map.mp member
    exact absent e' member same
  by_cases same : item = e.item
  · subst same
    rw [update_self]
    constructor
    · rintro ⟨⟩
      exact ⟨e, mem_cons_self, rfl, rfl⟩
    rintro ⟨e', member, equal, rfl⟩
    obtain rfl | member := mem_cons.mp member
    · rfl
    · exact absurd equal (absent e' member)
  rw [update_of_ne same, lists.holds]
  simp only [mem_cons, exists_eq_or_imp, Ne.symm same, false_and, false_or]

theorem mem_gather {lo hi : ℕ} :
    e ∈ gather B lo hi ↔ ∃ b, lo ≤ b ∧ b < hi ∧ e ∈ B b ∧ e.released = false := by
  unfold gather
  simp only [mem_flatMap, List.Ico.mem, live, mem_filter, Bool.not_eq_true', and_assoc]

theorem entry_of_mem_walk (member : s ∈ walk g B) (entry : s.entry = some e) :
    ∃ b < g.endblock, ∃ before after, B b = before ++ e :: after ∧
      s.offset = b * g.erasesize + 3 + total before := by
  obtain ⟨b, inUse, stop⟩ := mem_walk.mp member
  obtain ⟨before, e', after, split, rfl⟩ | ⟨-, rfl⟩ := mem_stopsFrom.mp stop
  · cases entry
    exact ⟨b, inUse, before, after, split, rfl⟩
  · cases entry

theorem pos_of_mem_walk (member : s ∈ walk g B) : 0 < s.offset := by
  obtain ⟨b, inUse, stop⟩ := mem_walk.mp member
  obtain ⟨before, e, after, -, rfl⟩ | ⟨-, rfl⟩ := mem_stopsFrom.mp stop
  all_goals
    dsimp only
    omega

theorem WellFormed.exists_stop (wf : WellFormed g mem B) (member : e ∈ gather B 0 g.neraseblocks) :
    ∃ s ∈ walk g B, s.entry = some e := by
  obtain ⟨b, -, -, inBlock, -⟩ := mem_gather.mp member
  have inUse : b < g.endblock := Nat.lt_of_not_le fun unused => by
    rw [wf.spare b unused] at inBlock
    cases inBlock
  obtain ⟨before, after, split⟩ := append_of_mem inBlock
  exact ⟨_, mem_walk.mpr ⟨b, inUse, mem_stopsFrom.mpr (.inl ⟨before, e, after, split, rfl⟩)⟩, rfl⟩

theorem Holds.find_some (holds : Holds g mem B store)
    (found : (walk g B).find? (Stop.holds item) = some s) :
    ∃ e b before after, s.header = e.header ∧ e.released = false ∧ e.item = item ∧
      store item = some e.data ∧ b < g.endblock ∧ B b = before ++ e :: after ∧
      s.offset = b * g.erasesize + 3 + total before ∧ BlockAt g mem b (before ++ e :: after) ∧
      s.offset + e.size ≤ b * g.erasesize + g.erasesize ∧
      b * g.erasesize + g.erasesize ≤ g.size := by
  have member := mem_of_find?_eq_some found
  have held := find?_some found
  cases entry : s.entry with
  | none =>
    unfold Stop.holds at held
    rw [entry] at held
    cases held
  | some e =>
    unfold Stop.holds at held
    rw [entry, Option.any_some, Bool.and_eq_true, Bool.not_eq_true', decide_eq_true_eq] at held
    obtain ⟨b, inUse, before, after, split, place⟩ := entry_of_mem_walk member entry
    have inside := inUse.trans_le g.endblock_le
    have block := split ▸ holds.block b inside
    have active : e ∈ gather B 0 g.neraseblocks := mem_gather.mpr
      ⟨b, Nat.zero_le _, inside, split ▸ mem_append_cons_self, held.1⟩
    exact ⟨e, b, before, after, Stop.Sound.header_entry entry, held.1, held.2,
      held.2 ▸ holds.lists.some_of_mem active, inUse, split, place, block,
      by have := block.fits_split; omega, Geometry.end_le_size inside⟩

theorem Holds.find_none (holds : Holds g mem B store)
    (found : (walk g B).find? (Stop.holds item) = none) : store item = none := by
  rw [find?_eq_none] at found
  cases value : store item with
  | none => rfl
  | some data =>
    obtain ⟨e, member, same, -⟩ := (holds.lists.holds item data).mp value
    obtain ⟨s, stop, entry⟩ := holds.toWellFormed.exists_stop member
    obtain ⟨-, -, -, -, active⟩ := mem_gather.mp member
    refine absurd ?_ (found s stop)
    unfold Stop.holds
    rw [entry, Option.any_some, active, same]
    simp

/-! ## Reads -/

theorem read_min {β : Type} {flash : ℕ → β} {start : ℕ} {values : List β}
    (held : At flash start values) (count : ℕ) :
    read flash start (min values.length count) = values.take count := by
  rw [← take_append_drop count values, at_append] at held
  refine held.1.read ?_
  rw [length_take, min_comm]

def Store.get (store : Store) (item : Item) (buflen : ℕ) : Except Errno (List Byte × ℕ) :=
  match store item with
  | some data => .ok (data.take buflen, data.length)
  | none => .error .enosys

theorem Holds.getconfig (able : g.Able) (holds : Holds g mem B store)
    (named : item.id ≠ 0xffff#16) (hdr : Header) (buflen : ℕ) :
    getconfig g true mem hdr item buflen = store.get item buflen := by
  have finds := lookup_finds able holds.toWellFormed named
    (findfirstentry_finds holds.toWellFormed hdr)
  unfold Mtdconfig.getconfig Store.get
  rw [if_pos rfl]
  dsimp only
  cases found : (walk g B).find? (Stop.holds item) with
  | none =>
    rw [found] at finds
    rw [holds.find_none found, if_neg]
    exact fun both => absurd (show _ = 0 from finds) (ne_of_gt both.1)
  | some s =>
    rw [found] at finds
    obtain ⟨e, b, before, after, header, -, same, value, -, -, place, block, fits, below⟩ :=
      holds.find_some found
    have size : e.size = 6 + e.data.length := rfl
    rw [show _ = (s.offset, s.header) from finds, value, header, if_pos, e.header_len]
    · unfold readbytes
      rw [if_pos (by dsimp only; omega)]
      rw [place, read_min block.split.2]
    · exact ⟨by dsimp only; omega, (e.header_matches item).mpr same⟩

theorem Refines.getconfig (able : g.Able) (refines : Refines g mem store)
    (named : item.id ≠ 0xffff#16) (hdr : Header) (buflen : ℕ) :
    getconfig g true mem hdr item buflen = store.get item buflen := by
  obtain ⟨unformatted, rfl⟩ | ⟨B, holds⟩ := refines
  · unfold Mtdconfig.getconfig findfirstentry findentry
    rw [if_pos rfl, if_neg unformatted]
    exact if_neg fun both => absurd both.1 (lt_irrefl 0)
  · exact holds.getconfig able named hdr buflen

/-! ## Release -/

theorem writebyte_spec (g : Geometry) (mem : Flash) (offset : ℕ) (inside : offset < g.size) :
    ∃ mem', writebytes g mem offset [0x00#8] = some mem' ∧ mem' offset = 0x00#8 ∧
      ∀ i, i ≠ offset → mem' i = mem i := by
  obtain ⟨mem', wrote, same, -⟩ := writebytes_spec g mem offset [0x00#8] inside
  refine ⟨mem', wrote, ?_, fun i other => same i (by simp only [length_singleton]; omega)⟩
  unfold writebytes at wrote
  rw [if_pos (show offset + [0x00#8].length ≤ g.size from inside)] at wrote
  cases wrote
  simp

theorem Holds.releaseEntry (holds : Holds g mem B store) {found : ℕ × Header}
    (finds : Finds found ((walk g B).find? (Stop.holds item))) :
    ∃ B', Holds g (releaseEntry g mem found.1 found.2 item) B'
      (update store item none) := by
  unfold Mtdconfig.releaseEntry
  cases stop : (walk g B).find? (Stop.holds item) with
  | none =>
    rw [stop] at finds
    rw [if_neg fun both => absurd (show _ = 0 from finds) (ne_of_gt both.1),
      ← holds.find_none stop, update_eq_self]
    exact ⟨B, holds⟩
  | some s =>
    rw [stop] at finds
    obtain ⟨e, b, before, after, header, active, same, -, inUse, split, place,
      block, fits, below⟩ :=
      holds.find_some stop
    have inside := inUse.trans_le g.endblock_le
    have size := e.size_gt
    obtain ⟨mem', wrote, zero, others⟩ :=
      writebyte_spec g mem s.offset (by omega)
    rw [show found = (s.offset, s.header) from finds, header,
      if_pos ⟨by dsimp only; omega, (e.header_matches item).mpr same⟩, wrote]
    have released := block.release (place ▸ zero) (place ▸ others)
    refine ⟨update B b (before ++ e.release :: after),
      ⟨holds.toRepr.update released ?_ ?_, fun d unused => ?_⟩, ?_⟩
    · intro i other
      refine others i fun here => other ?_
      exact g.block_eq (by omega) (by omega)
    · intro i low
      exact others i (by omega)
    · rw [update_of_ne (by omega)]
      exact holds.spare d unused
    subst same
    refine Lists.erase (holds.lists.perm ?_)
    refine .trans ?_ (gather_perm (Nat.zero_le _) inside).symm
    refine ((gather_update (Nat.zero_le _) inside).cons e).trans ?_
    rw [split, live_append, live_append,
      live_cons_released (show e.release.released = true from rfl),
      live_cons_active active, append_assoc, append_assoc]
    exact perm_middle.symm

variable {first : ℕ × Header} {offset len : ℕ}

theorem Refines.deleteconfig (able : g.Able) (refines : Refines g mem store)
    (named : item.id ≠ 0xffff#16) {buffer : Bool}
    (ok : (deleteconfig g buffer mem hdr item).1 = .ok) :
    Refines g (deleteconfig g buffer mem hdr item).2 (update store item none) := by
  unfold Mtdconfig.deleteconfig at ok ⊢
  cases buffer with
  | false => cases ok
  | true =>
    rw [if_pos rfl] at ok ⊢
    dsimp only at ok ⊢
    obtain ⟨unformatted, rfl⟩ | ⟨B, holds⟩ := refines
    · unfold findfirstentry findentry at ok
      rw [if_neg unformatted] at ok
      cases ok
    have finds := lookup_finds able holds.toWellFormed named
      (findfirstentry_finds holds.toWellFormed hdr)
    split at ok
    next present =>
      rw [if_pos present]
      exact .inr (holds.releaseEntry finds)
    next => cases ok

/-! ## New entries -/

def Entry.of (item : Item) (data : List Byte) (named : item.id ≠ 0xffff#16) (some : data ≠ [])
    (short : data.length < 2 ^ 16) : Entry where
  released := false
  inst := BitVec.ofInt 8 item.inst
  id := item.id
  data := data
  id_ne := named
  data_ne := some
  short := short

/-- Room for data behind the entries of a block in use. -/
def Room (g : Geometry) (B : ℕ → List Entry) (offset len : ℕ) : Prop :=
  ∃ b < g.endblock, offset = b * g.erasesize + 3 + total (B b) ∧
    3 + total (B b) + 6 + len ≤ g.erasesize

def Item.Fits (item : Item) : Prop := 0 ≤ item.inst ∧ item.inst < 256

theorem Entry.item_of {named : item.id ≠ 0xffff#16} {some : data ≠ []}
    {short : data.length < 2 ^ 16} (fits : item.Fits) :
    (Entry.of item data named some short).item = item := by
  obtain ⟨id, inst⟩ := item
  obtain ⟨low, high⟩ := fits
  have value : (((BitVec.ofInt 8 inst).toNat : ℕ) : ℤ) = inst := by
    rw [BitVec.toNat_ofInt]
    dsimp only at low high
    omega
  unfold Entry.item Entry.of
  rw [value]

theorem Holds.saveEntry (holds : Holds g mem B store) (named : item.id ≠ 0xffff#16)
    (fits : item.Fits) (some : data ≠ []) (length : data.length < 2 ^ 16)
    (room : Room g B offset data.length) (new : store item = none) :
    ∃ B', Holds g (saveEntry g mem offset item data).2 B'
      (update store item (.some data)) := by
  obtain ⟨b, inUse, place, enough⟩ := room
  have inside := inUse.trans_le g.endblock_le
  let e := Entry.of item data named some length
  have same : e.item = item := Entry.item_of fits
  obtain ⟨mem₁, mem₂, wrote₁, wrote₂, block, others, low⟩ :=
    (holds.block b inside).write (e := e) inside (add_assoc _ 6 _ ▸ enough) place
  have saved : Mtdconfig.saveEntry g mem offset item data = (.ok, mem₂) := by
    replace wrote₁ : writebytes g mem offset (Header.bytes
        { flags := 0xff#8, inst := BitVec.ofInt 8 item.inst, id := item.id
          len := BitVec.ofNat 16 data.length }) = .some mem₁ := wrote₁
    replace wrote₂ : writebytes g mem₁ (offset + 6) data = .some mem₂ := wrote₂
    unfold Mtdconfig.saveEntry
    dsimp only
    rw [wrote₁]
    dsimp only
    rw [wrote₂]
  rw [saved]
  refine ⟨update B b (B b ++ [e]), ⟨holds.toRepr.update block others low, fun d unused => ?_⟩, ?_⟩
  · rw [update_of_ne (by omega)]
    exact holds.spare d unused
  · rw [← same]
    exact (holds.lists.insert (same ▸ new)).perm (gather_append_entry rfl (Nat.zero_le _) inside)

/-- The search for a place finds a first entry in use, and if that is the erased rest of a block
which is too small, the jump over it leaves the device. -/
def Ready (g : Geometry) (B : ℕ → List Entry) (len : ℕ) : Prop :=
  ∃ s, (walk g B).find? Stop.active = some s ∧
    (s.entry = none → (s.offset / g.erasesize + 1) * g.erasesize - s.offset < 6 + len →
      g.endblock * g.erasesize ≤ s.offset + 65541)

theorem room_of_blank (member : s ∈ walk g B) (blank : s.entry = none)
    (enough : s.offset + 6 + len ≤ s.offset / g.erasesize * g.erasesize + g.erasesize) :
    Room g B s.offset len := by
  obtain ⟨b, inUse, stop⟩ := mem_walk.mp member
  obtain ⟨before, e', after, split, rfl⟩ | ⟨below, rfl⟩ := mem_stopsFrom.mp stop
  · cases blank
  dsimp only at enough ⊢
  rw [g.block_eq (b := b) (by omega) (by omega)] at enough
  exact ⟨b, inUse, rfl, by omega⟩

theorem nextOffset_far {hdr : Header}
    (far : g.endblock * g.erasesize ≤ offset + 6 + hdr.len.toNat) :
    nextOffset g offset hdr = none := by
  refine if_pos ?_
  split
  · exact Nat.le_add_right_of_le far
  · exact far

theorem findnextentry_jump {size : ℕ} (last : g.endblock * g.erasesize ≤ offset + 65541) :
    (findnextentry g mem offset { Header.erased with id := 1 } size).1 = 0 := by
  have far : nextOffset g offset { Header.erased with id := 1 } = none := by
    refine nextOffset_far (le_trans last ?_)
    have length : (0xffff#16).toNat = 65535 := by simp
    show offset + 65541 ≤ offset + 6 + (0xffff#16).toNat
    rw [length, add_assoc]
  unfold findnextentry
  rw [far]

theorem WellFormed.findplace (able : g.Able) (wf : WellFormed g mem B) (ready : Ready g B len)
    (positive : 0 < len) (small : len < 2 ^ 16) (hdr : Header) :
    (findplace g mem hdr len).1 = .full ∨
      ∃ offset, (findplace g mem hdr len).1 = .at offset ∧ Room g B offset len := by
  obtain ⟨s, first, jump⟩ := ready
  have found := findfirstentry_finds wf hdr
  rw [first] at found
  have member := mem_of_find?_eq_some first
  have linked := linked_walk wf.toRepr
  obtain ⟨-, before, after, equal, -⟩ := find?_eq_some_iff_append.mp first
  rw [equal] at linked
  have rest := linked.of_append
  obtain ⟨⟨b, sound, -⟩, -⟩ := id rest
  unfold Mtdconfig.findplace
  rw [show findfirstentry g mem hdr = (s.offset, s.header) from found]
  dsimp only
  cases entry : s.entry with
  | none =>
    rw [Stop.header_blank entry]
    by_cases room : (s.offset / g.erasesize + 1) * g.erasesize - s.offset < 6 + len
    · rw [show simulateActive g s.offset .erased len = { Header.erased with id := 1 } from
          if_pos ⟨sound.pos, Header.erased_id, room⟩, if_pos (by decide),
        findnextentry_jump (jump entry room)]
      exact .inl rfl
    rw [show simulateActive g s.offset .erased len = .erased from
        if_neg fun all => room all.2.2, if_neg (not_not_intro Header.erased_id),
      if_pos sound.pos]
    refine .inr ⟨s.offset, rfl, room_of_blank member entry ?_⟩
    rw [g.end_eq, sound.block_eq] at room
    rw [sound.block_eq]
    omega
  | some e =>
    have taken : s.header.id ≠ 0xffff#16 := by
      rw [Stop.Sound.header_entry entry]
      exact e.id_ne
    rw [show simulateActive g s.offset s.header len = s.header from
      if_neg fun all => taken all.2.1, if_pos taken, Nat.mod_eq_of_lt small]
    have next : Finds (findnextentry g mem s.offset s.header len)
        (after.find? (Stop.hit g len)) := findnextentry_finds able rest entry
    cases hit : after.find? (Stop.hit g len) with
    | none =>
      rw [hit] at next
      rw [show _ = 0 from next]
      exact .inl rfl
    | some t =>
      rw [hit] at next
      have inWalk : t ∈ walk g B := by
        rw [equal]
        exact mem_append_right _
          (mem_cons_of_mem _ (mem_of_find?_eq_some hit))
      have wanted := find?_some hit
      rw [show findnextentry g mem s.offset s.header len = (t.offset, t.header) from next,
        if_neg (ne_of_gt (pos_of_mem_walk inWalk))]
      refine .inr ⟨t.offset, rfl, ?_⟩
      cases entryT : t.entry with
      | none =>
        unfold Stop.hit at wanted
        rw [entryT, Bool.and_eq_true, decide_eq_true_eq, decide_eq_true_eq] at wanted
        exact room_of_blank inWalk entryT (by omega)
      | some e' =>
        unfold Stop.hit at wanted
        rw [entryT, Bool.and_eq_true, beq_iff_eq] at wanted
        omega

/-- When nothing on the device is released, the search begins with the first block. -/
theorem WellFormed.ready (wf : WellFormed g mem B) (kept : ∀ b, ∀ e ∈ B b, e.released = false)
    (fits : len + 9 ≤ g.erasesize) : Ready g B len := by
  obtain ⟨s, w, equal, offset⟩ := head_walk wf.toRepr
  have member : s ∈ walk g B := equal ▸ mem_cons_self
  have active : s.active = true := by
    cases entry : s.entry with
    | none =>
      unfold Stop.active
      rw [entry]
      rfl
    | some e =>
      obtain ⟨b, -, before, after, split, -⟩ := entry_of_mem_walk member entry
      exact (Stop.active_iff entry).mpr (kept b e (split ▸ mem_append_cons_self))
  refine ⟨s, by rw [equal, find?_cons_of_pos active], fun _ little => ?_⟩
  rw [offset, Nat.div_eq_of_lt (by omega)] at little
  omega

theorem WellFormed.reclaim (able : g.Able) (wf : WellFormed g mem B) (pbuf : Bool) :
    ∃ B', WellFormed g (reclaim g pbuf mem) B' ∧
      (gather B' 0 g.neraseblocks).Perm (gather B 0 g.neraseblocks) ∧
      (pbuf = true → ∀ b, ∀ e ∈ B' b, e.released = false) ∧ (pbuf = false → B' = B) := by
  have nonempty := g.nonempty
  unfold Mtdconfig.reclaim
  split
  next ram =>
    refine ramconsolidate_spec wf ?_ pbuf
    unfold Geometry.endblock
    obtain ram | one := ram
    · rw [if_pos ram]
    · rw [if_pos one, one]
      exact ite_self 1
  next reserve =>
    refine consolidate_spec able wf ?_ pbuf
    unfold Geometry.endblock
    rw [if_neg fun ram => reserve (.inl ram), if_neg fun one => reserve (.inr one)]
    exact Nat.sub_add_cancel nonempty

theorem Holds.reclaim (able : g.Able) (holds : Holds g mem B store) (pbuf : Bool) :
    ∃ B', Holds g (reclaim g pbuf mem) B' store ∧
      (pbuf = true → ∀ b, ∀ e ∈ B' b, e.released = false) ∧ (pbuf = false → B' = B) := by
  obtain ⟨B', wf, same, rest⟩ := holds.toWellFormed.reclaim able pbuf
  exact ⟨B', ⟨wf, holds.lists.perm same⟩, rest⟩

/-! ## Setting an item -/

/-- What a set does to the store; no data deletes the item. -/
def Store.set (store : Store) (item : Item) (data : List Byte) : Store :=
  update store item (if data = [] then none else some data)

theorem Holds.setData (able : g.Able) (holds : Holds g mem B store) (new : store item = none)
    (named : item.id ≠ 0xffff#16) (fits : item.Fits) (small : data.length + 9 ≤ g.erasesize)
    (ready : data ≠ [] → Ready g B data.length) {memory : Memory} {ret : Result}
    (ok : (setData g memory ret mem hdr item data).1 = .ok) :
    ∃ B', Holds g (setData g memory ret mem hdr item data).2 B' (store.set item data) := by
  have length : data.length < 2 ^ 16 := by
    have short := able.short
    omega
  unfold Mtdconfig.setData at ok ⊢
  by_cases empty : data = []
  · subst empty
    unfold Store.set
    rw [if_pos rfl, ← new, update_eq_self]
    exact ⟨B, holds⟩
  have positive : 0 < data.length := length_pos_iff.mpr empty
  have set : store.set item data = update store item (some data) := by
    unfold Store.set
    rw [if_neg empty]
  rw [set]
  rw [if_neg (positive.ne')] at ok ⊢
  rcases place : findplace g mem hdr data.length with ⟨p, hdr'⟩
  have first := holds.toWellFormed.findplace able (ready empty) positive length hdr
  rw [place] at first ok
  obtain rfl | ⟨offset, rfl, room⟩ := first
  · dsimp only at ok ⊢
    obtain ⟨B', holds', kept, moved⟩ := holds.reclaim able memory.pbuf
    have ready' : Ready g B' data.length := by
      cases pbuf : memory.pbuf with
      | true => exact holds'.toWellFormed.ready (kept pbuf) small
      | false => exact moved pbuf ▸ ready empty
    rcases place' :
      findplace g (Mtdconfig.reclaim g memory.pbuf mem) hdr' data.length with ⟨p', hdr''⟩
    have second := holds'.toWellFormed.findplace able ready' positive length hdr'
    rw [place'] at second ok
    obtain rfl | ⟨offset, rfl, room⟩ := second
    · cases ok
    · exact holds'.saveEntry named fits empty length room new
  · exact holds.saveEntry named fits empty length room new

theorem Holds.format (g : Geometry) :
    Holds g ((writebytes g (fun _ => 0xff#8) 0 sig).getD fun _ => 0xff#8) (fun _ => [])
      fun _ => none := by
  have roomy := g.roomy
  have inside := Geometry.end_le_size (g := g) (b := 0) g.nonempty
  have three : sig.length = 3 := rfl
  obtain ⟨mem, wrote, same, held⟩ := writebytes_spec g (fun _ => 0xff#8) 0 sig (by omega)
  rw [wrote]
  refine ⟨⟨⟨held fun _ _ _ => rfl, fun b inUse => ?_⟩, fun _ _ => rfl⟩, ?_⟩
  · exact ⟨by rw [total_nil]; omega, trivial, fun i low high => same i (by omega)⟩
  have none : gather (fun _ => []) 0 g.neraseblocks = [] :=
    flatMap_eq_nil_iff.mpr fun _ _ => rfl
  rw [none]
  exact Lists.nil

theorem FindsFirst.eq_none (found : FindsFirst g first ((walk g B).find? Stop.active))
    (zero : first.1 = 0) : (walk g B).find? Stop.active = none := by
  cases stop : (walk g B).find? Stop.active with
  | none => rfl
  | some s =>
    rw [stop] at found
    rw [show first = (s.offset, s.header) from found] at zero
    exact absurd zero (ne_of_gt (pos_of_mem_walk (mem_of_find?_eq_some stop)))

theorem Holds.eq_empty (holds : Holds g mem B store)
    (none : (walk g B).find? Stop.active = none) : store = fun _ => .none := by
  funext item
  refine holds.find_none ?_
  rw [find?_eq_none] at none ⊢
  exact fun s member held => none s member (Stop.active_of_holds held)

theorem Refines.findFormatted (refines : Refines g mem store) (hdr : Header) :
    ∃ B, Holds g (findFormatted g mem hdr).2.2 B store ∧
      FindsFirst g (findFormatted g mem hdr).1 ((walk g B).find? Stop.active) := by
  have fresh : (findfirstentry g mem hdr).1 = 0 → (store = fun _ => none) →
      ∃ B, Holds g (Mtdconfig.findFormatted g mem hdr).2.2 B store ∧
        FindsFirst g (Mtdconfig.findFormatted g mem hdr).1 ((walk g B).find? Stop.active) := by
    rintro zero rfl
    unfold Mtdconfig.findFormatted
    rw [if_pos zero]
    exact ⟨_, Holds.format g, findfirstentry_finds (Holds.format g).toWellFormed _⟩
  obtain ⟨unformatted, empty⟩ | ⟨B, holds⟩ := refines
  · refine fresh ?_ empty
    unfold findfirstentry
    rw [if_neg unformatted]
  by_cases zero : (findfirstentry g mem hdr).1 = 0
  · refine fresh zero ?_
    exact holds.eq_empty ((findfirstentry_finds holds.toWellFormed hdr).eq_none zero)
  unfold Mtdconfig.findFormatted
  rw [if_neg zero]
  exact ⟨B, holds, findfirstentry_finds holds.toWellFormed hdr⟩

end NuttxRtos.Mtdconfig

import NuttxRtos.Mtdconfig.Store

/-!
# Runs of the configuration store

Runs of successful sets and deletions refine the finite map as long as new entries do not go behind
the blocks in use; a set that fails after the old entry was released loses it.
-/

namespace NuttxRtos.Mtdconfig

open Function

/-! ## Successful calls -/

/-- The flash when a place for new data is searched. -/
def releasedFlash (g : Geometry) (mem : Flash) (hdr : Header) (item : Item) : Flash :=
  let formatted := findFormatted g mem hdr
  let found := findentry g formatted.2.2 formatted.1.1 item formatted.1.2
  releaseEntry g formatted.2.2 found.1 found.2 item

/-- The first entry is in a block in use, and when it is empty and too small, the jump over it
leaves the device. -/
def PlaceFound (g : Geometry) (first : ℕ × Header) (len : ℕ) : Prop :=
  0 < first.1 ∧ first.1 < g.endblock * g.erasesize ∧
    (first.2.id = 0xffff#16 → (first.1 / g.erasesize + 1) * g.erasesize - first.1 < 6 + len →
      g.endblock * g.erasesize ≤ first.1 + 65541)

instance (g : Geometry) (first : ℕ × Header) (len : ℕ) : Decidable (PlaceFound g first len) :=
  inferInstanceAs (Decidable (_ ∧ _))

/-- An item that an entry can have, data that fits a block, and a place that is found. -/
structure Settable (g : Geometry) (mem : Flash) (hdr : Header) (item : Item) (data : List Byte) :
    Prop where
  named : item.id ≠ 0xffff#16
  fits : item.Fits
  small : data.length + 9 ≤ g.erasesize
  place : data ≠ [] → PlaceFound g (findfirstentry g (releasedFlash g mem hdr item) hdr) data.length

variable {g : Geometry} {mem : Flash} {B : ℕ → List Entry} {store : Store} {item : Item}
  {hdr : Header} {data : List Byte} {memory : Memory}

theorem setconfig_eq (buffer : memory.buffer = true) :
    setconfig g memory mem hdr item data =
      if (findFormatted g mem hdr).1.1 = 0 then
        (.failed .enosys, (findFormatted g mem hdr).2.2)
      else setData g memory (findFormatted g mem hdr).2.1 (releasedFlash g mem hdr item)
        (findentry g (findFormatted g mem hdr).2.2 (findFormatted g mem hdr).1.1 item
          (findFormatted g mem hdr).1.2).2 item data :=
  if_pos buffer

theorem Refines.releasedFlash (able : g.Able) (refines : Refines g mem store)
    (named : item.id ≠ 0xffff#16) (hdr : Header) :
    ∃ B, Holds g (releasedFlash g mem hdr item) B (update store item none) := by
  obtain ⟨B, holds, first⟩ := refines.findFormatted hdr
  exact holds.releaseEntry (lookup_finds able holds.toWellFormed named first)

variable {len offset size : ℕ}

theorem WellFormed.ready_of_placeFound (wf : WellFormed g mem B)
    (place : PlaceFound g (findfirstentry g mem hdr) len) : Ready g B len := by
  obtain ⟨low, high, jump⟩ := place
  have found := findfirstentry_finds wf hdr
  cases first : (walk g B).find? Stop.active with
  | none =>
    rw [first] at found
    obtain zero | behind := found
    · omega
    rw [behind] at high
    omega
  | some s =>
    rw [first] at found
    rw [show findfirstentry g mem hdr = (s.offset, s.header) from found] at jump
    refine ⟨s, first, fun blank little => jump ?_ little⟩
    show s.header.id = 0xffff#16
    unfold Stop.header
    rw [blank]
    rfl

theorem Refines.setconfig (able : g.Able) (refines : Refines g mem store)
    (settable : Settable g mem hdr item data)
    (ok : (setconfig g memory mem hdr item data).1 = .ok) :
    Refines g (setconfig g memory mem hdr item data).2 (store.set item data) := by
  cases buffer : memory.buffer with
  | false =>
    unfold Mtdconfig.setconfig at ok
    rw [buffer] at ok
    cases ok
  | true =>
    rw [setconfig_eq buffer] at ok ⊢
    split at ok
    · cases ok
    next present =>
      rw [if_neg present]
      obtain ⟨B, holds⟩ := refines.releasedFlash able settable.named hdr
      have ready : data ≠ [] → Ready g B data.length :=
        fun some => holds.toWellFormed.ready_of_placeFound (settable.place some)
      obtain ⟨B', holds'⟩ := holds.setData able (update_self ..) settable.named
        settable.fits settable.small ready ok
      refine .inr ⟨B', ?_⟩
      unfold Store.set at holds' ⊢
      rwa [update_idem] at holds'

/-! ## Runs -/

/-- What a call that succeeds does to the map. -/
inductive Op where
  | set (item : Item) (data : List Byte)
  | delete (item : Item)

def Op.apply (store : Store) : Op → Store
  | .set item data => store.set item data
  | .delete item => update store item none

inductive Step (g : Geometry) (mem : Flash) : Op → Flash → Prop where
  | set (memory : Memory) (hdr : Header) (item : Item) (data : List Byte) (mem' : Flash)
      (settable : Settable g mem hdr item data)
      (ok : setconfig g memory mem hdr item data = (.ok, mem')) : Step g mem (.set item data) mem'
  | delete (buffer : Bool) (hdr : Header) (item : Item) (mem' : Flash)
      (named : item.id ≠ 0xffff#16) (ok : deleteconfig g buffer mem hdr item = (.ok, mem')) :
      Step g mem (.delete item) mem'

/-- Runs of successful calls, with the map they should give. -/
inductive Run (g : Geometry) (start : Flash) : Flash → Store → Prop where
  | start : Run g start start fun _ => none
  | step {mem mem' : Flash} {store : Store} {op : Op} (run : Run g start mem store)
      (step : Step g mem op mem') : Run g start mem' (op.apply store)

theorem Step.refines (able : g.Able) {op : Op} {mem' : Flash} (step : Step g mem op mem')
    (refines : Refines g mem store) : Refines g mem' (op.apply store) := by
  cases step with
  | set memory hdr item data _ settable ok =>
    have next := refines.setconfig able settable (by rw [ok])
    rwa [ok] at next
  | delete buffer hdr item _ named ok =>
    have next := refines.deleteconfig able named (by rw [ok])
    rwa [ok] at next

theorem Run.refines (able : g.Able) {start : Flash} (fresh : readbytes g start 0 3 ≠ some sig)
    (run : Run g start mem store) : Refines g mem store := by
  induction run with
  | start => exact .inl ⟨fresh, rfl⟩
  | step _ step ih => exact step.refines able ih

def device : Geometry := ⟨20, 20, 2, true, false, by decide, by decide, by decide, by decide⟩

theorem device_able : device.Able := ⟨by decide, .inl rfl⟩

def blankFlash : Flash := fun _ => 0xff#8

def anyHdr : Header := ⟨0, 0, 0, 0⟩

def firstItem : Item := ⟨1, 0⟩

def secondItem : Item := ⟨2, 0⟩

def thirdItem : Item := ⟨3, 0⟩

def oneSet : Flash := (setconfig device ⟨true, true⟩ blankFlash anyHdr firstItem [7, 8]).2

/-- The second set releases the entry of the first. -/
def twoSets : Flash := (setconfig device ⟨true, true⟩ oneSet anyHdr firstItem [9, 9, 9]).2

theorem oneSet_run : Run device blankFlash oneSet (.set (fun _ => none) firstItem [7, 8]) := by
  have settable : Settable device blankFlash anyHdr firstItem [7, 8] :=
    ⟨by decide, ⟨by decide, by decide⟩, by decide, fun _ => by decide +kernel⟩
  have ok : (setconfig device ⟨true, true⟩ blankFlash anyHdr firstItem [7, 8]).1 = .ok := by
    decide +kernel
  exact Run.start.step (.set _ _ _ _ oneSet settable (Prod.ext ok rfl))

theorem twoSets_run : Run device blankFlash twoSets
    (.set (.set (fun _ => none) firstItem [7, 8]) firstItem [9, 9, 9]) := by
  have settable : Settable device oneSet anyHdr firstItem [9, 9, 9] :=
    ⟨by decide, ⟨by decide, by decide⟩, by decide, fun _ => by decide +kernel⟩
  have ok : (setconfig device ⟨true, true⟩ oneSet anyHdr firstItem [9, 9, 9]).1 = .ok := by
    decide +kernel
  exact oneSet_run.step (.set _ _ _ _ twoSets settable (Prod.ext ok rfl))

theorem blankFlash_fresh : readbytes device blankFlash 0 3 ≠ some sig := by decide

def filled : Result × Flash :=
  setconfig device ⟨true, true⟩ blankFlash anyHdr firstItem (List.replicate 11 7)

def emptied : Result × Flash := deleteconfig device true filled.2 anyHdr firstItem

def behind : Result × Flash :=
  setconfig device ⟨true, true⟩ emptied.2 anyHdr secondItem [5]

def consolidated : Result × Flash :=
  setconfig device ⟨true, true⟩ behind.2 anyHdr thirdItem [6]

theorem saveEntry_ok (inside : offset + 6 + data.length ≤ g.size) :
    (saveEntry g mem offset item data).1 = .ok := by
  unfold saveEntry writebytes
  have six : ∀ h : Header, h.bytes.length = 6 := fun _ => rfl
  dsimp only
  rw [six, if_pos (show offset + 6 ≤ g.size by omega)]
  dsimp only
  rw [if_pos inside]

theorem readHdr_inside (read : readHdr g mem offset = some hdr) : offset + 6 ≤ g.size := by
  unfold readHdr readbytes at read
  by_cases inside : offset + 6 ≤ g.size
  · exact inside
  · rw [if_neg inside] at read
    cases read

theorem room_inside (inside : offset + 6 ≤ g.size)
    (room : 6 + len ≤ (offset / g.erasesize + 1) * g.erasesize - offset) :
    offset + 6 + len ≤ g.size := by
  have low : offset < g.neraseblocks * g.erasesize := lt_of_lt_of_le (by omega) inside
  have block : offset / g.erasesize < g.neraseblocks :=
    Nat.div_lt_of_lt_mul (by rwa [Nat.mul_comm])
  have below := Geometry.end_le_size block
  rw [g.end_eq] at room
  omega

theorem findfirstLoop_inside (fuel offset : ℕ) (hdr : Header) :
    (findfirstLoop g mem fuel offset hdr).1 = 0 ∨
      (findfirstLoop g mem fuel offset hdr).1 + 6 ≤ g.size := by
  induction fuel generalizing offset hdr with
  | zero => exact .inl rfl
  | succ fuel ih =>
    unfold findfirstLoop
    cases read : readHdr g mem offset with
    | none => exact .inl rfl
    | some hdr' =>
      dsimp only
      split
      · split
        · split
          · exact .inl rfl
          · exact ih _ _
        split
        · exact ih _ _
        · exact ih _ _
      · exact .inr (readHdr_inside read)

theorem findfirstentry_inside (mem : Flash) (hdr : Header) :
    (findfirstentry g mem hdr).1 = 0 ∨ (findfirstentry g mem hdr).1 + 6 ≤ g.size := by
  unfold findfirstentry
  split
  · exact findfirstLoop_inside _ _ _
  · exact .inl rfl

theorem findnextLoop_inside (positive : 0 < size) (fuel offset : ℕ) (hdr : Header) :
    (findnextLoop g mem size fuel offset hdr).1 = 0 ∨
      (findnextLoop g mem size fuel offset hdr).1 + 6 + size ≤ g.size := by
  induction fuel generalizing offset hdr with
  | zero => exact .inl rfl
  | succ fuel ih =>
    unfold findnextLoop
    cases read : readHdr g mem offset with
    | none => exact .inl rfl
    | some hdr' =>
      dsimp only
      split
      · split
        next room =>
          exact .inr (room_inside (readHdr_inside read)
            (Nat.le_trans (Nat.add_comm size 6 ▸ room.2) (Nat.mod_le _ _)))
        next =>
          split
          · exact .inl rfl
          · exact ih _ _
      rw [if_neg fun both => ne_of_gt positive both.2]
      split
      · exact .inl rfl
      · exact ih _ _

theorem findnextentry_inside (positive : 0 < size) (offset : ℕ) (hdr : Header) :
    (findnextentry g mem offset hdr size).1 = 0 ∨
      (findnextentry g mem offset hdr size).1 + 6 + size ≤ g.size := by
  unfold findnextentry
  split
  · exact .inl rfl
  · exact findnextLoop_inside positive _ _ _

theorem findplace_inside (positive : 0 < data.length) (length : data.length < 2 ^ 16)
    (place : (findplace g mem hdr data.length).1 = .at offset) :
    offset + 6 + data.length ≤ g.size := by
  unfold findplace at place
  dsimp only at place
  rw [Nat.mod_eq_of_lt length] at place
  split at place
  · split at place
    · cases place
    next found =>
      cases place
      exact (findnextentry_inside positive _ _).resolve_left found
  next blank =>
    split at place
    next present =>
      cases place
      have inside := (findfirstentry_inside (g := g) mem hdr).resolve_left (present.ne')
      refine room_inside inside (Nat.le_of_not_lt fun little => ?_)
      have erased := not_not.mp blank
      unfold simulateActive at erased
      dsimp only at erased
      split at erased
      · exact absurd (show (1 : BitVec 16) = 0xffff#16 from erased) (by decide)
      next other => exact other ⟨present, erased, little⟩
    next => cases place

theorem Holds.setData_failed (able : g.Able) (holds : Holds g mem B store)
    (length : data.length < 2 ^ 16) {ret : Result} {errno : Errno}
    (failed : (Mtdconfig.setData g memory ret mem hdr item data).1 = .failed errno) :
    ∃ B', Holds g (Mtdconfig.setData g memory ret mem hdr item data).2 B' store := by
  unfold Mtdconfig.setData at failed ⊢
  by_cases empty : data.length = 0
  · rw [if_pos empty] at failed
    cases failed
  rw [if_neg empty] at failed ⊢
  have positive := Nat.pos_of_ne_zero empty
  have saved : ∀ {mem : Flash} {offset : ℕ} {hdr hdr' : Header},
      findplace g mem hdr data.length = (.at offset, hdr') →
      (Mtdconfig.saveEntry g mem offset item data).1 ≠ .failed errno := by
    intro mem offset hdr hdr' place
    rw [saveEntry_ok (findplace_inside positive length (congrArg Prod.fst place))]
    exact nofun
  split at failed
  next place => exact absurd failed (saved place)
  next => exact ⟨B, holds⟩
  next =>
    dsimp only at failed ⊢
    obtain ⟨B', holds', -⟩ := holds.reclaim able memory.pbuf
    split at failed
    next place => exact absurd failed (saved place)
    next => exact ⟨B', holds'⟩
    next => exact ⟨B', holds'⟩

theorem Store.get_none {buflen : ℕ} :
    store.get item buflen = .error .enosys ↔ store item = none := by
  unfold Store.get
  cases store item <;> simp

def tooLong : List Byte := List.replicate 30 7

end NuttxRtos.Mtdconfig

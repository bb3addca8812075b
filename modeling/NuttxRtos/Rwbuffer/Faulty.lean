import NuttxRtos.Rwbuffer.Invalidate

/-!
# A device that may fail

The write side of `drivers/rwbuffer.c` in front of a device whose `wrflush` may fail. Where the code
looks at its result the caller is told, or the data stays buffered; `rwb_wrflush` does not look.
-/

namespace NuttxRtos.Rwbuffer.Faulty

open Overlay Option

variable {β : Type} {g : Geometry}

/-- What a call of `wrflush` does: all blocks are written, and their number returned, or something
else is returned and some of the blocks are written. -/
inductive Outcome where
  | success
  | failure (ret : ℤ) (stored : ℕ → Bool)

def Outcome.ret (outcome : Outcome) (nblocks : ℕ) : ℤ :=
  match outcome with
  | .success => nblocks
  | .failure ret _ => ret

def wrflush (outcome : Outcome) (rwb : Rwb β) (buffer : ℕ → β) (startblock : ℤ) (nblocks : ℕ) :
    Rwb β :=
  match outcome with
  | .success => Rwbuffer.wrflush rwb buffer startblock nblocks
  | .failure _ stored =>
    { rwb with media := fun b =>
        if stored (b - startblock).toNat then overlay rwb.media startblock nblocks buffer b
        else rwb.media b }

/-- `rwb_wrflush`: an error is only logged. -/
def rwbWrflush (outcome : Outcome) (rwb : Rwb β) : Rwb β :=
  if 0 < rwb.wrnblocks then
    rwbResetwrbuffer (wrflush outcome rwb rwb.wrbuffer rwb.wrblockstart rwb.wrnblocks)
  else rwb

def rwbWritebuffer (g : Geometry) (outcome : Outcome) (rwb : Rwb β) (startblock : ℤ) (nblocks : ℕ)
    (wrbuffer : ℕ → β) : ℤ × Rwb β :=
  if writebufferMiss g rwb startblock nblocks then
    let ret := outcome.ret rwb.wrnblocks
    let rwb := wrflush outcome rwb rwb.wrbuffer rwb.wrblockstart rwb.wrnblocks
    if ret < 0 then (ret, rwb)
    else (nblocks, appendWrbuffer (rwbResetwrbuffer rwb) startblock nblocks wrbuffer)
  else (nblocks, appendWrbuffer rwb startblock nblocks wrbuffer)

/-- `rwb_write`, which may call `wrflush` twice: for the buffered blocks and for the new ones. -/
def rwbWrite (g : Geometry) (old new : Outcome) (rwb : Rwb β) (startblock : ℤ) (nblocks : ℕ)
    (wrbuffer : ℕ → β) : Option (ℤ × Rwb β) := do
  let rwb ← writeReadahead g rwb startblock nblocks
  if 0 < g.wrmaxblocks then
    let rwb ← takeWrsem rwb
    if g.wrmaxblocks < nblocks then
      let rwb := giveWrsem (rwbWrflush old rwb)
      return (new.ret nblocks, wrflush new rwb wrbuffer startblock nblocks)
    else
      let (ret, rwb) := rwbWritebuffer g old rwb startblock nblocks wrbuffer
      return (ret, giveWrsem rwb)
  else return (new.ret nblocks, wrflush new rwb wrbuffer startblock nblocks)

/-- `rwb_flush` returns what the wait for the semaphore returned. -/
def rwbFlush (outcome : Outcome) (rwb : Rwb β) : Option (ℤ × Rwb β) := do
  let rwb ← takeWrsem rwb
  return (0, giveWrsem (rwbWrflush outcome rwb))

def rwbWrtimeout (outcome : Outcome) (rwb : Rwb β) : Option (Rwb β) := do
  let rwb ← takeWrsem rwb
  return giveWrsem (rwbWrflush outcome rwb)

/-! ## Sequences of calls -/

/-- The driver, and for every block the data that a write of it was last accepted with. -/
structure Sys (β : Type) where
  rwb : Rwb β
  accepted : ℤ → Option β

inductive Op (β : Type) where
  | write (startblock : ℤ) (nblocks : ℕ) (wrbuffer : ℕ → β) (old new : Outcome)
  | flush (outcome : Outcome)
  | timeout (outcome : Outcome)

def step (g : Geometry) (s : Sys β) : Op β → Option (ℤ × Sys β)
  | .write startblock nblocks wrbuffer old new =>
    (rwbWrite g old new s.rwb startblock nblocks wrbuffer).map fun (ret, rwb) =>
      (ret, ⟨rwb, if 0 ≤ ret then overlay s.accepted startblock nblocks fun i => some (wrbuffer i)
        else s.accepted⟩)
  | .flush outcome => (rwbFlush outcome s.rwb).map fun (ret, rwb) => (ret, ⟨rwb, s.accepted⟩)
  | .timeout outcome => (rwbWrtimeout outcome s.rwb).map fun rwb => (0, ⟨rwb, s.accepted⟩)

def Valid (g : Geometry) : Op β → Prop
  | .write startblock nblocks _ _ _ => InMedia g startblock nblocks
  | .flush _ | .timeout _ => True

/-- A call of `wrflush` from `rwb_wrflush` writes all blocks. Any other call does so or returns an
error. -/
def Reported (g : Geometry) (s : Sys β) : Op β → Prop
  | .write startblock nblocks _ old new =>
    if g.wrmaxblocks < nblocks then
      (s.rwb.wrnblocks = 0 ∨ old = .success) ∧ (new = .success ∨ new.ret nblocks < 0)
    else writebufferMiss g s.rwb startblock nblocks = true →
      old = .success ∨ old.ret s.rwb.wrnblocks < 0
  | .flush outcome | .timeout outcome => s.rwb.wrnblocks = 0 ∨ outcome = .success

def initial (media : ℤ → β) (wrbuffer rhbuffer : ℕ → β) : Sys β :=
  ⟨rwbInitialize media wrbuffer rhbuffer, fun _ => none⟩

/-- Calls that all returned success. -/
inductive Run (g : Geometry) (condition : Sys β → Op β → Prop) : Sys β → Prop where
  | init (media : ℤ → β) (wrbuffer rhbuffer : ℕ → β) :
      Run g condition (initial media wrbuffer rhbuffer)
  | step {s s' : Sys β} {ret : ℤ} (run : Run g condition s) (op : Op β) (valid : Valid g op)
      (allowed : condition s op) (returns : step g s op = some (ret, s')) (success : 0 ≤ ret) :
      Run g condition s'

/-! ## Every accepted block is in the buffer or on the media -/

structure Inv (s : Sys β) : Prop where
  wrsem : s.rwb.wrsem = 1
  rhsem : s.rwb.rhsem = 1
  expected : 0 < s.rwb.wrnblocks → s.rwb.wrexpectedblock = s.rwb.wrblockstart + s.rwb.wrnblocks
  kept : ∀ b v, s.accepted b = some v → contents s.rwb b = v

variable {s s' : Sys β} {rwb rwb' : Rwb β} {old new outcome : Outcome} {startblock ret : ℤ}
  {nblocks : ℕ} {wrbuffer : ℕ → β}

theorem rwbWrflush_eq (reported : rwb.wrnblocks = 0 ∨ outcome = .success) :
    rwbWrflush outcome rwb = Rwbuffer.rwbWrflush rwb := by
  unfold rwbWrflush Rwbuffer.rwbWrflush
  cases reported with
  | inl empty => rw [if_neg (by omega), if_neg (by omega)]
  | inr success => rw [success]; rfl

/-- A write that returns success did what it does on a device that does not fail. -/
theorem rwbWrite_eq (buffered : 0 < g.wrmaxblocks) {accepted : ℤ → Option β}
    (reported : Reported g ⟨rwb, accepted⟩ (.write startblock nblocks wrbuffer old new))
    (wrsem : rwb.wrsem = 1) (rhsem : rwb.rhsem = 1)
    (returns : rwbWrite g old new rwb startblock nblocks wrbuffer = some (ret, rwb'))
    (success : 0 ≤ ret) : Rwbuffer.rwbWrite g rwb startblock nblocks wrbuffer = some rwb' := by
  unfold Rwbuffer.rwbWrite
  obtain ⟨next, ahead, returns⟩ := bind_eq_some_iff.1 returns
  have same := writeReadahead_same rhsem ahead
  have count : next.wrnblocks = rwb.wrnblocks := by rw [same]
  have free : next.wrsem = 1 := by
    rw [same]
    exact wrsem
  have miss : writebufferMiss g { next with wrsem := 0 } startblock nblocks =
      writebufferMiss g rwb startblock nblocks := by
    rw [same]
    rfl
  rw [ahead]
  simp only [bind_eq_bind, bind_some, if_pos buffered, takeWrsem_eq free, pure]
    at returns ⊢
  dsimp only [Reported] at reported
  split at returns
  · rename_i large
    rw [if_pos large] at reported ⊢
    cases returns
    cases reported.2 with
    | inl written =>
      have flushed : rwbWrflush old { next with wrsem := 0 } =
          Rwbuffer.rwbWrflush { next with wrsem := 0 } := by
        apply rwbWrflush_eq
        rw [← count] at reported
        exact reported.1
      rw [written, flushed]
      rfl
    | inr failed => omega
  rename_i small
  rw [if_neg small] at reported ⊢
  unfold rwbWritebuffer at returns
  unfold Rwbuffer.rwbWritebuffer
  rw [miss] at returns ⊢
  split at returns
  · rename_i missed
    rw [if_pos missed]
    cases reported missed with
    | inl written =>
      rw [written] at returns
      cases returns
      rfl
    | inr failed =>
      rw [← count] at failed
      simp only [if_pos failed] at returns
      cases returns
      omega
  rename_i hit
  rw [if_neg hit]
  cases returns
  rfl

theorem rwbWrite_expected (valid : InMedia g startblock nblocks) (media : g.nblocks < 2 ^ 31)
    (buffered : 0 < g.wrmaxblocks) (wrsem : rwb.wrsem = 1) (rhsem : rwb.rhsem = 1)
    (expected : 0 < rwb.wrnblocks → rwb.wrexpectedblock = rwb.wrblockstart + rwb.wrnblocks)
    (returns : Rwbuffer.rwbWrite g rwb startblock nblocks wrbuffer = some rwb') :
    rwb'.wrsem = 1 ∧ rwb'.rhsem = 1 ∧
      (0 < rwb'.wrnblocks → rwb'.wrexpectedblock = rwb'.wrblockstart + rwb'.wrnblocks) := by
  have low := valid.low
  have high := valid.high
  obtain ⟨next, ahead, returns⟩ := bind_eq_some_iff.1 returns
  have same := writeReadahead_same rhsem ahead
  obtain ⟨sem, ahead_sem, block⟩ : next.wrsem = 1 ∧ next.rhsem = 1 ∧
      (0 < next.wrnblocks → next.wrexpectedblock = next.wrblockstart + next.wrnblocks) := by
    rw [same]
    exact ⟨wrsem, rhsem, expected⟩
  simp only [bind_eq_bind, bind_some, if_pos buffered, takeWrsem_eq sem,
    rwbWrflush_locked sem, rwbWritebuffer_locked sem, pure] at returns
  split at returns
  · cases returns
    unfold Rwbuffer.rwbWrflush
    split
    · exact ⟨sem, ahead_sem, fun no => absurd no (lt_irrefl 0)⟩
    · exact ⟨sem, ahead_sem, block⟩
  cases returns
  unfold Rwbuffer.rwbWritebuffer
  split
  · refine ⟨sem, ahead_sem, fun _ => ?_⟩
    simp only [appendWrbuffer, rwbResetwrbuffer]
    exact toOff_eq (by omega) (by omega)
  rename_i hit
  refine ⟨sem, ahead_sem, fun _ => ?_⟩
  simp only [writebufferMiss, decide_eq_true_eq] at hit
  simp only [appendWrbuffer]
  split
  · exact toOff_eq (by omega) (by omega)
  rename_i filled
  exact toOff_eq (by omega) (by omega)

theorem initial_inv (media : ℤ → β) (wrbuffer rhbuffer : ℕ → β) :
    Inv (initial media wrbuffer rhbuffer) :=
  ⟨rfl, rfl, fun no => absurd no (lt_irrefl 0), fun _ _ no => nomatch no⟩

/-- A flush that is not in vain, and everything that was accepted is on the media. -/
theorem rwbWrflush_inv (inv : Inv s) (reported : s.rwb.wrnblocks = 0 ∨ outcome = .success) :
    Inv ⟨rwbWrflush outcome s.rwb, s.accepted⟩ ∧
      ∀ b v, s.accepted b = some v → (rwbWrflush outcome s.rwb).media b = v := by
  rw [rwbWrflush_eq reported]
  unfold Rwbuffer.rwbWrflush
  split
  · have written : ∀ b v, s.accepted b = some v → (flushed s.rwb).media b = v := by
      intro b v accepted
      exact inv.kept b v accepted
    refine ⟨⟨inv.wrsem, inv.rhsem, fun no => absurd no (lt_irrefl 0), ?_⟩, written⟩
    intro b v accepted
    change contents (flushed s.rwb) b = v
    rw [contents_flushed]
    exact inv.kept b v accepted
  rename_i empty
  refine ⟨inv, ?_⟩
  rw [← contents_of_empty (by omega)]
  exact inv.kept

theorem rwbWrflush_locked (free : rwb.wrsem = 1) :
    giveWrsem (rwbWrflush outcome { rwb with wrsem := 0 }) = rwbWrflush outcome rwb := by
  cases rwb
  cases free
  unfold rwbWrflush
  split
  · cases outcome <;> rfl
  · rfl

theorem rwbFlush_eq (free : rwb.wrsem = 1) :
    rwbFlush outcome rwb = some (0, rwbWrflush outcome rwb) ∧
      rwbWrtimeout outcome rwb = some (rwbWrflush outcome rwb) := by
  unfold rwbFlush rwbWrtimeout
  rw [takeWrsem_eq free, ← rwbWrflush_locked free]
  exact ⟨rfl, rfl⟩

theorem step_inv (buffered : 0 < g.wrmaxblocks) (media : g.nblocks < 2 ^ 31) (inv : Inv s)
    {op : Op β} (valid : Valid g op) (reported : Reported g s op)
    (returns : step g s op = some (ret, s')) (success : 0 ≤ ret) :
    Inv s' ∧ ∀ outcome, op = .flush outcome → ∀ b v, s'.accepted b = some v →
      s'.rwb.media b = v := by
  cases op with
  | write startblock nblocks wrbuffer old new =>
    refine ⟨?_, nofun⟩
    obtain ⟨⟨ret', rwb'⟩, result, same⟩ := map_eq_some_iff.1 returns
    cases same
    have written := rwbWrite_eq buffered reported inv.wrsem inv.rhsem result success
    obtain ⟨wrsem, rhsem, expected⟩ :=
      rwbWrite_expected valid media buffered inv.wrsem inv.rhsem inv.expected written
    have stores : StoresOwn g s.rwb := storesOwn_of_expected inv.expected
    have high := valid.high
    have stored := stores.rwbWrite buffered inv.wrsem inv.rhsem valid.low (by omega) written
    refine ⟨wrsem, rhsem, expected, fun b v accepted => ?_⟩
    simp only [if_pos success] at accepted
    rw [stored]
    by_cases inside : startblock ≤ b ∧ b < startblock + nblocks
    · rw [overlay_inside inside.1 inside.2] at accepted ⊢
      exact Option.some.inj accepted
    · rw [overlay_outside (by omega)] at accepted ⊢
      exact inv.kept b v accepted
  | flush outcome =>
    obtain ⟨inv', written⟩ := rwbWrflush_inv inv reported
    rw [step, (rwbFlush_eq inv.wrsem).1] at returns
    cases returns
    exact ⟨inv', fun _ _ => written⟩
  | timeout outcome =>
    obtain ⟨inv', _⟩ := rwbWrflush_inv inv reported
    rw [step, (rwbFlush_eq inv.wrsem).2] at returns
    cases returns
    exact ⟨inv', nofun⟩

theorem Run.inv (buffered : 0 < g.wrmaxblocks) (media : g.nblocks < 2 ^ 31)
    (run : Run g (Reported g) s) : Inv s := by
  induction run with
  | init blocks wrbuffer rhbuffer => exact initial_inv blocks wrbuffer rhbuffer
  | step _ op valid reported returns success inv =>
    exact (step_inv buffered media inv valid reported returns success).1

/-- After calls that all returned success, every accepted block is on the media or in the write
buffer, and after a flush on the media, if the flushes whose result nobody looks at do not fail. -/
theorem run_accepted (buffered : 0 < g.wrmaxblocks) (media : g.nblocks < 2 ^ 31)
    (run : Run g (Reported g) s) :
    (∀ b v, s.accepted b = some v → contents s.rwb b = v) ∧
    ∀ outcome ret s', Reported g s (.flush outcome) →
      step g s (.flush outcome) = some (ret, s') → 0 ≤ ret →
      ∀ b v, s'.accepted b = some v → s'.rwb.media b = v := by
  have inv := run.inv buffered media
  refine ⟨inv.kept, fun outcome ret s' reported returns success => ?_⟩
  have valid : Valid g (.flush outcome : Op β) := trivial
  exact (step_inv buffered media inv valid reported returns success).2 outcome rfl

/-- A buffered block, and the flush that writes it. -/
theorem run_accepted_flushed :
    ∃ s s' : Sys ℕ, Run (smallCard false) (Reported (smallCard false)) s ∧
      step (smallCard false) s (.flush .success) = some (0, s') ∧ s.rwb.media 5 = 0 ∧
      s'.rwb.media 5 = 1 := by
  have first : Run (smallCard false) (Reported (smallCard false))
      (initial (fun _ => 0) (fun _ => 0) fun _ => 0) := .init _ _ _
  have second :=
    first.step (.write 5 1 (fun _ => 1) .success .success) ⟨by decide, by decide⟩ (nofun) rfl
      (by decide)
  have written := (run_accepted (by decide) (by decide) second).2 .success 0 _ (.inr rfl) rfl
    (by decide) 5 1 rfl
  exact ⟨_, _, second, rfl, rfl, written⟩

/-- `rwb_flush` returns success although the device did not write the buffered block; and so does an
`rwb_write` of more blocks than the buffer has. -/
theorem failed_flush_loses_block :
    (∃ s s' : Sys ℕ, Run (smallCard false) (fun _ _ => True) s ∧
      step (smallCard false) s (.flush (.failure (-5) fun _ => false)) = some (0, s') ∧
      s'.accepted 5 = some 1 ∧ contents s'.rwb 5 = 0) ∧
    ∃ s s' : Sys ℕ, Run (smallCard false) (fun _ _ => True) s ∧ step (smallCard false) s
        (.write 8 5 (fun _ => 2) (.failure (-5) fun _ => false) .success) = some (5, s') ∧
      s'.accepted 5 = some 1 ∧ contents s'.rwb 5 = 0 := by
  have first : Run (smallCard false) (fun _ _ => True)
      (initial (fun _ => 0) (fun _ => 0) fun _ => 0) := .init _ _ _
  have second :=
    first.step (.write 5 1 (fun _ => 1) .success .success) ⟨by decide, by decide⟩ trivial rfl
      (by decide)
  exact ⟨⟨_, _, second, rfl, rfl, rfl⟩, ⟨_, _, second, rfl, rfl, rfl⟩⟩

end NuttxRtos.Rwbuffer.Faulty

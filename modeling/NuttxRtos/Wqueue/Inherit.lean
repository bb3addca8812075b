import NuttxRtos.Lib.PendingMax

/-!
# The priority of the low-priority workers

A client of the low-priority work queue asks with `lpwork_boostpriority` for a priority and gives the
request back with `lpwork_restorepriority`. Each worker keeps its requests as its current priority and
an array of at most `CONFIG_SEM_NNESTPRIO` others.
-/

namespace NuttxRtos.Wqueue

open PendingMax List

structure Config where
  nnestprio : ℕ
  lpworkpriomax : ℕ

/-- The TCB of a worker thread; `pend` is `pend_reprios` up to `npend_reprio`. -/
structure Worker where
  base : ℕ
  sched : ℕ
  pend : List ℕ
  deriving DecidableEq

variable (config : Config)

/-- An entry is added to `pend_reprios` if there is room for one. -/
def savePriority (pend : List ℕ) (p : ℕ) : List ℕ :=
  if pend.length < config.nnestprio then pend ++ [p] else pend

def lpworkBoostworker (reqprio : ℕ) (w : Worker) : Worker :=
  if 0 < config.nnestprio then
    if w.base < reqprio then
      if w.sched < reqprio then
        { w with
          pend := if w.base < w.sched then savePriority config w.pend w.sched else w.pend
          sched := reqprio }
      else { w with pend := savePriority config w.pend reqprio }
    else w
  else if w.sched < reqprio then { w with sched := reqprio }
  else w

def reprioritize (w : Worker) : Worker :=
  { w with sched := w.base, pend := [] }

def lpworkRestoreworker (reqprio : ℕ) (w : Worker) : Worker :=
  if w.sched ≠ w.base then
    if 0 < config.nnestprio then
      match w.pend with
      | [] => reprioritize w
      | first :: others =>
        if w.sched ≤ reqprio then
          let (wpriority, selected) := highestFrom first 0 1 others
          { w with sched := wpriority, pend := moveLast w.pend selected }
        else
          match w.pend.findIdx? (· = reqprio) with
          | none => w
          | some index => { w with pend := moveLast w.pend index }
    else reprioritize w
  else w

def clip (reqprio : ℕ) : ℕ :=
  if config.lpworkpriomax < reqprio then config.lpworkpriomax else reqprio

def lpworkBoostpriority (workers : List Worker) (reqprio : ℕ) : List Worker :=
  workers.map (lpworkBoostworker config (clip config reqprio))

def lpworkRestorepriority (workers : List Worker) (reqprio : ℕ) : List Worker :=
  workers.map (lpworkRestoreworker config (clip config reqprio))

/-! ## Runs -/

/-- The workers, and the requests boosted and not yet restored. -/
structure State where
  workers : List Worker
  requests : List ℕ

inductive Call where
  | boost (reqprio : ℕ)
  | restore (reqprio : ℕ)

def State.step (s : State) : Call → State
  | .boost r => ⟨lpworkBoostpriority config s.workers r, r :: s.requests⟩
  | .restore r => ⟨lpworkRestorepriority config s.workers r, s.requests.erase r⟩

def above (w : Worker) (requests : List ℕ) : ℕ :=
  ((requests.map (clip config)).filter fun q => w.base < q).length

/-- A restore matches an earlier boost, and the requests above the base priority fit into the array
and the current priority. -/
def Matching (s : State) : Call → Prop
  | .boost r => ∀ w ∈ s.workers, above config w (r :: s.requests) ≤ config.nnestprio + 1
  | .restore r => r ∈ s.requests

instance (s : State) : DecidablePred (Matching config s)
  | .boost r => inferInstanceAs
      (Decidable (∀ w ∈ s.workers, above config w (r :: s.requests) ≤ config.nnestprio + 1))
  | .restore r => inferInstanceAs (Decidable (r ∈ s.requests))

/-- A request that a worker has not recorded is not given back while it has recorded exactly one. -/
def Recorded (s : State) : Call → Prop
  | .boost _ => True
  | .restore r => ∀ w ∈ s.workers, w.base < clip config r ∨ above config w s.requests ≠ 1

instance (s : State) : DecidablePred (Recorded config s)
  | .boost _ => inferInstanceAs (Decidable True)
  | .restore r => inferInstanceAs
      (Decidable (∀ w ∈ s.workers, w.base < clip config r ∨ above config w s.requests ≠ 1))

inductive Runs (permitted : State → Call → Prop) (workers : List Worker) : State → Prop
  | start : Runs permitted workers ⟨workers, []⟩
  | call {s : State} {c : Call} (before : Runs permitted workers s) (ok : permitted s c) :
      Runs permitted workers (s.step config c)

/-- The largest of the base priority and the requests. -/
def highest (base : ℕ) (requests : List ℕ) : ℕ :=
  requests.foldr max base

/-- Every worker has the priority of the highest request, or its base priority if none is above. -/
def AtHighest (s : State) : Prop :=
  ∀ w ∈ s.workers, w.sched = highest w.base (s.requests.map (clip config)) ∧
    ((∀ r ∈ s.requests, r ≤ config.lpworkpriomax) → w.sched = highest w.base s.requests)

/-! ## One worker -/

variable {config} {w : Worker} {p : ℕ} {all : List ℕ}

def Worker.Keeps (w : Worker) (all : List ℕ) : Prop :=
  Represents w.base w.sched w.pend all

theorem Worker.Keeps.count (keeps : w.Keeps all) (boosted : w.base < w.sched) :
    (all.filter fun q => w.base < q).length = w.pend.length + 1 := by
  have perm := keeps.perm
  rw [if_neg (boosted.ne')] at perm
  simpa using perm.length_eq

theorem savePriority_room {pend : List ℕ} (room : pend.length < config.nnestprio) :
    savePriority config pend p = pend ++ [p] :=
  if_pos room

theorem lpworkBoostworker_keeps (keeps : w.Keeps all)
    (fits : ((p :: all).filter fun q => w.base < q).length ≤ config.nnestprio + 1) :
    (lpworkBoostworker config p w).Keeps (p :: all) := by
  have base_le := keeps.floor_le
  by_cases low : p ≤ w.base
  · have same : lpworkBoostworker config p w = w := by
      simp [lpworkBoostworker, not_lt.2 low, not_lt.2 (low.trans base_le)]
    rw [same]
    exact keeps.add_low low
  have above := not_le.1 low
  rw [filter_cons_of_pos (by simpa using above), length_cons] at fits
  -- the worker is boosted already: the count of its requests leaves room in the array
  have room : w.base < w.sched → w.pend.length < config.nnestprio := fun boosted => by
    have count := keeps.count boosted
    omega
  unfold lpworkBoostworker
  by_cases nest : 0 < config.nnestprio
  · rw [if_pos nest, if_pos above]
    split
    · next high =>
      have added := keeps.add_top high
      split
      · next boosted =>
        rwa [if_pos boosted, ← savePriority_room (room boosted)] at added
      · next idle => rwa [if_neg idle] at added
    next high =>
    rw [savePriority_room (room (by omega))]
    exact keeps.add_rest above (Nat.not_lt.1 high)
  have idle : ¬ w.base < w.sched := fun boosted => nest (Nat.zero_lt_of_lt (room boosted))
  have high : w.sched < p := by omega
  rw [if_neg nest, if_pos high]
  have added := keeps.add_top high
  rwa [if_neg idle] at added

theorem lpworkRestoreworker_keeps (keeps : w.Keeps (p :: all))
    (fits : ((p :: all).filter fun q => w.base < q).length ≤ config.nnestprio + 1)
    (recorded : w.base < p ∨ ((p :: all).filter fun q => w.base < q).length ≠ 1) :
    (lpworkRestoreworker config p w).Keeps all := by
  have base_le := keeps.floor_le
  have back := keeps.giveBack (by
    by_contra! bad
    have count := keeps.count (lt_of_le_of_ne base_le (Ne.symm bad.1))
    rw [bad.2.1] at count
    exact recorded.elim (not_lt.2 bad.2.2) (· count))
  unfold giveBack at back
  unfold lpworkRestoreworker
  split
  · next boosted =>
    rw [if_pos boosted] at back
    have count := keeps.count (lt_of_le_of_ne base_le (Ne.symm boosted))
    split
    · split at back
      · next pending => simpa [pending, reprioritize, Worker.Keeps] using back
      next first others pending =>
      rw [pending] at back ⊢
      dsimp only
      split
      · next high => rwa [if_pos high] at back
      next low =>
      rw [if_neg low] at back
      split
      · next missing =>
        rw [missing, ← pending] at back
        exact back
      · next index found => rwa [found] at back
    next none =>
    have pending : w.pend = [] := eq_nil_of_length_eq_zero (by omega)
    simpa [pending, reprioritize, Worker.Keeps] using back
  · next idle => rwa [if_neg idle] at back

theorem highest_le {base top : ℕ} {l : List ℕ} (base_le : base ≤ top) (le : ∀ q ∈ l, q ≤ top) :
    highest base l ≤ top := by
  induction l with
  | nil => exact base_le
  | cons q l ih =>
    rw [forall_mem_cons] at le
    exact Nat.max_le.2 ⟨le.1, ih le.2⟩

theorem le_highest {base q : ℕ} {l : List ℕ} (reached : q = base ∨ q ∈ l) : q ≤ highest base l := by
  induction l with
  | nil => simpa [highest] using le_of_eq (reached.resolve_right (by simp))
  | cons r l ih =>
    rw [mem_cons, or_left_comm] at reached
    cases reached with
    | inl same => exact same ▸ le_max_left ..
    | inr rest => exact le_trans (ih rest) (le_max_right ..)

theorem Worker.Keeps.sched_eq (keeps : w.Keeps all) : w.sched = highest w.base all := by
  refine le_antisymm (le_highest ?_) (highest_le keeps.floor_le fun q => keeps.le_top)
  by_cases idle : w.sched = w.base
  · exact .inl idle
  · exact .inr (keeps.top_mem idle)

@[simp] theorem lpworkBoostworker_base (p : ℕ) (w : Worker) :
    (lpworkBoostworker config p w).base = w.base := by
  unfold lpworkBoostworker
  split_ifs <;> rfl

@[simp] theorem lpworkRestoreworker_base (p : ℕ) (w : Worker) :
    (lpworkRestoreworker config p w).base = w.base := by
  unfold lpworkRestoreworker
  repeat' split
  all_goals rfl

/-! ## Every worker -/

/-- Every worker keeps the requests, and they fit. -/
def Keeping (config : Config) (s : State) : Prop :=
  ∀ w ∈ s.workers, w.Keeps (s.requests.map (clip config)) ∧
    above config w s.requests ≤ config.nnestprio + 1

variable {s : State} {c : Call} {workers : List Worker}

theorem Keeping.atHighest (keeping : Keeping config s) : AtHighest config s := by
  intro w member
  have same := (keeping w member).1.sched_eq
  refine ⟨same, fun low => ?_⟩
  have whole : s.requests.map (clip config) = s.requests := by
    conv_rhs => rw [← map_id s.requests]
    exact map_congr_left fun r inside => if_neg (not_lt.2 (low r inside))
  rwa [whole] at same

theorem Keeping.step (keeping : Keeping config s) (matching : Matching config s c)
    (recorded : Recorded config s c) : Keeping config (s.step config c) := by
  cases c with
  | boost r =>
    intro w' member
    obtain ⟨w, inside, rfl⟩ := mem_map.1 member
    have fits := matching w inside
    refine ⟨lpworkBoostworker_keeps (keeping w inside).1 fits, ?_⟩
    simpa only [above, lpworkBoostworker_base, State.step] using fits
  | restore r =>
    intro w' member
    obtain ⟨w, inside, rfl⟩ := mem_map.1 member
    obtain ⟨keeps, fits⟩ := keeping w inside
    have perm := (perm_cons_erase matching).map (clip config)
    have count := (perm.filter fun q => w.base < q).length_eq
    have recorded := recorded w inside
    rw [above, count] at recorded fits
    refine ⟨lpworkRestoreworker_keeps (keeps.congr perm) fits recorded, ?_⟩
    simp only [above, lpworkRestoreworker_base]
    refine le_trans (List.Sublist.length_le ?_) fits
    exact (sublist_cons_self ..).filter _

theorem Runs.keeping
    (run : Runs config (fun s c => Matching config s c ∧ Recorded config s c) workers s)
    (idle : ∀ w ∈ workers, w.sched = w.base ∧ w.pend = []) : Keeping config s := by
  induction run with
  | start =>
    intro w member
    obtain ⟨sched, pend⟩ := idle w member
    refine ⟨?_, by simp [above]⟩
    rw [Worker.Keeps, sched, pend]
    exact .idle (by simp)
  | call before ok ih => exact ih.step ok.1 ok.2

theorem run_atHighest (config : Config) (workers : List Worker) (s : State)
    (idle : ∀ w ∈ workers, w.sched = w.base ∧ w.pend = [])
    (run : Runs config (fun s c => Matching config s c ∧ Recorded config s c) workers s) :
    AtHighest config s :=
  (run.keeping idle).atHighest

def defaults : Config := ⟨16, 176⟩

/-- One worker at the default priority. -/
def lpwork : List Worker := [⟨100, 100, []⟩]

/-- A request is given back while another is above the base priority. -/
theorem run_atHighest_nested :
    AtHighest defaults (((State.mk lpwork []).step defaults (.boost 150) |>.step defaults
      (.boost 200)).step defaults (.restore 200)) :=
  run_atHighest defaults lpwork _ (by decide)
    (.call (.call (.call .start (by decide)) (by decide)) (by decide))

/-- A request below the base priority, given back, takes the one above with it. -/
theorem restore_drops_request :
    ∃ s, Runs defaults (Matching defaults) lpwork s ∧ ¬ AtHighest defaults s := by
  refine ⟨((State.mk lpwork []).step defaults (.boost 50) |>.step defaults (.boost 150)).step
    defaults (.restore 50), .call (.call (.call .start (by decide)) (by decide)) (by decide), ?_⟩
  intro level
  have same := (level ⟨100, 100, []⟩ (by decide)).1
  exact absurd same (by decide)

end NuttxRtos.Wqueue

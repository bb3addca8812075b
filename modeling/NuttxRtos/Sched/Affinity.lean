import Mathlib.Data.Fin.VecNotation
import Mathlib.Data.Finset.Basic
import NuttxRtos.Lib.PriorityList

/-! `nxsched_remove_readytorun` with several CPUs. The tasks of a CPU, the running one first, are on
the list of the CPU and the others on `g_readytorun`. -/

namespace NuttxRtos.Sched.Affinity

open List Function
open PriorityList (Desc)

inductive TaskState where
  | invalid
  | readytorun
  | assigned
  | running
  deriving DecidableEq

structure State (τ κ : Type) where
  readytorun : List τ
  assignedtasks : κ → List τ
  -- the CPUs that hold the scheduler lock, and those that hold the interrupt lock
  lockset : Finset κ
  irqset : Finset κ
  priority : τ → ℕ
  affinity : τ → Finset κ
  cpu : τ → κ
  taskState : τ → TaskState
  lockcount : τ → ℕ
  irqcount : τ → ℕ

variable {τ κ : Type} [DecidableEq τ] [DecidableEq κ] {s s' : State τ κ} {c me : κ}
  {rtcb nxttcb r : τ} {rest : List τ}

def irqCpuLocked (s : State τ κ) (cpu : κ) : Bool :=
  s.irqset ≠ ∅ ∧ cpu ∉ s.irqset

/-- The search for a task that may run on the CPU finds one that is to come before `nxttcb`. -/
def takesReady (s : State τ κ) (me cpu : κ) (nxttcb : τ) : Bool :=
  s.lockset = ∅ ∧ !irqCpuLocked s me ∧
    (s.readytorun.find? (cpu ∈ s.affinity ·)).any (s.priority nxttcb ≤ s.priority ·)

/-- The CPU is to run `nxttcb` in place of `rtcb`, with the others of its list behind it. -/
def switchTo (s : State τ κ) (cpu : κ) (rtcb nxttcb : τ) (rest : List τ) : State τ κ :=
  { s with
    assignedtasks := update s.assignedtasks cpu (nxttcb :: rest)
    lockset := if 0 < s.lockcount nxttcb then insert cpu s.lockset else s.lockset.erase cpu
    irqset := if 0 < s.irqcount nxttcb then insert cpu s.irqset else s.irqset
    taskState := update (update s.taskState nxttcb .running) rtcb .invalid }

/-- Also tells whether the CPU of the caller is to switch. Nothing comes out if no task is left. -/
def removeReadytorun (s : State τ κ) (me : κ) (rtcb : τ) : Option (State τ κ × Bool) :=
  let cpu := s.cpu rtcb
  let taskState := update s.taskState rtcb .invalid
  let tasklist := s.assignedtasks cpu
  if s.taskState rtcb = .readytorun then
    some ({ s with readytorun := s.readytorun.erase rtcb, taskState }, false)
  else if tasklist.head? = some rtcb then
    match tasklist.tail, s.readytorun with
    | [], _ => none
    | nxttcb :: rest, tmptcb :: readytorun =>
      if takesReady s me cpu nxttcb then
        let s := { s with readytorun, cpu := update s.cpu tmptcb cpu }
        some (switchTo s cpu rtcb tmptcb (nxttcb :: rest), cpu = me)
      else some (switchTo s cpu rtcb nxttcb rest, cpu = me)
    | nxttcb :: rest, [] => some (switchTo s cpu rtcb nxttcb rest, cpu = me)
  else
    some ({ s with
      assignedtasks := update s.assignedtasks cpu (tasklist.erase rtcb), taskState }, false)

/-- The task runs on the CPU, with others behind it, and the scheduler is not locked. -/
structure Running (s : State τ κ) (c : κ) (rtcb nxttcb : τ) (rest : List τ) : Prop where
  assigned : s.assignedtasks c = rtcb :: nxttcb :: rest
  cpu : s.cpu rtcb = c
  running : s.taskState rtcb = .running
  desc : Desc s.priority (nxttcb :: rest)
  ready : Desc s.priority s.readytorun
  affinity : ∀ t ∈ nxttcb :: rest, c ∈ s.affinity t
  unlocked : s.lockset = ∅

/-- The CPU runs the best of the tasks left to it and of those ready that may run there. -/
def Picked (s s' : State τ κ) (c : κ) (left : List τ) : Prop :=
  ∃ head tail, s'.assignedtasks c = head :: tail ∧ Desc s.priority (head :: tail) ∧
    c ∈ s.affinity head ∧
    (∀ t, t ∈ left ∨ t ∈ s.readytorun ∧ c ∈ s.affinity t → s.priority t ≤ s.priority head) ∧
    ∀ t ∈ s.readytorun, t ≠ head → t ∈ s'.readytorun

omit [DecidableEq τ] in
/-- No task that may run on the CPU is better than both the next one of its list and the first that
the search finds. -/
theorem Running.best (h : Running s c rtcb nxttcb rest) {n : ℕ} (next : s.priority nxttcb ≤ n)
    (found : ∀ r, s.readytorun.find? (c ∈ s.affinity ·) = some r → s.priority r ≤ n) (t : τ)
    (left : t ∈ nxttcb :: rest ∨ t ∈ s.readytorun ∧ c ∈ s.affinity t) : s.priority t ≤ n := by
  obtain own | ⟨member, allowed⟩ := left
  · obtain rfl | behind := mem_cons.1 own
    · exact next
    · exact ((pairwise_cons.1 h.desc).1 t behind).trans next
  obtain ⟨r, first⟩ := Option.isSome_iff_exists.1 (find?_isSome (p := (c ∈ s.affinity ·)) |>.2
    ⟨t, member, decide_eq_true allowed⟩)
  obtain ⟨-, skipped, later, split, refused⟩ := find?_eq_some_iff_append.1 first
  have desc := (pairwise_append.1 (split ▸ h.ready)).2.1
  rw [split] at member
  cases mem_append.1 member with
  | inl skip => exact absurd allowed (by simpa using refused t skip)
  | inr member =>
    obtain rfl | behind := mem_cons.1 member
    · exact found t first
    · exact ((pairwise_cons.1 desc).1 t behind).trans (found r first)

theorem Running.next_picked_iff (h : Running s c rtcb nxttcb rest) :
    Picked s (switchTo s c rtcb nxttcb rest) c (nxttcb :: rest) ↔
      ∀ r, s.readytorun.find? (c ∈ s.affinity ·) = some r → s.priority r ≤ s.priority nxttcb := by
  constructor
  · rintro ⟨head, tail, now, -, -, best, -⟩ r found
    injection (update_self ..).symm.trans now with same
    exact same ▸ best r (.inr ⟨mem_of_find?_eq_some found, by simpa using find?_some found⟩)
  · intro best
    exact ⟨nxttcb, rest, update_self .., h.desc, h.affinity _ mem_cons_self, h.best le_rfl best,
      fun t member _ => member⟩

/-- The search looks for a task that may run on the CPU, but the task taken is the first one ready:
the two are to be the same. -/
theorem remove_picks_iff (me : κ) (h : Running s c rtcb nxttcb rest) :
    ∃ s' doswitch, removeReadytorun s me rtcb = some (s', doswitch) ∧
      (Picked s s' c (nxttcb :: rest) ↔ ∀ r, s.readytorun.find? (c ∈ s.affinity ·) = some r →
        if irqCpuLocked s me then s.priority r ≤ s.priority nxttcb
        else s.priority r < s.priority nxttcb ∨ s.readytorun.head? = some r) := by
  simp only [removeReadytorun, h.running, h.cpu, h.assigned, reduceCtorEq, if_false, head?_cons,
    tail_cons, if_true]
  by_cases takes : takesReady s me c nxttcb
  · obtain ⟨-, unlocked, better⟩ := of_decide_eq_true takes
    obtain ⟨r, found, higher⟩ := (Option.any_eq_true ..).1 better
    cases ready : s.readytorun with
    | nil => simp [ready] at found
    | cons tmptcb tail =>
      refine ⟨_, _, if_pos takes, ?_⟩
      trans tmptcb = r
      · constructor
        · rintro ⟨head, tail, now, -, allowed, -⟩
          injection (update_self ..).symm.trans now with same
          simpa [ready, same, allowed] using found
        · rintro rfl
          have best := h.best (of_decide_eq_true higher) (by simp [found])
          refine ⟨tmptcb, _, update_self ..,
            pairwise_cons.2 ⟨fun t own => best t (.inl own), h.desc⟩,
            by simpa using find?_some found, best, fun t member other => ?_⟩
          exact (mem_cons.1 (ready ▸ member)).resolve_left other
      · simp [← ready, found, Bool.not_eq_true' _ ▸ unlocked, (of_decide_eq_true higher).not_gt]
        simp [ready]
  refine ⟨switchTo s c rtcb nxttcb rest, c = me, ?_, h.next_picked_iff.trans ?_⟩
  · cases s.readytorun <;> simp [takes]
  refine forall_congr' fun r => forall_congr' fun found => ?_
  simp [takesReady, h.unlocked, found] at takes
  split <;> grind

/-- A task that may run only on CPU 1 is first on the ready list, before one that may run on CPU
0. -/
def stray : State (Fin 4) (Fin 2) where
  readytorun := [2, 3]
  assignedtasks := ![[1, 0], []]
  lockset := ∅
  irqset := ∅
  priority := ![0, 30, 20, 10]
  affinity := ![{0}, {0}, {1}, {0}]
  cpu _ := 0
  taskState := ![.assigned, .running, .readytorun, .readytorun]
  lockcount _ := 0
  irqcount _ := 0

theorem stray_running : Running stray 0 1 0 [] :=
  ⟨rfl, rfl, rfl, pairwise_singleton .., by simp [Desc, stray], by decide, rfl⟩

theorem stray_taken : Running stray 0 1 0 [] ∧ ((removeReadytorun stray 0 1).map
    fun (s, _) => s.assignedtasks 0) = some [2, 0] ∧ 0 ∉ stray.affinity 2 :=
  ⟨stray_running, by decide, by decide⟩

theorem remove_picks_stray : ∃ s' doswitch, removeReadytorun stray 0 1 = some (s', doswitch) ∧
    ¬ Picked stray s' 0 [0] := by
  obtain ⟨s', doswitch, removed, iff⟩ := remove_picks_iff 0 stray_running
  exact ⟨s', doswitch, removed, fun picked => absurd (iff.1 picked 3 rfl) (by decide)⟩

end NuttxRtos.Sched.Affinity

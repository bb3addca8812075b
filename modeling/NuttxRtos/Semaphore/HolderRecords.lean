import NuttxRtos.Semaphore.Holders

/-! What the records say of the tasks and semaphores, and that the functions of `sem_holder.c` keep
it. -/

namespace NuttxRtos.Semaphore

open List

open Function (update update_eq_self update_of_ne update_self)

open Chain

namespace Holders

variable {ρ τ κ : Type}

/-- `net` is what a task obtained from a semaphore less what it posted. The records of the
semaphores with priority inheritance agree with it, a task has one at most for a semaphore, and if
it must have one and has none, it holds nothing. -/
structure Records (inherit : κ → Bool) (must : τ → κ → Prop) (net : τ → κ → ℤ)
    (h : Holders ρ τ κ) (free : List ρ) (held : κ → List ρ) : Prop where
  lists : h.Lists free held
  holder : ∀ k, ∀ r ∈ held k, ∃ t, h.htcb r = some t ∧ h.counts r = net t k
  once : ∀ k, ∀ r ∈ held k, ∀ r' ∈ held k, h.htcb r = h.htcb r' → r = r'
  plain : ∀ k, inherit k = false → held k = []
  unheld : ∀ k t, must t k → (∀ r ∈ held k, h.htcb r ≠ some t) → net t k = 0
  nonneg : ∀ k t, inherit k = true → 0 ≤ net t k

/-- The accounts after the task obtained `n` counts of the semaphore. -/
def bumpNet [DecidableEq τ] [DecidableEq κ] (net : τ → κ → ℤ) (t : τ) (k : κ) (n : ℤ) : τ → κ → ℤ :=
  Function.update net t (bump (net t) k n)

variable {inherit : κ → Bool} {must : τ → κ → Prop} {net : τ → κ → ℤ} {h : Holders ρ τ κ}
  {free : List ρ} {held : κ → List ρ} {k : κ} {r : ρ} {t : τ}

theorem Records.on (records : Records inherit must net h free held) (member : r ∈ held k) :
    inherit k = true := by
  by_contra off
  rw [records.plain k (by simpa using off)] at member
  cases member

theorem Records.change_net (records : Records inherit must net h free held) {net' : τ → κ → ℤ}
    (same : ∀ u j, inherit j = true ∨ must u j → net' u j = net u j) :
    Records inherit must net' h free held := by
  refine ⟨records.lists, fun j r member => ?_, records.once, records.plain, ?_, ?_⟩
  · obtain ⟨u, owner, counts⟩ := records.holder j r member
    exact ⟨u, owner, by rw [same u j (.inl (records.on member)), counts]⟩
  · intro j u has absent
    rw [same u j (.inr has)]
    exact records.unheld j u has absent
  intro j u on
  rw [same u j (.inl on)]
  exact records.nonneg j u on

section

variable [DecidableEq τ] [Fintype ρ]

theorem Records.find_some (records : Records inherit must net h free held) (member : r ∈ held k)
    (owner : h.htcb r = some t) : h.findholder k t = some (some r) := by
  rw [records.lists.findholder_eq]
  have found : ((held k).find? fun r => h.htcb r = some t).isSome :=
    find?_isSome.2 ⟨r, member, by simpa using owner⟩
  obtain ⟨r', same⟩ := Option.isSome_iff_exists.1 found
  have owner' : h.htcb r' = some t := by simpa using find?_some same
  rw [same, records.once k r' (mem_of_find?_eq_some same) r member (owner'.trans owner.symm)]

theorem Records.find_cases (records : Records inherit must net h free held) (k : κ) (t : τ) :
    (∃ r ∈ held k, h.htcb r = some t ∧ h.findholder k t = some (some r)) ∨
      (∀ r ∈ held k, h.htcb r ≠ some t) ∧ h.findholder k t = some none := by
  rw [records.lists.findholder_eq]
  cases found : (held k).find? fun r => h.htcb r = some t with
  | some r =>
    exact .inl ⟨r, mem_of_find?_eq_some found, by simpa using find?_some found, rfl⟩
  | none =>
    refine .inr ⟨fun r member => ?_, rfl⟩
    simpa using find?_eq_none.1 found r member

end

section

variable [DecidableEq τ] [DecidableEq κ]

theorem bumpNet_same (n : ℤ) : bumpNet net t k n t k = net t k + n := by
  simp [bumpNet, bump]

theorem bumpNet_other {u : τ} {j : κ} (n : ℤ) (other : ¬ (u = t ∧ j = k)) :
    bumpNet net t k n u j = net u j := by
  unfold bumpNet
  by_cases same : u = t
  · subst same
    rw [update_self, bump, update_of_ne fun here => other ⟨rfl, here⟩]
  · rw [update_of_ne same]

theorem bumpNet_le {n : ℤ} (nonpos : n ≤ 0) {u : τ} {j : κ} : bumpNet net t k n u j ≤ net u j := by
  by_cases same : u = t ∧ j = k
  · rw [same.1, same.2, bumpNet_same]
    omega
  · rw [bumpNet_other n same]

end

/-! ## Counts -/

variable {h' : Holders ρ τ κ}

section

variable [DecidableEq ρ] [DecidableEq τ] [Fintype ρ]

theorem releaseHolder_counts (returned : h.releaseHolder k t = some h') :
    ∃ counts, h' = { h with counts := counts } := by
  obtain ⟨found, _, returned⟩ := Option.bind_eq_some_iff.1 returned
  cases found with
  | none =>
    cases returned
    exact ⟨h.counts, rfl⟩
  | some r =>
    dsimp only at returned
    split at returned
    · cases returned
      exact ⟨_, rfl⟩
    · cases returned
      exact ⟨h.counts, rfl⟩

theorem Records.releaseHolder_idle (records : Records inherit must net h free held)
    (idle : inherit k = true → net t k = 0) : h.releaseHolder k t = some h := by
  cases records.find_cases k t with
  | inr absent => simp [Holders.releaseHolder, absent.2]
  | inl present =>
    obtain ⟨r, member, owner, found⟩ := present
    obtain ⟨u, owner', counts⟩ := records.holder k r member
    cases owner.symm.trans owner'
    have empty : ¬ 0 < h.counts r := by
      rw [counts, idle (records.on member)]
      omega
    simp [Holders.releaseHolder, found, empty]

end

variable [DecidableEq ρ] [DecidableEq τ] [DecidableEq κ]

theorem Records.setCounts (records : Records inherit must net h free held) (member : r ∈ held k)
    (owner : h.htcb r = some t) (n : ℤ) (nonneg : 0 ≤ net t k + n) (lists : h'.Lists free held)
    (htcb : h'.htcb = h.htcb) (counts : h'.counts = update h.counts r (h.counts r + n)) :
    Records inherit must (bumpNet net t k n) h' free held := by
  refine ⟨lists, fun j b inside => ?_, ?_, records.plain, fun j u has absent => ?_, ?_⟩
  · obtain ⟨u, owner', same⟩ := records.holder j b inside
    refine ⟨u, by rw [htcb, owner'], ?_⟩
    rw [counts]
    by_cases here : b = r
    · subst here
      cases owner.symm.trans owner'
      cases records.lists.alone j k b inside member
      rw [update_self, bumpNet_same, same]
    rw [update_of_ne here, bumpNet_other, same]
    rintro ⟨rfl, rfl⟩
    exact here (records.once j b inside r member (owner'.trans owner.symm))
  · rw [htcb]
    exact records.once
  · rw [htcb] at absent
    rw [bumpNet_other, records.unheld j u has absent]
    rintro ⟨rfl, rfl⟩
    exact absent r member owner
  intro j u on
  by_cases same : u = t ∧ j = k
  · rw [same.1, same.2, bumpNet_same]
    exact nonneg
  · rw [bumpNet_other n same]
    exact records.nonneg j u on

theorem Records.insert (records : Records inherit must net h (r :: free) held)
    (on : inherit k = true) (absent : ∀ b ∈ held k, h.htcb b ≠ some t) (zero : net t k = 0)
    (lists : h'.Lists free (update held k (r :: held k)))
    (htcb : h'.htcb = update h.htcb r (some t)) (counts : h'.counts = update h.counts r 1) :
    Records inherit must (bumpNet net t k 1) h' free (update held k (r :: held k)) := by
  have fresh : ∀ j, r ∉ held j := fun j member => records.lists.apart j r member mem_cons_self
  have kept : ∀ j, ∀ b ∈ held j, h'.htcb b = h.htcb b ∧ h'.counts b = h.counts b := by
    intro j b member
    have other : b ≠ r := fun same => fresh j (same ▸ member)
    rw [htcb, counts, update_of_ne other, update_of_ne other]
    exact ⟨rfl, rfl⟩
  have mine : h'.htcb r = some t := by rw [htcb, update_self]
  have alone : ∀ b ∈ held k, h'.htcb b ≠ some t := fun b member => by
    rw [(kept k b member).1]
    exact absent b member
  refine ⟨lists, fun j b inside => ?_, fun j b inside b' inside' same => ?_, fun j off => ?_,
    fun j u has none_there => ?_, fun j u on => ?_⟩
  · rcases mem_put.1 inside with ⟨rfl, rfl⟩ | old
    · exact ⟨t, mine, by rw [counts, update_self, bumpNet_same, zero]; rfl⟩
    obtain ⟨u, owner, same⟩ := records.holder j b old
    refine ⟨u, by rw [(kept j b old).1, owner], ?_⟩
    rw [(kept j b old).2, same, bumpNet_other]
    rintro ⟨rfl, rfl⟩
    exact absent b old owner
  · rcases mem_put.1 inside with ⟨rfl, rfl⟩ | old
    · rcases mem_put.1 inside' with ⟨rfl, _⟩ | old'
      · rfl
      · exact absurd (same.symm.trans mine) (alone b' old')
    rcases mem_put.1 inside' with ⟨rfl, rfl⟩ | old'
    · exact absurd (same.trans mine) (alone b old)
    · rw [(kept j b old).1, (kept j b' old').1] at same
      exact records.once j b old b' old' same
  · have other : j ≠ k := by
      rintro rfl
      rw [on] at off
      cases off
    rw [update_of_ne other]
    exact records.plain j off
  · have other : ¬ (u = t ∧ j = k) := by
      rintro ⟨rfl, rfl⟩
      exact none_there r (mem_put.2 (.inl ⟨rfl, rfl⟩)) mine
    rw [bumpNet_other 1 other]
    refine records.unheld j u has fun b member owner => ?_
    exact none_there b (mem_put.2 (.inr member)) ((kept j b member).1.trans owner)
  by_cases same : u = t ∧ j = k
  · rw [same.1, same.2, bumpNet_same, zero]
    decide
  · rw [bumpNet_other 1 same]
    exact records.nonneg j u on

/-! ## Freeing -/

variable [Fintype ρ]

section

variable (records : Records inherit must net h free held)
include records

theorem Records.free_mem (member : r ∈ held k)
    (done : ∀ t, h.htcb r = some t → must t k → net t k = 0) :
    ∃ h', h.freeholder k r = some h' ∧ Records inherit must net h' (r :: free)
      (update held k ((held k).erase r)) := by
  obtain ⟨h', freed, lists, htcb, counts⟩ := records.lists.free_mem member
  have old := fun j b => records.lists.mem_taken member (b := b) (j := j)
  have kept : ∀ b, b ≠ r → h'.htcb b = h.htcb b ∧ h'.counts b = h.counts b := by
    intro b other
    rw [htcb, counts, update_of_ne other, update_of_ne other]
    exact ⟨rfl, rfl⟩
  refine ⟨h', freed, lists, fun j b inside => ?_, fun j b inside b' inside' same => ?_, ?_, ?_,
    records.nonneg⟩
  · obtain ⟨other, inside⟩ := (old j b).1 inside
    rw [(kept b other).1, (kept b other).2]
    exact records.holder j b inside
  · obtain ⟨other, inside⟩ := (old j b).1 inside
    obtain ⟨other', inside'⟩ := (old j b').1 inside'
    rw [(kept b other).1, (kept b' other').1] at same
    exact records.once j b inside b' inside' same
  · intro j off
    have empty := records.plain j off
    refine eq_nil_iff_forall_not_mem.2 fun b inside => ?_
    have inside := ((old j b).1 inside).2
    rw [empty] at inside
    cases inside
  intro j u has absent
  by_cases mine : j = k ∧ h.htcb r = some u
  · rw [mine.1] at has ⊢
    exact done u mine.2 has
  refine records.unheld j u has fun b inside owner => ?_
  have other : b ≠ r := by
    rintro rfl
    exact mine ⟨records.lists.alone j k b inside member, owner⟩
  exact absent b ((old j b).2 ⟨other, inside⟩) ((kept b other).1.trans owner)

theorem Records.findandfreeholder (k : κ) (t : τ) :
    ∃ h' free' held', h.findandfreeholder k t = some h' ∧
      Records inherit must net h' free' held' := by
  cases records.find_cases k t with
  | inr absent => exact ⟨h, free, held, by simp [Holders.findandfreeholder, absent.2], records⟩
  | inl present =>
    obtain ⟨r, member, owner, found⟩ := present
    by_cases empty : h.counts r ≤ 0
    · have done : ∀ u, h.htcb r = some u → must u k → net u k = 0 := by
        intro u owner' _
        obtain ⟨u', owner'', counts⟩ := records.holder k r member
        cases owner'.symm.trans owner''
        have nonneg := records.nonneg k u (records.on member)
        omega
      obtain ⟨h', freed, records'⟩ := records.free_mem member done
      exact ⟨h', _, _, by simp [Holders.findandfreeholder, found, empty, freed], records'⟩
    · exact ⟨h, free, held, by simp [Holders.findandfreeholder, found, empty], records⟩

end

/-! ## Walks -/

section

variable {alive : τ → Bool}

section

variable (records : Records inherit must net h free held)
include records

/-- The handler may be called with a record of any list: a walk that was switched out goes on with
the link that it read before. -/
theorem Records.restoreholderprio (living : ∀ t k, must t k → alive t = true) (k : κ) (r : ρ) :
    ∃ h' free' held', h.restoreholderprio alive k r = some h' ∧
      Records inherit must net h' free' held' := by
  unfold Holders.restoreholderprio
  cases owner : h.htcb r with
  | none => exact ⟨h, free, held, rfl, records⟩
  | some t =>
    by_cases alive_t : alive t = true
    · exact ⟨h, free, held, by simp [alive_t], records⟩
    cases records.find_cases k t with
    | inr absent => exact ⟨h, free, held, by simp [alive_t, absent.2], records⟩
    | inl present =>
      obtain ⟨r', member, owner', found⟩ := present
      obtain ⟨h', freed, records'⟩ := records.free_mem member fun u same has => by
        cases owner'.symm.trans same
        exact absurd (living t k has) alive_t
      exact ⟨h', _, _, by simp [alive_t, found, freed], records'⟩

/-- In each round of an uninterrupted walk the handler frees the record or, unless it clears the
list, does nothing. -/
theorem Records.walk
    (handler : Holders ρ τ κ → ρ → Option (Holders ρ τ κ)) (clears : Prop) (k : κ)
    (round : ∀ h free held r, Records inherit must net h free held → r ∈ held k →
      ¬ clears ∧ handler h r = some h ∨ handler h r = h.freeholder k r ∧
        ∀ t, h.htcb r = some t → must t k → net t k = 0) :
    ∃ h' free' held', foreachholder handler (fuel ρ) h (h.hhead k) = some h' ∧
      Records inherit must net h' free' held' ∧ (clears → held' k = []) := by
  rw [(records.lists.held_path k).head_eq]
  -- The records in front of those that are still to be visited were passed.
  obtain ⟨h', ended, free', held', pre, records', split, cleared⟩ := foreachholder_spec handler
    (Q := fun h rest => ∃ free held pre, Records inherit must net h free held ∧
      held k = pre ++ rest ∧ (clears → pre = []))
    (fun h r rest ahead => by
      obtain ⟨free, held, pre, records, split, cleared⟩ := ahead
      have member : r ∈ held k := by simp [split]
      obtain ⟨t, owner, _⟩ := records.holder k r member
      refine ⟨records.lists.next_eq split, by simp [owner], ?_⟩
      cases round h free held r records member with
      | inl passed =>
        exact ⟨h, passed.2, free, held, pre ++ [r], records, by simp [split],
          fun clears => absurd clears passed.1⟩
      | inr freed =>
        obtain ⟨h', returned, records'⟩ := records.free_mem member freed.2
        refine ⟨h', freed.1.trans returned, _, _, pre, records', ?_, cleared⟩
        have absent : r ∉ pre := by
          have nodup := (records.lists.held_path k).nodup
          rw [split, nodup_append] at nodup
          exact fun inside => nodup.2.2 r inside r mem_cons_self rfl
        rw [update_self, split, erase_append_right _ absent, erase_cons_head])
    (held k) (fuel ρ) h ⟨free, held, [], records, rfl, fun _ => rfl⟩ (records.lists.enough k)
  refine ⟨h', free', held', ended, records', fun clears => ?_⟩
  rw [split, cleared clears, append_nil]

theorem Records.boostPriority (living : ∀ t k, must t k → alive t = true) (k : κ) :
    ∃ h' free' held', h.boostPriority alive k = some h' ∧
      Records inherit must net h' free' held' := by
  obtain ⟨h', free', held', ended, records', _⟩ := records.walk
    (boostholderprio alive k) False k fun h free held r records member => by
      obtain ⟨t, owner, _⟩ := records.holder k r member
      by_cases alive_t : alive t = true
      · exact .inl ⟨id, by simp [boostholderprio, stale, owner, alive_t]⟩
      refine .inr ⟨by simp [boostholderprio, stale, owner, alive_t], fun u same has => ?_⟩
      cases owner.symm.trans same
      exact absurd (living t k has) alive_t
  exact ⟨h', free', held', ended, records'⟩

theorem Records.restoreBaseprio (living : ∀ t k, must t k → alive t = true) (k : κ) :
    ∃ h' free' held', h.restoreBaseprio alive k = some h' ∧
      Records inherit must net h' free' held' := by
  obtain ⟨h', free', held', ended, records', _⟩ := records.walk
    (Holders.restoreholderprio alive k) False k fun h free held r records member => by
      obtain ⟨t, owner, _⟩ := records.holder k r member
      by_cases alive_t : alive t = true
      · exact .inl ⟨id, by simp [Holders.restoreholderprio, owner, alive_t]⟩
      have found := records.find_some member owner
      refine .inr ⟨by simp [Holders.restoreholderprio, owner, alive_t, found], fun u same has => ?_⟩
      cases owner.symm.trans same
      exact absurd (living t k has) alive_t
  exact ⟨h', free', held', ended, records'⟩

end

end

section

variable (records : Records inherit must net h free held)
include records

/-- All records of a destroyed semaphore are freed, and its accounts are closed. -/
theorem Records.destroyholder (k : κ) : ∃ h' free' held', h.destroyholder k = some h' ∧
      Records inherit must (fun t => update (net t) k 0) h' free' held' := by
  -- During the walk no task must have a record of this semaphore.
  have others : Records inherit (fun t j => j ≠ k ∧ must t j) net h free held :=
    { records with unheld := fun j t has => records.unheld j t has.2 }
  obtain ⟨h', free', held', ended, last, cleared⟩ := others.walk
    (fun h pholder => h.freeholder k pholder) True k fun _ _ _ _ _ _ =>
      .inr ⟨rfl, fun _ _ has => absurd rfl has.1⟩
  have empty := cleared trivial
  refine ⟨h', free', held', ended, last.lists, fun j r member => ?_, last.once, last.plain, ?_, ?_⟩
  · obtain ⟨t, owner, counts⟩ := last.holder j r member
    have other : j ≠ k := by
      rintro rfl
      rw [empty] at member
      cases member
    exact ⟨t, owner, by rw [update_of_ne other, counts]⟩
  · intro j t has absent
    by_cases same : j = k
    · rw [same, update_self]
    · rw [update_of_ne same]
      exact last.unheld j t ⟨same, has⟩ absent
  intro j t on
  by_cases same : j = k
  · rw [same, update_self]
  · rw [update_of_ne same]
    exact last.nonneg j t on

theorem Records.releaseHolder (has : must t k) (positive : 0 < net t k) :
    ∃ h', h.releaseHolder k t = some h' ∧
      Records inherit must (bumpNet net t k (-1)) h' free held := by
  cases records.find_cases k t with
  | inr absent =>
    have zero := records.unheld k t has absent.1
    omega
  | inl present =>
    obtain ⟨r, member, owner, found⟩ := present
    obtain ⟨u, owner', counts⟩ := records.holder k r member
    cases owner.symm.trans owner'
    have holds : 0 < h.counts r := by omega
    refine ⟨_, by simp [Holders.releaseHolder, found, holds]; rfl, ?_⟩
    exact records.setCounts member owner (-1) (by omega) { records.lists with } rfl rfl

end

theorem Records.addHolderTcb (records : Records inherit must net h free held)
    (on : inherit k = true) (has : must t k)
    (room : h.findholder k t = some none → h.freeholders ≠ none) (few : net t k < 2 ^ 15 - 1) :
    ∃ h' free' held', h.addHolderTcb k t = some h' ∧
      Records inherit must (bumpNet net t k 1) h' free' held' := by
  cases records.find_cases k t with
  | inl present =>
    obtain ⟨r, member, owner, found⟩ := present
    obtain ⟨u, owner', counts⟩ := records.holder k r member
    cases owner.symm.trans owner'
    have nonneg := records.nonneg k t on
    have fits : (h.counts r + 1).bmod (2 ^ 16) = h.counts r + 1 :=
      Int.bmod_eq_of_le (by omega) (by omega)
    refine ⟨_, free, held, by simp [Holders.addHolderTcb, found]; rfl, ?_⟩
    refine records.setCounts member owner 1 (by omega) { records.lists with } ?_
      (congrArg (update h.counts r) fits)
    rw [← owner, update_eq_self]
  | inr absent =>
    obtain ⟨absent, found⟩ := absent
    have zero := records.unheld k t has absent
    cases free with
    | nil => exact absurd (show h.freeholders = none from records.lists.free_path) (room found)
    | cons r free =>
      obtain ⟨h₁, allocated, lists, htcb, counts⟩ := records.lists.alloc k
      refine ⟨_, free, update held k (r :: held k),
        by simp [Holders.addHolderTcb, found, allocated]; rfl, ?_⟩
      exact records.insert on absent zero { lists with } (by simp [htcb])
        (by simp [counts])

end Holders

end NuttxRtos.Semaphore

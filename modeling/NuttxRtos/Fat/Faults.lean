import NuttxRtos.Fat.Truncate

/-!
# Transfers that fail

`fat_putcluster` over a device whose reads and writes may fail.
-/

namespace NuttxRtos.Fat

/-- How a transfer ends: a failed one leaves something in the buffer or in the sector. -/
inductive Outcome where
  | done
  | failed (left : ℕ → Byte)

/-- A mount point with the transfers to come, whether the cached image was read completely, and
whether one that was not has gone to the device. -/
structure Mount where
  vol : Volume
  transfers : List Outcome
  whole : Bool
  torn : Bool

namespace Mount

section Model

def hwread (s : Mount) (sector : ℕ) : Mount × Bool :=
  match s.transfers with
  | .failed left :: rest =>
    ({ s with vol.buffer := left, transfers := rest, whole := false }, false)
  | transfers =>
    ({ s with vol.buffer := s.vol.disk sector, transfers := transfers.tail, whole := true }, true)

def hwwrite (s : Mount) : Mount × Bool :=
  let s := { s with torn := s.torn || !s.whole }
  match s.transfers with
  | .failed left :: rest =>
    ({ s with
      vol := Fat.hwwrite s.vol s.vol.currentsector left
      transfers := rest }, false)
  | transfers =>
    ({ s with
      vol := Fat.hwwrite s.vol s.vol.currentsector s.vol.buffer
      transfers := transfers.tail }, true)

/-- A negative result is returned at once. -/
def andThen : Mount × Bool → (Mount → Mount × Bool) → Mount × Bool
  | (s, true), next => next s
  | (s, false), _ => (s, false)

variable (geo : Geometry)

def flushCopies : ℕ → Mount → Mount × Bool
  | 0, s => (s, true)
  | copies + 1, s =>
    andThen (hwwrite { s with vol.currentsector := s.vol.currentsector + geo.nfatsects })
      (flushCopies copies)

def fscacheflush (s : Mount) : Mount × Bool :=
  if s.vol.dirty then
    andThen s.hwwrite fun s =>
      andThen (if geo.InFat s.vol.currentsector then flushCopies geo (geo.fatnumfats - 1) s
        else (s, true)) fun s => ({ s with vol.dirty := false }, true)
  else (s, true)

def fscacheread (s : Mount) (sector : ℕ) : Mount × Bool :=
  if s.vol.currentsector = sector then (s, true)
  else
    andThen (fscacheflush geo s) fun s =>
      andThen (s.hwread sector) fun s => ({ s with vol.currentsector := sector }, true)

/-- What `fat_putcluster` does once the first sector of the entry is cached. An entry of FAT12 may
end in the next sector; any other entry is written without another transfer. -/
def putEntry (s : Mount) (fatsector fatindex clusterno nextcluster : ℕ) : Mount :=
  if geo.type = .fat12 ∧ geo.hwsectorsize ≤ fatindex + 1 then
    let low :=
      if clusterno % 2 = 1 then
        (s.vol.buffer fatindex).toNat % 2 ^ 4 + nextcluster % 2 ^ 4 * 2 ^ 4
      else nextcluster % 2 ^ 8
    let s := { s with vol := putByte s.vol fatindex (BitVec.ofNat 8 low) }
    match fscacheread geo s (fatsector + 1) with
    | (s, false) => s
    | (s, true) =>
      let high :=
        if clusterno % 2 = 1 then nextcluster / 2 ^ 4 % 2 ^ 8
        else (s.vol.buffer 0).toNat / 2 ^ 4 * 2 ^ 4 + nextcluster / 2 ^ 8 % 2 ^ 4
      { s with vol := putByte s.vol 0 (BitVec.ofNat 8 high) }
  else { s with vol := (Fat.putcluster geo s.vol clusterno nextcluster).1 }

def fatoffset (clusterno : ℕ) : ℕ :=
  match geo.type with
  | .fat12 => clusterno * 3 / 2
  | .fat16 => 2 * clusterno
  | .fat32 => 4 * clusterno

/-- `fat_putcluster`; after a read error the sector is marked, too, and the result is success. -/
def putcluster (s : Mount) (clusterno nextcluster : ℕ) : Mount × Bool :=
  if clusterno = 0 ∨ geo.IsCluster clusterno then
    let fatoffset := fatoffset geo clusterno
    let fatsector := geo.fatbase + fatoffset / geo.hwsectorsize
    let fatindex := fatoffset % geo.hwsectorsize
    let s := match fscacheread geo s fatsector with
      | (s, false) => s
      | (s, true) => putEntry geo s fatsector fatindex clusterno nextcluster
    ({ s with vol.dirty := true }, true)
  else (s, false)

inductive Call where
  | flush
  | read (sector : ℕ)
  | put (clusterno nextcluster : ℕ)
  /-- A function that changes the image of a sector it has read, such as a directory entry. -/
  | change (sector : ℕ) (image : (ℕ → Byte) → ℕ → Byte)

def step (s : Mount) : Call → Mount
  | .flush => (fscacheflush geo s).1
  | .read sector => (fscacheread geo s sector).1
  | .put clusterno nextcluster => (putcluster geo s clusterno nextcluster).1
  | .change sector image =>
    match fscacheread geo s sector with
    | (s, false) => s
    | (s, true) => { s with vol.buffer := image s.vol.buffer, vol.dirty := true }

/-- The sector is not one that a failed read has left half in the cache. -/
def Readable (s : Mount) (sector : ℕ) : Prop := s.whole = true ∨ s.vol.currentsector ≠ sector

/-- The next `n` transfers succeed. -/
def Succeed (s : Mount) (n : ℕ) : Prop := ∀ outcome ∈ s.transfers.take n, outcome = .done

/-- The transfers that write the cached sector, and its copies if it is in the FAT. -/
def flushTransfers (vol : Volume) : ℕ :=
  if vol.dirty then 1 + if geo.InFat vol.currentsector then geo.fatnumfats - 1 else 0 else 0

/-- The transfers until a sector is cached. -/
def readTransfers (vol : Volume) (sector : ℕ) : ℕ :=
  if vol.currentsector = sector then 0 else flushTransfers geo vol + 1

/-- The transfers of `fat_putcluster`, which needs a second sector if the entry ends there. -/
def putTransfers (vol : Volume) (clusterno : ℕ) : ℕ :=
  let fatsector := geo.fatbase + fatoffset geo clusterno / geo.hwsectorsize
  readTransfers geo vol fatsector +
    if geo.type = .fat12 ∧ geo.hwsectorsize ≤ fatoffset geo clusterno % geo.hwsectorsize + 1 then
      readTransfers geo { vol with currentsector := fatsector, dirty := true } (fatsector + 1)
    else 0

/-- The transfers of `fat_putcluster` succeed, and the cached image is not a broken one when it is
changed. -/
def NoFailure (s : Mount) : Call → Prop
  | .flush | .read _ => True
  | .put clusterno _ => clusterno = 0 ∨ geo.IsCluster clusterno →
    clusterno < geo.nclusters ∧ Succeed s (putTransfers geo s.vol clusterno) ∧
      Readable s (geo.fatbase + fatoffset geo clusterno / geo.hwsectorsize)
  | .change sector _ => Readable s sector

/-- Calls from the time when the cache holds its sector. -/
inductive Run (ok : Mount → Call → Prop) : Mount → Prop
  | start {s : Mount} (whole : s.whole = true) (torn : s.torn = false) (dirty : s.vol.dirty = false)
      (clean : s.vol.disk s.vol.currentsector = s.vol.buffer) : Run ok s
  | step {s : Mount} (before : Run ok s) (call : Call) (holds : ok s call) :
      Run ok (step geo s call)

end Model

variable {geo : Geometry} {s s' : Mount} {vol vol' : Volume} {result : Mount × Bool} {n m : ℕ}

variable {next : Mount → Mount × Bool}

theorem andThen_cases {motive : Mount × Bool → Prop}
    (failed : ∀ s, result = (s, false) → motive (s, false))
    (done : ∀ s, result = (s, true) → motive (next s)) : motive (andThen result next) :=
  match result, failed, done with
  | (s, false), failed, _ => failed s rfl
  | (s, true), _, done => done s rfl

theorem Succeed.left (succeed : Succeed s (n + m)) : Succeed s n := fun outcome mem =>
  succeed outcome (by rw [List.take_add]; exact List.mem_append_left _ mem)

theorem Succeed.right (succeed : Succeed s (n + m)) (rest : s'.transfers = s.transfers.drop n) :
    Succeed s' m := fun outcome mem =>
  succeed outcome (by rw [List.take_add]; exact List.mem_append_right _ (rest ▸ mem))

theorem Succeed.head {left : ℕ → Byte} {rest : List Outcome} (succeed : Succeed s 1)
    (failed : s.transfers = .failed left :: rest) : False := by
  have done := succeed (.failed left) (by rw [failed]; exact List.mem_cons_self)
  cases done

/-- The cached image is written with `n` transfers: if they succeed, to the same effect as without
failures; otherwise it stays dirty. -/
structure Writes (s : Mount) (vol : Volume) (n : ℕ) (result : Mount × Bool) : Prop where
  whole : result.1.whole = s.whole
  torn : s.whole = true → result.1.torn = s.torn
  done : result.2 = true → result.1.transfers = s.transfers.drop n ∧ result.1.vol = vol
  failed : result.2 = false → result.1.vol.dirty = s.vol.dirty
  succeeds : Succeed s n → result.2 = true

theorem Writes.refl (s : Mount) : Writes s s.vol 0 (s, true) :=
  ⟨rfl, fun _ => rfl, fun _ => ⟨rfl, rfl⟩, nofun, fun _ => rfl⟩

theorem Writes.andThen (first : Writes s vol n result) (dirty : vol.dirty = s.vol.dirty)
    (second : ∀ s', s'.vol = vol → Writes s' vol' m (next s')) :
    Writes s vol' (n + m) (andThen result next) := by
  refine andThen_cases (fun s' eq => ?_) fun s' eq => ?_
  · subst eq
    exact ⟨first.whole, first.torn, nofun, first.failed, fun all => first.succeeds all.left⟩
  subst eq
  obtain ⟨transfers, done⟩ := first.done rfl
  have rest := second s' done
  refine ⟨rest.whole.trans first.whole, fun whole => ?_, fun ok => ?_, fun ok => ?_, fun all => ?_⟩
  · exact (rest.torn (first.whole.trans whole)).trans (first.torn whole)
  · obtain ⟨transfers', done'⟩ := rest.done ok
    exact ⟨by rw [transfers', transfers, List.drop_drop], done'⟩
  · exact (rest.failed ok).trans (done ▸ dirty)
  · exact rest.succeeds (all.right transfers)

theorem hwwrite_writes (s : Mount) :
    Writes s (Fat.hwwrite s.vol s.vol.currentsector s.vol.buffer) 1 s.hwwrite := by
  unfold hwwrite
  dsimp only
  split
  · next failed =>
    exact ⟨rfl, fun whole => by simp [whole], nofun, fun _ => rfl,
      fun all => (all.head failed).elim⟩
  · exact ⟨rfl, fun whole => by simp [whole], fun _ => ⟨List.drop_one.symm, rfl⟩,
      nofun, fun _ => rfl⟩

theorem flushCopies_writes (geo : Geometry) (copies : ℕ) (s : Mount) :
    Writes s (Fat.flushCopies geo copies s.vol) copies (flushCopies geo copies s) := by
  induction copies generalizing s with
  | zero => exact .refl s
  | succ copies ih =>
    have moved := hwwrite_writes
      { s with vol.currentsector := s.vol.currentsector + geo.nfatsects }
    have writes : Writes s _ 1 _ :=
      ⟨moved.whole, moved.torn, moved.done, moved.failed, moved.succeeds⟩
    have all : Writes s (Fat.flushCopies geo (copies + 1) s.vol) (1 + copies)
        (flushCopies geo (copies + 1) s) := by
      refine writes.andThen rfl fun s' eq => ?_
      have rest := ih s'
      rwa [eq] at rest
    rwa [Nat.add_comm 1] at all

theorem flushCopies_dirty (geo : Geometry) (copies : ℕ) (vol : Volume) :
    (Fat.flushCopies geo copies vol).dirty = vol.dirty := by
  induction copies generalizing vol with
  | zero => rfl
  | succ copies ih => exact ih _

theorem fscacheflush_writes (geo : Geometry) (s : Mount) :
    Writes s (Fat.fscacheflush geo s.vol) (flushTransfers geo s.vol) (fscacheflush geo s) := by
  have cleared : ∀ s : Mount, Writes s { s.vol with dirty := false } 0
      ({ s with vol.dirty := false }, true) := fun s =>
    ⟨rfl, fun _ => rfl, fun _ => ⟨rfl, rfl⟩, nofun, fun _ => rfl⟩
  unfold fscacheflush Fat.fscacheflush flushTransfers
  split
  · refine (hwwrite_writes s).andThen rfl fun s₁ first => ?_
    rw [← first, show s.vol.currentsector = s₁.vol.currentsector by rw [first]; rfl]
    split
    · refine Writes.andThen (m := 0) (flushCopies_writes geo _ s₁) (flushCopies_dirty ..) ?_
      exact fun s₂ second => second ▸ cleared s₂
    · exact cleared s₁
  · exact .refl s

/-! ## Whole images -/

/-- Nothing broken has been written, the cached image is complete when it is dirty, and agrees with
the device when it is complete and clean. -/
structure Sound (geo : Geometry) (s : Mount) : Prop where
  torn : s.torn = false
  whole : s.vol.dirty = true → s.whole = true
  clean : s.whole = true → s.vol.dirty = false →
    ∀ i < geo.hwsectorsize, s.vol.disk s.vol.currentsector i = s.vol.buffer i

def Flushed (geo : Geometry) (result : Mount × Bool) : Prop :=
  Sound geo result.1 ∧ (result.2 = true → result.1.vol.dirty = false)

theorem Sound.fscacheflush (sound : Sound geo s) : Flushed geo (Mount.fscacheflush geo s) := by
  by_cases dirty : s.vol.dirty = true
  · have writes := fscacheflush_writes geo s
    have whole := sound.whole dirty
    have torn := (writes.torn whole).trans sound.torn
    obtain ⟨clean, -, coherent, -⟩ := fscacheflush_spec (sound.clean whole)
    generalize Mount.fscacheflush geo s = result at writes torn ⊢
    obtain ⟨s', ok⟩ := result
    cases ok with
    | false =>
      have still := (writes.failed rfl).trans dirty
      exact ⟨⟨torn, fun _ => writes.whole.trans whole,
        fun _ clean => absurd (clean.symm.trans still) Bool.false_ne_true⟩,
        nofun⟩
    | true =>
      have vol : s'.vol = _ := (writes.done rfl).2
      rw [← vol] at clean coherent
      exact ⟨⟨torn, fun _ => writes.whole.trans whole, fun _ => coherent.clean⟩, fun _ => clean⟩
  · rw [Mount.fscacheflush, if_neg dirty]
    exact ⟨sound, fun _ => by simpa using dirty⟩

/-- After `fat_fscacheread` the sector is cached, completely if it was not broken, and as it is
without failures. -/
structure Reads (geo : Geometry) (s : Mount) (sector : ℕ) (result : Mount × Bool) : Prop where
  sound : Sound geo result.1
  cached : result.2 = true → result.1.vol.currentsector = sector
  whole : result.2 = true → Readable s sector → result.1.whole = true
  done : result.2 = true → result.1.transfers = s.transfers.drop (readTransfers geo s.vol sector) ∧
    result.1.vol = Fat.fscacheread geo s.vol sector
  succeeds : Succeed s (readTransfers geo s.vol sector) → result.2 = true

theorem Sound.fscacheread (sound : Sound geo s) (sector : ℕ) :
    Reads geo s sector (Mount.fscacheread geo s sector) := by
  unfold Mount.fscacheread
  split
  · next eq =>
    refine ⟨sound, fun _ => eq, fun _ readable => readable.resolve_right (not_not.2 eq),
      fun _ => ⟨?_, (if_pos eq).symm⟩, fun _ => rfl⟩
    rw [readTransfers, if_pos eq]
    rfl
  next other =>
  have writes := fscacheflush_writes geo s
  have count : readTransfers geo s.vol sector = flushTransfers geo s.vol + 1 := if_neg other
  obtain ⟨flushed, clean⟩ := sound.fscacheflush
  refine andThen_cases (motive := Reads geo s sector) (fun s₁ eq => ?_) fun s₁ eq => ?_
  · rw [eq] at flushed writes
    exact ⟨flushed, nofun, nofun, nofun, fun all => writes.succeeds (count ▸ all).left⟩
  rw [eq] at flushed clean writes
  have clean : s₁.vol.dirty = false := clean rfl
  obtain ⟨rest, vol⟩ := writes.done rfl
  unfold hwread
  split
  · next failed =>
    exact ⟨⟨flushed.torn, fun dirty => absurd (clean.symm.trans dirty) Bool.false_ne_true, nofun⟩,
      nofun, nofun, nofun, fun all => (((count ▸ all).right rest).head failed).elim⟩
  refine ⟨⟨flushed.torn, fun _ => rfl, fun _ _ _ _ => rfl⟩, fun _ => rfl, fun _ _ => rfl,
    fun _ => ⟨?_, ?_⟩, fun _ => rfl⟩
  · dsimp only at rest
    rw [count, ← List.drop_drop, ← rest, List.drop_one]
    rfl
  rw [Fat.fscacheread, if_neg other, ← vol]
  rfl

theorem Sound.change (sound : Sound geo s) (whole : s.whole = true) (dirty : vol.dirty = true) :
    Sound geo { s with vol := vol } :=
  ⟨sound.torn, fun _ => whole, fun _ no => absurd (no.symm.trans dirty) Bool.false_ne_true⟩

/-! ## Entries of the FAT -/

variable {clusterno : ℕ}

theorem fatoffset_lt (lt : clusterno < geo.nclusters) :
    fatoffset geo clusterno < geo.nfatsects * geo.hwsectorsize := by
  have fits := entry_bytes_lt lt
  simp only [Geometry.fatsize] at fits
  unfold fatoffset
  cases type : geo.type <;> simp only [type, FatType.bytes] at fits ⊢ <;> omega

theorem putcluster_dirty (allowed : clusterno = 0 ∨ geo.IsCluster clusterno)
    (vol : Volume) (nextcluster : ℕ) :
    (Fat.putcluster geo vol clusterno nextcluster).1.dirty = true := by
  rw [Fat.putcluster, if_pos allowed]
  split <;> rfl

theorem eq_dirty (dirty : vol.dirty = true) : { vol with dirty := true } = vol := by
  cases vol
  cases dirty
  rfl

variable {nextcluster : ℕ}

theorem putEntry_sound (sound : Sound geo s) (whole : s.whole = true)
    (cached : s.vol.currentsector = geo.fatbase + fatoffset geo clusterno / geo.hwsectorsize)
    (allowed : clusterno = 0 ∨ geo.IsCluster clusterno)
    (put : putEntry geo s (geo.fatbase + fatoffset geo clusterno / geo.hwsectorsize)
      (fatoffset geo clusterno % geo.hwsectorsize) clusterno nextcluster = s')
    (succeed : Succeed s (if geo.type = .fat12 ∧
        geo.hwsectorsize ≤ fatoffset geo clusterno % geo.hwsectorsize + 1 then
      readTransfers geo { s.vol with
        currentsector := geo.fatbase + fatoffset geo clusterno / geo.hwsectorsize
        dirty := true } (geo.fatbase + fatoffset geo clusterno / geo.hwsectorsize + 1) else 0)) :
    Sound geo s' ∧ s'.whole = true ∧
      s'.vol = (Fat.putcluster geo s.vol clusterno nextcluster).1 := by
  unfold putEntry at put
  split at put
  · next last =>
    rw [if_pos last] at succeed
    obtain ⟨type, last⟩ := last
    have offset : fatoffset geo clusterno = clusterno * 3 / 2 := by simp only [fatoffset, type]
    rw [offset] at put last cached succeed
    have read : Fat.fscacheread geo s.vol
        (geo.fatbase + clusterno * 3 / 2 / geo.hwsectorsize) = s.vol := if_pos cached
    rw [Fat.putcluster, if_pos allowed]
    simp only [type, read, nextByte, if_pos last]
    dsimp only at put
    generalize BitVec.ofNat 8 (if clusterno % 2 = 1 then (s.vol.buffer
      (clusterno * 3 / 2 % geo.hwsectorsize)).toNat % 2 ^ 4 + nextcluster % 2 ^ 4 * 2 ^ 4
      else nextcluster % 2 ^ 8) = low at put ⊢
    generalize changed : { s with
      vol := putByte s.vol (clusterno * 3 / 2 % geo.hwsectorsize) low } = s₁ at put
    have sound₁ : Sound geo s₁ := changed ▸ sound.change whole rfl
    have next := sound₁.fscacheread (geo.fatbase + clusterno * 3 / 2 / geo.hwsectorsize + 1)
    have ok := next.succeeds (by
      subst changed
      rw [← cached] at succeed ⊢
      exact succeed)
    generalize Mount.fscacheread geo s₁ _ = result at next put ok
    obtain ⟨s₂, rfl⟩ : ∃ s₂, result = (s₂, true) := ⟨result.1, Prod.ext rfl ok⟩
    have vol : s₂.vol = _ := (next.done rfl).2
    have whole₂ : s₂.whole = true := next.whole rfl (.inl (changed ▸ whole))
    subst put changed
    refine ⟨next.sound.change whole₂ rfl, whole₂, ?_⟩
    dsimp only
    rw [vol]
  · subst put
    exact ⟨sound.change whole (putcluster_dirty allowed ..), whole, rfl⟩

theorem putcluster_sound (sound : Sound geo s) (allowed : clusterno = 0 ∨ geo.IsCluster clusterno)
    (holds : NoFailure geo s (.put clusterno nextcluster)) :
    Sound geo (putcluster geo s clusterno nextcluster).1 ∧ fat geo
      (putcluster geo s clusterno nextcluster).1.vol clusterno = nextcluster % geo.type.range := by
  obtain ⟨lt, succeed, readable⟩ := holds allowed
  have first := sound.fscacheread (geo.fatbase + fatoffset geo clusterno / geo.hwsectorsize)
  have ok := first.succeeds succeed.left
  rw [putcluster, if_pos allowed]
  dsimp only
  generalize Mount.fscacheread geo s _ = result at first ok ⊢
  obtain ⟨s₁, rfl⟩ : ∃ s₁, result = (s₁, true) := ⟨result.1, Prod.ext rfl ok⟩
  have whole : s₁.whole = true := first.whole rfl readable
  have sector : s₁.vol.currentsector = _ := first.cached rfl
  have coherent : Coherent geo s₁.vol := by
    refine ⟨first.sound.clean whole, fun _ => ?_⟩
    rw [sector]
    exact (fatsector_inFat (fatoffset_lt lt)).not_copies
  have put := putcluster_spec coherent allowed lt nextcluster
  have dirty := putcluster_dirty allowed s₁.vol nextcluster
  dsimp only
  generalize written : putEntry geo s₁ _ _ clusterno nextcluster = s₂
  obtain ⟨sound', whole', vol⟩ := putEntry_sound first.sound whole sector allowed written
    (succeed.right (first.done rfl).1)
  refine ⟨sound'.change whole' rfl, ?_⟩
  have same : { s₂.vol with dirty := true } = s₂.vol := eq_dirty (vol ▸ dirty)
  rw [same, vol, put.fat clusterno lt, if_pos rfl]

theorem Run.sound (run : Run geo (NoFailure geo) s) : Sound geo s := by
  induction run with
  | start whole torn dirty clean => exact ⟨torn, fun _ => whole, fun _ _ i _ => congrFun clean i⟩
  | @step s _ call holds ih =>
    cases call with
    | flush => exact ih.fscacheflush.1
    | read sector => exact (ih.fscacheread sector).sound
    | put clusterno nextcluster =>
      by_cases allowed : clusterno = 0 ∨ geo.IsCluster clusterno
      · exact (putcluster_sound ih allowed holds).1
      · rw [Mount.step, putcluster, if_neg allowed]
        exact ih
    | change sector image =>
      have read := ih.fscacheread sector
      rw [Mount.step]
      generalize Mount.fscacheread geo s sector = result at read ⊢
      obtain ⟨s₁, ok⟩ := result
      cases ok with
      | false => exact read.sound
      | true => exact read.sound.change (read.whole rfl holds) rfl

/-- Nothing broken goes to the device, and `fat_putcluster` returns success only if the entry has
its new value. -/
theorem putcluster_happens (run : Run geo (NoFailure geo) s) :
    s.torn = false ∧ ∀ clusterno nextcluster, NoFailure geo s (.put clusterno nextcluster) →
      (putcluster geo s clusterno nextcluster).2 = true →
        fat geo (putcluster geo s clusterno nextcluster).1.vol clusterno =
          nextcluster % geo.type.range := by
  refine ⟨run.sound.torn, fun clusterno nextcluster holds ok => ?_⟩
  by_cases allowed : clusterno = 0 ∨ geo.IsCluster clusterno
  · exact (putcluster_sound run.sound allowed holds).2
  · rw [putcluster, if_neg allowed] at ok
    exact Bool.noConfusion ok

/-- The volume of two clusters with the outcomes of the transfers. -/
def mounted (transfers : List Outcome) : Mount := ⟨fullVolume, transfers, true, false⟩

theorem mounted_run (ok : Mount → Call → Prop) (transfers : List Outcome) :
    Run twoClusters ok (mounted transfers) :=
  .start rfl rfl rfl (by funext i; simp [mounted, fullVolume])

/-- A write fails later, and the entry is in the cache. -/
theorem putcluster_happens_flush :
    fat twoClusters
      (putcluster twoClusters (mounted [.done, .failed fun _ => 0]) 2 0).1.vol 2 = 0 := by
  have succeed : Succeed (mounted [.done, .failed fun _ => 0])
      (putTransfers twoClusters fullVolume 2) := by
    rw [show putTransfers twoClusters fullVolume 2 = 1 by decide +kernel]
    simp [Succeed, mounted]
  exact (putcluster_happens (mounted_run _ _)).2 2 0
    (fun _ => ⟨by decide, succeed, .inl rfl⟩) (by decide +kernel)

/-- A read fails, the result is success, the entry has its old value, and what the read left is
written over the sector that was cached. -/
theorem failed_read_succeeds : ∃ s, Run twoClusters (fun _ _ => True) s ∧
    (putcluster twoClusters s 2 0).2 = true ∧
    fat twoClusters (putcluster twoClusters s 2 0).1.vol 2 = 3 ∧
    (fscacheflush twoClusters (putcluster twoClusters s 2 0).1).1.torn = true :=
  ⟨mounted [.failed fun _ => 0xff], mounted_run _ _, by decide +kernel, by decide +kernel,
    by decide +kernel⟩

end Mount

end NuttxRtos.Fat

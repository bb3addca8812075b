import NuttxRtos.Sixlowpan.Input

/-!
# Reassembly

What a complete packet is made of. A buffer holds the fragments of one datagram only. Completion is
decided from the end of the latest fragment, whatever is missing before it.
-/

namespace NuttxRtos.Sixlowpan

open Segment List

variable {cfg : Config} {s : State} {input : Input} {reass reass' : Reassbuf} {fragsrc : VarAddr}

/-! ## What a frame does -/

variable {iob : Iob}

theorem copyPayload_ok {start frameHdrlen paysize : ℕ} {buf buf' : Buf}
    (copied : copyPayload cfg iob start frameHdrlen buf = .ok (buf', paysize)) :
    start + paysize ≤ cfg.pktsize ∧ buf' = write buf start (read iob.data frameHdrlen paysize) := by
  unfold copyPayload at copied
  dsimp only at copied
  split at copied
  · cases copied
  split at copied
  · cases copied
  rename_i fits
  cases copied
  exact ⟨Nat.le_of_not_lt fits, rfl⟩

theorem isSome_write (buf : Buf) (start : ℕ) (values : List Byte) (pos : ℕ) :
    (write buf start values pos).isSome ↔
      (buf pos).isSome ∨ payloadPlaces start values.length pos := by
  unfold payloadPlaces
  by_cases inside : start ≤ pos ∧ pos < start + values.length
  · rw [write_inside buf inside.1 inside.2, getElem?_eq_getElem (by omega)]
    simp [inside]
  · rw [write_outside buf (by omega)]
    simp [inside]

theorem processFrag1_ok (processed : processFrag1 cfg input.metadata fragsrc input.iob reass =
    .ok reass') :
    ∃ h protosize paysize, uncompressHeaders cfg input.metadata input.iob input.iob.fragsize true
        ⟨reass.buf, 0, (input.iob.offset % 256 + 4) % 256⟩ = some (h, protosize) ∧
      h.uncompHdrlen + paysize ≤ cfg.pktsize ∧
      reass' = { reass with
        pktlen := input.iob.fragsize, boffset := h.uncompHdrlen - protosize
        buf := write h.buf h.uncompHdrlen (read input.iob.data h.frameHdrlen paysize)
        accumlen := h.uncompHdrlen + paysize
        received :=
          { source := fragsrc, tag := input.iob.fragtag, size := input.iob.fragsize
            wrote := fun pos => (h.buf pos).isSome || payloadPlaces h.uncompHdrlen paysize pos } ::
            reass.received } := by
  unfold processFrag1 at processed
  dsimp only at processed
  split at processed
  · cases processed
  rename_i h protosize headers
  split at processed
  · cases processed
  rename_i buf paysize copied
  obtain ⟨fits, rfl⟩ := copyPayload_ok copied
  cases processed
  exact ⟨h, protosize, paysize, headers, fits, rfl⟩

theorem processFragn_ok (processed : processFragn cfg input.metadata fragsrc input.iob reass =
    .ok reass') :
    input.iob.fragsize = reass.pktlen ∧ ∃ frameHdrlen paysize,
      let start := reass.boffset + input.iob.fragoffset <<< 3
      start + paysize ≤ cfg.pktsize ∧
      reass' = { reass with
        buf := write reass.buf start (read input.iob.data frameHdrlen paysize)
        accumlen := start + paysize
        received :=
          { source := fragsrc, tag := input.iob.fragtag, size := input.iob.fragsize
            wrote := payloadPlaces start paysize } :: reass.received } := by
  unfold processFragn at processed
  split at processed
  · cases processed
  rename_i same
  refine ⟨not_not.mp same, ?_⟩
  split at processed
  · cases processed
  rename_i h _ _
  dsimp only at processed
  split at processed
  · cases processed
  rename_i buf paysize copied
  obtain ⟨fits, rfl⟩ := copyPayload_ok copied
  cases processed
  exact ⟨h.frameHdrlen, paysize, fits, rfl⟩

/-- The buffer that a fragment was put into. -/
inductive Accepts (cfg : Config) (s : State) (input : Input) (reass' : Reassbuf) : Prop where
  | frag1 {fragsrc : VarAddr} {reass : Reassbuf} (first : input.iob.dispatch = 0x00c0#16)
      (source : input.metadata.srcaddr = some fragsrc) (size : 0 < input.iob.fragsize)
      (cleared : reass.buf = fun _ => none) (fresh : reass.received = [])
      (same : reass.fragsrc = fragsrc ∧ reass.reasstag = input.iob.fragtag)
      (processed : processFrag1 cfg input.metadata fragsrc input.iob reass = .ok reass')
  | fragn {fragsrc : VarAddr} {reass : Reassbuf} {i : ℕ} {s' : State}
      (later : input.iob.dispatch = 0x00e0#16)
      (source : input.metadata.srcaddr = some fragsrc)
      (found : sixlowpanReassFind cfg.timeout input.now input.iob.fragtag fragsrc s = (some i, s'))
      (held : s'.activeReass[i]? = some reass) (old : reass ∈ s.activeReass)
      (same : reass.fragsrc = fragsrc ∧ reass.reasstag = input.iob.fragtag)
      (processed : processFragn cfg input.metadata fragsrc input.iob reass = .ok reass')

variable {timeout : ℕ} {now : BitVec 32}

theorem mem_of_expire (held : reass ∈ (sixlowpanReassExpire timeout now s).activeReass) :
    reass ∈ s.activeReass :=
  (mem_filter.mp held).1

variable {i : ℕ}

theorem sixlowpanReassFind_some {tag : BitVec 16} {s' : State}
    (found : sixlowpanReassFind timeout now tag fragsrc s = (some i, s')) :
    s' = sixlowpanReassExpire timeout now s ∧ ∃ reass, s'.activeReass[i]? = some reass ∧
      reass ∈ s.activeReass ∧ reass.fragsrc = fragsrc ∧ reass.reasstag = tag := by
  unfold sixlowpanReassFind at found
  simp only [Prod.mk.injEq] at found
  obtain ⟨index, rfl⟩ := found
  obtain ⟨inside, matching, -⟩ := findIdx?_eq_some_iff_getElem.mp index
  simp only [decide_eq_true_eq] at matching
  refine ⟨rfl, _, getElem?_eq_getElem inside, ?_, matching.2, matching.1⟩
  exact mem_of_expire (getElem_mem inside)

variable {r : Reassbuf}

theorem mem_set {l : List Reassbuf} (held : r ∈ l.set i reass) : r ∈ l.eraseIdx i ∨ r = reass := by
  obtain ⟨j, at_j⟩ := mem_iff_getElem?.mp held
  rw [getElem?_set] at at_j
  split at at_j
  · split at at_j
    · exact .inr (Option.some.inj at_j).symm
    · cases at_j
  · rename_i other
    exact .inl (mem_eraseIdx_iff_getElem?.mpr ⟨j, Ne.symm other, at_j⟩)

variable {processed : Processed}

/-- The buffers after a frame are the others, and the one it was put into unless it is complete. -/
theorem mem_dispatch_finish
    (held : r ∈ (sixlowpanDispatch (finish (.active i) processed s)).2.activeReass) :
    r ∈ s.activeReass.eraseIdx i ∨ processed = .ok r := by
  unfold finish at held
  cases processed with
  | error failure =>
    obtain ⟨errno, reass⟩ := failure
    have kept : r ∈ (s.activeReass.set i reass).eraseIdx i := held
    rw [eraseIdx_set_eq] at kept
    exact .inl kept
  | ok reass =>
    dsimp only at held
    split at held
    · have kept : r ∈ (s.activeReass.set i _).eraseIdx i := held
      rw [eraseIdx_set_eq] at kept
      exact .inl kept
    · exact (mem_set held).imp_right (congrArg Except.ok ·.symm)

theorem finish_complete {place place' : Place}
    (complete : (finish place processed s).1 = .complete place' reass) :
    place' = place ∧ processed = .ok reass ∧
      (reass.accumlen = 0 ∨ reass.pktlen ≤ reass.accumlen) := by
  unfold finish at complete
  cases processed with
  | error failure => cases complete
  | ok reass =>
    dsimp only at complete
    split at complete
    · rename_i reached
      cases complete
      exact ⟨rfl, rfl, reached⟩
    · cases complete

theorem sixlowpanReassAllocate_cases (timeout : ℕ) (now : BitVec 32) (malloc : Bool)
    (tag : BitVec 16) (fragsrc : VarAddr) (s : State) :
    sixlowpanReassAllocate timeout now malloc tag fragsrc s =
        (false, sixlowpanReassExpire timeout now s) ∨
      ∃ reass s', sixlowpanReassAllocate timeout now malloc tag fragsrc s = (true, s') ∧
        s'.activeReass = reass :: (sixlowpanReassExpire timeout now s).activeReass ∧
        s'.radio = s.radio ∧ (reass.buf = fun _ => none) ∧ reass.received = [] ∧
        reass.fragsrc = fragsrc ∧ reass.reasstag = tag := by
  unfold sixlowpanReassAllocate
  dsimp only
  split
  · exact .inr ⟨_, _, rfl, rfl, rfl, rfl, rfl, rfl, rfl⟩
  split
  · exact .inr ⟨_, _, rfl, rfl, rfl, rfl, rfl, rfl, rfl⟩
  · exact .inl rfl

/-- What a frame can do: fail or wait without a buffer, go into a reassembly buffer, or go into the
driver's. -/
theorem sixlowpanFrameProcess_cases (cfg : Config) (s : State) (input : Input) :
    (∃ result s', sixlowpanFrameProcess cfg input s = (result, s') ∧
      (∀ place reass, result ≠ .complete place reass) ∧
      (∀ reass ∈ s'.activeReass, reass ∈ s.activeReass) ∧ s'.radio = s.radio) ∨
    (∃ i processed s', sixlowpanFrameProcess cfg input s = finish (.active i) processed s' ∧
      (∀ reass ∈ s'.activeReass.eraseIdx i, reass ∈ s.activeReass) ∧ s'.radio = s.radio ∧
      ∀ reass', processed = .ok reass' → Accepts cfg s input reass') ∨
    (input.iob.dispatch ≠ 0x00c0#16 ∧ input.iob.dispatch ≠ 0x00e0#16 ∧
      sixlowpanFrameProcess cfg input s =
        finish .radio (processWhole cfg input.metadata input.iob s.radio) s) := by
  unfold sixlowpanFrameProcess
  dsimp only
  split_ifs with first zero large later
  · exact .inl ⟨_, _, rfl, by simp, fun _ => id, rfl⟩
  · exact .inl ⟨_, _, rfl, by simp, fun _ => id, rfl⟩
  · cases source : input.metadata.srcaddr with
    | none => exact .inl ⟨_, _, rfl, by simp, fun _ => id, rfl⟩
    | some fragsrc =>
      rcases sixlowpanReassAllocate_cases cfg.timeout input.now input.malloc input.iob.fragtag
        fragsrc s with failed | ⟨reass, s', allocated, active, radio, cleared, fresh, same⟩
      · simp only [failed]
        exact .inl ⟨_, _, rfl, by simp, fun _ => mem_of_expire, rfl⟩
      simp only [allocated, active, getElem?_cons_zero]
      refine .inr (.inl ⟨0, _, s', rfl, fun other held => ?_, radio, fun _ processed => ?_⟩)
      · rw [active] at held
        exact mem_of_expire held
      · exact .frag1 first source (by omega) cleared fresh same processed
  · cases source : input.metadata.srcaddr with
    | none => exact .inl ⟨_, _, rfl, by simp, fun _ => id, rfl⟩
    | some fragsrc =>
      cases found : sixlowpanReassFind cfg.timeout input.now input.iob.fragtag fragsrc s with
      | mk index s' =>
        cases index with
        | none =>
          have expired : s' = sixlowpanReassExpire cfg.timeout input.now s :=
            congrArg Prod.snd found.symm
          simp only [found, expired]
          exact .inl ⟨_, _, rfl, by simp, fun _ => mem_of_expire, rfl⟩
        | some i =>
          obtain ⟨expired, reass, held, old, same⟩ := sixlowpanReassFind_some found
          simp only [found, held]
          refine .inr (.inl ⟨i, _, s', rfl, fun other kept => ?_, by rw [expired]; rfl,
            fun _ processed => .fragn later source found held old same processed⟩)
          rw [expired] at kept
          exact mem_of_expire (mem_of_mem_eraseIdx kept)
  · exact .inr (.inr ⟨first, later, rfl⟩)

theorem mem_input (held : r ∈ (sixlowpanInput cfg input s).2.activeReass) :
    r ∈ s.activeReass ∨ Accepts cfg s input r := by
  unfold sixlowpanInput at held
  rcases sixlowpanFrameProcess_cases cfg s input with
    ⟨result, s', step, rejected, kept, -⟩ | ⟨i, processed, s', step, kept, -, accepts⟩ |
    ⟨-, -, step⟩
  · rw [step] at held
    cases result with
    | incomplete | failed => exact .inl (kept r held)
    | complete place reass => exact absurd rfl (rejected place reass)
  · rw [step] at held
    exact (mem_dispatch_finish held).imp (kept r) (accepts r)
  rw [step] at held
  left
  unfold finish at held
  cases processed : processWhole cfg input.metadata input.iob s.radio with
  | error failure => rw [processed] at held; exact held
  | ok reass =>
    rw [processed] at held
    dsimp only at held
    split at held <;> exact held

/-- A fragmented packet that is complete is in the buffer that its last frame was put into. -/
theorem complete_accepts
    (complete : (sixlowpanFrameProcess cfg input s).1 = .complete (.active i) reass) :
    Accepts cfg s input reass ∧ (reass.accumlen = 0 ∨ reass.pktlen ≤ reass.accumlen) := by
  rcases sixlowpanFrameProcess_cases cfg s input with
    ⟨result, s', step, rejected, -⟩ | ⟨i, processed, s', step, -, -, accepts⟩ | ⟨-, -, step⟩
  · rw [step] at complete
    exact absurd complete (rejected _ _)
  · rw [step] at complete
    obtain ⟨-, processed, reached⟩ := finish_complete complete
    exact ⟨accepts reass processed, reached⟩
  rw [step] at complete
  obtain ⟨radio, -⟩ := finish_complete complete
  cases radio

/-! ## The driver's buffer -/

theorem radio_finish_active (i : ℕ) (processed : Processed) (s : State) :
    (sixlowpanDispatch (finish (.active i) processed s)).2.radio = s.radio := by
  unfold finish
  cases processed with
  | error failure => rfl
  | ok reass =>
    dsimp only
    split <;> rfl

variable {metadata : Metadata}

theorem processWhole_accumlen :
    (∀ errno, processWhole cfg metadata iob reass = .error (errno, reass') →
      reass'.accumlen = reass.accumlen) ∧
    (processWhole cfg metadata iob reass = .ok reass' → reass'.accumlen = reass.accumlen) := by
  unfold processWhole
  dsimp only
  split
  · simp +contextual [eq_comm]
  split
  all_goals simp +contextual [eq_comm]

variable {condition : State → Input → Prop}

theorem Run.radio_accumlen (run : Run cfg condition s) : s.radio.accumlen = 0 := by
  induction run with
  | initial nreassbuf => rfl
  | @input s input run meets ih =>
    unfold sixlowpanInput
    rcases sixlowpanFrameProcess_cases cfg s input with
      ⟨result, s', step, -, -, radio⟩ | ⟨i, processed, s', step, -, radio, -⟩ | ⟨-, -, step⟩
    · rw [step]
      cases result with
      | incomplete | failed => exact radio ▸ ih
      | complete place => cases place <;> exact radio ▸ ih
    · rw [step, radio_finish_active, radio, ih]
    rw [step]
    unfold finish
    cases processed : processWhole cfg input.metadata input.iob s.radio with
    | error failure =>
      exact (processWhole_accumlen.1 failure.1 processed).trans ih
    | ok reass =>
      dsimp only
      split
      · rfl
      · exact (processWhole_accumlen.2 processed).trans ih

/-! ## One datagram in a buffer -/

/-- The fragments of a buffer are of its datagram, and they wrote what is written of it. -/
structure Reassbuf.Traced (reass : Reassbuf) : Prop where
  same : ∀ f ∈ reass.received,
    f.source = reass.fragsrc ∧ f.tag = reass.reasstag ∧ f.size = reass.pktlen
  wrote (pos : ℕ) : (reass.buf pos).isSome ↔ ∃ f ∈ reass.received, f.wrote pos

theorem Accepts.traced (accepts : Accepts cfg s input reass')
    (old_traced : ∀ reass ∈ s.activeReass, reass.Traced) :
    reass'.Traced ∧ input.metadata.srcaddr = some reass'.fragsrc ∧
      input.iob.fragtag = reass'.reasstag ∧ input.iob.fragsize = reass'.pktlen := by
  cases accepts with
  | frag1 first source size cleared fresh same processed =>
    obtain ⟨h, protosize, paysize, headers, -, rfl⟩ := processFrag1_ok processed
    obtain ⟨rfl, tag⟩ := same
    refine ⟨⟨fun f member => ?_, fun pos => ?_⟩, source, tag.symm, rfl⟩
    · rw [fresh] at member
      obtain rfl := mem_singleton.mp member
      exact ⟨rfl, tag.symm, rfl⟩
    · simp [fresh, isSome_write]
  | fragn later source found held old same processed =>
    obtain ⟨size, frameHdrlen, paysize, -, rfl⟩ := processFragn_ok processed
    obtain ⟨rfl, tag⟩ := same
    have traced := old_traced _ old
    refine ⟨⟨fun f member => ?_, fun pos => ?_⟩, source, tag.symm, size⟩
    · rcases mem_cons.mp member with rfl | member
      · exact ⟨rfl, tag.symm, size⟩
      · exact traced.same f member
    · simp [isSome_write, traced.wrote pos, or_comm]

theorem Run.traced (run : Run cfg condition s) : ∀ reass ∈ s.activeReass, reass.Traced := by
  induction run with
  | initial nreassbuf => simp [sixlowpanReassInitialize]
  | input run meets ih =>
    intro reass held
    rcases mem_input held with old | accepts
    · exact ih reass old
    · exact (accepts.traced ih).1

/-! ## Fragments in order -/

def Headers.Whole (h : Headers) : Prop :=
  ipv6Hdrlen ≤ h.uncompHdrlen ∧ ∀ pos < h.uncompHdrlen, (h.buf pos).isSome

instance (h : Headers) : Decidable h.Whole :=
  inferInstanceAs (Decidable (_ ∧ ∀ pos < h.uncompHdrlen, _))

/-- The header of a first fragment is decompressed as a whole, and a later fragment does not begin
behind the end of the latest one. -/
def InOrder (cfg : Config) (s : State) (input : Input) : Prop :=
  (input.iob.dispatch = 0x00c0#16 →
    ∀ r ∈ uncompressHeaders cfg input.metadata input.iob input.iob.fragsize true
      ⟨fun _ => none, 0, (input.iob.offset % 256 + 4) % 256⟩, r.1.Whole) ∧
  (input.iob.dispatch = 0x00e0#16 → ∀ fragsrc ∈ input.metadata.srcaddr,
    let (found, s) := sixlowpanReassFind cfg.timeout input.now input.iob.fragtag fragsrc s
    ∀ i ∈ found, ∀ reass ∈ s.activeReass[i]?,
      reass.boffset + input.iob.fragoffset <<< 3 ≤ reass.accumlen)

instance (cfg : Config) (s : State) (input : Input) : Decidable (InOrder cfg s input) :=
  inferInstanceAs (Decidable ((_ → ∀ r ∈ uncompressHeaders cfg input.metadata input.iob _ _ _, _) ∧
    (_ → ∀ fragsrc ∈ input.metadata.srcaddr, _)))

/-- Everything before `rb_accumlen` is written, and the header is before the payload. -/
structure Reassbuf.Filled (reass : Reassbuf) : Prop where
  filled : ∀ pos < reass.accumlen, (reass.buf pos).isSome
  header : ipv6Hdrlen ≤ reass.boffset
  accum : reass.boffset ≤ reass.accumlen

theorem uncompressHeaders_protosize {fragsize protosize : ℕ} {h h' : Headers}
    (headers : uncompressHeaders cfg metadata iob fragsize true h = some (h', protosize))
    (long : ipv6Hdrlen ≤ h'.uncompHdrlen) : ipv6Hdrlen + protosize ≤ h'.uncompHdrlen := by
  unfold uncompressHeaders at headers
  dsimp only at headers
  split at headers
  · cases headers
    exact long
  split at headers
  · cases headers
    exact long
  split at headers
  · cases headers
    unfold sixlowpanUncompressIpv6hdr ipv6Hdrlen
    dsimp only
    omega
  · cases headers

theorem Accepts.filled (accepts : Accepts cfg s input reass') (inOrder : InOrder cfg s input)
    (old_filled : ∀ reass ∈ s.activeReass, reass.Filled) : reass'.Filled := by
  cases accepts with
  | frag1 first source size cleared fresh same processed =>
    obtain ⟨h, protosize, paysize, headers, -, rfl⟩ := processFrag1_ok processed
    rw [cleared] at headers
    obtain ⟨long, written⟩ := inOrder.1 first _ headers
    have behind := uncompressHeaders_protosize headers long
    refine ⟨fun pos inside => ?_, ?_, ?_⟩
    · rw [isSome_write, length_read]
      by_cases before : pos < h.uncompHdrlen
      · exact .inl (written pos before)
      · exact .inr (decide_eq_true ⟨Nat.le_of_not_lt before, inside⟩)
    · dsimp only
      omega
    · dsimp only
      omega
  | @fragn fragsrc reass i s' later source found held old same processed =>
    obtain ⟨size, frameHdrlen, paysize, -, rfl⟩ := processFragn_ok processed
    have filled := old_filled reass old
    have near := inOrder.2 later fragsrc source
    rw [found] at near
    have near := near i rfl reass held
    refine ⟨fun pos inside => ?_, filled.header, ?_⟩
    · rw [isSome_write, length_read]
      by_cases before : pos < reass.accumlen
      · exact .inl (filled.filled pos before)
      · exact .inr (decide_eq_true ⟨by omega, inside⟩)
    · dsimp only
      omega

theorem Run.filled (run : Run cfg (InOrder cfg) s) : ∀ reass ∈ s.activeReass, reass.Filled := by
  induction run with
  | initial nreassbuf => simp [sixlowpanReassInitialize]
  | input run meets ih =>
    intro reass held
    rcases mem_input held with old | accepts
    · exact ih reass old
    · exact accepts.filled meets ih

/-- When fragments come in order, a packet that is complete has every byte from a fragment of the
same source address, tag and size. -/
theorem complete_of_inOrder (run : Run cfg (InOrder cfg) s) (meets : InOrder cfg s input) {i : ℕ}
    (complete : (sixlowpanFrameProcess cfg input s).1 = .complete (.active i) reass) :
    reass.pktlen = input.iob.fragsize ∧ ∀ pos < reass.pktlen, ∃ f ∈ reass.received,
      some f.source = input.metadata.srcaddr ∧ f.tag = input.iob.fragtag ∧
        f.size = input.iob.fragsize ∧ f.wrote pos := by
  obtain ⟨accepts, reached⟩ := complete_accepts complete
  obtain ⟨traced, source, tag, size⟩ := accepts.traced run.traced
  have filled := accepts.filled meets run.filled
  refine ⟨size.symm, fun pos inside => ?_⟩
  have before : pos < reass.accumlen := by
    have header := filled.header
    have accum := filled.accum
    unfold ipv6Hdrlen at header
    omega
  obtain ⟨f, member, wrote⟩ := (traced.wrote pos).mp (filled.filled pos before)
  obtain ⟨same_source, same_tag, same_size⟩ := traced.same f member
  exact ⟨f, member, by rw [same_source, source], by rw [same_tag, tag], by rw [same_size, size],
    wrote⟩

/-! ## Two datagrams -/

def plain : Config :=
  { hc06 := false, hc1 := false, minport := 0xf0b0, contexts := [], pktsize := 1294
    pktsize_range := by decide, timeout := 500 }

def fromNode1 (bytes : List Byte) : Input :=
  { now := 0, malloc := false, metadata := ⟨some [0, 1], some [0, 2]⟩
    iob := { data := fun i => bytes.getD i 0, len := bytes.length, offset := 0 } }

def udpHeader : List Byte :=
  [0x60, 0, 0, 0, 0, 32, 17, 64] ++ List.replicate 32 0

/-- The first 48 bytes: the IPv6 header and the UDP header. -/
def frag1 : Input :=
  fromNode1 ([0xc0, 72, 0, 7, 0x41] ++ udpHeader ++ [0, 7, 0, 7, 0, 32, 0, 0])

/-- All the payload, from byte 48 on. -/
def frag2 : Input :=
  fromNode1 ([0xe0, 72, 0, 7, 1, 0x41] ++ udpHeader ++ List.replicate 24 0xaa#8)

/-- The last eight bytes of the payload only. -/
def frag3 : Input :=
  fromNode1 ([0xe0, 72, 0, 7, 3, 0x41] ++ udpHeader ++ List.replicate 8 0xaa#8)

theorem complete_of_inOrder_datagram :
    ∃ reass, (sixlowpanFrameProcess plain frag2
        (sixlowpanInput plain frag1 (sixlowpanReassInitialize 1)).2).1 =
          .complete (.active 0) reass ∧
      reass.pktlen = 72 ∧ ∃ f ∈ reass.received, f.tag = 7 ∧ f.wrote 50 := by
  have run : Run plain (InOrder plain)
      (sixlowpanInput plain frag1 (sixlowpanReassInitialize 1)).2 :=
    .input (.initial 1) (by decide)
  refine ⟨_, rfl, ?_⟩
  have meets : InOrder plain (sixlowpanInput plain frag1 (sixlowpanReassInitialize 1)).2 frag2 := by
    decide
  obtain ⟨size, written⟩ := complete_of_inOrder run meets rfl
  obtain ⟨f, member, -, tag, -, wrote⟩ := written 50 (by rw [size]; decide)
  exact ⟨size, f, member, tag, wrote⟩

/-- The packet is delivered with nothing at byte 50. -/
theorem gap_is_delivered :
    ∃ reass, (sixlowpanFrameProcess plain frag3
        (sixlowpanInput plain frag1 (sixlowpanReassInitialize 1)).2).1 =
          .complete (.active 0) reass ∧ reass.pktlen = 72 ∧ ¬∃ f ∈ reass.received, f.wrote 50 :=
  ⟨_, rfl, by decide, by decide⟩

end NuttxRtos.Sixlowpan

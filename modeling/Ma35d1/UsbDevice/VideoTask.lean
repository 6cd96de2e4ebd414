import Ma35d1.UsbDevice.VideoSink

/-!
# The stream window of the video task

`vVideo_Task` keeps a window of its buffer filled with what `vsink_rxq_read` takes out of the ring,
and hands it to the decoder, which says how much of it is left. What is left stays where it is until
a frame behind it would go past the end of the buffer; then it is copied to the front.
-/

namespace Ma35d1.UsbDevice

open Ma35d1.Machine.Copy
open Ma35d1.Machine.Trace

/-- `VC8K_STRM_BUFSZ` -/
def vc8kStrmBufsz : Nat := 1 * 1024 * 1024

/-- `VC8K_FRAME_MAX_SIZE` -/
def vc8kFrameMaxSize : Nat := 256 * 1024

/-- Where `vVideo_Task` is: at the first read behind `restart`, at the call of the decoder, or at
the read behind it. -/
inductive VideoPlace
  | opening
  | decoding
  | refilling
  deriving DecidableEq

structure Video where
  sbuff : Nat → BitVec 8
  sidx : Nat
  avail : Nat
  place : VideoPlace
  /-- a read or a copy went past the end of the buffer -/
  stray : Bool
  /-- the two ends of a `memcpy` had bytes in common -/
  overlap : Bool
  /-- what was read since the last restart, and what the decoder has consumed of it -/
  dequeued : List (BitVec 8)
  consumed : List (BitVec 8)

/-- The length that is asked of `vsink_rxq_read`. -/
def Video.wanted (v : Video) : Option Nat :=
  match v.place with
  | .opening => some vc8kFrameMaxSize
  | .decoding => none
  | .refilling => some (u32 (vc8kFrameMaxSize - v.avail))

/-- `vsink_rxq_read` has returned the length that it was asked for. -/
def Video.filled (v : Video) (bytes : List (BitVec 8)) : Video :=
  match v.place with
  | .opening =>
    { v with
      sbuff := copyTo v.sbuff 0 bytes
      stray := v.stray || decide (vc8kStrmBufsz < bytes.length)
      sidx := 0
      avail := vc8kFrameMaxSize
      place := .decoding
      dequeued := bytes
      consumed := [] }
  | .decoding => v
  | .refilling =>
    { v with
      sbuff := copyTo v.sbuff (v.sidx + v.avail) bytes
      stray := v.stray || decide (vc8kStrmBufsz < v.sidx + v.avail + bytes.length)
      avail := u32 (v.avail + bytes.length)
      place := .decoding
      dequeued := v.dequeued ++ bytes }

/-- `sidx` and `avail` after a frame. -/
def Video.consume (v : Video) (remain : Nat) : Video :=
  { v with
    sidx := u32 (v.sidx + (v.avail - remain))
    avail := remain
    consumed := v.consumed ++ copyFrom v.sbuff v.sidx (v.avail - remain) }

/-- The copy to the front, where a frame would go past the end. -/
def Video.compact (v : Video) : Video :=
  if vc8kStrmBufsz < u32 (v.sidx + vc8kFrameMaxSize) then
    { v with
      sbuff := copyTo v.sbuff 0 (copyFrom v.sbuff v.sidx v.avail)
      stray := v.stray || decide (vc8kStrmBufsz < v.sidx + v.avail)
      overlap := v.overlap || decide (v.sidx < v.avail)
      sidx := 0 }
  else v

/-- The test of `rlen`. -/
def Video.next (v : Video) : Video :=
  { v with place := if u32 (vc8kFrameMaxSize - v.avail) ≠ 0 then .refilling else .decoding }

/-- `VC8000_H264_Decode_Run` has returned. -/
def Video.decoded (v : Video) (ret : Int) (remain : Nat) : Video :=
  if ret ≠ 0 then { v with place := .opening } else (v.consume remain).compact.next

/-- The task, and the ring that it reads -/
structure Player where
  sink : VSink
  video : Video

inductive PlayerEvent
  /-- the task that fills the ring -/
  | sink (e : VSinkEvent)
  /-- the call of `vsink_rxq_read`, a piece of its copy, and its end -/
  | read
  | take (n : Nat)
  | readDone
  | decoded (ret : Int) (remain : Nat)

/-- The events of the reader of the ring -/
def VSinkEvent.IsReader : VSinkEvent → Prop
  | .read _ | .take _ | .readDone => True
  | _ => False

instance : DecidablePred VSinkEvent.IsReader := fun e => by
  cases e <;> unfold VSinkEvent.IsReader <;> infer_instance

def playerStep (s : Player) : PlayerEvent → Option Player
  | .sink e => if e.IsReader then none else (vsinkStep s.sink e).map fun q => { s with sink := q }
  | .read =>
    match s.video.wanted with
    | some len => (vsinkStep s.sink (.read len)).map fun q => { s with sink := q }
    | none => none
  | .take n => (vsinkStep s.sink (.take n)).map fun q => { s with sink := q }
  | .readDone =>
    match s.sink.reader with
    | .reading _ dest =>
      (vsinkStep s.sink .readDone).map fun q => { sink := q, video := s.video.filled dest }
    | .idle => none
  | .decoded ret remain =>
    if s.video.place = .decoding then some { s with video := s.video.decoded ret remain } else none

def playerStart : Player where
  sink := vsinkStart
  video :=
    { sbuff := fun _ => 0
      sidx := 0
      avail := 0
      place := .opening
      stray := false
      overlap := false
      dequeued := []
      consumed := [] }

/-! ## The law -/

structure WindowLaw (s : Player) : Prop where
  inside : s.video.stray = false
  apart : s.video.overlap = false
  full : s.video.place = .decoding → s.video.avail = vc8kFrameMaxSize ∧
    s.video.sidx + vc8kFrameMaxSize ≤ vc8kStrmBufsz
  /-- what was dequeued is what was consumed and then what is in the window -/
  order : s.video.place ≠ .opening →
    s.video.dequeued = s.video.consumed ++ copyFrom s.video.sbuff s.video.sidx s.video.avail
  /-- and it is the last that `vsink_rxq_read` has taken out of the ring -/
  source : s.video.dequeued <:+ s.sink.read

/-- The decoder leaves no more than it was given. -/
def RemainKept (s : Player) : PlayerEvent → Prop
  | .decoded ret remain => ret = 0 → remain ≤ s.video.avail
  | _ => True

/-! ## The invariant -/

/-- A frame fits behind `sidx`, and no more than that is there. -/
structure WindowInv (v : Video) : Prop where
  inside : v.stray = false
  apart : v.overlap = false
  fits : v.sidx + vc8kFrameMaxSize ≤ vc8kStrmBufsz
  le : v.avail ≤ vc8kFrameMaxSize
  full : v.place = .decoding → v.avail = vc8kFrameMaxSize
  order : v.place ≠ .opening → v.dequeued = v.consumed ++ copyFrom v.sbuff v.sidx v.avail

/-- And a read that has begun is the one that the task asks for. -/
structure PlayerInv (s : Player) : Prop where
  window : WindowInv s.video
  reader : ∀ len dest, s.sink.reader = .reading len dest → s.video.wanted = some len
  source : s.video.dequeued <:+ s.sink.read

section Window

variable {v : Video} {s t : Player} {e : PlayerEvent} {bytes : List (BitVec 8)} {remain : Nat}

theorem WindowInv.filled (h : WindowInv v) (hlen : v.wanted = some bytes.length) :
    WindowInv (v.filled bytes) := by
  have hbuf : vc8kStrmBufsz = 1048576 := rfl
  have hframe : vc8kFrameMaxSize = 262144 := rfl
  have hfits := h.fits
  have hle := h.le
  unfold Video.filled
  unfold Video.wanted at hlen
  split
  · rename_i hplace
    rw [hplace] at hlen
    have hlen := Option.some.inj hlen
    refine ⟨?_, h.apart, ?_, Nat.le_refl _, fun _ => rfl, fun _ => ?_⟩
    · rw [h.inside, Bool.false_or]
      exact decide_eq_false (by omega)
    · show 0 + vc8kFrameMaxSize ≤ vc8kStrmBufsz
      omega
    · show bytes = [] ++ copyFrom (copyTo v.sbuff 0 bytes) 0 vc8kFrameMaxSize
      rw [copyFrom_copyTo hlen.symm, List.nil_append]
  · exact h
  · rename_i hplace
    rw [hplace] at hlen
    have hlen := Option.some.inj hlen
    have hsum : v.avail + bytes.length = vc8kFrameMaxSize := by
      rw [u32] at hlen
      omega
    have hnext : u32 (v.avail + bytes.length) = v.avail + bytes.length := by
      rw [u32]
      omega
    have horder := h.order (by rw [hplace]; exact fun he => VideoPlace.noConfusion he)
    refine ⟨?_, h.apart, hfits, ?_, fun _ => hnext.trans hsum, fun _ => ?_⟩
    · rw [h.inside, Bool.false_or]
      exact decide_eq_false (by omega)
    · show u32 (v.avail + bytes.length) ≤ vc8kFrameMaxSize
      omega
    · show v.dequeued ++ bytes = v.consumed ++
        copyFrom (copyTo v.sbuff (v.sidx + v.avail) bytes) v.sidx (u32 (v.avail + bytes.length))
      rw [hnext, copyFrom_add, copyFrom_copyTo_of_disjoint (.inl (Nat.le_refl _)),
        copyFrom_copyTo rfl, horder, List.append_assoc]

/-- After a frame the window is inside, and what was dequeued is still consumed or there. -/
theorem WindowInv.consume (h : WindowInv v) (hplace : v.place = .decoding)
    (hremain : remain ≤ v.avail) :
    (v.consume remain).sidx + remain ≤ vc8kStrmBufsz ∧
      v.dequeued = (v.consume remain).consumed ++
        copyFrom v.sbuff (v.consume remain).sidx remain := by
  have hbuf : vc8kStrmBufsz = 1048576 := rfl
  have hframe : vc8kFrameMaxSize = 262144 := rfl
  have hfits := h.fits
  have hle := h.le
  have hsidx : (v.consume remain).sidx = v.sidx + (v.avail - remain) := by
    show u32 (v.sidx + (v.avail - remain)) = _
    rw [u32]
    omega
  have horder := h.order (by rw [hplace]; exact fun he => VideoPlace.noConfusion he)
  rw [hsidx]
  refine ⟨by omega, ?_⟩
  show v.dequeued = v.consumed ++ copyFrom v.sbuff v.sidx (v.avail - remain) ++ _
  rw [List.append_assoc, ← copyFrom_add, Nat.sub_add_cancel hremain]
  exact horder

theorem WindowInv.decoded (h : WindowInv v) (hplace : v.place = .decoding) {ret : Int}
    (hremain : ret = 0 → remain ≤ v.avail) : WindowInv (v.decoded ret remain) := by
  have hbuf : vc8kStrmBufsz = 1048576 := rfl
  have hframe : vc8kFrameMaxSize = 262144 := rfl
  unfold Video.decoded
  by_cases hret : ret = 0
  · obtain ⟨hin, horder⟩ := h.consume hplace (hremain hret)
    have hle : remain ≤ vc8kFrameMaxSize := (hremain hret).trans h.le
    have hword : u32 ((v.consume remain).sidx + vc8kFrameMaxSize) =
        (v.consume remain).sidx + vc8kFrameMaxSize := by
      rw [u32]
      omega
    have hplace' : ∀ n : Nat, n ≤ vc8kFrameMaxSize →
        (if u32 (vc8kFrameMaxSize - n) ≠ 0 then VideoPlace.refilling else .decoding) = .decoding →
        n = vc8kFrameMaxSize := by
      intro n hn hdec
      split at hdec
      · cases hdec
      · rename_i hzero
        rw [u32] at hzero
        omega
    rw [if_neg (not_not_intro hret)]
    unfold Video.compact
    rw [hword]
    split
    · rename_i hend
      have hinside : (v.stray || decide (vc8kStrmBufsz < (v.consume remain).sidx + remain)) =
          false := by
        rw [h.inside, Bool.false_or]
        exact decide_eq_false (by omega)
      have hapart : (v.overlap || decide ((v.consume remain).sidx < remain)) = false := by
        rw [h.apart, Bool.false_or]
        exact decide_eq_false (by omega)
      refine ⟨hinside, hapart, ?_, hle, hplace' remain hle, fun _ => ?_⟩
      · show 0 + vc8kFrameMaxSize ≤ vc8kStrmBufsz
        omega
      · show v.dequeued = (v.consume remain).consumed ++
          copyFrom (copyTo v.sbuff 0 (copyFrom v.sbuff (v.consume remain).sidx remain)) 0 remain
        rw [copyFrom_copyTo length_copyFrom]
        exact horder
    · rename_i hend
      exact ⟨h.inside, h.apart, Nat.le_of_not_lt hend, hle, hplace' remain hle, fun _ => horder⟩
  · rw [if_pos hret]
    exact ⟨h.inside, h.apart, h.fits, h.le, fun he => VideoPlace.noConfusion he, fun hne => absurd rfl hne⟩

@[simp] theorem next_consumed (v : Video) : v.next.consumed = v.consumed := rfl

@[simp] theorem next_dequeued (v : Video) : v.next.dequeued = v.dequeued := rfl

@[simp] theorem consume_consumed (v : Video) (remain : Nat) : (v.consume remain).consumed =
    v.consumed ++ copyFrom v.sbuff v.sidx (v.avail - remain) := rfl

@[simp] theorem consume_dequeued (v : Video) (remain : Nat) :
    (v.consume remain).dequeued = v.dequeued := rfl

theorem compact_streams (v : Video) :
    v.compact.consumed = v.consumed ∧ v.compact.dequeued = v.dequeued := by
  unfold Video.compact
  split <;> exact ⟨rfl, rfl⟩

theorem decoded_consumed (v : Video) (remain : Nat) : (v.decoded 0 remain).consumed =
    v.consumed ++ copyFrom v.sbuff v.sidx (v.avail - remain) := by
  rw [Video.decoded, if_neg (not_not_intro rfl), next_consumed, (compact_streams _).1,
    consume_consumed]

theorem decoded_dequeued (v : Video) (ret : Int) (remain : Nat) :
    (v.decoded ret remain).dequeued = v.dequeued := by
  unfold Video.decoded
  split
  · rfl
  · rw [next_dequeued, (compact_streams _).2, consume_dequeued]

/-- The other task does not touch what has been read, nor the read that has begun. -/
theorem vsinkStep_reader {q q' : VSink} {e : VSinkEvent} (he : ¬ e.IsReader)
    (ht : vsinkStep q e = some q') : q'.reader = q.reader ∧ q'.read = q.read := by
  cases e with
  | read len => exact absurd trivial he
  | take n => exact absurd trivial he
  | readDone => exact absurd trivial he
  | usb bytes =>
    simp only [vsinkStep] at ht
    split at ht
    · rename_i direct got htask
      obtain ⟨-, ht⟩ := Option.ite_none_right_eq_some.mp ht
      obtain rfl := Option.some.inj ht
      cases direct <;> exact ⟨rfl, rfl⟩
    · cases ht
  | copy n =>
    simp only [vsinkStep] at ht
    split at ht
    · obtain ⟨-, ht⟩ := Option.ite_none_right_eq_some.mp ht
      obtain rfl := Option.some.inj ht
      exact ⟨rfl, rfl⟩
    · cases ht
  | stored =>
    simp only [vsinkStep] at ht
    split at ht
    · obtain ⟨-, ht⟩ := Option.ite_none_right_eq_some.mp ht
      obtain rfl := Option.some.inj ht
      exact ⟨rfl, rfl⟩
    · cases ht
  | arm | rxDone | rxFail | store | check =>
    simp only [vsinkStep] at ht
    split at ht <;> first
      | (obtain rfl := Option.some.inj ht; exact ⟨rfl, rfl⟩)
      | cases ht

theorem playerStep_inv (h : PlayerInv s) (hk : RemainKept s e) (ht : playerStep s e = some t) :
    PlayerInv t := by
  cases e with
  | sink e =>
    obtain ⟨he, ht⟩ := Option.ite_none_left_eq_some.mp ht
    obtain ⟨q, hq, rfl⟩ := Option.map_eq_some_iff.mp ht
    obtain ⟨hreader, hread⟩ := vsinkStep_reader he hq
    refine ⟨h.window, fun len dest hr => h.reader len dest (hreader.symm.trans hr), ?_⟩
    show _ <:+ q.read
    rw [hread]
    exact h.source
  | read =>
    simp only [playerStep] at ht
    split at ht
    · rename_i len hwanted
      obtain ⟨q, hq, rfl⟩ := Option.map_eq_some_iff.mp ht
      simp only [vsinkStep] at hq
      split at hq
      · rename_i hidle
        obtain ⟨-, hq⟩ := Option.ite_none_right_eq_some.mp hq
        obtain rfl := Option.some.inj hq
        split
        · exact h
        · refine ⟨h.window, fun len' dest hr => ?_, h.source⟩
          obtain ⟨rfl, -⟩ := VSinkReader.reading.inj hr
          exact hwanted
      · cases hq
    · cases ht
  | take n =>
    obtain ⟨q, hq, rfl⟩ := Option.map_eq_some_iff.mp ht
    simp only [vsinkStep] at hq
    split at hq
    · rename_i len dest hreading
      obtain ⟨-, hq⟩ := Option.ite_none_right_eq_some.mp hq
      obtain rfl := Option.some.inj hq
      refine ⟨h.window, fun len' dest' hr => ?_, h.source⟩
      obtain ⟨rfl, -⟩ := VSinkReader.reading.inj hr
      exact h.reader len dest hreading
    · cases hq
  | readDone =>
    simp only [playerStep] at ht
    split at ht
    · rename_i len dest hreading
      obtain ⟨q, hq, rfl⟩ := Option.map_eq_some_iff.mp ht
      simp only [vsinkStep, hreading] at hq
      obtain ⟨hlen, hq⟩ := Option.ite_none_right_eq_some.mp hq
      obtain rfl := Option.some.inj hq
      have hwanted := h.reader len dest hreading
      rw [← hlen] at hwanted
      refine ⟨h.window.filled hwanted, fun len' dest' hr => VSinkReader.noConfusion hr, ?_⟩
      show (s.video.filled dest).dequeued <:+ s.sink.read ++ dest
      unfold Video.filled
      split
      · exact List.suffix_append _ _
      · rename_i hplace
        rw [Video.wanted, hplace] at hwanted
        cases hwanted
      · obtain ⟨before, hbefore⟩ := h.source
        exact ⟨before, by rw [← hbefore, List.append_assoc]⟩
    · cases ht
  | decoded ret remain =>
    obtain ⟨hplace, ht⟩ := Option.ite_none_right_eq_some.mp ht
    obtain rfl := Option.some.inj ht
    refine ⟨h.window.decoded hplace hk, fun len dest hr => ?_, ?_⟩
    · have hwanted := h.reader len dest hr
      rw [Video.wanted, hplace] at hwanted
      cases hwanted
    · show (s.video.decoded ret remain).dequeued <:+ s.sink.read
      rw [decoded_dequeued]
      exact h.source

theorem playerInv_start : PlayerInv playerStart where
  window := ⟨rfl, rfl, by decide, by decide, nofun, fun hne => absurd rfl hne⟩
  reader _ _ hr := absurd hr nofun
  source := List.suffix_refl _

theorem PlayerInv.law (h : PlayerInv s) : WindowLaw s :=
  ⟨h.window.inside, h.window.apart, fun hplace => ⟨h.window.full hplace, h.window.fits⟩,
    h.window.order, h.source⟩

end Window

/-- The window keeps its law for every decoder that leaves no more than it was given. -/
theorem run_windowLaw (es : List PlayerEvent) (hk : EachStep playerStep RemainKept playerStart es) :
    Always playerStep WindowLaw playerStart es :=
  (always_of_eachStep (fun _ _ _ => playerStep_inv) playerInv_start hk).mono fun _ => PlayerInv.law

/-! ## A run -/

/-- `k` chunks are in the ring, and both tasks are at rest. -/
def ChunksIn (s : Player) (k : Nat) : Prop :=
  s.sink.task = .top ∧ s.sink.reader = .idle ∧ s.sink.qHead = 0 ∧
    s.sink.qTail = k * vsinkChunkSize ∧ s.video = playerStart.video

def chunk : List PlayerEvent :=
  [.sink .arm, .sink (.usb (List.replicate vsinkChunkSize 0)), .sink .rxDone, .sink .store,
    .sink .check]

theorem run_chunk {s : Player} {k : Nat} (h : ChunksIn s k) (hk : k < 100) :
    ∃ t, run playerStep s chunk = some t ∧ ChunksIn t (k + 1) := by
  obtain ⟨⟨ring, buffer, head, tail, task, reader, stray, received, readBytes⟩, video⟩ := s
  unfold ChunksIn at h
  simp only at h
  obtain ⟨rfl, rfl, rfl, rfl, rfl⟩ := h
  have hbuff : vsinkBuffSize = 2097152 := rfl
  have hchunk : vsinkChunkSize = 16384 := rfl
  have hdirect : vsinkChunkSize ≤ u32 (vsinkBuffSize - (k * vsinkChunkSize : Nat)) := by
    rw [u32, hbuff, hchunk]
    omega
  have hnext : u32 ((k * vsinkChunkSize : Nat) + vsinkChunkSize) % vsinkBuffSize =
      (k + 1) * vsinkChunkSize := by
    rw [u32, hbuff, hchunk]
    omega
  have hcount : u32 (((k + 1) * vsinkChunkSize : Nat) - (0 : Nat) + vsinkBuffSize) %
      vsinkBuffSize = (k + 1) * vsinkChunkSize := by
    rw [u32, hbuff, hchunk]
    omega
  have hfree : ¬ u32 (vsinkBuffSize - ((k + 1) * vsinkChunkSize : Nat) - 1) <
      vsinkChunkSize * 2 := by
    rw [u32, hbuff, hchunk]
    omega
  have hpos : (0 : Int) < vsinkChunkSize := by decide
  simp only [chunk, run, playerStep, VSinkEvent.IsReader, if_false, vsinkStep, hdirect,
    decide_true, List.length_replicate, List.length_nil, Nat.zero_add, Nat.le_refl, if_true,
    VSink.dma, VSink.put, Option.map_some, Option.bind_some, List.nil_append, hpos, hnext,
    VSink.freeCount, VSink.dataCount, hcount, hfree]
  exact ⟨_, rfl, rfl, rfl, rfl, rfl, rfl⟩

/-- `k` chunks come. -/
def chunks : Nat → List PlayerEvent
  | 0 => []
  | k + 1 => chunks k ++ chunk

theorem run_chunks (k : Nat) (hk : k ≤ 100) :
    ∃ t, run playerStep playerStart (chunks k) = some t ∧ ChunksIn t k := by
  induction k with
  | zero => exact ⟨playerStart, rfl, rfl, rfl, rfl, rfl, rfl⟩
  | succ k ih =>
    obtain ⟨s, hes, hs⟩ := ih (Nat.le_of_succ_le hk)
    obtain ⟨t, ht, hin⟩ := run_chunk hs hk
    exact ⟨t, by rw [chunks, run_append, hes]; exact ht, hin⟩

theorem decoded_not_mem_chunks {ret : Int} {remain : Nat} (k : Nat) :
    .decoded ret remain ∉ chunks k := by
  induction k with
  | zero => exact List.not_mem_nil
  | succ k ih =>
    intro he
    rcases List.mem_append.mp he with he | he
    · exact ih he
    · simp [chunk] at he

/-- What the task asks for is read in one piece, from the start of the ring. -/
theorem run_read {s : Player} {len : Nat} (hwanted : s.video.wanted = some len)
    (hidle : s.sink.reader = .idle) (hhead : s.sink.qHead = 0) (hcount : len ≤ s.sink.dataCount)
    (hpos : 0 < len) (hfit : len ≤ vsinkBuffSize) :
    ∃ q bytes, bytes.length = len ∧
      run playerStep s [.read, .take len, .readDone] = some ⟨q, s.video.filled bytes⟩ := by
  obtain ⟨⟨ring, buffer, head, tail, task, reader, stray, received, readBytes⟩, video⟩ := s
  simp only at hidle hhead hwanted
  subst hidle hhead
  have hbuff : vsinkBuffSize = 2097152 := rfl
  have hword : len < 2 ^ 32 := by omega
  have hleft : len ≤ copyLeft (decide (vsinkBuffSize < 0 + len)) (vsinkBuffSize - 0) len 0 := by
    rw [Nat.zero_add, decide_eq_false (Nat.not_lt.mpr hfit)]
    exact Nat.le_refl len
  let q : VSink := ⟨ring, buffer, 0, tail, task, .reading len [], stray, received, readBytes⟩
  refine ⟨{ q with
      qHead := u32 ((0 : Nat) + len) % vsinkBuffSize
      reader := .idle
      read := readBytes ++ copyFrom ring (q.readPlace len 0) len },
    copyFrom ring (q.readPlace len 0) len, length_copyFrom, ?_⟩
  simp only [run, playerStep, hwanted, vsinkStep, hword, if_true, if_neg (Nat.not_lt.mpr hcount),
    Option.map_some, Option.bind_some, VSink.firstPart, List.length_nil, hpos, hleft, and_self,
    List.nil_append, length_copyFrom]
  rfl

/-- A frame is read, and the decoder leaves 1000 bytes of it. -/
def frame : List PlayerEvent := [.read, .take vc8kFrameMaxSize, .readDone, .decoded 0 1000]

theorem run_frame {s : Player} (h : ChunksIn s 17) :
    ∃ t, run playerStep s frame = some t ∧ t.video.consumed.length = 261144 := by
  obtain ⟨-, hidle, hhead, htail, hvideo⟩ := h
  have hwanted : s.video.wanted = some vc8kFrameMaxSize := by rw [hvideo]; rfl
  have hcount : vc8kFrameMaxSize ≤ s.sink.dataCount := by
    rw [VSink.dataCount, hhead, htail]
    decide
  obtain ⟨q, bytes, hlen, hrun⟩ :=
    run_read hwanted hidle hhead hcount (by decide) (by decide)
  have hfilled : (s.video.filled bytes).place = .decoding ∧
      (s.video.filled bytes).avail = vc8kFrameMaxSize ∧ (s.video.filled bytes).consumed = [] := by
    rw [hvideo]
    exact ⟨rfl, rfl, rfl⟩
  have hleft : vc8kFrameMaxSize - 1000 = 261144 := rfl
  have hsplit : frame = [.read, .take vc8kFrameMaxSize, .readDone] ++ [.decoded 0 1000] := rfl
  refine ⟨⟨q, (s.video.filled bytes).decoded 0 1000⟩, ?_, ?_⟩
  · rw [hsplit, run_append, hrun, Option.bind_some, run, playerStep, if_pos hfilled.1]
    rfl
  · rw [decoded_consumed, hfilled.2.2, hfilled.2.1, List.nil_append, length_copyFrom, hleft]

/-- A decoder that leaves no more than a frame leaves no more than it was given. -/
theorem remainKept_of_le (es : List PlayerEvent)
    (h : ∀ ret remain, .decoded ret remain ∈ es → remain ≤ vc8kFrameMaxSize) :
    EachStep playerStep RemainKept playerStart es := by
  have hall : ∀ (es : List PlayerEvent) (s : Player), PlayerInv s →
      (∀ ret remain, .decoded ret remain ∈ es → remain ≤ vc8kFrameMaxSize) →
      EachStep playerStep RemainKept s es := by
    intro es
    induction es with
    | nil => exact fun _ _ _ => trivial
    | cons e es ih =>
      intro s hs h t ht
      have hkept : RemainKept s e := by
        cases e with
        | decoded ret remain =>
          intro _
          rw [hs.window.full (Option.ite_none_right_eq_some.mp ht).1]
          exact h ret remain (List.mem_cons_self ..)
        | _ => trivial
      exact ⟨hkept, ih t (playerStep_inv hs hkept ht) fun ret remain he =>
        h ret remain (List.mem_cons_of_mem _ he)⟩
  exact hall es playerStart playerInv_start h

/-- 17 chunks come, a frame is read, and all but 1000 bytes of it are decoded. -/
theorem run_windowLaw_frame :
    ∃ t, run playerStep playerStart (chunks 17 ++ frame) = some t ∧
      t.video.consumed.length = 261144 ∧
      Always playerStep WindowLaw playerStart (chunks 17 ++ frame) := by
  obtain ⟨s, hs, hin⟩ := run_chunks 17 (by decide)
  obtain ⟨t, ht, hlen⟩ := run_frame hin
  refine ⟨t, by rw [run_append, hs]; exact ht, hlen, run_windowLaw _ (remainKept_of_le _ ?_)⟩
  intro ret remain he
  rcases List.mem_append.mp he with he | he
  · exact absurd he (decoded_not_mem_chunks 17)
  · simp only [frame, List.mem_cons, reduceCtorEq, PlayerEvent.decoded.injEq, List.not_mem_nil,
      or_false, false_or] at he
    obtain ⟨-, rfl⟩ := he
    decide

end Ma35d1.UsbDevice

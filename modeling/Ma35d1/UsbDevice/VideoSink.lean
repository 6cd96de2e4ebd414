import Mathlib.Data.List.Basic
import Ma35d1.Machine.Copy
import Ma35d1.Machine.Ring
import Ma35d1.Machine.Trace

/-!
# The ring of the video sink

`vUSBD_MainTask` puts what it receives from USB into a ring, directly or, near the end of the ring,
by way of a buffer for one chunk, and `vsink_rxq_read` takes it out in another task. A copy is made
in pieces of any size, between which the other task may run.
-/

namespace Ma35d1.UsbDevice

open Ma35d1.Machine.Copy
open Ma35d1.Machine.Ring (mod_inj)
open Ma35d1.Machine.Trace

/-- `VSINK_BUFF_SIZE` -/
def vsinkBuffSize : Nat := 2 * 1024 * 1024

/-- `VSINK_CHUNK_SIZE` -/
def vsinkChunkSize : Nat := 16 * 1024

/-- `n` as a `uint32_t` -/
def u32 (n : Int) : Nat := (n % 2 ^ 32).toNat

/-- Where `vUSBD_MainTask` is. -/
inductive VSinkTask
  /-- at the head of the loop, or waiting for the device to be configured -/
  | top
  /-- in `usbd_vsink_bulk_rx`, which has moved `got` so far -/
  | receiving (direct : Bool) (got : List (BitVec 8))
  | result (direct : Bool) (ret : Int)
  /-- `done` bytes have been copied from the chunk, in two parts if it goes past the end -/
  | copying (wrap : Bool) (ret : Int) (done : Nat)
  | full

/-- Where `vsink_rxq_read` is. -/
inductive VSinkReader
  | idle
  | reading (len : Nat) (dest : List (BitVec 8))

structure VSink where
  /-- `_rx_mem_poll` and `_rx_mem_chunk_poll` -/
  ring : Nat → BitVec 8
  chunk : Nat → BitVec 8
  qHead : Nat
  qTail : Nat
  task : VSinkTask
  reader : VSinkReader
  /-- something was written outside the two -/
  stray : Bool
  /-- what has come from USB, and what has been read -/
  received : List (BitVec 8)
  read : List (BitVec 8)

inductive VSinkEvent
  /-- the loop calls `usbd_vsink_bulk_rx` -/
  | arm
  | usb (bytes : List (BitVec 8))
  | rxDone
  /-- the cable is removed or the device is deconfigured -/
  | rxFail
  | store
  | copy (n : Nat)
  | stored
  | check
  | read (len : Nat)
  | take (n : Nat)
  | readDone

/-- `GET_QUEUE_DATA_COUNT` -/
def VSink.dataCount (s : VSink) : Nat :=
  u32 (s.qTail - s.qHead + vsinkBuffSize) % vsinkBuffSize

/-- `GET_QUEUE_FREE_COUNT` -/
def VSink.freeCount (s : VSink) : Nat := u32 (vsinkBuffSize - s.dataCount - 1)

/-- The bytes are copied to the ring. -/
def VSink.put (s : VSink) (i : Nat) (bytes : List (BitVec 8)) : VSink :=
  { s with
    ring := copyTo s.ring i bytes
    stray := s.stray || decide (vsinkBuffSize < i + bytes.length) }

/-- The controller moves bytes behind those it has moved. -/
def VSink.dma (s : VSink) (direct : Bool) (got bytes : List (BitVec 8)) : VSink :=
  if direct then s.put (s.qTail + got.length) bytes
  else
    { s with
      chunk := copyTo s.chunk got.length bytes
      stray := s.stray || decide (vsinkChunkSize < got.length + bytes.length) }

/-- `end_len` -/
def VSink.endLen (s : VSink) : Nat := vsinkBuffSize - s.qTail

/-- The place of byte `done` of the chunk in the ring -/
def VSink.copyPlace (s : VSink) (wrap : Bool) (done : Nat) : Nat :=
  if wrap = true ∧ s.endLen ≤ done then done - s.endLen else s.qTail + done

/-- `first_part` -/
def VSink.firstPart (s : VSink) : Nat := vsinkBuffSize - s.qHead

/-- The place of byte `done` of what is read -/
def VSink.readPlace (s : VSink) (len done : Nat) : Nat :=
  if s.qHead + len ≤ vsinkBuffSize then s.qHead + done
  else if done < s.firstPart then s.qHead + done else done - s.firstPart

/-- What is left of the copy that has come to byte `done`, where the first part ends at `part`. -/
def copyLeft (two : Bool) (part size done : Nat) : Nat :=
  if two = true ∧ done < part then part - done else size - done

def vsinkStep (s : VSink) : VSinkEvent → Option VSink
  | .arm =>
    match s.task with
    | .top =>
      some { s with
        task := .receiving (decide (vsinkChunkSize ≤ u32 (vsinkBuffSize - s.qTail))) [] }
    | _ => none
  | .usb bytes =>
    match s.task with
    | .receiving direct got =>
      if got.length + bytes.length ≤ vsinkChunkSize then
        some { s.dma direct got bytes with task := .receiving direct (got ++ bytes) }
      else none
    | _ => none
  | .rxDone =>
    match s.task with
    | .receiving direct got =>
      some { s with task := .result direct got.length, received := s.received ++ got }
    | _ => none
  | .rxFail =>
    match s.task with
    | .receiving direct _ => some { s with task := .result direct (-1) }
    | _ => none
  | .store =>
    match s.task with
    | .result true ret =>
      some { s with
        qTail := if 0 < ret then u32 (s.qTail + ret) % vsinkBuffSize else s.qTail
        task := .full }
    | .result false ret =>
      some { s with task := .copying (decide (vsinkBuffSize < u32 (s.qTail + ret))) ret 0 }
    | _ => none
  | .copy n =>
    match s.task with
    | .copying wrap ret done =>
      -- the size is a `size_t`
      let size := (ret % 2 ^ 64).toNat
      if 0 < n ∧ n ≤ copyLeft wrap s.endLen size done then
        some { s.put (s.copyPlace wrap done) (copyFrom s.chunk done n) with
          task := .copying wrap ret (done + n) }
      else none
    | _ => none
  | .stored =>
    match s.task with
    | .copying wrap ret done =>
      if done = (ret % 2 ^ 64).toNat then
        some { s with
          qTail := if wrap then u32 (ret - s.endLen) else u32 (s.qTail + ret) % vsinkBuffSize
          task := .full }
      else none
    | _ => none
  | .check =>
    match s.task with
    | .full =>
      some { s with task := if s.freeCount < vsinkChunkSize * 2 then .full else .top }
    | _ => none
  | .read len =>
    match s.reader with
    | .idle =>
      if len < 2 ^ 32 then
        some (if s.dataCount < len then s else { s with reader := .reading len [] })
      else none
    | _ => none
  | .take n =>
    match s.reader with
    | .reading len dest =>
      let two := decide (vsinkBuffSize < s.qHead + len)
      if 0 < n ∧ n ≤ copyLeft two s.firstPart len dest.length then
        some { s with
          reader := .reading len (dest ++ copyFrom s.ring (s.readPlace len dest.length) n) }
      else none
    | _ => none
  | .readDone =>
    match s.reader with
    | .reading len dest =>
      if dest.length = len then
        some { s with
          qHead := u32 (s.qHead + len) % vsinkBuffSize
          reader := .idle
          read := s.read ++ dest }
      else none
    | _ => none

def vsinkStart : VSink where
  ring := fun _ => 0
  chunk := fun _ => 0
  qHead := 0
  qTail := 0
  task := .top
  reader := .idle
  stray := false
  received := []
  read := []

/-! ## The law -/

structure RingLaw (s : VSink) : Prop where
  head : s.qHead < vsinkBuffSize
  tail : s.qTail < vsinkBuffSize
  inside : s.stray = false
  /-- the bytes between head and tail are those received behind the ones read -/
  unread : ∀ i < s.dataCount,
    s.received[s.read.length + i]? = some (s.ring ((s.qHead + i) % vsinkBuffSize))
  read : s.read <+: s.received

/-- The device does not go away while its data are to go through the chunk. -/
def RxKept (s : VSink) : VSinkEvent → Prop
  | .rxFail => ∀ got, s.task ≠ .receiving false got
  | _ => True

/-! ## The invariant -/

/-- The first `n` bytes of `l` stand at the places that `f` gives. -/
def Holds (mem : Nat → BitVec 8) (f : Nat → Nat) (l : List (BitVec 8)) (n : Nat) : Prop :=
  ∀ j < n, l[j]? = some (mem (f j))

/-- The place of byte `j` behind the published ones -/
def place (w j : Nat) : Nat := (w + j) % vsinkBuffSize

/-- There is room for two chunks behind what is in the ring, of which `w` bytes have been
published. -/
def Room (s : VSink) (w : Nat) : Prop :=
  w + 2 * vsinkChunkSize < s.read.length + vsinkBuffSize

/-- A chunk goes to the ring without an end in between. -/
def Direct (w : Nat) : Prop := w % vsinkBuffSize + vsinkChunkSize ≤ vsinkBuffSize

def TaskInv (s : VSink) (w : Nat) : Prop :=
  match s.task with
  | .top => w = s.received.length ∧ Room s w
  | .receiving direct got =>
    w = s.received.length ∧ Room s w ∧ got.length ≤ vsinkChunkSize ∧
      if direct then Direct w ∧ Holds s.ring (place w) got got.length
      else Holds s.chunk id got got.length
  | .result direct ret =>
    Room s w ∧
      ((∃ n ≤ vsinkChunkSize, ret = n ∧ s.received.length = w + n ∧
        if direct then Direct w ∧ Holds s.ring (place w) (s.received.drop w) n
        else Holds s.chunk id (s.received.drop w) n) ∨
      (ret = -1 ∧ direct = true ∧ s.received.length = w))
  | .copying wrap ret done =>
    Room s w ∧ ∃ n ≤ vsinkChunkSize, ret = n ∧ s.received.length = w + n ∧
      (wrap = true ↔ vsinkBuffSize < w % vsinkBuffSize + n) ∧ done ≤ n ∧
      Holds s.chunk id (s.received.drop w) n ∧ Holds s.ring (place w) (s.received.drop w) done
  | .full =>
    w = s.received.length ∧ w + vsinkChunkSize < s.read.length + vsinkBuffSize

def ReaderInv (s : VSink) (w : Nat) : Prop :=
  match s.reader with
  | .idle => True
  | .reading len dest =>
    dest.length ≤ len ∧ s.read.length + len ≤ w ∧
      dest = (s.received.drop s.read.length).take dest.length

/-- `w` bytes have been published. -/
structure RingInv (s : VSink) (w : Nat) : Prop where
  stray : s.stray = false
  read : s.read <+: s.received
  le : s.read.length ≤ w
  head : s.qHead = s.read.length % vsinkBuffSize
  tail : s.qTail = w % vsinkBuffSize
  ring : ∀ k, s.read.length ≤ k → k < w → s.received[k]? = some (s.ring (k % vsinkBuffSize))
  task : TaskInv s w
  reader : ReaderInv s w

section Invariant

variable {s t : VSink} {w : Nat} {e : VSinkEvent}

theorem RingInv.room (h : RingInv s w) : w < s.read.length + vsinkBuffSize := by
  have hbuff : vsinkBuffSize = 2097152 := rfl
  have hchunk : vsinkChunkSize = 16384 := rfl
  have htask := h.task
  unfold TaskInv Room at htask
  split at htask <;> omega

theorem RingInv.dataCount (h : RingInv s w) : s.dataCount = w - s.read.length := by
  have hbuff : vsinkBuffSize = 2097152 := rfl
  have hroom := h.room
  have hle := h.le
  rw [VSink.dataCount, h.head, h.tail, hbuff, u32]
  rw [hbuff] at hroom
  omega

theorem RingInv.law (h : RingInv s w) : RingLaw s := by
  have hbuff : 0 < vsinkBuffSize := by decide
  refine ⟨?_, ?_, h.stray, fun i hi => ?_, h.read⟩
  · rw [h.head]
    exact Nat.mod_lt _ hbuff
  · rw [h.tail]
    exact Nat.mod_lt _ hbuff
  · rw [h.dataCount] at hi
    have hbyte := h.ring (s.read.length + i) (by omega) (by omega)
    rw [h.head, Nat.mod_add_mod]
    exact hbyte

/-- Where the piece of a copy that begins with byte `d` goes -/
structure Piece (w d i n : Nat) : Prop where
  fits : i + n ≤ vsinkBuffSize
  at_place : i < vsinkBuffSize → i = place w d

theorem Piece.add {d i n j : Nat} (h : Piece w d i n) (hj : j < n) : place w (d + j) = i + j := by
  have hbuff : vsinkBuffSize = 2097152 := rfl
  have hfits := h.fits
  have hi := h.at_place (by omega)
  unfold place at hi ⊢
  rw [hbuff] at *
  omega

/-- The piece of a copy, and the bytes in front of it -/
theorem Piece.holds {mem : Nat → BitVec 8} {l bytes : List (BitVec 8)} {d i : Nat}
    (h : Piece w d i bytes.length) (hroom : d + bytes.length ≤ vsinkChunkSize)
    (hl : Holds mem (place w) l d)
    (hbytes : ∀ j (hj : j < bytes.length), l[d + j]? = some bytes[j]) :
    Holds (copyTo mem i bytes) (place w) l (d + bytes.length) := by
  have hbuff : vsinkBuffSize = 2097152 := rfl
  have hchunk : vsinkChunkSize = 16384 := rfl
  intro j hj
  by_cases hd : j < d
  · rw [hl j hd, copyTo_of_not]
    rintro ⟨hle, hlt⟩
    have hplace := h.add (j := place w j - i) (by omega)
    have hinj := mod_inj (n := vsinkBuffSize) (t := w) (j := w + j)
      (k := w + (d + (place w j - i))) (by omega) (by omega) (by omega) (by omega)
      (by unfold place at hplace hle ⊢; omega)
    omega
  · have hplace := h.add (j := j - d) (by omega)
    rw [show d + (j - d) = j by omega] at hplace
    rw [hplace, copyTo_add (show j - d < bytes.length by omega), ← hbytes (j - d) (by omega),
      show d + (j - d) = j by omega]

/-- No piece of a copy touches a byte that is unread. -/
theorem Piece.frame {mem : Nat → BitVec 8} {bytes : List (BitVec 8)} {r d i k : Nat}
    (h : Piece w d i bytes.length) (hroom : w + d + bytes.length ≤ r + vsinkBuffSize)
    (hrk : r ≤ k) (hkw : k < w) :
    copyTo mem i bytes (k % vsinkBuffSize) = mem (k % vsinkBuffSize) := by
  refine copyTo_of_not ?_
  rintro ⟨hle, hlt⟩
  have hplace := h.add (j := k % vsinkBuffSize - i) (by omega)
  have hinj := mod_inj (n := vsinkBuffSize) (t := r) (j := k)
    (k := w + (d + (k % vsinkBuffSize - i))) hrk (by omega) (by omega) (by omega)
    (by unfold place at hplace; omega)
  omega

theorem ringInv_start : RingInv vsinkStart 0 where
  stray := rfl
  read := List.nil_prefix
  le := Nat.le_refl 0
  head := rfl
  tail := rfl
  ring _ _ hk := absurd hk (Nat.not_lt_zero _)
  task := ⟨rfl, show 0 + 2 * vsinkChunkSize < 0 + vsinkBuffSize by decide⟩
  reader := trivial

/-! ## The task -/

/-- What the task does before it publishes anything leaves the unread bytes as they are. -/
theorem RingInv.produce (h : RingInv s w)
    (hring : ∀ k, s.read.length ≤ k → k < w →
      t.ring (k % vsinkBuffSize) = s.ring (k % vsinkBuffSize))
    (hhead : t.qHead = s.qHead) (htail : t.qTail = s.qTail) (hreader : t.reader = s.reader)
    (hreceived : t.received = s.received) (hread : t.read = s.read) (hstray : t.stray = false)
    (htask : TaskInv t w) : RingInv t w where
  stray := hstray
  read := by rw [hread, hreceived]; exact h.read
  le := by rw [hread]; exact h.le
  head := by rw [hhead, hread]; exact h.head
  tail := htail.trans h.tail
  ring k hk hkw := by
    rw [hread] at hk
    rw [hreceived, hring k hk hkw]
    exact h.ring k hk hkw
  task := htask
  reader := by
    have hr := h.reader
    unfold ReaderInv at hr ⊢
    rw [hreader, hread, hreceived]
    exact hr

/-- The task publishes `n` bytes that stand behind the published ones. -/
theorem RingInv.publish (h : RingInv s w) {n : Nat} (hlen : s.received.length = w + n)
    (hroom : Room s w) (hn : n ≤ vsinkChunkSize)
    (hholds : Holds s.ring (place w) (s.received.drop w) n) :
    RingInv { s with qTail := (w + n) % vsinkBuffSize, task := .full } (w + n) where
  stray := h.stray
  read := h.read
  le := Nat.le_add_right_of_le h.le
  head := h.head
  tail := rfl
  ring k hk hkw := by
    by_cases hw : k < w
    · exact h.ring k hk hw
    · have hbyte := hholds (k - w) (by omega)
      rw [List.getElem?_drop, place, Nat.add_sub_cancel' (Nat.not_lt.mp hw)] at hbyte
      exact hbyte
  task := by
    have hbuff : vsinkBuffSize = 2097152 := rfl
    have hchunk : vsinkChunkSize = 16384 := rfl
    unfold Room at hroom
    refine ⟨hlen.symm, ?_⟩
    show w + n + vsinkChunkSize < s.read.length + vsinkBuffSize
    omega
  reader := by
    have hr := h.reader
    unfold ReaderInv at hr ⊢
    split
    · trivial
    · rename_i len dest hreader
      have hreader' : s.reader = .reading len dest := hreader
      rw [hreader'] at hr
      exact ⟨hr.1, Nat.le_add_right_of_le hr.2.1, hr.2.2⟩

theorem RingInv.arm (h : RingInv s w) (htask : s.task = .top) :
    RingInv { s with
      task := .receiving (decide (vsinkChunkSize ≤ u32 (vsinkBuffSize - s.qTail))) [] } w := by
  have hbuff : vsinkBuffSize = 2097152 := rfl
  have hchunk : vsinkChunkSize = 16384 := rfl
  have hinv := h.task
  unfold TaskInv at hinv
  rw [htask] at hinv
  refine h.produce (fun _ _ _ => rfl) rfl rfl rfl rfl rfl h.stray ⟨hinv.1, hinv.2, ?_, ?_⟩
  · exact Nat.zero_le _
  · have htail := h.tail
    split
    · rename_i hdirect
      have hspace := of_decide_eq_true hdirect
      refine ⟨?_, fun j hj => absurd hj (Nat.not_lt_zero j)⟩
      unfold Direct
      rw [u32] at hspace
      rw [hbuff] at *
      omega
    · exact fun j hj => absurd hj (Nat.not_lt_zero j)

theorem holds_append {mem : Nat → BitVec 8} {f : Nat → Nat} {l l' : List (BitVec 8)} {n : Nat}
    (h : Holds mem f l n) (hn : n ≤ l.length) : Holds mem f (l ++ l') n := fun j hj => by
  rw [List.getElem?_append_left (by omega)]
  exact h j hj

theorem RingInv.usb (h : RingInv s w) {direct : Bool} {got bytes : List (BitVec 8)}
    (htask : s.task = .receiving direct got)
    (hlen : got.length + bytes.length ≤ vsinkChunkSize) :
    RingInv { s.dma direct got bytes with task := .receiving direct (got ++ bytes) } w := by
  have hbuff : vsinkBuffSize = 2097152 := rfl
  have hchunk : vsinkChunkSize = 16384 := rfl
  have hinv := h.task
  unfold TaskInv at hinv
  rw [htask] at hinv
  obtain ⟨hw, hroom, -, hgot⟩ := hinv
  have hroom' := hroom
  unfold Room at hroom'
  have hlength : (got ++ bytes).length = got.length + bytes.length := List.length_append
  have hbytes : ∀ j (hj : j < bytes.length), (got ++ bytes)[got.length + j]? = some bytes[j] := by
    intro j hj
    rw [List.getElem?_append_right (by omega), Nat.add_sub_cancel_left,
      List.getElem?_eq_getElem hj]
  cases direct with
  | true =>
    obtain ⟨hdirect, hholds⟩ := hgot
    have hdirect' := hdirect
    unfold Direct at hdirect'
    have hpiece : Piece w got.length (s.qTail + got.length) bytes.length := by
      refine ⟨?_, fun hlt => ?_⟩
      · rw [h.tail]
        omega
      · rw [h.tail] at hlt ⊢
        unfold place
        rw [hbuff] at *
        omega
    refine h.produce (fun k hk hkw => hpiece.frame (by omega) hk hkw) rfl rfl rfl rfl rfl ?_
      ⟨hw, hroom, by omega, hdirect, ?_⟩
    · have hfits := hpiece.fits
      show (s.stray || decide (vsinkBuffSize < s.qTail + got.length + bytes.length)) = false
      rw [h.stray, Bool.false_or]
      exact decide_eq_false (by omega)
    · rw [hlength]
      exact hpiece.holds hlen (holds_append hholds (Nat.le_refl _)) hbytes
  | false =>
    refine h.produce (fun _ _ _ => rfl) rfl rfl rfl rfl rfl ?_ ⟨hw, hroom, by omega, ?_⟩
    · show (s.stray || decide (vsinkChunkSize < got.length + bytes.length)) = false
      rw [h.stray, Bool.false_or]
      exact decide_eq_false (by omega)
    · intro j hj
      by_cases hold : j < got.length
      · show _ = some (copyTo s.chunk got.length bytes j)
        rw [copyTo_of_not (by omega), List.getElem?_append_left hold]
        exact hgot j hold
      · show _ = some (copyTo s.chunk got.length bytes j)
        rw [show j = got.length + (j - got.length) by omega,
          copyTo_add (show j - got.length < bytes.length by omega)]
        exact hbytes _ (by omega)

theorem RingInv.rxDone (h : RingInv s w) {direct : Bool} {got : List (BitVec 8)}
    (htask : s.task = .receiving direct got) :
    RingInv { s with task := .result direct got.length, received := s.received ++ got } w := by
  have hinv := h.task
  unfold TaskInv at hinv
  rw [htask] at hinv
  obtain ⟨hw, hroom, hlen, hgot⟩ := hinv
  have hdrop : (s.received ++ got).drop w = got := by
    rw [hw, List.drop_left]
  have hread : s.read.length ≤ s.received.length := by
    rw [← hw]
    exact h.le
  refine ⟨h.stray, h.read.trans (List.prefix_append _ _), h.le, h.head, h.tail,
    fun k hk hkw => ?_, ⟨hroom, .inl ⟨got.length, hlen, rfl, ?_, ?_⟩⟩, ?_⟩
  · show (s.received ++ got)[k]? = _
    rw [List.getElem?_append_left (by omega)]
    exact h.ring k hk hkw
  · show (s.received ++ got).length = w + got.length
    rw [List.length_append, ← hw]
  · show if direct then _ ∧ Holds s.ring (place w) ((s.received ++ got).drop w) got.length
      else Holds s.chunk id ((s.received ++ got).drop w) got.length
    rw [hdrop]
    exact hgot
  · have hr := h.reader
    unfold ReaderInv at hr ⊢
    split
    · trivial
    · rename_i len dest hreader
      have hreader' : s.reader = .reading len dest := hreader
      rw [hreader'] at hr
      refine ⟨hr.1, hr.2.1, ?_⟩
      show dest = ((s.received ++ got).drop s.read.length).take dest.length
      rw [List.drop_append_of_le_length hread, List.take_append_of_le_length]
      · exact hr.2.2
      · rw [List.length_drop]
        omega

theorem RingInv.rxFail (h : RingInv s w) {direct : Bool} {got : List (BitVec 8)}
    (htask : s.task = .receiving direct got) (hdirect : direct = true) :
    RingInv { s with task := .result direct (-1) } w := by
  have hinv := h.task
  unfold TaskInv at hinv
  rw [htask] at hinv
  exact h.produce (fun _ _ _ => rfl) rfl rfl rfl rfl rfl h.stray
    ⟨hinv.2.1, .inr ⟨rfl, hdirect, hinv.1.symm⟩⟩

/-- The end of a direct chunk -/
theorem RingInv.storeDirect (h : RingInv s w) {ret : Int} (htask : s.task = .result true ret) :
    ∃ v, RingInv { s with
      qTail := if 0 < ret then u32 (s.qTail + ret) % vsinkBuffSize else s.qTail
      task := .full } v := by
  have hbuff : vsinkBuffSize = 2097152 := rfl
  have hchunk : vsinkChunkSize = 16384 := rfl
  have hinv := h.task
  unfold TaskInv at hinv
  rw [htask] at hinv
  obtain ⟨hroom, ⟨n, hn, rfl, hlen, -, hholds⟩ | ⟨rfl, -, hlen⟩⟩ := hinv
  · refine ⟨w + n, ?_⟩
    have htail : (if 0 < (n : Int) then u32 (s.qTail + n) % vsinkBuffSize else s.qTail) =
        (w + n) % vsinkBuffSize := by
      rw [h.tail, u32]
      rw [hbuff] at *
      split <;> omega
    rw [htail]
    exact h.publish hlen hroom hn hholds
  · refine ⟨w, h.produce (fun _ _ _ => rfl) rfl rfl rfl rfl rfl h.stray ⟨hlen.symm, ?_⟩⟩
    unfold Room at hroom
    show w + vsinkChunkSize < s.read.length + vsinkBuffSize
    omega

theorem RingInv.storeChunk (h : RingInv s w) {ret : Int} (htask : s.task = .result false ret) :
    RingInv { s with
      task := .copying (decide (vsinkBuffSize < u32 (s.qTail + ret))) ret 0 } w := by
  have hbuff : vsinkBuffSize = 2097152 := rfl
  have hchunk : vsinkChunkSize = 16384 := rfl
  have hinv := h.task
  unfold TaskInv at hinv
  rw [htask] at hinv
  obtain ⟨hroom, ⟨n, hn, rfl, hlen, hholds⟩ | ⟨-, hno, -⟩⟩ := hinv
  · refine h.produce (fun _ _ _ => rfl) rfl rfl rfl rfl rfl h.stray
      ⟨hroom, n, hn, rfl, hlen, ?_, Nat.zero_le _, hholds,
        fun j hj => absurd hj (Nat.not_lt_zero j)⟩
    rw [decide_eq_true_iff, h.tail, u32]
    rw [hbuff]
    omega
  · exact absurd hno (by decide)

/-- A piece of the chunk is copied. -/
theorem RingInv.copy (h : RingInv s w) {wrap : Bool} {ret : Int} {done n : Nat}
    (htask : s.task = .copying wrap ret done)
    (hn : 0 < n ∧ n ≤ copyLeft wrap s.endLen (ret % 2 ^ 64).toNat done) :
    RingInv { s.put (s.copyPlace wrap done) (copyFrom s.chunk done n) with
      task := .copying wrap ret (done + n) } w := by
  have hbuff : vsinkBuffSize = 2097152 := rfl
  have hchunk : vsinkChunkSize = 16384 := rfl
  have hinv := h.task
  unfold TaskInv at hinv
  rw [htask] at hinv
  obtain ⟨hroom, size, hsize, rfl, hlen, hwrap, hdone, hholds, hring⟩ := hinv
  have hroom' := hroom
  unfold Room at hroom'
  have hend : s.endLen = vsinkBuffSize - w % vsinkBuffSize := by rw [VSink.endLen, h.tail]
  have htotal : ((size : Int) % 2 ^ 64).toNat = size := by omega
  rw [htotal] at hn
  have hleft : done + n ≤ size ∧ (wrap = true → done < s.endLen → done + n ≤ s.endLen) := by
    obtain ⟨hpos, hle⟩ := hn
    unfold copyLeft at hle
    split at hle
    · rename_i hfirst
      have hover := hwrap.mp hfirst.1
      omega
    · rename_i hfirst
      refine ⟨by omega, fun hyes hlt => absurd ⟨hyes, hlt⟩ hfirst⟩
  have hpiece : Piece w done (s.copyPlace wrap done) (copyFrom s.chunk done n).length := by
    rw [length_copyFrom]
    unfold VSink.copyPlace
    rw [h.tail] at *
    split
    · rename_i hpast
      have hover := hwrap.mp hpast.1
      refine ⟨by omega, fun _ => ?_⟩
      unfold place
      rw [hbuff] at *
      omega
    · rename_i hpast
      cases wrap with
      | true =>
        have hlt : done < s.endLen := by
          by_contra hge
          exact hpast ⟨rfl, Nat.not_lt.mp hge⟩
        have hfirst := hleft.2 rfl hlt
        refine ⟨by omega, fun hlt => ?_⟩
        unfold place
        rw [hbuff] at *
        omega
      | false =>
        have hfits : ¬ vsinkBuffSize < w % vsinkBuffSize + size :=
          fun hover => absurd (hwrap.mpr hover) (by decide)
        refine ⟨by omega, fun hlt => ?_⟩
        unfold place
        rw [hbuff] at *
        omega
  have hbytes : ∀ j (hj : j < (copyFrom s.chunk done n).length),
      (s.received.drop w)[done + j]? = some (copyFrom s.chunk done n)[j] := by
    intro j hj
    rw [getElem_copyFrom]
    rw [length_copyFrom] at hj
    exact hholds (done + j) (by omega)
  have hnew := hpiece.holds (by rw [length_copyFrom]; omega) hring hbytes
  have hframe : ∀ k, s.read.length ≤ k → k < w → copyTo s.ring (s.copyPlace wrap done)
      (copyFrom s.chunk done n) (k % vsinkBuffSize) = s.ring (k % vsinkBuffSize) :=
    fun k => hpiece.frame (by rw [length_copyFrom]; omega)
  rw [length_copyFrom] at hnew
  refine h.produce hframe rfl rfl rfl rfl rfl ?_
    ⟨hroom, size, hsize, rfl, hlen, hwrap, hleft.1, hholds, hnew⟩
  have hfits := hpiece.fits
  show (s.stray || decide (vsinkBuffSize <
    s.copyPlace wrap done + (copyFrom s.chunk done n).length)) = false
  rw [h.stray, Bool.false_or]
  exact decide_eq_false (by omega)

theorem RingInv.stored (h : RingInv s w) {wrap : Bool} {ret : Int} {done : Nat}
    (htask : s.task = .copying wrap ret done) (hdone : done = (ret % 2 ^ 64).toNat) :
    ∃ v, RingInv { s with
      qTail := if wrap then u32 (ret - s.endLen) else u32 (s.qTail + ret) % vsinkBuffSize
      task := .full } v := by
  have hbuff : vsinkBuffSize = 2097152 := rfl
  have hchunk : vsinkChunkSize = 16384 := rfl
  have hinv := h.task
  unfold TaskInv at hinv
  rw [htask] at hinv
  obtain ⟨hroom, n, hn, rfl, hlen, hwrap, -, -, hring⟩ := hinv
  have hend : s.endLen = vsinkBuffSize - w % vsinkBuffSize := by rw [VSink.endLen, h.tail]
  have hall : done = n := by omega
  rw [hall] at hring
  refine ⟨w + n, ?_⟩
  have htail : (if wrap then u32 (n - s.endLen) else u32 (s.qTail + n) % vsinkBuffSize) =
      (w + n) % vsinkBuffSize := by
    rw [h.tail, hend, u32, u32]
    rw [hbuff] at *
    split
    · rename_i hyes
      have hover := hwrap.mp hyes
      omega
    · omega
  rw [htail]
  exact h.publish hlen hroom hn hring

theorem RingInv.check (h : RingInv s w) (htask : s.task = .full) :
    RingInv { s with task := if s.freeCount < vsinkChunkSize * 2 then .full else .top } w := by
  have hbuff : vsinkBuffSize = 2097152 := rfl
  have hchunk : vsinkChunkSize = 16384 := rfl
  have hinv := h.task
  unfold TaskInv at hinv
  rw [htask] at hinv
  refine h.produce (fun _ _ _ => rfl) rfl rfl rfl rfl rfl h.stray ?_
  have hcount := h.dataCount
  have hle := h.le
  have hroom := h.room
  unfold TaskInv
  split
  · rename_i hcase
    by_cases hfree : s.freeCount < vsinkChunkSize * 2
    · simp [hfree] at hcase
    · rw [VSink.freeCount, hcount, u32] at hfree
      refine ⟨hinv.1, ?_⟩
      show w + 2 * vsinkChunkSize < s.read.length + vsinkBuffSize
      omega
  · rename_i hcase
    split at hcase <;> cases hcase
  · rename_i hcase
    split at hcase <;> cases hcase
  · rename_i hcase
    split at hcase <;> cases hcase
  · exact hinv

/-! ## The reader -/

/-- A piece of what is read is taken out. -/
theorem RingInv.take (h : RingInv s w) {len n : Nat} {dest : List (BitVec 8)}
    (hreader : s.reader = .reading len dest)
    (hn : 0 < n ∧ n ≤ copyLeft (decide (vsinkBuffSize < s.qHead + len)) s.firstPart len
      dest.length) :
    RingInv { s with
      reader := .reading len (dest ++ copyFrom s.ring (s.readPlace len dest.length) n) } w := by
  have hbuff : vsinkBuffSize = 2097152 := rfl
  have hinv := h.reader
  unfold ReaderInv at hinv
  rw [hreader] at hinv
  obtain ⟨hdest, hlen, htaken⟩ := hinv
  have hroom := h.room
  have hfirst : s.firstPart = vsinkBuffSize - s.read.length % vsinkBuffSize := by
    rw [VSink.firstPart, h.head]
  have hleft : dest.length + n ≤ len ∧ (vsinkBuffSize < s.qHead + len → dest.length < s.firstPart →
      dest.length + n ≤ s.firstPart) := by
    obtain ⟨hpos, hle⟩ := hn
    unfold copyLeft at hle
    rw [h.head] at hle ⊢
    split at hle
    · rename_i hpart
      have hover := of_decide_eq_true hpart.1
      omega
    · rename_i hpart
      exact ⟨by omega, fun hover hlt => absurd ⟨decide_eq_true hover, hlt⟩ hpart⟩
  have hplace : ∀ j < n, s.readPlace len dest.length + j =
      (s.read.length + dest.length + j) % vsinkBuffSize := by
    intro j hj
    unfold VSink.readPlace
    rw [h.head] at *
    rw [hbuff] at *
    split
    · omega
    split
    · rename_i hover hpart
      have hfits := hleft.2 (by omega) hpart
      omega
    · omega
  have hpiece : copyFrom s.ring (s.readPlace len dest.length) n =
      ((s.received.drop s.read.length).drop dest.length).take n := by
    refine List.ext_getElem? fun j => ?_
    by_cases hj : j < n
    · rw [List.getElem?_eq_getElem (by rw [length_copyFrom]; exact hj), getElem_copyFrom,
        List.getElem?_take_of_lt hj, List.getElem?_drop, List.getElem?_drop, hplace j hj,
        ← Nat.add_assoc]
      exact (h.ring (s.read.length + dest.length + j) (by omega) (by omega)).symm
    · rw [List.getElem?_eq_none (by rw [length_copyFrom]; omega),
        List.getElem?_eq_none (by rw [List.length_take]; omega)]
  have hlength : (dest ++ copyFrom s.ring (s.readPlace len dest.length) n).length =
      dest.length + n := by
    rw [List.length_append, length_copyFrom]
  refine ⟨h.stray, h.read, h.le, h.head, h.tail, h.ring, h.task, ?_, hlen, ?_⟩
  · rw [hlength]
    exact hleft.1
  · rw [hlength, List.take_add, ← htaken, hpiece]

theorem RingInv.read_prefix (h : RingInv s w) : s.read = s.received.take s.read.length := by
  obtain ⟨rest, hrest⟩ := h.read
  rw [← hrest, List.take_left]

/-- More room does the task no harm. -/
theorem TaskInv.mono (h : TaskInv s w) (htask : t.task = s.task) (hring : t.ring = s.ring)
    (hchunk : t.chunk = s.chunk) (hreceived : t.received = s.received)
    (hread : s.read.length ≤ t.read.length) : TaskInv t w := by
  have hroom : Room s w → Room t w := by
    unfold Room
    omega
  unfold TaskInv at h ⊢
  rw [htask, hring, hchunk, hreceived]
  split at h
  · exact ⟨h.1, hroom h.2⟩
  · exact ⟨h.1, hroom h.2.1, h.2.2⟩
  · exact ⟨hroom h.1, h.2⟩
  · exact ⟨hroom h.1, h.2⟩
  · exact ⟨h.1, by omega⟩

theorem RingInv.readDone (h : RingInv s w) {len : Nat} {dest : List (BitVec 8)}
    (hreader : s.reader = .reading len dest) (hdone : dest.length = len) :
    RingInv { s with
      qHead := u32 (s.qHead + len) % vsinkBuffSize
      reader := .idle
      read := s.read ++ dest } w := by
  have hbuff : vsinkBuffSize = 2097152 := rfl
  have hinv := h.reader
  unfold ReaderInv at hinv
  rw [hreader] at hinv
  obtain ⟨-, hlen, htaken⟩ := hinv
  have hroom := h.room
  have hlength : (s.read ++ dest).length = s.read.length + len := by
    rw [List.length_append, hdone]
  refine ⟨h.stray, ?_, ?_, ?_, h.tail, fun k hk hkw => h.ring k ?_ hkw,
    h.task.mono rfl rfl rfl rfl ?_, trivial⟩
  · have htake : s.read ++ dest = s.received.take (s.read.length + dest.length) := by
      rw [List.take_add, ← htaken, ← h.read_prefix]
    show s.read ++ dest <+: s.received
    rw [htake]
    exact List.take_prefix _ _
  · show (s.read ++ dest).length ≤ w
    rw [hlength]
    exact hlen
  · show u32 (s.qHead + len) % vsinkBuffSize = (s.read ++ dest).length % vsinkBuffSize
    rw [hlength, h.head, u32]
    rw [hbuff] at *
    omega
  · have hk' : (s.read ++ dest).length ≤ k := hk
    omega
  · show s.read.length ≤ (s.read ++ dest).length
    omega

/-- One step of either task or of the controller -/
theorem vsinkStep_inv (h : RingInv s w) (hk : RxKept s e) (ht : vsinkStep s e = some t) :
    ∃ v, RingInv t v := by
  cases e with
  | arm =>
    simp only [vsinkStep] at ht
    split at ht
    · rename_i htask
      obtain rfl := Option.some.inj ht
      exact ⟨w, h.arm htask⟩
    · exact absurd ht (by simp)
  | usb bytes =>
    simp only [vsinkStep] at ht
    split at ht
    · rename_i htask
      obtain ⟨hlen, ht⟩ := Option.ite_none_right_eq_some.mp ht
      obtain rfl := Option.some.inj ht
      exact ⟨w, h.usb htask hlen⟩
    · exact absurd ht (by simp)
  | rxDone =>
    simp only [vsinkStep] at ht
    split at ht
    · rename_i htask
      obtain rfl := Option.some.inj ht
      exact ⟨w, h.rxDone htask⟩
    · exact absurd ht (by simp)
  | rxFail =>
    simp only [vsinkStep] at ht
    split at ht
    · rename_i direct got htask
      obtain rfl := Option.some.inj ht
      refine ⟨w, h.rxFail htask ?_⟩
      cases direct with
      | true => rfl
      | false => exact absurd htask (hk got)
    · exact absurd ht (by simp)
  | store =>
    simp only [vsinkStep] at ht
    split at ht
    · rename_i htask
      obtain rfl := Option.some.inj ht
      exact h.storeDirect htask
    · rename_i htask
      obtain rfl := Option.some.inj ht
      exact ⟨w, h.storeChunk htask⟩
    · exact absurd ht (by simp)
  | copy n =>
    simp only [vsinkStep] at ht
    split at ht
    · rename_i htask
      obtain ⟨hn, ht⟩ := Option.ite_none_right_eq_some.mp ht
      obtain rfl := Option.some.inj ht
      exact ⟨w, h.copy htask hn⟩
    · exact absurd ht (by simp)
  | stored =>
    simp only [vsinkStep] at ht
    split at ht
    · rename_i htask
      obtain ⟨hdone, ht⟩ := Option.ite_none_right_eq_some.mp ht
      obtain rfl := Option.some.inj ht
      exact h.stored htask hdone
    · exact absurd ht (by simp)
  | check =>
    simp only [vsinkStep] at ht
    split at ht
    · rename_i htask
      obtain rfl := Option.some.inj ht
      exact ⟨w, h.check htask⟩
    · exact absurd ht (by simp)
  | read len =>
    simp only [vsinkStep] at ht
    split at ht
    · obtain ⟨-, ht⟩ := Option.ite_none_right_eq_some.mp ht
      obtain rfl := Option.some.inj ht
      split
      · exact ⟨w, h⟩
      · rename_i hcount
        rw [h.dataCount] at hcount
        have hle := h.le
        refine ⟨w, h.stray, h.read, h.le, h.head, h.tail, h.ring, h.task, Nat.zero_le _, ?_, ?_⟩
        · show s.read.length + len ≤ w
          omega
        · rw [List.length_nil, List.take_zero]
    · exact absurd ht (by simp)
  | take n =>
    simp only [vsinkStep] at ht
    split at ht
    · rename_i hreader
      obtain ⟨hn, ht⟩ := Option.ite_none_right_eq_some.mp ht
      obtain rfl := Option.some.inj ht
      exact ⟨w, h.take hreader hn⟩
    · exact absurd ht (by simp)
  | readDone =>
    simp only [vsinkStep] at ht
    split at ht
    · rename_i hreader
      obtain ⟨hdone, ht⟩ := Option.ite_none_right_eq_some.mp ht
      obtain rfl := Option.some.inj ht
      exact ⟨w, h.readDone hreader hdone⟩
    · exact absurd ht (by simp)

end Invariant

/-- The ring keeps its law as long as the device does not go away while its data are to go through
the chunk. -/
theorem run_ringLaw (es : List VSinkEvent) (hk : EachStep vsinkStep RxKept vsinkStart es) :
    Always vsinkStep RingLaw vsinkStart es :=
  (always_of_eachStep (P := fun s => ∃ w, RingInv s w)
    (fun _ _ _ ⟨_, hs⟩ hk ht => vsinkStep_inv hs hk ht) ⟨0, ringInv_start⟩ hk).mono
    fun _ ⟨_, hs⟩ => hs.law

/-- Three bytes come, the device goes away and comes back, and two bytes are read. -/
theorem run_ringLaw_short :
    let es : List VSinkEvent :=
      [.arm, .usb [1, 2, 3], .rxDone, .store, .check, .arm, .rxFail, .read 2, .take 2, .readDone]
    (run vsinkStep vsinkStart es).map (·.read) = some [1, 2] ∧
      Always vsinkStep RingLaw vsinkStart es := by
  refine ⟨by decide, run_ringLaw _ ?_⟩
  refine .cons rfl trivial (.cons rfl trivial (.cons rfl trivial (.cons rfl trivial
    (.cons rfl trivial (.cons rfl trivial (.cons rfl ?_ (.cons rfl trivial
      (.cons rfl trivial (.cons rfl trivial trivial)))))))))
  intro got h
  cases h

/-- Both tasks are at rest with an empty ring, at place `x`. -/
def RestAt (s : VSink) (x : Nat) : Prop :=
  s.task = .top ∧ s.reader = .idle ∧ s.qHead = x ∧ s.qTail = x

/-- `n` bytes come and are read. -/
def bytesThrough (n : Nat) : List VSinkEvent :=
  [.arm, .usb (List.replicate n 0), .rxDone, .store, .check, .read n, .take n, .readDone]

theorem run_bytesThrough {s : VSink} {x n : Nat} (h : RestAt s x)
    (hx : x + vsinkChunkSize ≤ vsinkBuffSize) (hn : 0 < n) (hnc : n ≤ vsinkChunkSize)
    (hend : x + n < vsinkBuffSize) :
    ∃ t, run vsinkStep s (bytesThrough n) = some t ∧ RestAt t (x + n) := by
  obtain ⟨ring, chunk, head, tail, task, reader, stray, received, readBytes⟩ := s
  unfold RestAt at h
  simp only at h
  obtain ⟨rfl, rfl, rfl, rfl⟩ := h
  have hbuff : vsinkBuffSize = 2097152 := rfl
  have hchunk : vsinkChunkSize = 16384 := rfl
  have hdirect : vsinkChunkSize ≤ u32 (vsinkBuffSize - tail) := by
    rw [u32]
    omega
  have hnext : u32 (tail + n) % vsinkBuffSize = tail + n := by
    rw [u32, hbuff]
    omega
  have hcount : u32 (n + vsinkBuffSize) % vsinkBuffSize = n := by
    rw [u32, hbuff]
    omega
  have hcount' : ((u32 (n + vsinkBuffSize) : Nat) : Int) % vsinkBuffSize = n := by
    exact_mod_cast hcount
  have hfree : ¬ u32 (vsinkBuffSize - n - 1) < vsinkChunkSize * 2 := by
    rw [u32]
    omega
  have hn32 : n < 4294967296 := by omega
  have hover : ¬ vsinkBuffSize < tail + n := by omega
  simp only [bytesThrough, BitVec.ofNat_eq_ofNat, run, vsinkStep, hdirect, decide_true,
    List.length_replicate, VSink.dma, VSink.put, VSink.freeCount, VSink.dataCount,
    Int.natCast_emod, Nat.reducePow, hn32, ↓reduceIte, hn, copyLeft, decide_eq_true_eq, true_and,
    Option.bind_fun_some, Option.bind_some, List.length_nil, zero_add, hnc, add_zero, hover,
    decide_false, Bool.or_false, List.nil_append, Int.natCast_pos, hnext, Int.natCast_add,
    add_sub_cancel_left, hcount', hfree, hcount, lt_self_iff_false, false_and, Nat.sub_zero,
    le_refl, length_copyFrom, Option.some.injEq, RestAt, exists_eq_left',
    and_self]

/-- Chunk after chunk comes and is read, up to the last chunk of the ring. -/
theorem exists_run_restAt (k : Nat) (hk : k < 128) :
    ∃ es t, run vsinkStep vsinkStart es = some t ∧ RestAt t (k * vsinkChunkSize) := by
  have hbuff : vsinkBuffSize = 2097152 := rfl
  have hchunk : vsinkChunkSize = 16384 := rfl
  induction k with
  | zero => exact ⟨[], vsinkStart, rfl, rfl, rfl, rfl, rfl⟩
  | succ k ih =>
    obtain ⟨es, s, hes, hs⟩ := ih (by omega)
    have hplace : k * vsinkChunkSize + vsinkChunkSize < vsinkBuffSize := by
      rw [hchunk, hbuff]
      omega
    obtain ⟨t, hrun, ht⟩ := run_bytesThrough (n := vsinkChunkSize) hs (Nat.le_of_lt hplace)
      (by omega) (Nat.le_refl _) hplace
    refine ⟨es ++ bytesThrough vsinkChunkSize, t, ?_, ?_⟩
    · rw [run_append, hes, Option.bind_some, hrun]
    · rw [Nat.succ_mul]
      exact ht

/-- The device goes away with the write position one byte into the last chunk of the ring, and what
`usbd_vsink_bulk_rx` returned then is copied from the chunk. -/
theorem not_ringLaw_lastChunk : ¬ ∀ es, Always vsinkStep RingLaw vsinkStart es := by
  intro h
  obtain ⟨es, s, hes, hs⟩ := exists_run_restAt 127 (by decide)
  obtain ⟨t, ht, hrest⟩ := run_bytesThrough hs (n := 1) (by decide) (by decide) (by decide)
    (by decide)
  obtain ⟨ring, chunk, head, tail, task, reader, stray, received, readBytes⟩ := t
  unfold RestAt at hrest
  simp only at hrest
  obtain ⟨rfl, rfl, rfl, rfl⟩ := hrest
  have htail : 127 * vsinkChunkSize + 1 + vsinkChunkSize = vsinkBuffSize + 1 := rfl
  have hdirect : ¬ vsinkChunkSize ≤ u32 (vsinkBuffSize - (127 * vsinkChunkSize + 1 : Nat)) := by
    decide
  have hwrap : ¬ vsinkBuffSize < u32 ((127 * vsinkChunkSize + 1 : Nat) + -1) := by decide
  have hleft : ∀ part, vsinkChunkSize ≤ copyLeft false part (-1 % 2 ^ 64 : Int).toNat 0 := by
    intro part
    rw [copyLeft, if_neg (by simp)]
    decide
  have hlast : ∃ u, run vsinkStep vsinkStart
      (es ++ (bytesThrough 1 ++ [.arm, .rxFail, .store, .copy vsinkChunkSize])) = some u ∧
        u.stray = true := by
    rw [run_append, hes, Option.bind_some, run_append, ht, Option.bind_some]
    simp only [run, vsinkStep, hdirect, hwrap, decide_false, Option.bind_some]
    rw [if_pos ⟨by decide, hleft _⟩, Option.bind_some]
    refine ⟨_, rfl, ?_⟩
    simp [VSink.put, VSink.copyPlace, htail]
  obtain ⟨u, hu, hstray⟩ := hlast
  have hinside := ((h _).last hu).inside
  rw [hstray] at hinside
  exact absurd hinside (by decide)

end Ma35d1.UsbDevice

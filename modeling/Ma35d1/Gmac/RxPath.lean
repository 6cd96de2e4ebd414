import Mathlib.Data.List.Sublists
import Ma35d1.Gmac.RxRing
import Ma35d1.Machine.Copy
import Ma35d1.Machine.Ring

/-!
# From the DMA to lwIP

The receive task first takes all the frames there are off the ring, with
`GMAC_handle_received_data`, and then copies them one after the other, with `ethernetif_input0`. The
DMA has a descriptor back as soon as its frame is taken.
-/

namespace Ma35d1.Gmac

open Ma35d1.Machine
open Ma35d1.Machine.Copy
open Ma35d1.Machine.Ring (Window)

abbrev Bytes := List (BitVec 8)

/-- `RECEIVE_DESC_SIZE` -/
def receiveDescSize : Nat := 128

def descRxFrameLengthMask : BitVec 32 := 0x3FFF0000
def descRxFrameLengthShift : Nat := 16
def descError : BitVec 32 := 0x00008000

/-- `GMAC_get_rx_desc_frame_length` -/
def getRxDescFrameLength (status : BitVec 32) : BitVec 32 :=
  (status &&& descRxFrameLengthMask) >>> descRxFrameLengthShift

/-- A frame that was received, with its CRC; `error` is the error-summary bit. -/
structure Frame where
  bytes : Bytes
  error : Bool
  deriving DecidableEq

/-- Without the CRC -/
def Frame.body (f : Frame) : Bytes := f.bytes.take (f.bytes.length - 4)

/-- What `GMAC_handle_received_data` fills in of a `sk_buff` -/
structure RxSkbuf where
  len : BitVec 32
  pData : BitVec 32
  deriving DecidableEq

/-- Where the receive task stands: it waits; it has taken `ret` frames; it is about to handle the
`i`-th of them; it has copied the bytes `p` of that, into a pbuf for `len`. -/
inductive RxTask
  | idle
  | handling (ret : Nat)
  | input (packetCnt i : Nat)
  | copying (packetCnt i len : Nat) (p : Bytes)
  deriving DecidableEq

/-- The ring, the DMA's place, what the buffers at their addresses hold, the task and `rxskbuf`; then
what has been received and passed on, how many frames were taken before those in `rxskbuf`, and
whether something behind a buffer or behind `rxskbuf` was used. -/
structure RxPath extends RxRing where
  dma : Nat
  mem : BitVec 32 → Nat → BitVec 8
  task : RxTask
  rxskbuf : Nat → RxSkbuf
  received : List Frame
  before : Nat
  passed : List Bytes
  stray : Bool

/-- The entries of `rxskbuf` that are in use -/
def RxPath.count (s : RxPath) : Nat :=
  match s.task with
  | .idle => 0
  | .handling ret => ret
  | .input packetCnt _ | .copying packetCnt _ _ _ => packetCnt

/-- The first of them that is still to be copied -/
def RxPath.first (s : RxPath) : Nat :=
  match s.task with
  | .idle | .handling _ => 0
  | .input _ i | .copying _ i _ _ => i

/-- `ETHTYPE_IP` and `ETHTYPE_ARP` -/
def ethtypeIp : BitVec 16 := 0x0800
def ethtypeArp : BitVec 16 := 0x0806

/-- `htons(ethhdr->type)`; behind the end of a short frame the pbuf holds what it held. -/
def ethType (p : Bytes) (stale : BitVec 16) : BitVec 16 :=
  match p[12]?, p[13]? with
  | some a, some b => a ++ b
  | _, _ => stale

/-- `ethernetif_input0` passes the frame to `netif->input`. -/
def Passes (p : Bytes) (stale : BitVec 16) : Prop :=
  ethType p stale = ethtypeIp ∨ ethType p stale = ethtypeArp

instance (p : Bytes) (stale : BitVec 16) : Decidable (Passes p stale) :=
  inferInstanceAs (Decidable (_ ∨ _))

/-- What `low_level_input` is called with for the entry, as a `u16_t` -/
def inputLen (usingHwChecksum : Bool) (e : RxSkbuf) : Nat :=
  (if usingHwChecksum then e.len else e.len + 4).toNat % 2 ^ 16

/-- One round of the loop of `GMAC_handle_received_data`, with `ret` frames taken -/
def RxPath.handle (s : RxPath) (ret : Nat) : RxPath :=
  match s.getRxQptr with
  | none => { s with task := .input ret 0 }
  | some (_, out, r) =>
    { s with
      toRxRing := r
      rxskbuf := Function.update s.rxskbuf ret ⟨getRxDescFrameLength out.Status - 4, out.Buffer1⟩
      stray := s.stray || decide (receiveDescSize ≤ ret)
      task := if receiveDescSize ≤ ret + 1 then .input (ret + 1) 0 else .handling (ret + 1) }

inductive RxPathEvent
  /-- the DMA writes to the buffer it is at -/
  | dmaWrite (k : Nat) (bytes : Bytes)
  /-- the DMA closes its descriptor -/
  | complete (status extstatus tsLow tsHigh : BitVec 32)
  /-- the task wakes up -/
  | notify
  | get
  /-- `ethernetif_input0` goes to the next entry; `alloc` says whether there is a pbuf -/
  | next (alloc : Bool)
  /-- `k` more bytes are copied -/
  | copy (k : Nat)
  /-- the copy is there -/
  | deliver (stale : BitVec 16)
  deriving DecidableEq

def rxPathStep (usingHwChecksum : Bool) (s : RxPath) : RxPathEvent → Option RxPath
  | .dmaWrite k bytes =>
    let d := s.desc s.dma
    if d.ownedByDma = true ∧ k + bytes.length ≤ (d.length &&& eDescSize1Mask).toNat then
      some { s with mem := Function.update s.mem d.buffer1 (copyTo (s.mem d.buffer1) k bytes) }
    else none
  | .complete status extstatus tsLow tsHigh =>
    let d := s.desc s.dma
    let d' := { d with
      status := status, extstatus := extstatus, timestamplow := tsLow, timestamphigh := tsHigh }
    let len := (getRxDescFrameLength status).toNat
    if d.ownedByDma = true ∧ d'.ownedByDma = false ∧
        len ≤ (d.length &&& eDescSize1Mask).toNat then
      some { s with
        desc := Function.update s.desc s.dma d'
        dma := nextDesc d.isLastRx s.dma
        received := s.received ++
          [⟨copyFrom (s.mem d.buffer1) 0 len, status &&& descError != 0⟩] }
    else none
  | .notify => if s.task = .idle then some { s with task := .handling 0 } else none
  | .get =>
    match s.task with
    | .handling ret => some (s.handle ret)
    | _ => none
  | .next alloc =>
    match s.task with
    | .input packetCnt i =>
      if packetCnt ≤ i then some { s with task := .idle, before := s.before + packetCnt }
      else if alloc then
        some { s with task := .copying packetCnt i (inputLen usingHwChecksum (s.rxskbuf i)) [] }
      else some { s with task := .input packetCnt (i + 1) }
    | _ => none
  | .copy k =>
    match s.task with
    | .copying packetCnt i len p =>
      if p.length + k ≤ len then
        some { s with
          task := .copying packetCnt i len
            (p ++ copyFrom (s.mem (s.rxskbuf i).pData) p.length k)
          stray := s.stray || decide (2048 < p.length + k) }
      else none
    | _ => none
  | .deliver stale =>
    match s.task with
    | .copying packetCnt i len p =>
      if p.length = len then
        some { s with
          task := .input packetCnt (i + 1)
          passed := if Passes p stale then s.passed ++ [p] else s.passed }
      else none
    | _ => none

/-- The address of `rx_buf[intf][i].data`, in an array of 2064-byte `sk_buff`s -/
def rxBuf (base : BitVec 32) (i : Nat) : BitVec 32 := base + BitVec.ofNat 32 (2064 * i)

/-- The ring as `GMAC_open` leaves it -/
def openedRing (descs : Nat → DmaDesc) (base : BitVec 32) : RxRing :=
  (List.range receiveDescSize).foldl (fun r i => (r.setRxQptr (rxBuf base i) 2048).getD r)
    (setupRxDescQueue descs (BitVec.ofNat 32 receiveDescSize))

def opened (descs : Nat → DmaDesc) (base : BitVec 32) (mem : BitVec 32 → Nat → BitVec 8) : RxPath :=
  { openedRing descs base with
    dma := 0, mem := mem, task := .idle, rxskbuf := fun _ => ⟨0, 0⟩, received := [], before := 0
    passed := [], stray := false }

/-- What is passed on are frames without error and without their CRC, in the order in which they have
come and each at most once, and nothing behind a buffer is used. -/
structure ReceiveLaw (s : RxPath) : Prop where
  inOrder : s.passed.Sublist ((s.received.filter fun f => !f.error).map Frame.body)
  safe : s.stray = false

/-- The frame that is to be copied -/
def RxPath.current (s : RxPath) : Frame := s.received.getD (s.before + s.first) ⟨[], false⟩

/-- What has been copied of it -/
def RxPath.copied (s : RxPath) : Option Bytes :=
  match s.task with
  | .copying _ _ _ p => some p
  | _ => none

/-- The DMA does not write to a buffer that is still to be copied; a frame for which there is a pbuf
has at least its CRC; and one that is passed on has no error, and its checksums are left to the
hardware. -/
def ReceiveKept (usingHwChecksum : Bool) (s : RxPath) : RxPathEvent → Prop
  | .dmaWrite _ _ =>
    ∀ i < s.count, s.first ≤ i → (s.rxskbuf i).pData ≠ (s.desc s.dma).buffer1
  | .next alloc =>
    s.first < s.count → alloc = true → usingHwChecksum = true → 4 ≤ s.current.bytes.length
  | .deliver stale =>
    ∀ p ∈ s.copied, Passes p stale → usingHwChecksum = true ∧ s.current.error = false
  | _ => True

instance (usingHwChecksum : Bool) (s : RxPath) (e : RxPathEvent) :
    Decidable (ReceiveKept usingHwChecksum s e) :=
  match e with
  | .dmaWrite _ _ => inferInstanceAs (Decidable (∀ i < s.count, s.first ≤ i → _ ≠ _))
  | .next alloc => inferInstanceAs (Decidable (_ < _ → alloc = true → _ = true → _ ≤ _))
  | .deliver stale => inferInstanceAs (Decidable (∀ p ∈ s.copied, Passes p stale → _ ∧ _))
  | .complete .. | .notify | .get | .copy _ => .isTrue trivial

/-! ## The invariant -/

/-- Frame `k` is in the ring. -/
def RxItem (s : RxPath) (k : Nat) (d : DmaDesc) : Prop :=
  d.ownedByDma = false ∧ ∃ f, s.received[k]? = some f ∧
    (getRxDescFrameLength d.status).toNat = f.bytes.length ∧
    copyFrom (s.mem d.buffer1) 0 f.bytes.length = f.bytes

/-- Entry `i` of `rxskbuf` is for frame `k`. -/
def RxEntry (s : RxPath) (i k : Nat) : Prop :=
  ∃ f, s.received[k]? = some f ∧ (s.rxskbuf i).len = BitVec.ofNat 32 f.bytes.length - 4 ∧
    copyFrom (s.mem (s.rxskbuf i).pData) 0 f.bytes.length = f.bytes

/-- How far a copy has come -/
def RxProgress (usingHwChecksum : Bool) (s : RxPath) : Prop :=
  match s.task with
  | .idle => True
  | .handling ret => ret < receiveDescSize
  | .input packetCnt i => i ≤ packetCnt
  | .copying packetCnt i len p => i < packetCnt ∧ ∃ f, s.received[s.before + i]? = some f ∧
      p.length ≤ len ∧ p = f.bytes.take p.length ∧
      len = if usingHwChecksum then f.bytes.length - 4 else f.bytes.length

structure RxPathInv (usingHwChecksum : Bool) (base : BitVec 32) (s : RxPath) : Prop where
  last : ∀ i < receiveDescSize, (s.desc i).isLastRx = true ↔ i + 1 = receiveDescSize
  size : ∀ i < receiveDescSize, (s.desc i).length &&& eDescSize1Mask = 2048
  buffer : ∀ i < receiveDescSize, (s.desc i).buffer1 = rxBuf base i
  window : Window receiveDescSize (s.before + s.count) s.received.length (RxItem s)
    (·.ownedByDma = true) s.desc
  dma : s.dma = s.received.length % receiveDescSize
  busyDesc : s.rxBusyDesc = (s.before + s.count) % receiveDescSize
  short : ∀ f ∈ s.received, f.bytes.length ≤ 2048
  entry : ∀ i < s.count, s.first ≤ i → RxEntry s i (s.before + i)
  progress : RxProgress usingHwChecksum s
  passed : s.passed.Sublist
    (((s.received.take (s.before + s.first)).filter fun f => !f.error).map Frame.body)
  safe : s.stray = false

section Steps

variable {hw : Bool} {base : BitVec 32} {s t : RxPath} {e : RxPathEvent} {d d' : DmaDesc}

theorem size_pos : 0 < receiveDescSize := by decide

theorem RxPathInv.law (h : RxPathInv hw base s) : ReceiveLaw s :=
  ⟨h.passed.trans (((List.take_sublist _ _).filter _).map _), h.safe⟩

theorem isEmpty_of_size (h : d.length &&& eDescSize1Mask = 2048) : d.isEmpty = false := by
  rw [DmaDesc.isEmpty, h]
  rfl

theorem rxBuf_inj {i j : Nat} (hi : i < receiveDescSize) (hj : j < receiveDescSize)
    (h : rxBuf base i = rxBuf base j) : i = j := by
  unfold receiveDescSize at hi hj
  have hnat := congrArg BitVec.toNat ((BitVec.add_right_inj _).mp h)
  rw [BitVec.toNat_ofNat, BitVec.toNat_ofNat] at hnat
  omega

theorem getElem?_concat {α : Type*} {l : List α} {k : Nat} {a b : α} (h : l[k]? = some a) :
    (l ++ [b])[k]? = some a := by
  rw [List.getElem?_append_left (List.getElem?_eq_some_iff.mp h).1, h]

/-- The DMA has the descriptor it is at only while the ring is not full. -/
theorem RxPathInv.room (h : RxPathInv hw base s) (hown : (s.desc s.dma).ownedByDma = true) :
    s.received.length < s.before + s.count + receiveDescSize := by
  have hcap := h.window.cap
  by_contra hfull
  have heq : s.received.length = s.before + s.count + receiveDescSize := by omega
  have hpos := size_pos
  have hitem := (h.window.item (s.before + s.count) (Nat.le_refl _) (by omega)).1
  rw [h.dma, heq, Nat.add_mod_right, hitem] at hown
  cases hown

theorem RxPathInv.dma_lt (h : RxPathInv hw base s) : s.dma < receiveDescSize := by
  rw [h.dma]
  exact Nat.mod_lt _ size_pos

/-- What a descriptor is made of stays when its length and its buffer do. -/
theorem fields_update (desc : Nat → DmaDesc) (j : Nat) (hlen : d'.length = (desc j).length)
    (hbuf : d'.buffer1 = (desc j).buffer1) (i : Nat) :
    (Function.update desc j d' i).length = (desc i).length ∧
      (Function.update desc j d' i).buffer1 = (desc i).buffer1 := by
  by_cases hi : i = j
  · rw [hi, Function.update_self]
    exact ⟨hlen, hbuf⟩
  · rw [Function.update_of_ne hi]
    exact ⟨rfl, rfl⟩

theorem isLastRx_congr (h : d.length = d'.length) : d.isLastRx = d'.isLastRx := by
  rw [DmaDesc.isLastRx, DmaDesc.isLastRx, h]

/-- The DMA writes to a buffer that nothing is to be copied from. -/
theorem RxPathInv.dmaWrite (h : RxPathInv hw base s) {k : Nat} {bytes : Bytes}
    (hown : (s.desc s.dma).ownedByDma = true)
    (hk : ∀ i < s.count, s.first ≤ i → (s.rxskbuf i).pData ≠ (s.desc s.dma).buffer1) :
    RxPathInv hw base { s with
      mem := Function.update s.mem (s.desc s.dma).buffer1
        (copyTo (s.mem (s.desc s.dma).buffer1) k bytes) } := by
  have hroom := h.room hown
  refine ⟨h.last, h.size, h.buffer, ⟨h.window.le, h.window.cap, ?_, h.window.free⟩, h.dma,
    h.busyDesc, h.short, fun i hi hfirst => ?_, h.progress, h.passed, h.safe⟩
  · intro j (hj : s.before + s.count ≤ j) (hjq : j < s.received.length)
    obtain ⟨hnot, f, hf, hlen, hdata⟩ := h.window.item j hj hjq
    have hne : (s.desc (j % receiveDescSize)).buffer1 ≠ (s.desc s.dma).buffer1 := by
      rw [h.buffer _ (Nat.mod_lt _ size_pos), h.buffer _ h.dma_lt, h.dma]
      intro heq
      have hmod := rxBuf_inj (Nat.mod_lt _ size_pos) (Nat.mod_lt _ size_pos) heq
      have hsame := Ring.mod_inj hj (by omega) h.window.le hroom hmod
      omega
    refine ⟨hnot, f, hf, hlen, ?_⟩
    show copyFrom (Function.update s.mem _ _ _) 0 _ = _
    rw [Function.update_of_ne hne]
    exact hdata
  · obtain ⟨f, hf, hlen, hdata⟩ := h.entry i hi hfirst
    refine ⟨f, hf, hlen, ?_⟩
    show copyFrom (Function.update s.mem _ _ _) 0 _ = _
    rw [Function.update_of_ne (hk i hi hfirst)]
    exact hdata

theorem RxPathInv.first_le (h : RxPathInv hw base s) : s.first ≤ s.count := by
  have hp := h.progress
  unfold RxProgress at hp
  unfold RxPath.first RxPath.count
  cases htask : s.task with
  | idle => exact Nat.le_refl _
  | handling ret => exact Nat.zero_le _
  | input packetCnt i =>
    rw [htask] at hp
    exact hp
  | copying packetCnt i len p =>
    rw [htask] at hp
    exact hp.1.le

/-- The DMA closes its descriptor. -/
theorem RxPathInv.complete (h : RxPathInv hw base s) {f : Frame} {dnew : DmaDesc}
    (hown : (s.desc s.dma).ownedByDma = true) (hnot : dnew.ownedByDma = false)
    (hlen : dnew.length = (s.desc s.dma).length) (hbuf : dnew.buffer1 = (s.desc s.dma).buffer1)
    (hframe : (getRxDescFrameLength dnew.status).toNat = f.bytes.length)
    (hbytes : copyFrom (s.mem dnew.buffer1) 0 f.bytes.length = f.bytes)
    (hshort : f.bytes.length ≤ 2048) :
    RxPathInv hw base { s with
      desc := Function.update s.desc s.dma dnew
      dma := nextDesc (s.desc s.dma).isLastRx s.dma
      received := s.received ++ [f] } := by
  have hfields := fields_update s.desc s.dma hlen hbuf
  have hle := h.window.le
  have hfirst := h.first_le
  have hlast := h.last s.dma h.dma_lt
  refine ⟨fun i hi => ?_, fun i hi => ?_, fun i hi => ?_, ?_, ?_, h.busyDesc, fun g hg => ?_,
    fun i hi hlo => ?_, ?_, ?_, h.safe⟩
  · rw [← h.last i hi]
    exact iff_of_eq (congrArg (· = true) (isLastRx_congr (hfields i).1))
  · exact (congrArg (· &&& eDescSize1Mask) (hfields i).1).trans (h.size i hi)
  · exact (hfields i).2.trans (h.buffer i hi)
  · have hroom := h.room hown
    have hnew : (s.received ++ [f])[s.received.length]? = some f := List.getElem?_concat_length
    have hpush := h.window.push (v := dnew) hroom
      (Q := RxItem { s with received := s.received ++ [f] })
      ⟨hnot, f, hnew, hframe, hbytes⟩ fun k _ _ hitem => by
        obtain ⟨hno, g, hg, hrest⟩ := hitem
        exact ⟨hno, g, getElem?_concat hg, hrest⟩
    rw [← h.dma] at hpush
    show Window _ _ (s.received ++ [f]).length _ _ _
    rw [List.length_append, List.length_singleton]
    exact hpush
  · show nextDesc _ s.dma = (s.received ++ [f]).length % receiveDescSize
    rw [nextDesc_eq hlast, h.dma, Ring.next_mod size_pos, List.length_append,
      List.length_singleton]
  · rcases List.mem_append.mp hg with hg | hg
    · exact h.short g hg
    · rw [List.mem_singleton.mp hg]
      exact hshort
  · obtain ⟨g, hg, hrest⟩ := h.entry i hi hlo
    exact ⟨g, getElem?_concat hg, hrest⟩
  · have hp := h.progress
    unfold RxProgress at hp ⊢
    simp only
    cases htask : s.task with
    | idle => trivial
    | handling ret =>
      rw [htask] at hp
      exact hp
    | input packetCnt i =>
      rw [htask] at hp
      exact hp
    | copying packetCnt i len p =>
      rw [htask] at hp
      obtain ⟨hi, g, hg, hrest⟩ := hp
      exact ⟨hi, g, getElem?_concat hg, hrest⟩
  · show s.passed.Sublist ((((s.received ++ [f]).take (s.before + s.first)).filter _).map _)
    rw [List.take_append_of_le_length (by omega)]
    exact h.passed

/-- The task goes on with the frames it has taken. -/
theorem RxPathInv.move (h : RxPathInv hw base s) {τ : RxTask} {b : Nat} {ps : List Bytes}
    (ht : t = { s with task := τ, before := b, passed := ps })
    (htaken : t.before + t.count = s.before + s.count)
    (hentry : ∀ i < t.count, t.first ≤ i → i < s.count ∧ s.first ≤ i ∧ t.before = s.before)
    (hprogress : RxProgress hw t)
    (hpassed : t.passed.Sublist
      (((s.received.take (t.before + t.first)).filter fun f => !f.error).map Frame.body)) :
    RxPathInv hw base t := by
  subst ht
  refine ⟨h.last, h.size, h.buffer, ?_, h.dma, ?_, h.short, fun i hi hfirst => ?_, hprogress,
    hpassed, h.safe⟩
  · rw [htaken]
    exact h.window
  · rw [htaken]
    exact h.busyDesc
  · obtain ⟨hi', hfirst', hbefore⟩ := hentry i hi hfirst
    rw [hbefore]
    exact h.entry i hi' hfirst'

theorem passed_mono (h : RxPathInv hw base s) {n : Nat} (hn : s.before + s.first ≤ n) :
    s.passed.Sublist (((s.received.take n).filter fun f => !f.error).map Frame.body) :=
  h.passed.trans (((List.take_sublist_take_left hn).filter _).map _)

theorem RxPathInv.notify (h : RxPathInv hw base s) (htask : s.task = .idle) :
    RxPathInv hw base { s with task := .handling 0 } := by
  have hcount : s.count = 0 := by rw [RxPath.count, htask]
  have hfirst : s.first = 0 := by rw [RxPath.first, htask]
  refine h.move rfl (by rw [hcount]; rfl) (fun i hi => absurd hi (Nat.not_lt_zero i)) size_pos ?_
  exact passed_mono h (by rw [hfirst]; exact Nat.le_refl _)

/-- A frame is taken off the ring, and the DMA has its descriptor back. -/
theorem RxPathInv.take (h : RxPathInv hw base s) {ret : Nat} {τ : RxTask}
    (htask : s.task = .handling ret) (hnot : (s.desc s.rxBusyDesc).ownedByDma = false)
    (hτ : τ = .input (ret + 1) 0 ∨ τ = .handling (ret + 1) ∧ ret + 1 < receiveDescSize)
    (ht : t = { s with
      toRxRing := s.rearm
      rxskbuf := Function.update s.rxskbuf ret
        ⟨getRxDescFrameLength (s.desc s.rxBusyDesc).status - 4, (s.desc s.rxBusyDesc).buffer1⟩
      stray := s.stray || decide (receiveDescSize ≤ ret)
      task := τ }) :
    RxPathInv hw base t := by
  have hcount : s.count = ret := by rw [RxPath.count, htask]
  have hfirst : s.first = 0 := by rw [RxPath.first, htask]
  have hret : ret < receiveDescSize := by
    have hp := h.progress
    rw [RxProgress, htask] at hp
    exact hp
  have hcount' : t.count = ret + 1 := by
    rw [ht]
    rcases hτ with rfl | ⟨rfl, -⟩ <;> rfl
  have hfirst' : t.first = 0 := by
    rw [ht]
    rcases hτ with rfl | ⟨rfl, -⟩ <;> rfl
  have hbusy := h.busyDesc
  have hwindow := h.window
  rw [hcount] at hbusy hwindow
  have hne : s.before + ret < s.received.length := by
    by_contra hall
    have hown := hwindow.free (s.before + ret) (by omega) (Nat.lt_add_of_pos_right size_pos)
    rw [hbusy, hown] at hnot
    cases hnot
  have hbusy_lt : s.rxBusyDesc < receiveDescSize := by
    rw [hbusy]
    exact Nat.mod_lt _ size_pos
  have hlast := h.last s.rxBusyDesc hbusy_lt
  have hfields : ∀ i, (s.rearm.desc i).length = (s.desc i).length ∧
      (s.rearm.desc i).buffer1 = (s.desc i).buffer1 := fields_update s.desc s.rxBusyDesc rfl rfl
  subst ht
  refine ⟨fun i hi => ?_, fun i hi => ?_, fun i hi => ?_, ?_, h.dma, ?_, h.short,
    fun i hi _ => ?_, ?_, ?_, ?_⟩
  · rw [← h.last i hi]
    exact iff_of_eq (congrArg (· = true) (isLastRx_congr (hfields i).1))
  · exact (congrArg (· &&& eDescSize1Mask) (hfields i).1).trans (h.size i hi)
  · exact (hfields i).2.trans (h.buffer i hi)
  · rw [hcount']
    show Window _ (s.before + ret + 1) s.received.length (RxItem s) _ (Function.update _ _ _)
    rw [hbusy]
    refine hwindow.pop hne ?_
    rw [ownedByDma_eq]
    exact (by decide : descOwnByDma.getLsbD 31 = true)
  · rw [hcount']
    show nextDesc _ _ = (s.before + (ret + 1)) % receiveDescSize
    rw [nextDesc_eq hlast, hbusy, Ring.next_mod size_pos, Nat.add_assoc]
  · rw [hcount'] at hi
    by_cases hir : i = ret
    · obtain ⟨-, f, hf, hlen, hdata⟩ := hwindow.item (s.before + ret) (Nat.le_refl _) hne
      rw [← hbusy] at hlen hdata
      refine ⟨f, by rw [hir]; exact hf, ?_, ?_⟩
      · show (Function.update s.rxskbuf ret _ i).len = _
        rw [hir, Function.update_self, ← hlen, BitVec.ofNat_toNat, BitVec.setWidth_eq]
      · show copyFrom (s.mem (Function.update s.rxskbuf ret _ i).pData) 0 _ = _
        rw [hir, Function.update_self]
        exact hdata
    · obtain ⟨f, hf, hlen, hdata⟩ :=
        h.entry i (by rw [hcount]; omega) (by rw [hfirst]; exact Nat.zero_le _)
      refine ⟨f, hf, ?_, ?_⟩
      · show (Function.update s.rxskbuf ret _ i).len = _
        rw [Function.update_of_ne hir]
        exact hlen
      · show copyFrom (s.mem (Function.update s.rxskbuf ret _ i).pData) 0 _ = _
        rw [Function.update_of_ne hir]
        exact hdata
  · rcases hτ with rfl | ⟨rfl, hlt⟩
    · exact Nat.zero_le _
    · exact hlt
  · rw [hfirst']
    exact passed_mono h (by rw [hfirst])
  · show (s.stray || decide (receiveDescSize ≤ ret)) = false
    rw [h.safe, Bool.false_or, decide_eq_false_iff_not]
    omega

theorem RxPathInv.handle (h : RxPathInv hw base s) {ret : Nat} (htask : s.task = .handling ret) :
    RxPathInv hw base (s.handle ret) := by
  have hcount : s.count = ret := by rw [RxPath.count, htask]
  have hfirst : s.first = 0 := by rw [RxPath.first, htask]
  have hbusy_lt : s.rxBusyDesc < receiveDescSize := by
    rw [h.busyDesc]
    exact Nat.mod_lt _ size_pos
  have hempty := isEmpty_of_size (h.size _ hbusy_lt)
  cases hown : (s.desc s.rxBusyDesc).ownedByDma with
  | true =>
    have hnone : s.getRxQptr = none := by rw [RxRing.getRxQptr, if_pos hown]
    simp only [RxPath.handle, hnone]
    refine h.move rfl ?_ (fun i hi _ => ⟨?_, by rw [hfirst]; exact Nat.zero_le _, rfl⟩)
      (Nat.zero_le _) ?_
    · rw [hcount]
      rfl
    · rw [hcount]
      exact hi
    · exact passed_mono h (by rw [hfirst]; exact Nat.le_refl _)
  | false =>
    have hsome : s.getRxQptr = some (s.rxBusy, readRxDesc (s.desc s.rxBusyDesc), s.rearm) := by
      simp only [RxRing.getRxQptr, hown, hempty, Bool.false_eq_true, if_false]
    simp only [RxPath.handle, hsome]
    refine h.take htask hown ?_ rfl
    split
    · exact .inl rfl
    · exact .inr ⟨rfl, by omega⟩

/-- The length that `low_level_input` gets: without the CRC only if the checksums are the
hardware's. -/
theorem inputLen_eq {e' : RxSkbuf} {n : Nat} (he : e'.len = BitVec.ofNat 32 n - 4)
    (hn : n ≤ 2048) (hcrc : hw = true → 4 ≤ n) :
    inputLen hw e' = if hw then n - 4 else n := by
  have hnat : (BitVec.ofNat 32 n).toNat = n := by
    rw [BitVec.toNat_ofNat]
    omega
  cases hw with
  | true =>
    have hfour := hcrc rfl
    simp only [inputLen, he, if_true]
    rw [BitVec.toNat_sub_of_le (by rw [BitVec.le_def, hnat]; exact hfour), hnat]
    exact Nat.mod_eq_of_lt (show n - 4 < 2 ^ 16 by omega)
  | false =>
    simp only [inputLen, he, Bool.false_eq_true, if_false]
    rw [BitVec.sub_add_cancel, hnat]
    omega

theorem current_eq {f : Frame} (hf : s.received[s.before + s.first]? = some f) :
    s.current = f := by
  rw [RxPath.current, List.getD_eq_getElem?_getD, hf, Option.getD_some]

theorem RxPathInv.next (h : RxPathInv hw base s) {packetCnt i : Nat} {alloc : Bool}
    (htask : s.task = .input packetCnt i) (hk : ReceiveKept hw s (.next alloc))
    (ht : rxPathStep hw s (.next alloc) = some t) : RxPathInv hw base t := by
  have hcount : s.count = packetCnt := by rw [RxPath.count, htask]
  have hfirst : s.first = i := by rw [RxPath.first, htask]
  have hle : i ≤ packetCnt := by
    have hp := h.progress
    rw [RxProgress, htask] at hp
    exact hp
  simp only [rxPathStep, htask] at ht
  split at ht
  · rename_i hend
    refine h.move (Option.some.inj ht).symm ?_ (fun j hj => ?_) ?_ ?_
    all_goals rw [← Option.some.inj ht]
    · rw [hcount]
      rfl
    · rw [← Option.some.inj ht] at hj
      exact absurd hj (Nat.not_lt_zero j)
    · trivial
    · exact passed_mono h (by rw [hfirst]; exact Nat.add_le_add_left hle _)
  · rename_i hmore
    obtain ⟨f, hf, hlen, -⟩ := h.entry i (by rw [hcount]; omega) (by rw [hfirst])
    have hshort := h.short f (List.mem_of_getElem? hf)
    split at ht
    · rename_i halloc
      have hcrc : hw = true → 4 ≤ f.bytes.length := fun htrue => by
        have hfour := hk (by rw [hfirst, hcount]; omega) halloc htrue
        rwa [current_eq (by rw [hfirst]; exact hf)] at hfour
      refine h.move (Option.some.inj ht).symm ?_ (fun j hj hlo => ?_) ?_ ?_
      all_goals rw [← Option.some.inj ht] at *
      · rw [hcount]
        rfl
      · exact ⟨hcount ▸ hj, hfirst ▸ hlo, rfl⟩
      · exact ⟨by omega, f, hf, Nat.zero_le _, rfl, inputLen_eq hlen hshort hcrc⟩
      · exact passed_mono h (by rw [hfirst]; exact Nat.le_refl _)
    · refine h.move (Option.some.inj ht).symm ?_ (fun j hj hlo => ?_) ?_ ?_
      all_goals rw [← Option.some.inj ht] at *
      · rw [hcount]
        rfl
      · refine ⟨hcount ▸ hj, ?_, rfl⟩
        rw [hfirst]
        exact Nat.le_of_succ_le hlo
      · exact Nat.lt_of_not_le hmore
      · exact passed_mono h (by rw [hfirst]; exact Nat.add_le_add_left (Nat.le_succ i) _)

theorem RxPathInv.copy (h : RxPathInv hw base s) {packetCnt i len k : Nat} {p : Bytes}
    (htask : s.task = .copying packetCnt i len p) (hfits : p.length + k ≤ len) :
    RxPathInv hw base { s with
      task := .copying packetCnt i len (p ++ copyFrom (s.mem (s.rxskbuf i).pData) p.length k)
      stray := s.stray || decide (2048 < p.length + k) } := by
  have hcount : s.count = packetCnt := by rw [RxPath.count, htask]
  have hfirst : s.first = i := by rw [RxPath.first, htask]
  have hp := h.progress
  rw [RxProgress, htask] at hp
  obtain ⟨hi, f, hf, -, htake, hlen⟩ := hp
  obtain ⟨g, hg, -, hdata⟩ := h.entry i (by rw [hcount]; exact hi) (by rw [hfirst])
  obtain rfl : g = f := Option.some.inj (hg.symm.trans hf)
  have hshort := h.short g (List.mem_of_getElem? hf)
  have hlen_le : len ≤ g.bytes.length := by
    rw [hlen]
    split <;> omega
  have hin : decide (2048 < p.length + k) = false := decide_eq_false (by omega)
  rw [hin, Bool.or_false]
  have hcopied : p = copyFrom (s.mem (s.rxskbuf i).pData) 0 p.length := by
    rw [← take_copyFrom (show p.length ≤ g.bytes.length by omega), hdata]
    exact htake
  refine h.move rfl (by rw [hcount]; rfl) (fun j hj hlo => ?_) ⟨hi, g, hf, ?_, ?_, hlen⟩ ?_
  · exact ⟨hcount ▸ hj, hfirst ▸ hlo, rfl⟩
  · rw [List.length_append, length_copyFrom]
    exact hfits
  · rw [List.length_append, length_copyFrom]
    conv_rhs =>
      rw [← hdata, take_copyFrom (show p.length + k ≤ g.bytes.length by omega), copyFrom_add,
        ← hcopied, Nat.zero_add]
  · exact passed_mono h (by rw [hfirst]; exact Nat.le_refl _)

theorem RxPathInv.deliver (h : RxPathInv hw base s) {packetCnt i len : Nat} {p : Bytes}
    {stale : BitVec 16} (htask : s.task = .copying packetCnt i len p) (hwhole : p.length = len)
    (hk : ReceiveKept hw s (.deliver stale)) :
    RxPathInv hw base { s with
      task := .input packetCnt (i + 1)
      passed := if Passes p stale then s.passed ++ [p] else s.passed } := by
  have hcount : s.count = packetCnt := by rw [RxPath.count, htask]
  have hfirst : s.first = i := by rw [RxPath.first, htask]
  have hp := h.progress
  rw [RxProgress, htask] at hp
  obtain ⟨hi, f, hf, -, htake, hlen⟩ := hp
  refine h.move rfl (by rw [hcount]; rfl) (fun j hj hlo => ?_) hi ?_
  · refine ⟨hcount ▸ hj, ?_, rfl⟩
    rw [hfirst]
    exact Nat.le_of_succ_le hlo
  · show (if Passes p stale then s.passed ++ [p] else s.passed).Sublist
      (((s.received.take (s.before + (i + 1))).filter _).map _)
    split
    · rename_i hpass
      obtain ⟨hhw, herr⟩ := hk p (by rw [RxPath.copied, htask]; exact rfl) hpass
      rw [current_eq (by rw [hfirst]; exact hf)] at herr
      have hbody : p = f.body := by
        rw [htake, hwhole, hlen, if_pos hhw]
        rfl
      have hpassed := h.passed
      rw [hfirst] at hpassed
      rw [← Nat.add_assoc, List.take_add_one, hf, List.filter_append, List.map_append]
      refine hpassed.append ?_
      simp [herr, hbody]
    · exact passed_mono h (by rw [hfirst]; exact Nat.add_le_add_left (Nat.le_succ i) _)

theorem rxPathStep_kept (h : RxPathInv hw base s) {e : RxPathEvent} (hk : ReceiveKept hw s e)
    (ht : rxPathStep hw s e = some t) : RxPathInv hw base t := by
  cases e with
  | dmaWrite k bytes =>
    obtain ⟨⟨hown, -⟩, ht⟩ := Option.ite_none_right_eq_some.mp ht
    rw [← Option.some.inj ht]
    exact h.dmaWrite hown hk
  | complete status extstatus tsLow tsHigh =>
    obtain ⟨⟨hown, hnot, hlen⟩, ht⟩ := Option.ite_none_right_eq_some.mp ht
    rw [← Option.some.inj ht]
    rw [h.size _ h.dma_lt] at hlen
    exact h.complete hown hnot rfl rfl length_copyFrom.symm
      (by rw [length_copyFrom]) (by rw [length_copyFrom]; exact hlen)
  | notify =>
    obtain ⟨htask, ht⟩ := Option.ite_none_right_eq_some.mp ht
    rw [← Option.some.inj ht]
    exact h.notify htask
  | get =>
    cases htask : s.task with
    | handling ret =>
      simp only [rxPathStep, htask] at ht
      rw [← Option.some.inj ht]
      exact h.handle htask
    | _ => simp only [rxPathStep, htask] at ht; cases ht
  | next alloc =>
    cases htask : s.task with
    | input packetCnt i => exact h.next htask hk ht
    | _ => simp only [rxPathStep, htask] at ht; cases ht
  | copy k =>
    cases htask : s.task with
    | copying packetCnt i len p =>
      simp only [rxPathStep, htask] at ht
      obtain ⟨hfits, ht⟩ := Option.ite_none_right_eq_some.mp ht
      rw [← Option.some.inj ht]
      exact h.copy htask hfits
    | _ => simp only [rxPathStep, htask] at ht; cases ht
  | deliver stale =>
    cases htask : s.task with
    | copying packetCnt i len p =>
      simp only [rxPathStep, htask] at ht
      obtain ⟨hwhole, ht⟩ := Option.ite_none_right_eq_some.mp ht
      rw [← Option.some.inj ht]
      exact h.deliver htask hwhole hk
    | _ => simp only [rxPathStep, htask] at ht; cases ht

/-! ## The start -/

/-- The first `k` buffers are in the ring. -/
structure Filled (base : BitVec 32) (k : Nat) (r : RxRing) : Prop where
  last : ∀ i < receiveDescSize, (r.desc i).isLastRx = true ↔ i + 1 = receiveDescSize
  empty : ∀ i < receiveDescSize, k ≤ i →
    (r.desc i).length = if i + 1 = receiveDescSize then eDescRxEndOfRing else 0
  size : ∀ i < k, (r.desc i).length &&& eDescSize1Mask = 2048
  buffer : ∀ i < k, (r.desc i).buffer1 = rxBuf base i
  owned : ∀ i < k, (r.desc i).ownedByDma = true
  nextDesc : r.rxNextDesc = k % receiveDescSize
  busyDesc : r.rxBusyDesc = 0

theorem filled_zero (descs : Nat → DmaDesc) :
    Filled base 0 (setupRxDescQueue descs (BitVec.ofNat 32 receiveDescSize)) := by
  have hdesc : ∀ i < receiveDescSize,
      (setupRxDescQueue descs (BitVec.ofNat 32 receiveDescSize)).desc i =
        rxDescInitRing (descs i) (i + 1 = receiveDescSize) := fun i hi => if_pos hi
  refine ⟨fun i hi => ?_, fun i hi _ => ?_, fun i hi => absurd hi (Nat.not_lt_zero i),
    fun i hi => absurd hi (Nat.not_lt_zero i), fun i hi => absurd hi (Nat.not_lt_zero i), rfl, rfl⟩
  · rw [hdesc i hi, rxDescInitRing_last, decide_eq_true_iff]
  · rw [hdesc i hi]
    simp only [rxDescInitRing, decide_eq_true_eq]

theorem Filled.add {k : Nat} {r : RxRing} (h : Filled base k r) (hk : k < receiveDescSize) :
    Filled base (k + 1) ((r.setRxQptr (rxBuf base k) 2048).getD r) := by
  have hnext : r.rxNextDesc = k := h.nextDesc.trans (Nat.mod_eq_of_lt hk)
  have hlast := h.last k hk
  have hlength := h.empty k hk (Nat.le_refl k)
  have hempty : (r.desc r.rxNextDesc).isEmpty = true := by
    rw [hnext, DmaDesc.isEmpty, hlength]
    split <;> decide
  have hset : r.setRxQptr (rxBuf base k) 2048 = some (r.add (rxBuf base k) 2048) := by
    rw [RxRing.setRxQptr, hempty]
    rfl
  have hdesc : (r.add (rxBuf base k) 2048).desc =
      Function.update r.desc k (rxFillDesc (r.desc k) r.rxNext (rxBuf base k) 2048) := by
    simp only [RxRing.add, hnext]
  rw [hset, Option.getD_some]
  refine ⟨fun i hi => ?_, fun i hi hki => ?_, fun i hi => ?_, fun i hi => ?_, fun i hi => ?_, ?_,
    h.busyDesc⟩
  · rw [hdesc]
    by_cases hik : i = k
    · rw [hik, Function.update_self, rxFill_last]
      exact hlast
    · rw [Function.update_of_ne hik]
      exact h.last i hi
  · rw [hdesc, Function.update_of_ne (by omega)]
    exact h.empty i hi (by omega)
  · rw [hdesc]
    by_cases hik : i = k
    · have hnone : ¬ r.rxNext % moduloInterrupt ≠ 0 := fun hne => hne (BitVec.umod_one)
      rw [hik, Function.update_self]
      simp only [rxFillDesc, if_neg hnone, hlength]
      split <;> decide
    · rw [Function.update_of_ne hik]
      exact h.size i (by omega)
  · rw [hdesc]
    by_cases hik : i = k
    · rw [hik, Function.update_self]
      rfl
    · rw [Function.update_of_ne hik]
      exact h.buffer i (by omega)
  · rw [hdesc]
    by_cases hik : i = k
    · rw [hik, Function.update_self]
      exact rxFill_owned
    · rw [Function.update_of_ne hik]
      exact h.owned i (by omega)
  · show Gmac.nextDesc _ r.rxNextDesc = (k + 1) % receiveDescSize
    rw [hnext, rxFill_last, nextDesc_eq hlast, ← Ring.next_mod size_pos, Nat.mod_eq_of_lt hk]

theorem filled_foldl (descs : Nat → DmaDesc) {k : Nat} (hk : k ≤ receiveDescSize) :
    Filled base k
      ((List.range k).foldl (fun r i => (r.setRxQptr (rxBuf base i) 2048).getD r)
        (setupRxDescQueue descs (BitVec.ofNat 32 receiveDescSize))) := by
  induction k with
  | zero => exact filled_zero descs
  | succ k ih =>
    rw [List.range_succ, List.foldl_append]
    exact (ih (by omega)).add (by omega)

theorem filled_openedRing (descs : Nat → DmaDesc) (base : BitVec 32) :
    Filled base receiveDescSize (openedRing descs base) :=
  filled_foldl descs (Nat.le_refl _)

theorem opened_inv (descs : Nat → DmaDesc) (base : BitVec 32)
    (mem : BitVec 32 → Nat → BitVec 8) : RxPathInv hw base (opened descs base mem) := by
  have hring := filled_openedRing descs base
  refine ⟨hring.last, hring.size, hring.buffer, Window.empty hring.owned size_pos,
    (Nat.zero_mod _).symm, hring.busyDesc, fun f hf => absurd hf List.not_mem_nil,
    fun i hi => absurd hi (Nat.not_lt_zero i), trivial, List.Sublist.slnil, rfl⟩

end Steps

/-- The receive path keeps its law in the runs in which the DMA does not write to a buffer that is
still to be copied, a frame for which there is a pbuf has at least its CRC, and one that is passed on
has no error and has its checksums left to the hardware. -/
theorem run_receiveLaw (usingHwChecksum : Bool) (descs : Nat → DmaDesc) (base : BitVec 32)
    (mem : BitVec 32 → Nat → BitVec 8) (es : List RxPathEvent)
    (h : Trace.EachStep (rxPathStep usingHwChecksum) (ReceiveKept usingHwChecksum)
      (opened descs base mem) es) :
    Trace.Always (rxPathStep usingHwChecksum) ReceiveLaw (opened descs base mem) es :=
  (Trace.always_of_eachStep (P := RxPathInv usingHwChecksum base)
    (fun _ _ _ hs hk ht => rxPathStep_kept hs hk ht) (opened_inv descs base mem) h).mono
    fun _ hs => hs.law

/-- A frame of twenty bytes, an ARP packet, comes and is copied. -/
def oneArrival (status : BitVec 32) : List RxPathEvent :=
  [.dmaWrite 12 [0x08, 0x06], .complete status 0 0 0, .notify, .get, .get, .next true, .copy 16,
    .deliver 0]

def blankMem : BitVec 32 → Nat → BitVec 8 := fun _ _ => 0

theorem run_receiveLaw_oneArrival :
    Trace.Always (rxPathStep true) ReceiveLaw (opened (fun _ => blankDesc) 0 blankMem)
      (oneArrival 0x00140000) :=
  run_receiveLaw true (fun _ => blankDesc) 0 blankMem (oneArrival 0x00140000) (by decide +kernel)

/-- The same frame with the error-summary bit set is passed on too. -/
theorem not_receiveLaw_error :
    ¬ Trace.Always (rxPathStep true) ReceiveLaw (opened (fun _ => blankDesc) 0 blankMem)
      (oneArrival 0x00148000) := by
  intro h
  have hrun : (Trace.run (rxPathStep true) (opened (fun _ => blankDesc) 0 blankMem)
      (oneArrival 0x00148000)).map (fun t => (t.passed.length, t.received.filter fun f => !f.error)) =
        some (1, []) := by
    decide +kernel
  obtain ⟨t, ht, hvals⟩ := Option.map_eq_some_iff.mp hrun
  obtain ⟨hone, hnone⟩ := Prod.mk.inj hvals
  have horder := (h.last ht).inOrder.length_le
  rw [hone, hnone] at horder
  exact absurd horder (by decide)

end Ma35d1.Gmac

import Ma35d1.Heap.LinkedPath
import Ma35d1.UsbHost.MemAlloc
import Ma35d1.UsbHost.Types

/-!
# The state of the OHCI driver

An ED or TD is named by the unit of the descriptor pool it lies in. `Lists` holds the
words that make up a list or decide on which list an ED is looked for; `Ohci` adds the
other words, the transfer requests and the registers. The two low bits of `HeadP` are
fields of their own.
-/

namespace Ma35d1.UsbHost

/-- More than the units of the pool: no list of descriptors is longer. -/
def ohciFuel : Nat := hwMemUnitNum + 1

/-- `_Ied[6]` -/
def numIed : Nat := 6

namespace Ohci

structure Lists where
  pool : HwPool
  edInfo : Addr → BitVec 32
  /-- `TailP & ~0xf` -/
  tailP : Addr → Ptr
  /-- `HeadP & ~0x3` -/
  headP : Addr → Ptr
  nextED : Addr → Ptr
  bInterval : Addr → Nat
  /-- `ed->next`, the next ED of `ed_remove_list` -/
  edNext : Addr → Ptr
  nextTD : Addr → Ptr
  ied : Nat → Addr
  intTable : Nat → Ptr
  edRemoveList : Ptr
  hcControlHeadED : Ptr
  hcBulkHeadED : Ptr
  /-- `HcDoneHead`, where the controller puts the TDs it retires -/
  hcDoneHead : Ptr
  /-- `_hcca->done_head` -/
  doneHead : Ptr
  hwPipe : EpId → HwPipe
  /-- ghost: the TDs the interrupt handler still has to go through -/
  hand : Ptr

/-- The other words of a `TD_T`; `PSW[0]` alone is used. -/
structure Td where
  info : BitVec 32
  cbp : BitVec 32
  be : BitVec 32
  psw0 : BitVec 16
  buffStart : BitVec 32
  ed : Ptr
  utr : Option UtrId

inductive Event
  /-- an accepted submission -/
  | submit (u : UtrId)
  /-- the driver reads or writes the request, outside the call that submits it -/
  | touch (u : UtrId)
  /-- `bIsTransferDone` set and the callback called, with the request and the memory it finds -/
  | done (u : UtrId) (r : Utr) (m : Lists) (td : Addr → Td)
  /-- a free, with the memory it finds -/
  | free (k : HwKind) (a : Addr) (m : Lists)

end Ohci

structure Ohci extends Ohci.Lists where
  /-- `HeadP & ED_HEADP_HALT` -/
  edHalt : Addr → Bool
  /-- `HeadP & 0x2` -/
  edCarry : Addr → Bool
  nextSf : Addr → BitVec 16
  td : Addr → Ohci.Td
  ep : EpId → EpInfo
  udev : DevId → Udev
  utr : UtrId → Utr
  utrEp : UtrId → Option EpId
  tdCnt : UtrId → Int
  frameNo : BitVec 16
  /-- `HcControl`: `CLE`, `BLE`, `PLE` and `IE` -/
  cle : Bool
  ble : Bool
  ple : Bool
  ie : Bool
  /-- `HcInterruptEnable & SF` -/
  sfEnable : Bool
  /-- `HcInterruptStatus`: `SF` and `WDH` -/
  sf : Bool
  wdh : Bool
  /-- ghost: what happened so far, latest first -/
  trace : List Ohci.Event

namespace Ohci

/-- What the driver calls out to. While a callback runs, the controller may go on. -/
structure Env where
  func : UtrId → Ohci → Ohci

def setLists (s : Ohci) (m : Lists) : Ohci := { s with toLists := m }

@[simp] theorem setLists_toLists (s : Ohci) (m : Lists) : (s.setLists m).toLists = m := rfl

def setUtr (s : Ohci) (u : UtrId) (f : Utr → Utr) : Ohci :=
  { s with utr := Function.update s.utr u (f (s.utr u)) }

@[simp] theorem setUtr_toLists (s : Ohci) (u : UtrId) (f : Utr → Utr) :
    (s.setUtr u f).toLists = s.toLists := rfl

def setTd (s : Ohci) (a : Addr) (f : Td → Td) : Ohci :=
  { s with td := Function.update s.td a (f (s.td a)) }

@[simp] theorem setTd_toLists (s : Ohci) (a : Addr) (f : Td → Td) :
    (s.setTd a f).toLists = s.toLists := rfl

def setTdCnt (s : Ohci) (u : UtrId) (n : Int) : Ohci :=
  { s with tdCnt := Function.update s.tdCnt u n }

@[simp] theorem setTdCnt_toLists (s : Ohci) (u : UtrId) (n : Int) :
    (s.setTdCnt u n).toLists = s.toLists := rfl

def setHwPipe (s : Ohci) (e : EpId) (p : HwPipe) : Ohci :=
  { s with hwPipe := Function.update s.hwPipe e p }

def log (s : Ohci) (e : Event) : Ohci := { s with trace := e :: s.trace }

@[simp] theorem log_toLists (s : Ohci) (e : Event) : (s.log e).toLists = s.toLists := rfl

/-! ## Allocation -/

/-- `alloc_ohci_ED`; `none` is `NULL` -/
def allocOhciEd (s : Ohci) : Option (Addr × Ohci) :=
  (s.pool.allocOhci .ed).map fun r =>
    (r.1, { s with
      pool := r.2
      edInfo := Function.update s.edInfo r.1 0
      tailP := Function.update s.tailP r.1 none
      headP := Function.update s.headP r.1 none
      nextED := Function.update s.nextED r.1 none
      bInterval := Function.update s.bInterval r.1 0
      edNext := Function.update s.edNext r.1 none
      edHalt := Function.update s.edHalt r.1 false
      edCarry := Function.update s.edCarry r.1 false
      nextSf := Function.update s.nextSf r.1 0 })

/-- `alloc_ohci_TD` -/
def allocOhciTd (s : Ohci) (u : Option UtrId) : Option (Addr × Ohci) :=
  (s.pool.allocOhci .td).map fun r =>
    (r.1, { s with
      pool := r.2
      nextTD := Function.update s.nextTD r.1 none
      td := Function.update s.td r.1 ⟨0, 0, 0, 0, 0, none, u⟩ })

/-- `free_ohci_ED` and `free_ohci_TD` -/
def free (s : Ohci) (k : HwKind) (a : Addr) : Ohci :=
  { s with
    pool := s.pool.free k a
    trace := .free k a s.toLists :: s.trace }

end Ohci

end Ma35d1.UsbHost

import Mathlib.Data.BitVec

/-!
# Loading the application from NAND

`LoadNand` and `LoadSpiNand` walk the blocks of the chip and copy the pages of the application to
memory. Both are one walk: they differ in what a block and a page read look like, and in what they
do when a page cannot be read.
-/

namespace Ma35d1.Loader

/-- A chip as the loader sees it: which blocks are valid, which page reads return an error, and what
the others copy; then whether an error ends the loading, and whether the chip was reset. -/
structure Chip where
  pageSize : Nat
  pagePerBlock : Nat
  valid : Nat → Bool
  fails : Nat → Bool
  data : Nat → Nat → BitVec 8
  aborts : Bool
  ready : Bool

/-- The variables of the walk, the memory, and the pages that were read -/
structure Walk where
  page : Nat
  addr : BitVec 32
  pageToDownload : Nat
  startPage : Nat
  startBlock : Nat
  blockCount : Int
  mem : Nat → BitVec 8
  reads : List Nat

namespace Chip

/-- `n / d`, and one more if there is a rest -/
def roundUp (n d : Nat) : Nat := if n % d ≠ 0 then n / d + 1 else n / d

/-- The first page of the application, its block, and the number of its pages and blocks -/
def firstPage (c : Chip) (offset : BitVec 32) : Nat := offset.toNat / c.pageSize
def firstBlock (c : Chip) (offset : BitVec 32) : Nat := c.firstPage offset / c.pagePerBlock
def pages (c : Chip) (size : BitVec 32) : Nat := roundUp size.toNat c.pageSize
def blocks (c : Chip) (size : BitVec 32) : Nat := roundUp (c.pages size) c.pagePerBlock

/-- The variables before the walk -/
def begin (c : Chip) (offset size loadAddr : BitVec 32) (mem : Nat → BitVec 8) : Walk where
  page := c.firstPage offset % c.pagePerBlock
  addr := loadAddr
  pageToDownload := c.pages size
  startPage := c.firstPage offset
  startBlock := c.firstBlock offset
  blockCount := c.blocks size
  mem := mem
  reads := []

/-- A page is copied to `addr`. -/
def copy (c : Chip) (w : Walk) : Walk :=
  { w with
    mem := fun a => if w.addr.toNat ≤ a ∧ a < w.addr.toNat + c.pageSize then
      c.data w.startPage (a - w.addr.toNat) else w.mem a
    reads := w.reads ++ [w.startPage]
    addr := w.addr + BitVec.ofNat 32 c.pageSize
    page := w.page + 1, pageToDownload := w.pageToDownload - 1, startPage := w.startPage + 1 }

/-- The pages of one block, and whether a page could not be read -/
def pageLoop (c : Chip) : Nat → Walk → Walk × Bool
  | 0, w => (w, false)
  | n + 1, w =>
    if c.fails w.startPage then ({ w with reads := w.reads ++ [w.startPage] }, true)
    else if c.pagePerBlock ≤ w.page + 1 then ({ c.copy w with page := 0 }, false)
    else c.pageLoop n (c.copy w)

/-- After the pages of a block -/
def afterBlock (w : Walk) : Walk := { w with blockCount := w.blockCount - 1 }

/-- The blocks, for as many turns as there is fuel -/
def blockLoop (c : Chip) : Nat → Walk → Option Walk
  | 0, _ => none
  | fuel + 1, w =>
    if c.valid w.startBlock then
      if (c.pageLoop w.pageToDownload w).2 ∧ c.aborts then
        some (c.pageLoop w.pageToDownload w).1
      else if (afterBlock (c.pageLoop w.pageToDownload w).1).blockCount ≤ 0 then
        some (afterBlock (c.pageLoop w.pageToDownload w).1)
      else c.blockLoop fuel { afterBlock (c.pageLoop w.pageToDownload w).1 with
        startBlock := w.startBlock + 1 }
    else c.blockLoop fuel { w with startBlock := w.startBlock + 1 }

/-- The loader -/
def load (c : Chip) (fuel : Nat) (offset size loadAddr : BitVec 32) (mem : Nat → BitVec 8) :
    Option Walk :=
  if c.ready then c.blockLoop fuel (c.begin offset size loadAddr mem)
  else some (c.begin offset size loadAddr mem)

end Chip

/-- What `main` leaves: the memory, the pages that were read, and whether the application runs -/
structure Boot where
  mem : Nat → BitVec 8
  reads : List Nat
  started : Bool

/-- The boot case of `main`: the loader returns nothing, and the application is started. -/
def main (c : Chip) (fuel : Nat) (offset size loadAddr : BitVec 32) (mem : Nat → BitVec 8) :
    Option Boot :=
  (c.load fuel offset size loadAddr mem).map fun w => ⟨w.mem, w.reads, true⟩

/-! ## The two chips -/

/-- A NAND chip: the first word of the redundancy area of each page, what the DMA copies of a page,
and where its errors are too many to be corrected -/
structure Nand where
  pageSize : Nat
  pagePerBlock : Nat
  pageSize_ge : 512 ≤ pageSize
  pagePerBlock_ge : 4 ≤ pagePerBlock
  ra : Nat → BitVec 32
  data : Nat → Nat → BitVec 8
  uncorrectable : Nat → Bool

namespace Nand

/-- The mark of a block in a page -/
def mark (n : Nand) (page : Nat) : BitVec 8 := (n.ra page).setWidth 8

/-- `nfiIsBlockValid`: the first two pages and the last two -/
def nfiIsBlockValid (n : Nand) (pba : Nat) : Bool :=
  n.mark (pba * n.pagePerBlock) = 0xff ∧ n.mark (pba * n.pagePerBlock + 1) = 0xff ∧
    n.mark (pba * n.pagePerBlock + n.pagePerBlock - 1) = 0xff ∧
      n.mark (pba * n.pagePerBlock + n.pagePerBlock - 2) = 0xff

/-- `nfiPageRead` returns 1 for an empty page; an error that cannot be corrected is printed. -/
def nfiPageRead (n : Nand) (page : Nat) : Bool := n.ra page &&& 0xffff0000 ≠ 0

/-- The page can be read. -/
def Readable (n : Nand) (page : Nat) : Prop :=
  n.nfiPageRead page = false ∧ n.uncorrectable page = false

/-- `LoadNand` goes on with the next block when a page cannot be read. -/
def chip (n : Nand) : Chip where
  pageSize := n.pageSize
  pagePerBlock := n.pagePerBlock
  valid := n.nfiIsBlockValid
  fails := n.nfiPageRead
  data := n.data
  aborts := false
  ready := true

end Nand

/-- A SPI NAND chip: the first spare byte of each page if it can be read, what the status is after a
page was fetched, and whether it does not come in time; what is in the buffer of a spare byte that
was not read; and whether the reset comes to an end -/
structure SpiNand where
  spare : Nat → Option (BitVec 8)
  junk : BitVec 8
  status : Nat → BitVec 8
  timeout : Nat → Bool
  data : Nat → Nat → BitVec 8
  resets : Bool

namespace SpiNand

/-- `SPINAND_PAGE_SIZE` and `SPINAND_PAGE_PER_BLOCK` -/
def pageSize : Nat := 2048
def pagePerBlock : Nat := 64

/-- `spiNandIsBlockValid`: the first two pages; an error leaves the byte as it was. -/
def spiNandIsBlockValid (s : SpiNand) (block : Nat) : Bool :=
  (s.spare (block * pagePerBlock)).getD s.junk = 0xff ∧
    (s.spare (block * pagePerBlock + 1)).getD 0xff = 0xff

/-- `spiNandRead` -/
def spiNandRead (s : SpiNand) (page : Nat) : Bool :=
  s.timeout page || s.status page &&& 0xf0 = 0xf0

/-- The page can be read. -/
def Readable (s : SpiNand) (page : Nat) : Prop := s.spiNandRead page = false

/-- `LoadSpiNand` returns when a page cannot be read. -/
def chip (s : SpiNand) : Chip where
  pageSize := pageSize
  pagePerBlock := pagePerBlock
  valid := s.spiNandIsBlockValid
  fails := s.spiNandRead
  data := s.data
  aborts := true
  ready := s.resets

end SpiNand

end Ma35d1.Loader

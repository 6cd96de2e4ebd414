import Mathlib.Logic.Function.Basic
import Ma35d1.Machine.Crc

/-!
# The parameter pages of a NAND flash

`nfiReadOnfi` reads the parameter page of an ONFI flash into the 256 bytes of `tempID`, and over it
the extended page, whose length, position and sections are the flash's own.
-/

namespace Ma35d1.Loader.Onfi

open Machine

/-- What a flash answers: READ ID, the parameter page, and what it has from a column on. -/
structure Flash where
  id : Nat → BitVec 8
  page : Nat → BitVec 8
  column : Nat → Nat → BitVec 8

/-- The fields of `NAND_INFO_T` that `nfiReadOnfi` writes. -/
structure NandInfo where
  uPageSize : BitVec 32
  uPagePerBlock : BitVec 32
  uBlockPerFlash : BitVec 32
  uSpareSize : BitVec 32
  bIsMulticycle : Bool
  nandEcc : BitVec 32

def nandBchT8 : BitVec 32 := 0x100000
def nandBchT12 : BitVec 32 := 0x200000
def nandBchT24 : BitVec 32 := 0x040000

/-! ## The code

An access outside `tempID` has no result. The indices that are constants are inside. -/

abbrev Buffer := Nat → BitVec 8

def get (t : Buffer) (i : Nat) : Option (BitVec 8) := if i < 256 then some (t i) else none

def put (t : Buffer) (i : Nat) (v : BitVec 8) : Option Buffer :=
  if i < 256 then some (Function.update t i v) else none

/-- Two and four bytes, the lowest first. -/
def le16 (t : Buffer) (i : Nat) : BitVec 16 := t (i + 1) ++ t i
def le32 (t : Buffer) (i : Nat) : BitVec 32 := t (i + 3) ++ t (i + 2) ++ t (i + 1) ++ t i

/-- The loop that reads `NANDDATA`, with `n` bytes left. -/
def readData (data : Nat → BitVec 8) : Nat → Nat → Buffer → Option Buffer
  | 0, _, t => some t
  | n + 1, i, t => do readData data n (i + 1) (← put t i (data i))

/-- The inner loop of `onfi_crc16`, with `n` bits left. -/
def crcBits : Nat → BitVec 16 → BitVec 16
  | 0, crc => crc
  | n + 1, crc => crcBits n (crc <<< 1 ^^^ if crc &&& 0x8000#16 ≠ 0#16 then 0x8005#16 else 0#16)

/-- `onfi_crc16`, with `len` bytes left from `p` on. -/
def onfiCrc16 (t : Buffer) : Nat → Nat → BitVec 16 → Option (BitVec 16)
  | 0, _, crc => some crc
  | len + 1, p, crc => do
    onfiCrc16 t len (p + 1) (crcBits 8 (crc ^^^ (← get t p).setWidth 16 <<< 8))

/-- The choice of `NandECC`; what asks for more than 24 bits leaves it. -/
def eccOf (bits : BitVec 8) (old : BitVec 32) : BitVec 32 :=
  if bits = 0 then 0
  else if bits ≤ 8 then nandBchT8
  else if bits ≤ 12 then nandBchT12
  else if bits ≤ 24 then nandBchT24
  else old

/-- The search for the ECC section, with `n` sections left. -/
def eccSection (t : Buffer) (old : BitVec 32) : Nat → Nat → Option (BitVec 32)
  | 0, _ => some old
  | n + 1, i =>
    if t (16 + i) = 2 then do
      let offset := ((t (17 + i)).toNat + 1) * 16
      some (eccOf (← get t offset) old)
    else eccSection t old n (i + 2)

/-- The extended page, over the parameter page that is in `tempID`. -/
def extendedEcc (f : Flash) (t : Buffer) (old : BitVec 32) : Option (BitVec 32) := do
  let extendlen := (le16 t 12).toNat * 16
  let parampages := (t 14).toNat * 256
  let t ← readData (f.column parampages) extendlen 0 t
  let crc ← onfiCrc16 t (BitVec.ofNat 32 extendlen - 2#32).toNat 2 0x4F4E
  if crc = le16 t 0 then
    if t 2 = 0x45 ∧ t 3 = 0x50 ∧ t 4 = 0x50 ∧ t 5 = 0x53 then eccSection t old 8 0 else some old
  else some old

/-- The choice by byte 112 of the parameter page. -/
def pageEcc (f : Flash) (t : Buffer) (old : BitVec 32) : Option (BitVec 32) :=
  if t 112 = 0xff then extendedEcc f t old else some (eccOf (t 112) old)

/-- `nfiReadOnfi`, with what `tempID` and `pNAND` hold: its result, and `pNAND`. -/
def nfiReadOnfi (f : Flash) (tempID : Buffer) (pNAND : NandInfo) : Option (Nat × NandInfo) := do
  let t ← readData f.id 4 0 tempID
  if t 0 = 0x4F ∧ t 1 = 0x4E ∧ t 2 = 0x46 ∧ t 3 = 0x49 then
    let t ← readData f.page 256 0 t
    let crc ← onfiCrc16 t 254 0 0x4F4E
    if crc = le16 t 254 then
      let nandEcc ← pageEcc f t pNAND.nandEcc
      some (0,
        { uPageSize := le32 t 80
          uPagePerBlock := le32 t 92
          uBlockPerFlash := le32 t 96 * (t 100).setWidth 32
          uSpareSize := (le16 t 84).setWidth 32
          bIsMulticycle := decide (3 ≤ t 101 &&& 0xf) && decide (0x20 ≤ t 101 &&& 0xf0)
          nandEcc := nandEcc })
    else some (1, pNAND)
  else some (1, pNAND)

/-! ## What the pages state -/

/-- The number in the `n` bytes from `i` on, the lowest first. -/
def number (e : Nat → BitVec 8) (i : Nat) : Nat → Nat
  | 0 => 0
  | n + 1 => (e i).toNat + 256 * number e (i + 1) n

/-- The remainder of the bytes `i` to `i + n`, and of the two bytes that hold it. -/
def checksum (e : Nat → BitVec 8) (i n : Nat) : BitVec 16 :=
  Crc.remainder 0x8005 0x4F4E ((List.range' i n).flatMap fun k => Crc.top 8 (e k))

/-- The flash is an ONFI one. -/
def Signed (f : Flash) : Prop := f.id 0 = 0x4F ∧ f.id 1 = 0x4E ∧ f.id 2 = 0x46 ∧ f.id 3 = 0x49

/-- The parameter page has the checksum that it holds. -/
def Checked (f : Flash) : Prop := (checksum f.page 0 254).toNat = number f.page 254 2

/-- The extended page and its length. -/
def Flash.extended (f : Flash) : Nat → BitVec 8 := f.column (256 * (f.page 14).toNat)
def Flash.extendedLength (f : Flash) : Nat := 16 * number f.page 12 2

/-- An extended page of `len` bytes: a header with the checksum, the name and the types and lengths
of eight sections, and then these. -/
structure ExtendedPage (e : Nat → BitVec 8) (len : Nat) : Prop where
  header : 32 ≤ len
  crc : (checksum e 2 (len - 2)).toNat = number e 0 2
  name : e 2 = 0x45 ∧ e 3 = 0x50 ∧ e 4 = 0x50 ∧ e 5 = 0x53

/-- Section `k` is the first one for ECC. -/
structure EccSection (e : Nat → BitVec 8) (k : Nat) : Prop where
  lt : k < 8
  type : e (16 + 2 * k) = 2
  first : ∀ j < k, e (16 + 2 * j) ≠ 2

/-- A section follows those before it. -/
def sectionStart (e : Nat → BitVec 8) (k : Nat) : Nat :=
  32 + 16 * ((List.range k).map fun j => (e (17 + 2 * j)).toNat).sum

/-- The number of bits that the pages ask to be correctable. -/
def Requires (f : Flash) (r : Nat) : Prop :=
  if f.page 112 = 0xff then
    ExtendedPage f.extended f.extendedLength ∧ ∃ k, EccSection f.extended k ∧
      sectionStart f.extended k < f.extendedLength ∧
      r = (f.extended (sectionStart f.extended k)).toNat
  else r = (f.page 112).toNat

/-- The number of bits that a setting corrects. -/
def strength (ecc : BitVec 32) : Option Nat :=
  if ecc = 0 then some 0
  else if ecc = nandBchT8 then some 8
  else if ecc = nandBchT12 then some 12
  else if ecc = nandBchT24 then some 24
  else none

/-- The setting corrects `r` bits. -/
def Corrects (ecc : BitVec 32) (r : Nat) : Prop := ∃ s ∈ strength ecc, r ≤ s

/-- The pages are those of an ONFI flash, and state what is in `info`. -/
structure States (f : Flash) (info : NandInfo) : Prop where
  signed : Signed f
  checked : Checked f
  pageSize : info.uPageSize.toNat = number f.page 80 4
  pagePerBlock : info.uPagePerBlock.toNat = number f.page 92 4
  blockPerFlash : info.uBlockPerFlash.toNat = number f.page 96 4 * (f.page 100).toNat
  spareSize : info.uSpareSize.toNat = number f.page 84 2
  ecc : ∃ r, Requires f r ∧ Corrects info.nandEcc r

/-- `nfiReadOnfi` stays inside `tempID`, and returns 0 only with what the pages state. -/
def OnfiLaw (f : Flash) (tempID : Buffer) (pNAND : NandInfo) : Prop :=
  ∃ x ∈ nfiReadOnfi f tempID pNAND, x.1 = 0 → States f x.2

/-- What is in `tempID` after the extended page is read. -/
def Flash.over (f : Flash) (i : Nat) : BitVec 8 :=
  if i < f.extendedLength then f.extended i else f.page i

/-- Where the code takes the ECC section to be. -/
def assumedStart (e : Nat → BitVec 8) (k : Nat) : Nat := ((e (17 + 2 * k)).toNat + 1) * 16

/-- The page asks for no more than 24 bits. Or its extended page is whole and fits in `tempID`, and
has an ECC section; and so does what lies where the code takes that section to be, and its setting
corrects what the section asks for. -/
def EccKeeps (f : Flash) (old : BitVec 32) : Prop :=
  if f.page 112 = 0xff then
    ExtendedPage f.extended f.extendedLength ∧ f.extendedLength ≤ 256 ∧
      ∃ k, EccSection f.extended k ∧ sectionStart f.extended k < f.extendedLength ∧
        assumedStart f.extended k < 256 ∧
        Corrects (eccOf (f.over (assumedStart f.extended k)) old)
          (f.extended (sectionStart f.extended k)).toNat
  else (f.page 112).toNat ≤ 24

/-- And the number of blocks is one of 32 bits. -/
def OnfiKeeps (f : Flash) (pNAND : NandInfo) : Prop :=
  Signed f → Checked f →
    number f.page 96 4 * (f.page 100).toNat < 2 ^ 32 ∧ EccKeeps f pNAND.nandEcc

/-! ## The buffer -/

section Buffer

variable {t : Buffer} {data : Nat → BitVec 8} {i n j : Nat}

theorem get_eq (h : i < 256) : get t i = some (t i) := if_pos h

theorem get_none (h : ¬ i < 256) : get t i = none := if_neg h

/-- The loop is inside up to the last byte, or has an access outside. -/
theorem readData_eq (hn : 0 < n) : readData data n i t =
    if i + n ≤ 256 then some fun j => if i ≤ j ∧ j < i + n then data j else t j else none := by
  induction n generalizing i t with
  | zero => exact absurd hn (Nat.lt_irrefl 0)
  | succ n ih =>
    rw [readData, put]
    by_cases hi : i < 256
    · rw [if_pos hi, Option.bind_eq_bind, Option.bind_some]
      obtain rfl | hpos := Nat.eq_zero_or_pos n
      · rw [readData, if_pos (Nat.succ_le_of_lt hi)]
        congr 1
        funext j
        by_cases hj : j = i
        · subst hj
          rw [Function.update_self, if_pos ⟨Nat.le_refl _, Nat.lt_succ_self _⟩]
        · rw [Function.update_of_ne hj, if_neg (by omega)]
      · rw [ih hpos, Nat.add_assoc, Nat.add_comm 1 n]
        refine if_congr Iff.rfl (congrArg some (funext fun j => ?_)) rfl
        by_cases hj : j = i
        · subst hj
          rw [Function.update_self, if_neg (by omega), if_pos (by omega)]
        · rw [Function.update_of_ne hj]
          exact if_congr (by omega) rfl rfl
    · rw [if_neg hi, if_neg (by omega)]
      rfl

theorem readData_all (data : Nat → BitVec 8) (t : Buffer) (hn : 0 < n) (hle : n ≤ 256) :
    ∃ t', readData data n 0 t = some t' ∧
      ∀ j, t' j = if j < n then data j else t j := by
  refine ⟨_, by rw [readData_eq hn, if_pos (by rw [Nat.zero_add]; exact hle)], fun j => ?_⟩
  exact if_congr (by omega) rfl rfl

/-- The bit that `onfi_crc16` tests is the one that leaves. -/
theorem crcBits_eq (n : Nat) (crc : BitVec 16) : crcBits n crc = Crc.shifts 0x8005 n crc := by
  induction n generalizing crc with
  | zero => rfl
  | succ n ih =>
    have hmsb : crc &&& 0x8000#16 ≠ 0#16 ↔ crc.msb = true := by
      have hpow : (0x8000#16) = BitVec.twoPow 16 15 := rfl
      rw [hpow, BitVec.and_twoPow, BitVec.msb_eq_getLsbD_last]
      cases crc.getLsbD 15
      · exact ⟨fun h => absurd rfl h, fun h => absurd h (by decide)⟩
      · exact ⟨fun _ => rfl, fun _ => by decide⟩
    rw [crcBits, ih, Crc.shifts, Crc.shift]
    simp only [hmsb]
    rfl

/-- A byte is taken as its bits are. -/
theorem crcByte_eq (crc : BitVec 16) (b : BitVec 8) :
    crcBits 8 (crc ^^^ b.setWidth 16 <<< 8) = Crc.remainder 0x8005 crc (Crc.top 8 b) := by
  rw [crcBits_eq]
  exact Crc.shifts_word b (by decide) crc

/-- `onfi_crc16` is the remainder of the bytes it is given, or has an access outside. -/
theorem onfiCrc16_eq (t : Buffer) (hn : 0 < n) (i : Nat) (crc : BitVec 16) :
    onfiCrc16 t n i crc = if i + n ≤ 256 then
      some (Crc.remainder 0x8005 crc ((List.range' i n).flatMap fun k => Crc.top 8 (t k)))
    else none := by
  induction n generalizing i crc with
  | zero => exact absurd hn (Nat.lt_irrefl 0)
  | succ n ih =>
    rw [onfiCrc16]
    by_cases hi : i < 256
    · rw [get_eq hi, Option.bind_eq_bind, Option.bind_some, crcByte_eq]
      obtain rfl | hpos := Nat.eq_zero_or_pos n
      · rw [onfiCrc16, if_pos (Nat.succ_le_of_lt hi)]
        simp
      · rw [ih hpos, Nat.add_assoc, Nat.add_comm 1 n, List.range'_succ, List.flatMap_cons,
          Crc.remainder_append]
    · rw [get_none hi, if_neg (by omega)]
      rfl

theorem checksum_congr {e e' : Nat → BitVec 8} (h : ∀ k, i ≤ k → k < i + n → e k = e' k) :
    checksum e i n = checksum e' i n := by
  unfold checksum
  congr 1
  refine List.flatMap_congr fun k hk => ?_
  obtain ⟨hle, hlt⟩ := List.mem_range'_1.1 hk
  rw [h k hle hlt]

theorem le16_toNat (t : Buffer) (i : Nat) : (le16 t i).toNat = number t i 2 := by
  have h0 := (t i).isLt
  rw [le16, BitVec.toNat_append, ← Nat.shiftLeft_add_eq_or_of_lt h0, Nat.shiftLeft_eq]
  simp only [number]
  omega

theorem le32_toNat (t : Buffer) (i : Nat) : (le32 t i).toNat = number t i 4 := by
  have h0 := (t i).isLt
  have h1 := (t (i + 1)).isLt
  have h2 := (t (i + 2)).isLt
  rw [le32, BitVec.toNat_append, ← Nat.shiftLeft_add_eq_or_of_lt h0, BitVec.toNat_append,
    ← Nat.shiftLeft_add_eq_or_of_lt h1, BitVec.toNat_append, ← Nat.shiftLeft_add_eq_or_of_lt h2]
  show _ = (t i).toNat + 256 * ((t (i + 1)).toNat + 256 * ((t (i + 2)).toNat +
    256 * ((t (i + 3)).toNat + 256 * 0)))
  simp only [Nat.shiftLeft_eq]
  omega

theorem number_congr {e e' : Nat → BitVec 8} (h : ∀ k, i ≤ k → k < i + n → e k = e' k) :
    number e i n = number e' i n := by
  induction n generalizing i with
  | zero => rfl
  | succ n ih =>
    rw [number, number, h i (Nat.le_refl i) (by omega),
      ih fun k hle hlt => h k (by omega) (by omega)]

/-- The test of a checksum against the two bytes that hold it. -/
theorem eq_le16_iff (crc : BitVec 16) (t : Buffer) (i : Nat) :
    crc = le16 t i ↔ crc.toNat = number t i 2 := by
  rw [← le16_toNat, BitVec.toNat_inj]

end Buffer

/-! ## The extended page -/

section Extended

variable {f : Flash} {t : Buffer} {e : Nat → BitVec 8} {i k n : Nat}

theorem eccSection_eq (old : BitVec 32) (ht : ∀ j < 32, t j = e j) (hk : EccSection e k) (hi : i + n = 8)
    (hle : i ≤ k) : eccSection t old n (2 * i) =
      if assumedStart e k < 256 then some (eccOf (t (assumedStart e k)) old) else none := by
  have hlt := hk.lt
  induction n generalizing i with
  | zero => omega
  | succ n ih =>
    rw [eccSection, ht _ (by omega), ht _ (by omega)]
    obtain rfl | hbefore := Nat.eq_or_lt_of_le hle
    · rw [if_pos hk.type]
      show (get t (assumedStart e i)).bind _ = _
      by_cases hin : assumedStart e i < 256
      · rw [get_eq hin, if_pos hin]
        rfl
      · rw [get_none hin, if_neg hin]
        rfl
    · rw [if_neg (hk.first i hbefore)]
      exact ih (by omega) hbefore

/-- What the code makes of an extended page that has an ECC section. -/
theorem extendedEcc_eq (ht : ∀ j < 256, t j = f.page j)
    (hpage : ExtendedPage f.extended f.extendedLength) (hk : EccSection f.extended k) :
    extendedEcc f t old =
      if f.extendedLength ≤ 256 ∧ assumedStart f.extended k < 256 then
        some (eccOf (f.over (assumedStart f.extended k)) old)
      else none := by
  have hlen : (le16 t 12).toNat * 16 = f.extendedLength := by
    rw [le16_toNat, Nat.mul_comm, Flash.extendedLength,
      number_congr fun j _ hj => ht j (by omega)]
  have hcol : f.column ((t 14).toNat * 256) = f.extended := by
    rw [ht 14 (by decide), Nat.mul_comm, Flash.extended]
  have hheader := hpage.header
  unfold extendedEcc
  simp only [hlen, hcol]
  by_cases hle : f.extendedLength ≤ 256
  · obtain ⟨t', hread, ht'⟩ := readData_all f.extended t (by omega) hle
    have hover : ∀ j < 256, t' j = f.over j := fun j hj => by rw [ht', ht j hj, Flash.over]
    have hext : ∀ j < f.extendedLength, t' j = f.extended j := fun j hj => by rw [ht', if_pos hj]
    have hword : f.extendedLength < 2 ^ 32 := by omega
    have hrest : (BitVec.ofNat 32 f.extendedLength - 2#32).toNat = f.extendedLength - 2 := by
      rw [BitVec.toNat_sub_of_le, BitVec.toNat_ofNat, Nat.mod_eq_of_lt hword]
      · rfl
      · rw [BitVec.le_def, BitVec.toNat_ofNat, BitVec.toNat_ofNat, Nat.mod_eq_of_lt hword]
        exact Nat.le_trans (by decide) hheader
    have hcrc : checksum t' 2 (f.extendedLength - 2) = le16 t' 0 := by
      rw [eq_le16_iff, checksum_congr fun j _ hj => hext j (by omega),
        number_congr fun j _ hj => hext j (by omega)]
      exact hpage.crc
    obtain ⟨h2, h3, h4, h5⟩ := hpage.name
    rw [hread, Option.bind_eq_bind, Option.bind_some, hrest,
      onfiCrc16_eq t' (by omega), if_pos (by omega)]
    show (if checksum t' 2 (f.extendedLength - 2) = le16 t' 0 then _ else _) = _
    rw [if_pos hcrc, hext 2 (by omega), hext 3 (by omega), hext 4 (by omega), hext 5 (by omega),
      if_pos ⟨h2, h3, h4, h5⟩]
    have hsection := eccSection_eq (i := 0) (n := 8) old
      (fun j hj => hext j (by omega)) hk rfl (Nat.zero_le k)
    refine hsection.trans ?_
    by_cases hin : assumedStart f.extended k < 256
    · rw [if_pos hin, if_pos ⟨hle, hin⟩, hover _ hin]
    · rw [if_neg hin, if_neg fun h => hin h.2]
  · rw [readData_eq (by omega), if_neg (by omega), if_neg fun h => hle h.1]
    rfl

end Extended

/-! ## The parameter page -/

section Page

variable {f : Flash} {pNAND : NandInfo} {tempID : Buffer}

/-- What `nfiReadOnfi` makes of a parameter page, with it in the buffer. -/
theorem nfiReadOnfi_eq (f : Flash) (tempID : Buffer) (pNAND : NandInfo) :
    ∃ t : Buffer, (∀ j < 256, t j = f.page j) ∧
      (Signed f ∧ Checked f → nfiReadOnfi f tempID pNAND =
        (pageEcc f t pNAND.nandEcc).map fun nandEcc =>
          (0, ⟨le32 f.page 80, le32 f.page 92, le32 f.page 96 * (f.page 100).setWidth 32,
            (le16 f.page 84).setWidth 32,
            decide (3 ≤ f.page 101 &&& 0xf) && decide (0x20 ≤ f.page 101 &&& 0xf0), nandEcc⟩)) ∧
      (¬ (Signed f ∧ Checked f) → nfiReadOnfi f tempID pNAND = some (1, pNAND)) := by
  obtain ⟨t₀, hid, ht₀⟩ := readData_all f.id tempID (n := 4) (by decide) (by decide)
  obtain ⟨t, hread, ht⟩ := readData_all f.page t₀ (n := 256) (by decide) (by decide)
  have hpage : ∀ j < 256, t j = f.page j := fun j hj => by rw [ht, if_pos hj]
  have hsigned : (t₀ 0 = 0x4F ∧ t₀ 1 = 0x4E ∧ t₀ 2 = 0x46 ∧ t₀ 3 = 0x49) ↔ Signed f := by
    rw [ht₀ 0, ht₀ 1, ht₀ 2, ht₀ 3]
    exact Iff.rfl
  have hchecked : checksum t 0 254 = le16 t 254 ↔ Checked f := by
    rw [eq_le16_iff, checksum_congr fun j _ hj => hpage j (by omega),
      number_congr fun j _ hj => hpage j (by omega)]
    exact Iff.rfl
  have hcrc : onfiCrc16 t 254 0 0x4F4E = some (checksum t 0 254) :=
    (onfiCrc16_eq t (by decide) 0 0x4F4E).trans (if_pos (by decide))
  have hword : ∀ i < 253, le32 t i = le32 f.page i := fun i hi => by
    rw [le32, hpage _ (by omega), hpage _ (by omega), hpage _ (by omega), hpage _ (by omega)]
    rfl
  refine ⟨t, hpage, ?_, ?_⟩
  · rintro ⟨hs, hc⟩
    unfold nfiReadOnfi
    rw [hid, Option.bind_eq_bind, Option.bind_some, if_pos (hsigned.2 hs), hread,
      Option.bind_eq_bind, Option.bind_some, hcrc, Option.bind_eq_bind, Option.bind_some,
      if_pos (hchecked.2 hc), hpage 100 (by decide), hpage 101 (by decide),
      hword 80 (by decide), hword 92 (by decide), hword 96 (by decide), le16, le16,
      hpage 84 (by decide), hpage 85 (by decide)]
    cases pageEcc f t pNAND.nandEcc <;> rfl
  · intro h
    unfold nfiReadOnfi
    rw [hid, Option.bind_eq_bind, Option.bind_some]
    by_cases hs : Signed f
    · rw [if_pos (hsigned.2 hs), hread, Option.bind_eq_bind, Option.bind_some, hcrc,
        Option.bind_eq_bind, Option.bind_some, if_neg fun hc => h ⟨hs, hchecked.1 hc⟩]
    · rw [if_neg fun hc => hs (hsigned.1 hc)]

/-- A setting for up to 24 bits corrects them. -/
theorem corrects_eccOf (bits : BitVec 8) (old : BitVec 32) (h : bits.toNat ≤ 24) :
    Corrects (eccOf bits old) bits.toNat := by
  have hle : ∀ {n : Nat}, n < 256 → (bits ≤ BitVec.ofNat 8 n ↔ bits.toNat ≤ n) := fun hn => by
    rw [BitVec.le_def, BitVec.toNat_ofNat, Nat.mod_eq_of_lt hn]
  unfold eccOf
  split
  · rename_i h0
    subst h0
    exact ⟨0, rfl, Nat.le_refl 0⟩
  · split
    · rename_i h8
      exact ⟨8, rfl, (hle (by decide)).1 h8⟩
    · split
      · rename_i h12
        exact ⟨12, rfl, (hle (by decide)).1 h12⟩
      · have h24 : bits ≤ 24 := (hle (by decide)).2 h
        rw [if_pos h24]
        exact ⟨24, rfl, h⟩

/-- No setting corrects more. -/
theorem le_of_corrects {ecc : BitVec 32} {r : Nat} (h : Corrects ecc r) : r ≤ 24 := by
  obtain ⟨s, hs, hle⟩ := h
  unfold strength at hs
  split at hs
  · obtain rfl := Option.some.inj hs
    omega
  · split at hs
    · obtain rfl := Option.some.inj hs
      omega
    · split at hs
      · obtain rfl := Option.some.inj hs
        omega
      · split at hs
        · obtain rfl := Option.some.inj hs
          omega
        · exact absurd hs nofun

theorem EccSection.unique {e : Nat → BitVec 8} {j k : Nat} (hj : EccSection e j)
    (hk : EccSection e k) : j = k := by
  rcases Nat.lt_trichotomy j k with h | h | h
  · exact absurd hj.type (hk.first j h)
  · exact h
  · exact absurd hk.type (hj.first k h)

/-- The setting for what the pages require. -/
theorem pageEcc_iff {t : Buffer} (ht : ∀ j < 256, t j = f.page j) (old : BitVec 32) :
    (∃ ecc ∈ pageEcc f t old, ∃ r, Requires f r ∧ Corrects ecc r) ↔ EccKeeps f old := by
  unfold pageEcc Requires EccKeeps
  rw [ht 112 (by decide)]
  by_cases h : f.page 112 = 0xff
  · simp only [if_pos h]
    constructor
    · rintro ⟨ecc, hecc, r, ⟨hpage, k, hk, hstart, rfl⟩, hr⟩
      rw [extendedEcc_eq ht hpage hk] at hecc
      split at hecc
      · rename_i hin
        obtain rfl := Option.some.inj hecc
        exact ⟨hpage, hin.1, k, hk, hstart, hin.2, hr⟩
      · exact absurd hecc nofun
    · rintro ⟨hpage, hlen, k, hk, hstart, hin, hr⟩
      refine ⟨_, ?_, _, ⟨hpage, k, hk, hstart, rfl⟩, hr⟩
      rw [extendedEcc_eq ht hpage hk, if_pos ⟨hlen, hin⟩]
      rfl
  · simp only [if_neg h]
    constructor
    · rintro ⟨ecc, -, r, rfl, hr⟩
      exact le_of_corrects hr
    · intro hle
      exact ⟨_, rfl, _, rfl, corrects_eccOf _ old hle⟩

/-- The blocks that the parameter page counts, in the 32 bits they are counted in. -/
theorem blocks_toNat (f : Flash) : (le32 f.page 96 * (f.page 100).setWidth 32).toNat =
    number f.page 96 4 * (f.page 100).toNat % 2 ^ 32 := by
  rw [BitVec.toNat_mul, le32_toNat, BitVec.toNat_setWidth_of_le (by decide)]

theorem onfiKeeps_of_law (h : OnfiLaw f tempID pNAND) : OnfiKeeps f pNAND := by
  obtain ⟨t, ht, hgood, -⟩ := nfiReadOnfi_eq f tempID pNAND
  intro hs hc
  obtain ⟨x, hx, hlaw⟩ := h
  rw [hgood ⟨hs, hc⟩] at hx
  obtain ⟨ecc, hecc, rfl⟩ := Option.map_eq_some_iff.1 hx
  have hstates := hlaw rfl
  have hcount := hstates.blockPerFlash
  rw [blocks_toNat] at hcount
  exact ⟨hcount ▸ Nat.mod_lt _ (by decide), (pageEcc_iff ht _).1 ⟨ecc, hecc, hstates.ecc⟩⟩

theorem onfiLaw_of_keeps (h : OnfiKeeps f pNAND) : OnfiLaw f tempID pNAND := by
  obtain ⟨t, ht, hgood, hbad⟩ := nfiReadOnfi_eq f tempID pNAND
  unfold OnfiLaw
  by_cases honfi : Signed f ∧ Checked f
  · obtain ⟨hcount, hecc⟩ := h honfi.1 honfi.2
    obtain ⟨ecc, hchoice, hr⟩ := (pageEcc_iff ht _).2 hecc
    rw [hgood honfi]
    refine ⟨_, Option.map_eq_some_iff.2 ⟨ecc, hchoice, rfl⟩, fun _ => ?_⟩
    refine ⟨honfi.1, honfi.2, le32_toNat _ _, le32_toNat _ _, ?_, ?_, hr⟩
    · exact (blocks_toNat f).trans (Nat.mod_eq_of_lt hcount)
    · exact (BitVec.toNat_setWidth_of_le (by decide)).trans (le16_toNat _ _)
  · rw [hbad honfi]
    exact ⟨_, rfl, fun h1 => absurd h1 Nat.one_ne_zero⟩

end Page

/-- `nfiReadOnfi` stays inside `tempID` and returns 0 only with what the pages state, exactly where
the blocks can be counted and the pages ask for a correction that the code finds. -/
theorem nfiReadOnfi_law_iff (f : Flash) (tempID : Buffer) (pNAND : NandInfo) :
    OnfiLaw f tempID pNAND ↔ OnfiKeeps f pNAND :=
  ⟨onfiKeeps_of_law, onfiLaw_of_keeps⟩

/-- An ONFI flash by the bytes of its two pages that are not zero. -/
def Flash.ofBytes (page extended : List (Nat × BitVec 8)) : Flash where
  id i := [0x4F, 0x4E, 0x46, 0x49].getD i 0
  page i := (page.lookup i).getD 0
  column _ i := (extended.lookup i).getD 0

/-- A page that asks for 40 bits; one with an extended page of 272 bytes; and one of 64 bytes whose
second section is for ECC, and asks for 8 bits. -/
def strongPage : Flash := .ofBytes [(112, 40), (254, 0x91), (255, 0xCC)] []

def longPage : Flash := .ofBytes [(12, 17), (112, 0xff), (254, 0x60), (255, 0xF2)] []

def latePage : Flash := .ofBytes [(12, 4), (112, 0xff), (254, 0x62), (255, 0x89)]
  [(0, 0x2C), (1, 0xF0), (2, 0x45), (3, 0x50), (4, 0x50), (5, 0x53), (16, 1), (17, 1), (18, 2),
    (19, 1), (48, 8)]

theorem strongPage_checked : Checked strongPage := by
  unfold Checked
  decide +kernel

theorem longPage_checked : Checked longPage := by
  unfold Checked
  decide +kernel

theorem latePage_checked : Checked latePage := by
  unfold Checked
  decide +kernel

/-- What `nfiOpen` hands over. -/
def cleared : NandInfo := ⟨0, 0, 0, 0, false, 0⟩

theorem latePage_section : EccSection latePage.extended 1 :=
  ⟨by decide, by decide, by decide⟩

/-- The 40 bits are not corrected, the long page does not fit, and the late section is taken to be
where the first one is. -/
theorem not_nfiReadOnfi_law :
    ¬ OnfiLaw strongPage (fun _ => 0) cleared ∧ ¬ OnfiLaw longPage (fun _ => 0) cleared ∧
      ¬ OnfiLaw latePage (fun _ => 0) cleared := by
  have hsigned : ∀ page extended, Signed (.ofBytes page extended) := fun _ _ =>
    ⟨rfl, rfl, rfl, rfl⟩
  refine ⟨fun h => ?_, fun h => ?_, fun h => ?_⟩
  · have hecc := (onfiKeeps_of_law h (hsigned _ _) strongPage_checked).2
    rw [EccKeeps, if_neg (by decide)] at hecc
    exact absurd hecc (by decide)
  · have hecc := (onfiKeeps_of_law h (hsigned _ _) longPage_checked).2
    rw [EccKeeps, if_pos (by decide)] at hecc
    exact absurd hecc.2.1 (by decide)
  · have hecc := (onfiKeeps_of_law h (hsigned _ _) latePage_checked).2
    rw [EccKeeps, if_pos (by decide)] at hecc
    obtain ⟨-, -, k, hk, -, -, s, hs, hle⟩ := hecc
    obtain rfl := hk.unique latePage_section
    obtain rfl : 0 = s := Option.some.inj hs
    exact absurd hle (by decide)

end Ma35d1.Loader.Onfi

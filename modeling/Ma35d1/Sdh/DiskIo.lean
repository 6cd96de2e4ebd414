import Mathlib.Data.BitVec
import Ma35d1.Machine.Copy

/-!
# The disk layer under FatFs

The DMA engine wants addresses that are divisible by four. A request for another address is split:
all sectors but the last go through the next such address, which is inside the caller's buffer,
and the last one through `Tmp_Buffer`.
-/

namespace Ma35d1.Sdh.DiskIo

open Machine.Copy

/-! ## The code -/

/-- `SD0.sectorSize` and `SD1.sectorSize` -/
def sectorSize : Nat := 512

/-- A memory, or the bytes of a card from its first sector on -/
abbrev Bytes := Nat → BitVec 8

structure State where
  mem : Bytes
  /-- `Tmp_Buffer` -/
  tmp : Bytes
  /-- The cards of the drives -/
  card : Nat → Bytes

/-- How a call of `SDH_Read` or `SDH_Write` ends: with its result and, if that is not 0, with some
bytes at the destination. -/
structure Transfer where
  ret : BitVec 32
  left : List (BitVec 8)

/-- What a call leaves of `n` sectors at the place they are moved to -/
def Transfer.moved (t : Transfer) (src dst : Bytes) (i j n : Nat) : Bytes :=
  if t.ret = 0 then copyTo dst j (copyFrom src i (sectorSize * n))
  else copyTo dst j (t.left.take (sectorSize * n))

/-- `SDH_Read`: the destination afterwards -/
def sdhRead (t : Transfer) (card dst : Bytes) (addr sector n : Nat) : Bytes :=
  t.moved card dst (sectorSize * sector) addr n

/-- `SDH_Write`: the card afterwards -/
def sdhWrite (t : Transfer) (src card : Bytes) (addr sector n : Nat) : Bytes :=
  t.moved src card addr (sectorSize * sector) n

/-- The end of a call of the disk layer: its result, those of the transfers, and the state -/
structure Done where
  ret : BitVec 32
  rets : List (BitVec 32)
  state : State

/-- `tmp_StartBufAddr` -/
def tmpStartBufAddr (buff : Nat) : Nat := (buff / 4 + 1) * 4 % 2 ^ 32

/-- The branch of `disk_read` for a drive; `t` and `t'` are how its transfers end. -/
def readDrive (drive buff sector count : Nat) (t t' : Transfer) (s : State) : Done :=
  if buff % 4 ≠ 0 then
    if count = 1 then
      let tmp := sdhRead t (s.card drive) s.tmp 0 sector count
      ⟨t.ret, [t.ret],
        { s with tmp := tmp, mem := copyTo s.mem buff (copyFrom tmp 0 (count * sectorSize)) }⟩
    else
      let start := tmpStartBufAddr buff
      let mem := sdhRead t (s.card drive) s.mem start sector (count - 1)
      let mem := copyTo mem buff (copyFrom mem start (sectorSize * (count - 1)))
      let tmp := sdhRead t' (s.card drive) s.tmp 0 ((sector + count - 1) % 2 ^ 32) 1
      ⟨t'.ret, [t.ret, t'.ret],
        { s with
          tmp := tmp
          mem := copyTo mem (buff + sectorSize * (count - 1)) (copyFrom tmp 0 sectorSize) }⟩
  else ⟨t.ret, [t.ret], { s with mem := sdhRead t (s.card drive) s.mem buff sector count }⟩

/-- The loop that moves the bytes up, from the last one on -/
def shiftUp (start buff : Nat) : Nat → Bytes → Bytes
  | 0, mem => mem
  | i + 1, mem => shiftUp start buff i (copyTo mem (start + i) (copyFrom mem (buff + i) 1))

/-- The branch of `disk_write` for a drive -/
def writeDrive (drive buff sector count : Nat) (t t' : Transfer) (s : State) : Done :=
  if buff % 4 ≠ 0 then
    if count = 1 then
      let tmp := copyTo s.tmp 0 (copyFrom s.mem buff (count * sectorSize))
      ⟨t.ret, [t.ret],
        { s with
          tmp := tmp
          card := Function.update s.card drive (sdhWrite t tmp (s.card drive) 0 sector count) }⟩
    else
      let start := tmpStartBufAddr buff
      let tmp := copyTo s.tmp 0 (copyFrom s.mem (buff + sectorSize * (count - 1)) sectorSize)
      let mem := shiftUp start buff (sectorSize * (count - 1)) s.mem
      let card := sdhWrite t mem (s.card drive) start sector (count - 1)
      let card := sdhWrite t' tmp card 0 ((sector + count - 1) % 2 ^ 32) 1
      ⟨t'.ret, [t.ret, t'.ret], ⟨mem, tmp, Function.update s.card drive card⟩⟩
  else
    ⟨t.ret, [t.ret],
      { s with
        card := Function.update s.card drive
          (sdhWrite t s.mem (s.card drive) buff sector count) }⟩

/-- `disk_read`; for another drive than the two nothing is assigned to the result. -/
def diskRead (pdrv buff sector count : Nat) (t t' : Transfer) (s : State) : Option Done :=
  if pdrv = 0 then some (readDrive 0 buff sector count t t' s)
  else if pdrv = 1 then some (readDrive 1 buff sector count t t' s)
  else none

/-- `disk_write` -/
def diskWrite (pdrv buff sector count : Nat) (t t' : Transfer) (s : State) : Option Done :=
  if pdrv = 0 then some (writeDrive 0 buff sector count t t' s)
  else if pdrv = 1 then some (writeDrive 1 buff sector count t t' s)
  else none

/-! ## What the layer is for -/

/-- A read that is reported done has moved all sectors into the buffer, and nothing elsewhere. -/
def ReadLaw (drive buff sector count : Nat) (s : State) (d : Done) : Prop :=
  d.ret = 0 → (∀ r ∈ d.rets, r = 0) ∧
    copyFrom d.state.mem buff (sectorSize * count) =
      copyFrom (s.card drive) (sectorSize * sector) (sectorSize * count) ∧
    ∀ k, ¬ (buff ≤ k ∧ k < buff + sectorSize * count) → d.state.mem k = s.mem k

/-- A write that is reported done has moved the caller's bytes to the sectors; and it leaves the
buffer alone. -/
def WriteLaw (drive buff sector count : Nat) (s : State) (d : Done) : Prop :=
  (d.ret = 0 → (∀ r ∈ d.rets, r = 0) ∧
    copyFrom (d.state.card drive) (sectorSize * sector) (sectorSize * count) =
      copyFrom s.mem buff (sectorSize * count)) ∧
  copyFrom d.state.mem buff (sectorSize * count) = copyFrom s.mem buff (sectorSize * count)

/-- The request is not split. -/
def Whole (buff count : Nat) : Prop := buff % 4 = 0 ∨ count = 1

/-- The first transfer fails, and the second does not. -/
def Hidden (t t' : Transfer) : Prop := t.ret ≠ 0 ∧ t'.ret = 0

/-- The bytes that are moved up are those that stand where they are moved to. -/
def Periodic (buff count : Nat) (mem : Bytes) : Prop :=
  ∀ j < sectorSize * (count - 1), mem (buff + j + (4 - buff % 4)) = mem (buff + j)

/-! ## Transfers -/

section Moved

variable {t t' : Transfer} {src dst : Bytes} {i j k n : Nat}

theorem Transfer.moved_ok (h : t.ret = 0) :
    t.moved src dst i j n = copyTo dst j (copyFrom src i (sectorSize * n)) := if_pos h

/-- A transfer that succeeds leaves the sectors at their place. -/
theorem Transfer.copyFrom_moved (h : t.ret = 0) :
    copyFrom (t.moved src dst i j n) j (sectorSize * n) = copyFrom src i (sectorSize * n) := by
  rw [Transfer.moved_ok h]
  exact copyFrom_copyTo length_copyFrom

/-- No transfer reaches beyond its sectors. -/
theorem Transfer.moved_of_not (h : ¬ (j ≤ k ∧ k < j + sectorSize * n)) :
    t.moved src dst i j n k = dst k := by
  unfold Transfer.moved
  split
  · exact copyTo_of_not (by rw [length_copyFrom]; exact h)
  · refine copyTo_of_not fun hin => h ⟨hin.1, ?_⟩
    have hlen := List.length_take_le (sectorSize * n) t.left
    omega

end Moved

/-! ## Moving the bytes up -/

section Shift

variable {buff start count n : Nat} {mem : Bytes}

/-- The loop copies the bytes that it finds, since it is ahead of the place that it reads. -/
theorem shiftUp_eq (h : buff ≤ start) (n : Nat) (mem : Bytes) :
    shiftUp start buff n mem = copyTo mem start (copyFrom mem buff n) := by
  induction n generalizing mem with
  | zero => exact copyTo_nil.symm
  | succ n ih =>
    have hunread : copyFrom (copyTo mem (start + n) (copyFrom mem (buff + n) 1)) buff n =
        copyFrom mem buff n := copyFrom_copyTo_of_disjoint (.inl (by omega))
    have hlen : (copyFrom mem buff n).length = n := length_copyFrom
    calc shiftUp start buff (n + 1) mem
        = copyTo (copyTo mem (start + n) (copyFrom mem (buff + n) 1)) start
            (copyFrom mem buff n) := by rw [shiftUp, ih, hunread]
      _ = copyTo (copyTo mem start (copyFrom mem buff n)) (start + n)
            (copyFrom mem (buff + n) 1) := copyTo_comm (by rw [hlen])
      _ = copyTo mem start (copyFrom mem buff n ++ copyFrom mem (buff + n) 1) := by
          rw [← copyTo_append, hlen]
      _ = copyTo mem start (copyFrom mem buff (n + 1)) := by rw [copyFrom_add]

theorem tmpStartBufAddr_eq (hpos : 1 ≤ count) (hbuff : buff + sectorSize * count ≤ 2 ^ 32) :
    tmpStartBufAddr buff = buff + (4 - buff % 4) := by
  unfold tmpStartBufAddr
  unfold sectorSize at hbuff
  omega

theorem sectors_split (hpos : 1 ≤ count) :
    sectorSize * count = sectorSize * (count - 1) + sectorSize := by
  rw [← Nat.mul_succ, Nat.succ_eq_add_one, Nat.sub_add_cancel hpos]

/-- The buffer keeps its bytes only if they repeat at the distance they are moved. -/
theorem shifted_eq_iff (hpos : 1 ≤ count) :
    copyFrom (copyTo mem (buff + (4 - buff % 4)) (copyFrom mem buff (sectorSize * (count - 1)))) buff
        (sectorSize * count) = copyFrom mem buff (sectorSize * count) ↔
      Periodic buff count mem := by
  have hlen : (copyFrom mem buff (sectorSize * (count - 1))).length = sectorSize * (count - 1) :=
    length_copyFrom
  have hsplit := sectors_split hpos
  have h512 : sectorSize = 512 := rfl
  have hd : 4 - buff % 4 ≤ 4 := Nat.sub_le ..
  unfold Periodic
  generalize 4 - buff % 4 = d at hd
  rw [copyFrom_eq_iff]
  constructor
  · intro h j hj
    have hthis := h (d + j) (by omega)
    rw [← Nat.add_assoc, copyTo_add (by rw [hlen]; exact hj), getElem_copyFrom] at hthis
    rw [Nat.add_right_comm]
    exact hthis.symm
  · intro h j hj
    by_cases hin : d ≤ j ∧ j < d + sectorSize * (count - 1)
    · obtain ⟨k, rfl⟩ := Nat.exists_eq_add_of_le hin.1
      have hk : k < sectorSize * (count - 1) := by omega
      rw [← Nat.add_assoc, copyTo_add (by rw [hlen]; exact hk), getElem_copyFrom,
        Nat.add_right_comm]
      exact (h k hk).symm
    · exact copyTo_of_not (by rw [hlen]; omega)

end Shift

/-! ## When the layer is faithful -/

section Faithful

variable {drive buff sector count : Nat} {t t' : Transfer} {s : State}

theorem last_sector (hpos : 1 ≤ count) (hsec : sector + count ≤ 2 ^ 32) :
    sectorSize * ((sector + count - 1) % 2 ^ 32) =
      sectorSize * sector + sectorSize * (count - 1) := by
  rw [Nat.mod_eq_of_lt (by omega), ← Nat.mul_add, Nat.add_sub_assoc hpos]

/-- A split read of which both parts succeed -/
theorem readDrive_split (hpos : 1 ≤ count) (hsplit : ¬ Whole buff count)
    (hbuff : buff + sectorSize * count ≤ 2 ^ 32) (hsec : sector + count ≤ 2 ^ 32)
    (ht : t.ret = 0) (ht' : t'.ret = 0) :
    (readDrive drive buff sector count t t' s).state.mem =
      copyTo
        (copyTo s.mem (buff + (4 - buff % 4))
          (copyFrom (s.card drive) (sectorSize * sector) (sectorSize * (count - 1))))
        buff (copyFrom (s.card drive) (sectorSize * sector) (sectorSize * count)) := by
  obtain ⟨hshift, hcount⟩ := not_or.mp hsplit
  have hfirst : copyFrom (sdhRead t (s.card drive) s.mem (tmpStartBufAddr buff) sector (count - 1))
      (tmpStartBufAddr buff) (sectorSize * (count - 1)) =
      copyFrom (s.card drive) (sectorSize * sector) (sectorSize * (count - 1)) :=
    Transfer.copyFrom_moved ht
  have hlast : copyFrom (sdhRead t' (s.card drive) s.tmp 0 ((sector + count - 1) % 2 ^ 32) 1)
      0 sectorSize =
      copyFrom (s.card drive) (sectorSize * sector + sectorSize * (count - 1)) sectorSize := by
    rw [← last_sector hpos hsec]
    exact Transfer.copyFrom_moved (n := 1) ht'
  have hlen : (copyFrom (s.card drive) (sectorSize * sector) (sectorSize * (count - 1))).length =
      sectorSize * (count - 1) := length_copyFrom
  unfold readDrive
  rw [if_pos hshift, if_neg hcount]
  dsimp only
  rw [hfirst, hlast, sdhRead, Transfer.moved_ok ht, tmpStartBufAddr_eq hpos hbuff,
    sectors_split hpos, copyFrom_add, ← copyTo_append, hlen]

theorem readLaw_iff (hpos : 1 ≤ count) (hbuff : buff + sectorSize * count ≤ 2 ^ 32)
    (hsec : sector + count ≤ 2 ^ 32) :
    ReadLaw drive buff sector count s (readDrive drive buff sector count t t' s) ↔
      Whole buff count ∨ ¬ Hidden t t' := by
  unfold ReadLaw
  by_cases hwhole : Whole buff count
  · refine iff_of_true ?_ (.inl hwhole)
    unfold readDrive
    by_cases hshift : buff % 4 ≠ 0
    · obtain rfl : count = 1 := hwhole.resolve_left hshift
      rw [if_pos hshift, if_pos rfl]
      intro ht
      have hread : copyFrom (sdhRead t (s.card drive) s.tmp 0 sector 1) 0 (1 * sectorSize) =
          copyFrom (s.card drive) (sectorSize * sector) (sectorSize * 1) := by
        rw [Nat.mul_comm 1]
        exact Transfer.copyFrom_moved ht
      refine ⟨List.forall_mem_singleton.mpr ht, ?_, fun k hk => ?_⟩
      · show copyFrom (copyTo _ _ (copyFrom _ _ _)) _ _ = _
        rw [hread]
        exact copyFrom_copyTo length_copyFrom
      · exact copyTo_of_not (by rw [length_copyFrom, Nat.mul_comm 1]; exact hk)
    · rw [if_neg hshift]
      intro ht
      exact ⟨List.forall_mem_singleton.mpr ht, Transfer.copyFrom_moved ht, fun k hk =>
        Transfer.moved_of_not hk⟩
  · obtain ⟨hshift, hcount⟩ := not_or.mp hwhole
    have hret : (readDrive drive buff sector count t t' s).ret = t'.ret := by
      rw [readDrive, if_pos hshift, if_neg hcount]
    have hrets : (readDrive drive buff sector count t t' s).rets = [t.ret, t'.ret] := by
      rw [readDrive, if_pos hshift, if_neg hcount]
    rw [hret, hrets]
    constructor
    · intro h
      exact .inr fun hid => hid.1 ((h hid.2).1 _ List.mem_cons_self)
    · intro h ht'
      have ht : t.ret = 0 := by
        by_contra hne
        exact h.resolve_left hwhole ⟨hne, ht'⟩
      have hlen : (copyFrom (s.card drive) (sectorSize * sector)
          (sectorSize * (count - 1))).length = sectorSize * (count - 1) := length_copyFrom
      have hlen' : (copyFrom (s.card drive) (sectorSize * sector) (sectorSize * count)).length =
          sectorSize * count := length_copyFrom
      have hsize := sectors_split hpos
      have h512 : sectorSize = 512 := rfl
      rw [readDrive_split hpos hwhole hbuff hsec ht ht']
      refine ⟨by simp [ht, ht'], copyFrom_copyTo hlen', fun k hk => ?_⟩
      rw [copyTo_of_not (by rw [hlen']; exact hk), copyTo_of_not (by rw [hlen]; omega)]

/-- A split write of which both parts succeed -/
theorem writeDrive_split (hpos : 1 ≤ count) (hsplit : ¬ Whole buff count)
    (hbuff : buff + sectorSize * count ≤ 2 ^ 32) (hsec : sector + count ≤ 2 ^ 32)
    (ht : t.ret = 0) (ht' : t'.ret = 0) :
    (writeDrive drive buff sector count t t' s).state.card drive =
      copyTo (s.card drive) (sectorSize * sector) (copyFrom s.mem buff (sectorSize * count)) := by
  obtain ⟨hshift, hcount⟩ := not_or.mp hsplit
  have hlen : (copyFrom s.mem buff (sectorSize * (count - 1))).length = sectorSize * (count - 1) :=
    length_copyFrom
  have hup : buff ≤ tmpStartBufAddr buff := by
    rw [tmpStartBufAddr_eq hpos hbuff]
    exact Nat.le_add_right _ _
  have hfirst : sdhWrite t (shiftUp (tmpStartBufAddr buff) buff (sectorSize * (count - 1)) s.mem)
      (s.card drive) (tmpStartBufAddr buff) sector (count - 1) =
      copyTo (s.card drive) (sectorSize * sector)
        (copyFrom s.mem buff (sectorSize * (count - 1))) := by
    rw [sdhWrite, Transfer.moved_ok ht, shiftUp_eq hup, copyFrom_copyTo hlen]
  have hlast (card : Bytes) : sdhWrite t'
      (copyTo s.tmp 0 (copyFrom s.mem (buff + sectorSize * (count - 1)) sectorSize)) card 0
      ((sector + count - 1) % 2 ^ 32) 1 =
      copyTo card (sectorSize * sector + sectorSize * (count - 1))
        (copyFrom s.mem (buff + sectorSize * (count - 1)) sectorSize) := by
    rw [sdhWrite, Transfer.moved_ok ht', Nat.mul_one, copyFrom_copyTo length_copyFrom,
      last_sector hpos hsec]
  unfold writeDrive
  rw [if_pos hshift, if_neg hcount]
  dsimp only
  rw [Function.update_self, hfirst, hlast, sectors_split hpos, copyFrom_add, ← copyTo_append, hlen]

theorem writeLaw_iff (hpos : 1 ≤ count) (hbuff : buff + sectorSize * count ≤ 2 ^ 32)
    (hsec : sector + count ≤ 2 ^ 32) :
    WriteLaw drive buff sector count s (writeDrive drive buff sector count t t' s) ↔
      Whole buff count ∨ ¬ Hidden t t' ∧ Periodic buff count s.mem := by
  unfold WriteLaw
  by_cases hwhole : Whole buff count
  · refine iff_of_true ?_ (.inl hwhole)
    unfold writeDrive
    by_cases hshift : buff % 4 ≠ 0
    · obtain rfl : count = 1 := hwhole.resolve_left hshift
      rw [if_pos hshift, if_pos rfl]
      refine ⟨fun ht => ⟨List.forall_mem_singleton.mpr ht, ?_⟩, rfl⟩
      dsimp only
      rw [Function.update_self, sdhWrite, Transfer.copyFrom_moved ht, Nat.mul_comm 1]
      exact copyFrom_copyTo length_copyFrom
    · rw [if_neg hshift]
      refine ⟨fun ht => ⟨List.forall_mem_singleton.mpr ht, ?_⟩, rfl⟩
      dsimp only
      rw [Function.update_self]
      exact Transfer.copyFrom_moved ht
  · obtain ⟨hshift, hcount⟩ := not_or.mp hwhole
    have hret : (writeDrive drive buff sector count t t' s).ret = t'.ret := by
      rw [writeDrive, if_pos hshift, if_neg hcount]
    have hrets : (writeDrive drive buff sector count t t' s).rets = [t.ret, t'.ret] := by
      rw [writeDrive, if_pos hshift, if_neg hcount]
    have hmem : (writeDrive drive buff sector count t t' s).state.mem =
        copyTo s.mem (buff + (4 - buff % 4))
          (copyFrom s.mem buff (sectorSize * (count - 1))) := by
      rw [writeDrive, if_pos hshift, if_neg hcount]
      dsimp only
      rw [tmpStartBufAddr_eq hpos hbuff, shiftUp_eq (Nat.le_add_right _ _)]
    rw [hret, hrets, hmem, shifted_eq_iff hpos, or_iff_right hwhole]
    refine and_congr_left fun _ => ?_
    constructor
    · intro h hid
      exact hid.1 ((h hid.2).1 _ List.mem_cons_self)
    · intro h ht'
      have ht : t.ret = 0 := by
        by_contra hne
        exact h ⟨hne, ht'⟩
      rw [writeDrive_split hpos hwhole hbuff hsec ht ht']
      exact ⟨by simp [ht, ht'], copyFrom_copyTo length_copyFrom⟩

end Faithful

/-- A request that is split is not faithful where its second transfer hides that the first one
failed; and a write also leaves the caller's buffer moved unless its bytes repeat. -/
theorem diskIo_law_iff (pdrv buff sector count : Nat) (t t' : Transfer) (s : State)
    (hdrv : pdrv ≤ 1) (hpos : 1 ≤ count) (hbuff : buff + sectorSize * count ≤ 2 ^ 32)
    (hsec : sector + count ≤ 2 ^ 32) :
    ((∃ d, diskRead pdrv buff sector count t t' s = some d ∧ ReadLaw pdrv buff sector count s d) ↔
      Whole buff count ∨ ¬ Hidden t t') ∧
    ((∃ d, diskWrite pdrv buff sector count t t' s = some d ∧
        WriteLaw pdrv buff sector count s d) ↔
      Whole buff count ∨ ¬ Hidden t t' ∧ Periodic buff count s.mem) := by
  have hread : diskRead pdrv buff sector count t t' s =
      some (readDrive pdrv buff sector count t t' s) := by
    obtain rfl | rfl : pdrv = 0 ∨ pdrv = 1 := by omega
    · rfl
    · rfl
  have hwrite : diskWrite pdrv buff sector count t t' s =
      some (writeDrive pdrv buff sector count t t' s) := by
    obtain rfl | rfl : pdrv = 0 ∨ pdrv = 1 := by omega
    · rfl
    · rfl
  rw [hread, hwrite]
  simp only [Option.some.injEq, exists_eq_left']
  exact ⟨readLaw_iff hpos hbuff hsec, writeLaw_iff hpos hbuff hsec⟩

/-- A buffer that holds every byte at the places of its value -/
def ramp : State := ⟨BitVec.ofNat 8, fun _ => 0, fun _ _ => 0⟩

def done : Transfer := ⟨0, []⟩

def failed : Transfer := ⟨1, []⟩

/-- Four sectors at an address that is divisible by four -/
theorem diskIo_law_iff_aligned :
    (∃ d, diskRead 0 4096 7 4 done done ramp = some d ∧ ReadLaw 0 4096 7 4 ramp d) ∧
      ∃ d, diskWrite 0 4096 7 4 done done ramp = some d ∧ WriteLaw 0 4096 7 4 ramp d := by
  obtain ⟨hread, hwrite⟩ := diskIo_law_iff 0 4096 7 4 done done ramp (by decide) (by decide)
    (by decide) (by decide)
  exact ⟨hread.mpr (.inl (.inl rfl)), hwrite.mpr (.inl (.inl rfl))⟩

/-- Two sectors at an odd address: the failure of the first transfer is not reported, and a write
that succeeds moves the bytes. -/
theorem not_diskIo_law_odd :
    ¬ (∃ d, diskRead 0 4097 7 2 failed done ramp = some d ∧ ReadLaw 0 4097 7 2 ramp d) ∧
      ¬ ∃ d, diskWrite 0 4097 7 2 done done ramp = some d ∧ WriteLaw 0 4097 7 2 ramp d := by
  have hsplit : ¬ Whole 4097 2 := by unfold Whole; decide
  constructor
  · rintro ⟨_, ⟨⟩, hlaw⟩
    have hcond := (readLaw_iff (by decide) (by decide) (by decide)).mp hlaw
    exact hcond.resolve_left hsplit ⟨by decide, rfl⟩
  · rintro ⟨_, ⟨⟩, hlaw⟩
    have hcond := (writeLaw_iff (by decide) (by decide) (by decide)).mp hlaw
    exact absurd ((hcond.resolve_left hsplit).2 0 (by decide)) (by decide)

end Ma35d1.Sdh.DiskIo

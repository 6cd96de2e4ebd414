import Ma35d1.UsbHost.Msc.Transfer

/-!
# What a successful read or write means

`do_scsi_command` looks at the status of the UTRs and at the last byte of the status block.
How much was moved, how long the status block is, and its signature, tag and residue are not
looked at, and a sector is taken to have 512 bytes.
-/

namespace Ma35d1.UsbHost.Msc

variable {dev : Nat → BulkOutcome} {o : BulkOutcome} {io : Io} {s : Umas} {msc : Addr}
  {lun : BitVec 8} {buff : Buffer} {len : BitVec 32} {bIsDataIn : Bool}

/-! ## One transfer -/

namespace BulkOutcome

/-- The transfer is done in time without an error. -/
def Ok (o : BulkOutcome) : Prop := o.alloc = true ∧ 0 ≤ o.ret ∧ ∃ status, o.done = some status ∧ 0 ≤ status

/-- `usbh_bulk_xfer` does not take the UTR. -/
def Refused (o : BulkOutcome) : Prop := o.alloc = true ∧ o.ret < 0

end BulkOutcome

theorem mscBulkTransfer_nonneg_iff (o : BulkOutcome) (io : Io) :
    0 ≤ (mscBulkTransfer o io).1 ↔ o.Ok := by
  have hmem : ¬ 0 ≤ usbhErrMemoryOut := by decide
  have htime : ¬ 0 ≤ usbhErrTimeout := by decide
  unfold mscBulkTransfer BulkOutcome.Ok
  by_cases halloc : o.alloc = false
  · rw [if_pos halloc, halloc]
    exact ⟨fun h => absurd h hmem, nofun⟩
  rw [if_neg halloc]
  by_cases hret : o.ret < 0
  · rw [if_pos hret]
    exact ⟨fun h => absurd h (Int.not_le.2 hret), fun h => absurd hret (Int.not_lt.2 h.2.1)⟩
  rw [if_neg hret]
  have halloc := Bool.eq_true_of_not_eq_false halloc
  cases hdone : o.done with
  | none => exact ⟨fun h => absurd h htime, fun ⟨_, _, _, h, _⟩ => nomatch h⟩
  | some status =>
    exact ⟨fun h => ⟨halloc, Int.not_lt.1 hret, status, rfl, h⟩,
      fun ⟨_, _, _, h, h'⟩ => Option.some.inj h ▸ h'⟩

theorem BulkOutcome.Refused.not_ok (h : o.Refused) : ¬ o.Ok := fun hok =>
  absurd h.2 (Int.not_lt.2 hok.2.1)

/-- A UTR that is refused is not freed. -/
theorem mscBulkTransfer_utrUsed (io : Io) (h : o.Refused) :
    (mscBulkTransfer o io).2.utrUsed = io.utrUsed + 1 := by
  unfold mscBulkTransfer
  rw [if_neg (by rw [h.1]; nofun), if_pos h.2]

theorem mscBulkTransfer_utrUsed_of_not (io : Io) (h : ¬ o.Refused) :
    (mscBulkTransfer o io).2.utrUsed = io.utrUsed := by
  unfold mscBulkTransfer
  split
  · rfl
  · rename_i halloc
    rw [if_neg fun hret => h ⟨Bool.eq_true_of_not_eq_false halloc, hret⟩]
    split <;> rfl

theorem mscBulkTransfer_pos : (mscBulkTransfer o io).2.pos = io.pos + 1 := by
  unfold mscBulkTransfer
  split
  · rfl
  · split
    · rfl
    · split <;> rfl

theorem mscBulkTransfer_cmdStatus : (mscBulkTransfer o io).2.cmdStatus = io.cmdStatus := by
  unfold mscBulkTransfer
  split
  · rfl
  · split
    · rfl
    · split <;> rfl

/-! ## One command -/

/-- The transfer that brings the status. -/
def statusOutcome (dev : Nat → BulkOutcome) (pos : Nat) (len : BitVec 32) : BulkOutcome :=
  if len = 0 then dev (pos + 1) else dev (pos + 2)

/-- No transfer of a command fails and the last byte of the status block is 0, which it may be
from before. -/
structure Answered (dev : Nat → BulkOutcome) (io : Io) (msc : Addr) (len : BitVec 32) : Prop where
  command : (dev io.pos).Ok
  data : len ≠ 0 → (dev (io.pos + 1)).Ok
  status : (statusOutcome dev io.pos len).Ok
  passed : (statusOutcome dev io.pos len).received (io.cmdStatus msc) 12 = 0

/-- No UTR of a command is refused. -/
structure NotRefused (dev : Nat → BulkOutcome) (pos : Nat) (len : BitVec 32) : Prop where
  command : ¬ (dev pos).Refused
  data : (dev pos).Ok → len ≠ 0 → ¬ (dev (pos + 1)).Refused
  status : (dev pos).Ok → (len ≠ 0 → (dev (pos + 1)).Ok) → ¬ (statusOutcome dev pos len).Refused

theorem dataPhase_nonneg_iff (dev : Nat → BulkOutcome) (buff : Buffer) (len : BitVec 32)
    (bIsDataIn : Bool) (io : Io) :
    0 ≤ (dataPhase dev buff len bIsDataIn io).1 ↔ (len ≠ 0 → (dev io.pos).Ok) := by
  unfold dataPhase
  split
  · rename_i h
    exact ⟨fun _ hne => absurd h hne, fun _ => Int.le_refl 0⟩
  · rename_i h
    exact (mscBulkTransfer_nonneg_iff _ io).trans ⟨fun ho _ => ho, fun ho => ho h⟩

theorem dataPhase_utrUsed_iff (dev : Nat → BulkOutcome) (buff : Buffer) (len : BitVec 32)
    (bIsDataIn : Bool) (io : Io) :
    (dataPhase dev buff len bIsDataIn io).2.2.utrUsed = io.utrUsed ↔
      (len ≠ 0 → ¬ (dev io.pos).Refused) := by
  unfold dataPhase
  split
  · rename_i h
    exact ⟨fun _ hne => absurd h hne, fun _ => rfl⟩
  · rename_i h
    by_cases href : (dev io.pos).Refused
    · refine iff_of_false (fun hused => ?_) fun hne => hne h href
      exact absurd ((mscBulkTransfer_utrUsed io href).symm.trans hused) (Nat.succ_ne_self _)
    · exact iff_of_true (mscBulkTransfer_utrUsed_of_not io href) fun _ => href

theorem dataPhase_io (dev : Nat → BulkOutcome) (buff : Buffer) (len : BitVec 32)
    (bIsDataIn : Bool) (io : Io) :
    (dataPhase dev buff len bIsDataIn io).2.2.cmdStatus = io.cmdStatus ∧
      dev (dataPhase dev buff len bIsDataIn io).2.2.pos =
        if len = 0 then dev io.pos else dev (io.pos + 1) := by
  unfold dataPhase
  split
  · exact ⟨rfl, rfl⟩
  · exact ⟨mscBulkTransfer_cmdStatus, congrArg dev mscBulkTransfer_pos⟩

theorem umasErrCmdStatus_neg : umasErrCmdStatus < 0 := by decide

theorem statusPhase_eq_zero_iff : (statusPhase dev msc io).1 = 0 ↔
    (dev io.pos).Ok ∧ (dev io.pos).received (io.cmdStatus msc) 12 = 0 := by
  unfold statusPhase
  dsimp only
  rw [← mscBulkTransfer_nonneg_iff (dev io.pos) io]
  split
  · rename_i h
    exact ⟨fun h' => absurd h' (by omega), fun h' => absurd h'.1 (by omega)⟩
  · rename_i h
    split
    · rename_i hne
      exact ⟨fun h' => absurd h' umasErrCmdStatus_neg.ne, fun h' => absurd h'.2 hne⟩
    · rename_i heq
      exact ⟨fun _ => ⟨by omega, not_not.1 heq⟩, fun _ => rfl⟩

theorem statusPhase_nonpos : (statusPhase dev msc io).1 ≤ 0 := by
  unfold statusPhase
  dsimp only
  split
  · omega
  · split
    · exact umasErrCmdStatus_neg.le
    · exact Int.le_refl 0

theorem statusPhase_utrUsed :
    (statusPhase dev msc io).2.utrUsed = (mscBulkTransfer (dev io.pos) io).2.utrUsed := by
  unfold statusPhase
  dsimp only
  split
  · rfl
  · split <;> rfl

theorem statusOutcome_eq (dev : Nat → BulkOutcome) (pos : Nat) (len : BitVec 32) :
    statusOutcome dev pos len = if len = 0 then dev (pos + 1) else dev (pos + 1 + 1) := rfl

/-- A command never succeeds by halves: its result is 0 or an error. -/
theorem doScsiCommand_nonpos (dev : Nat → BulkOutcome) (msc : Addr) (lun : BitVec 8)
    (buff : Buffer) (len : BitVec 32) (bIsDataIn : Bool) (io : Io) :
    (doScsiCommand dev msc lun buff len bIsDataIn io).1 ≤ 0 := by
  unfold doScsiCommand
  dsimp only
  split
  · rename_i h
    exact h.le
  · split
    · rename_i h
      exact h.le
    · exact statusPhase_nonpos

/-- Success is exactly that no transfer failed and the last status byte is 0. -/
theorem doScsiCommand_eq_zero_iff (dev : Nat → BulkOutcome) (msc : Addr) (lun : BitVec 8)
    (buff : Buffer) (len : BitVec 32) (bIsDataIn : Bool) (io : Io) :
    (doScsiCommand dev msc lun buff len bIsDataIn io).1 = 0 ↔ Answered dev io msc len := by
  unfold doScsiCommand
  dsimp only
  generalize hio : io.stamp msc lun len = io'
  have hpos : io'.pos = io.pos := by rw [← hio, Io.stamp]
  have hstatus : io'.cmdStatus = io.cmdStatus := by rw [← hio, Io.stamp]
  rw [hpos]
  by_cases hcmd : (dev io.pos).Ok
  · have hnonneg := (mscBulkTransfer_nonneg_iff (dev io.pos) io').2 hcmd
    rw [if_neg (Int.not_lt.2 hnonneg)]
    have hpos1 : (mscBulkTransfer (dev io.pos) io').2.pos = io.pos + 1 := by
      rw [mscBulkTransfer_pos, hpos]
    have hd := dataPhase_nonneg_iff dev buff len bIsDataIn (mscBulkTransfer (dev io.pos) io').2
    rw [hpos1] at hd
    by_cases hdata : len ≠ 0 → (dev (io.pos + 1)).Ok
    · rw [if_neg (Int.not_lt.2 (hd.2 hdata)), statusPhase_eq_zero_iff]
      obtain ⟨hst, hdev⟩ := dataPhase_io dev buff len bIsDataIn (mscBulkTransfer (dev io.pos) io').2
      rw [hst, hdev, mscBulkTransfer_cmdStatus, hstatus, hpos1, ← statusOutcome_eq]
      exact ⟨fun h => ⟨hcmd, hdata, h.1, h.2⟩, fun h => ⟨h.status, h.passed⟩⟩
    · have hneg := Int.not_le.1 (mt hd.1 hdata)
      rw [if_pos hneg]
      exact ⟨fun h => absurd h hneg.ne, fun h => absurd h.data hdata⟩
  · have hneg := Int.not_le.1 (mt (mscBulkTransfer_nonneg_iff (dev io.pos) io').1 hcmd)
    rw [if_pos hneg]
    exact ⟨fun h => absurd h hneg.ne, fun h => absurd h.command hcmd⟩

/-- The UTRs of a command are all freed exactly when none is refused. -/
theorem doScsiCommand_utrUsed_iff (dev : Nat → BulkOutcome) (msc : Addr) (lun : BitVec 8)
    (buff : Buffer) (len : BitVec 32) (bIsDataIn : Bool) (io : Io) :
    (doScsiCommand dev msc lun buff len bIsDataIn io).2.2.utrUsed = io.utrUsed ↔
      NotRefused dev io.pos len := by
  unfold doScsiCommand
  dsimp only
  generalize hio : io.stamp msc lun len = io'
  have hpos : io'.pos = io.pos := by rw [← hio, Io.stamp]
  have hused : io'.utrUsed = io.utrUsed := by rw [← hio, Io.stamp]
  rw [hpos, ← hused]
  by_cases href : (dev io.pos).Refused
  · rw [if_pos (Int.not_le.1 (mt (mscBulkTransfer_nonneg_iff _ _).1 href.not_ok))]
    have hmore := mscBulkTransfer_utrUsed io' href
    exact iff_of_false (fun h => absurd (hmore.symm.trans h) (Nat.succ_ne_self _))
      fun h => h.command href
  have hused1 := mscBulkTransfer_utrUsed_of_not io' href
  by_cases hcmd : (dev io.pos).Ok
  · rw [if_neg (Int.not_lt.2 ((mscBulkTransfer_nonneg_iff _ _).2 hcmd))]
    have hpos1 : (mscBulkTransfer (dev io.pos) io').2.pos = io.pos + 1 := by
      rw [mscBulkTransfer_pos, hpos]
    generalize (mscBulkTransfer (dev io.pos) io').2 = io1 at hused1 hpos1 ⊢
    have hd := dataPhase_nonneg_iff dev buff len bIsDataIn io1
    have hdused := dataPhase_utrUsed_iff dev buff len bIsDataIn io1
    rw [hpos1] at hd hdused
    rw [hused1] at hdused
    by_cases hdata : len ≠ 0 → (dev (io.pos + 1)).Ok
    · have hdref : len ≠ 0 → ¬ (dev (io.pos + 1)).Refused := fun hl hr => hr.not_ok (hdata hl)
      have hdused := hdused.2 hdref
      rw [if_neg (Int.not_lt.2 (hd.2 hdata)), statusPhase_utrUsed]
      have hdev := (dataPhase_io dev buff len bIsDataIn io1).2
      rw [hpos1, ← statusOutcome_eq] at hdev
      rw [hdev, ← hdused]
      by_cases hst : (statusOutcome dev io.pos len).Refused
      · rw [mscBulkTransfer_utrUsed _ hst]
        exact iff_of_false (Nat.succ_ne_self _) fun h => h.status hcmd hdata hst
      · rw [mscBulkTransfer_utrUsed_of_not _ hst]
        exact iff_of_true rfl ⟨href, fun _ => hdref, fun _ _ => hst⟩
    · rw [if_pos (Int.not_le.1 (mt hd.1 hdata)), hdused]
      exact ⟨fun h => ⟨href, fun _ => h, fun _ h' => absurd h' hdata⟩, fun h => h.data hcmd⟩
  · rw [if_pos (Int.not_le.1 (mt (mscBulkTransfer_nonneg_iff _ _).1 hcmd))]
    exact iff_of_true hused1 ⟨href, fun h => absurd h hcmd, fun h => absurd h hcmd⟩

/-! ## Reading and writing -/

/-- The number at byte `i` of a buffer. -/
def le32 (b : Buffer) (i : Nat) : BitVec 32 := b (i + 3) ++ b (i + 2) ++ b (i + 1) ++ b i

/-- A full status block that reports success for the command `tag`. -/
structure GoodStatus (o : BulkOutcome) (tag : BitVec 32) : Prop where
  length : o.xferLen = mscCsWrapLen
  signature : le32 o.data 0 = mscCsSign
  tag : le32 o.data 4 = tag
  residue : le32 o.data 8 = 0
  status : o.data 12 = 0

/-- The bytes moved by the data transfer of a command. -/
def moved (dev : Nat → BulkOutcome) (pos : Nat) (len : BitVec 32) : Nat :=
  if len = 0 then 0 else (dev (pos + 1)).xferLen

/-- All sectors were moved, and after them the device reported so. -/
structure Performed (dev : Nat → BulkOutcome) (io : Io) (msc : Addr) (secCnt : Int) : Prop where
  moved : (moved dev io.pos (rwLength secCnt) : Int) = secCnt * (io.nSectorSize msc).toNat
  status : GoodStatus (statusOutcome dev io.pos (rwLength secCnt)) io.tag

/-- A call that returned `r` reported success only for what the device did, and kept no UTR. -/
structure Truthful (dev : Nat → BulkOutcome) (s : Umas) (drvNo secCnt : Int)
    (r : Int × Buffer × Umas) : Prop where
  success : r.1 = 0 →
    ∃ msc, s.slots.findMscByDrive drvNo = some msc ∧ Performed dev s.io msc secCnt
  utrUsed : r.2.2.io.utrUsed = s.io.utrUsed

/-- No UTR is refused, and where no transfer fails and the status byte is 0 the sectors were
moved and the status block is good. -/
def Reliable (dev : Nat → BulkOutcome) (s : Umas) (drvNo secCnt : Int) : Prop :=
  ∀ msc, s.slots.findMscByDrive drvNo = some msc →
    NotRefused dev s.io.pos (rwLength secCnt) ∧
      (Answered dev s.io msc (rwLength secCnt) → Performed dev s.io msc secCnt)

theorem answered_command {flags length : BitVec 8} {cdb : Buffer} :
    Answered dev (io.command msc flags length cdb) msc len ↔ Answered dev io msc len :=
  ⟨fun h => ⟨h.command, h.data, h.status, h.passed⟩,
    fun h => ⟨h.command, h.data, h.status, h.passed⟩⟩

theorem umasErrIo_ne : umasErrIo ≠ 0 := by decide

/-- A command that fails makes the call fail. -/
theorem truthful_iff_of_found {drvNo secCnt : Int} {r : Int × Buffer × Umas}
    (hmsc : s.slots.findMscByDrive drvNo = some msc)
    (hr : r.1 = 0 ↔ Answered dev s.io msc (rwLength secCnt))
    (hu : r.2.2.io.utrUsed = s.io.utrUsed ↔ NotRefused dev s.io.pos (rwLength secCnt)) :
    Truthful dev s drvNo secCnt r ↔ Reliable dev s drvNo secCnt := by
  constructor
  · intro h msc' hmsc'
    obtain rfl := Option.some.inj (hmsc.symm.trans hmsc')
    refine ⟨hu.1 h.utrUsed, fun ha => ?_⟩
    obtain ⟨msc', hmsc', hp⟩ := h.success (hr.2 ha)
    obtain rfl := Option.some.inj (hmsc.symm.trans hmsc')
    exact hp
  · intro h
    obtain ⟨hn, hp⟩ := h msc hmsc
    exact ⟨fun h0 => ⟨msc, hmsc, hp (hr.1 h0)⟩, hu.2 hn⟩

theorem umasErrDriveNotFound_ne : umasErrDriveNotFound ≠ 0 := by decide

theorem usbhUmasRead_truthful_iff (dev : Nat → BulkOutcome) (s : Umas) (drvNo : Int)
    (secNo : BitVec 32) (secCnt : Int) (buff : Buffer) :
    Truthful dev s drvNo secCnt (usbhUmasRead dev drvNo secNo secCnt buff s) ↔
      Reliable dev s drvNo secCnt := by
  unfold usbhUmasRead
  cases hmsc : s.slots.findMscByDrive drvNo with
  | none =>
    refine iff_of_true ⟨fun h => absurd h umasErrDriveNotFound_ne, rfl⟩ fun msc h => ?_
    rw [hmsc] at h
    cases h
  | some msc =>
    dsimp only
    have hzero := doScsiCommand_eq_zero_iff dev msc (s.slots.lun msc) buff (rwLength secCnt) true
      (s.io.command msc 0x80 10
        (rwCdb read10 (s.slots.lun msc) secNo (BitVec.ofInt 32 secCnt)))
    have hused := doScsiCommand_utrUsed_iff dev msc (s.slots.lun msc) buff (rwLength secCnt) true
      (s.io.command msc 0x80 10
        (rwCdb read10 (s.slots.lun msc) secNo (BitVec.ofInt 32 secCnt)))
    rw [answered_command] at hzero
    split
    · rename_i hne
      exact truthful_iff_of_found hmsc (iff_of_false umasErrIo_ne (mt hzero.2 hne)) hused
    · rename_i heq
      exact truthful_iff_of_found hmsc (iff_of_true rfl (hzero.1 (not_not.1 heq))) hused

/-- Only a negative result makes a write fail; there is no other error. -/
theorem usbhUmasWrite_truthful_iff (dev : Nat → BulkOutcome) (s : Umas) (drvNo : Int)
    (secNo : BitVec 32) (secCnt : Int) (buff : Buffer) :
    Truthful dev s drvNo secCnt (usbhUmasWrite dev drvNo secNo secCnt buff s) ↔
      Reliable dev s drvNo secCnt := by
  unfold usbhUmasWrite
  cases hmsc : s.slots.findMscByDrive drvNo with
  | none =>
    refine iff_of_true ⟨fun h => absurd h umasErrDriveNotFound_ne, rfl⟩ fun msc h => ?_
    rw [hmsc] at h
    cases h
  | some msc =>
    dsimp only
    generalize hio : s.io.command msc 0 10
      (rwCdb write10 (s.slots.lun msc) secNo (BitVec.ofInt 32 secCnt)) = io
    have hzero := doScsiCommand_eq_zero_iff dev msc (s.slots.lun msc) buff (rwLength secCnt) false
      io
    have hused := doScsiCommand_utrUsed_iff dev msc (s.slots.lun msc) buff (rwLength secCnt) false
      io
    rw [← hio, answered_command] at hzero
    rw [hio] at hzero
    have hpos : io.pos = s.io.pos := by rw [← hio, Io.command]
    have hio' : io.utrUsed = s.io.utrUsed := by rw [← hio, Io.command]
    rw [hpos, hio'] at hused
    split
    · rename_i hneg
      exact truthful_iff_of_found hmsc (iff_of_false umasErrIo_ne (mt hzero.2 hneg.ne)) hused
    · rename_i hnonneg
      have heq := Int.le_antisymm (doScsiCommand_nonpos ..) (Int.not_lt.1 hnonneg)
      exact truthful_iff_of_found hmsc (iff_of_true rfl (hzero.1 heq)) hused

/-- A read and a write are truthful under the same condition. -/
theorem umas_truthful_iff (dev : Nat → BulkOutcome) (s : Umas) (drvNo : Int)
    (secNo : BitVec 32) (secCnt : Int) (buff : Buffer) :
    (Truthful dev s drvNo secCnt (usbhUmasRead dev drvNo secNo secCnt buff s) ↔
        Reliable dev s drvNo secCnt) ∧
      (Truthful dev s drvNo secCnt (usbhUmasWrite dev drvNo secNo secCnt buff s) ↔
        Reliable dev s drvNo secCnt) :=
  ⟨usbhUmasRead_truthful_iff dev s drvNo secNo secCnt buff,
    usbhUmasWrite_truthful_iff dev s drvNo secNo secCnt buff⟩

/-! ## A short read -/

/-- One drive with sectors of 512 bytes. -/
def oneDrive : Umas where
  slots := ⟨fun _ => none, fun _ => 0, fun _ => 0, fun _ => 0, fun _ => 0, some 0,
    fun i => i == 0, fun a => a == 0, 1⟩
  io := ⟨7, fun _ => ⟨0, 0, 0, 0, 0, 0, fun _ => 0⟩, fun _ _ => 0, fun _ _ => 0, fun _ => 0,
    fun _ => 512, 0, 0⟩

/-- The status block of command 7: 412 bytes are missing. -/
def residueStatus : Buffer := fun i => [0x55, 0x53, 0x42, 0x53, 7, 0, 0, 0, 0x9C, 1, 0, 0, 0].getD i 0

/-- A device that sends 100 bytes of the sector, and says so. -/
def shortSector : Nat → BulkOutcome
  | 0 => ⟨true, 0, some 0, 31, fun _ => 0⟩
  | 1 => ⟨true, 0, some 0, 100, fun _ => 0xAA⟩
  | _ => ⟨true, 0, some 0, 13, residueStatus⟩

/-- The read reports success. -/
theorem shortSector_not_truthful :
    ¬ Truthful shortSector oneDrive 0 1
      (usbhUmasRead shortSector 0 0 1 (fun _ => 0) oneDrive) := by
  intro h
  have hsuccess : (usbhUmasRead shortSector 0 0 1 (fun _ => 0) oneDrive).1 = 0 := by rfl
  obtain ⟨msc, hmsc, hp⟩ := h.success hsuccess
  have hmoved := hp.moved
  have hsize : oneDrive.io.nSectorSize msc = 512 := rfl
  rw [hsize] at hmoved
  exact absurd hmoved (by decide)

end Ma35d1.UsbHost.Msc

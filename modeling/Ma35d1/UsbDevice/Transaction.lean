import Ma35d1.UsbDevice.MassStorage

/-!
# Transactions

What a command block is to bring about: one status with its tag and a residue that says what was
not moved, the sectors that it names, and no byte of anything else.
-/

namespace Ma35d1.UsbDevice

open Ma35d1.Machine.Memory

def gStorageSize : Nat := gTotalSectors * usbdSectorSize

/-- Byte `k` of the storage -/
def Msc.storage (s : Msc) (k : Nat) : Option (BitVec 8) :=
  if k < gStorageSize then some (s.mem (gStorageBase + BitVec.ofNat 32 k)) else none

/-- The place is in the storage, in the reply that the command has built, or in the inquiry
data. -/
def Msc.Inside (s : Msc) : Place → Prop
  | .memory a => (a - gStorageBase).toNat < gStorageSize ∨ (a - gMassBase).toNat < s.filled
  | .inquiry i => i < inquiryId.length

/-- The first sector that a READ or WRITE names -/
def Cbw.firstSector (cbw : Cbw) : Nat := (cbw.getBe32 0).toNat

/-- How many sectors it names: 16 bits in the forms of 10 bytes, 32 in those of 12 -/
def Cbw.sectors (cbw : Cbw) : Nat :=
  if cbw.opCode = 0x28 ∨ cbw.opCode = 0x2a then (cbw.au8Data 5 ++ cbw.au8Data 6).toNat
  else (cbw.getBe32 4).toNat

def Cbw.len (cbw : Cbw) : Nat := cbw.dataTransferLength.toNat

/-- A READ or WRITE whose direction is that of the data stage -/
def Cbw.IsRead (cbw : Cbw) : Prop := (cbw.opCode = 0x28 ∨ cbw.opCode = 0xa8) ∧ cbw.flags = 0x80

def Cbw.IsWrite (cbw : Cbw) : Prop := (cbw.opCode = 0x2a ∨ cbw.opCode = 0xaa) ∧ cbw.flags = 0x00

/-- The data stage of the command that has led from `s` to `t`. -/
structure DataLaw (cbw : Cbw) (out : Nat → BitVec 8) (s t : Msc) : Prop where
  read : cbw.IsRead → cbw.len = cbw.sectors * usbdSectorSize →
    t.sent.map some =
      (List.range cbw.len).map fun i => s.storage (cbw.firstSector * usbdSectorSize + i)
  write : cbw.IsWrite → cbw.len = cbw.sectors * usbdSectorSize →
    (∀ i < cbw.len, t.storage (cbw.firstSector * usbdSectorSize + i) = some (out i)) ∧
      ∀ k, k < cbw.firstSector * usbdSectorSize ∨
          (cbw.firstSector + cbw.sectors) * usbdSectorSize ≤ k → t.storage k = s.storage k
  inside : ∀ p ∈ t.places, t.Inside p
  /-- nothing else of the memory has changed but where the block was received -/
  frame : ∀ a, t.mem a ≠ s.mem a → t.Inside (.memory a) ∨ (a - gMassBase).toNat < 31

structure TransactionLaw (cbw : Cbw) (out : Nat → BitVec 8) (s t : Msc) : Prop where
  csw : ∃ residue status, t.csws = [⟨cbw.tag, residue, status⟩] ∧
    residue.toNat + t.places.length = cbw.len
  data : DataLaw cbw out s t

/-- The sectors are there; where the length does not match them, the bytes are that it names. -/
def InRange (cbw : Cbw) : Prop :=
  if cbw.len = cbw.sectors * usbdSectorSize then cbw.firstSector + cbw.sectors ≤ gTotalSectors
  else cbw.lbaAddress.toNat + cbw.len ≤ gStorageSize

/-- When the device keeps the law for a command block. -/
def CommandKept (cbw : Cbw) : Prop :=
  match cbw.opCode.toNat with
  | 0xa8 | 0x28 => cbw.flags = 0x80 → cbw.len = 0 ∨ InRange cbw
  | 0xaa | 0x2a =>
    if cbw.flags = 0x00 then (cbw.len = 0 ∧ cbw.dcount ≠ 0) ∨ (cbw.len ≠ 0 ∧ InRange cbw)
    else cbw.len = 0 ∨ cbw.isIn = true
  | 0x00 => cbw.len = 0 ∨ cbw.flags = 0x00
  | 0x1e | 0x1b | 0x2f | 0x9e => cbw.len = 0
  | 0x03 => cbw.len = 0 ∨ (cbw.isIn = true ∧ cbw.len ≤ 18)
  | 0x12 | 0x23 | 0x25 => cbw.len = 0 ∨ (cbw.isIn = true ∧ cbw.len ≤ 36)
  | 0x15 | 0x55 => cbw.len = 0 ∨ (cbw.isIn = false ∧ cbw.len < 2 ^ 16)
  | 0x5a => cbw.len = 0 ∨ (cbw.isIn = true ∧ cbw.len ≤
      match (cbw.au8Data 0).toNat with
      | 0x01 | 0x1b => 20
      | 0x05 => 40
      | 0x1c => 16
      | 0x3f => 72
      | _ => 8)
  | 0x1a => cbw.len = 0 ∨ (cbw.isIn = true ∧ cbw.len ≤ 4)
  | _ => cbw.len = 0 ∨ cbw.isIn = true

/-! ## The end of a command -/

section Commands

variable {cbw : Cbw} {out : Nat → BitVec 8} {s₀ s t u : Msc} {residue : BitVec 32}
  {status : BitVec 8}

/-- The data stage is to begin, and the memory is that of `s₀` but for the block received. -/
structure Started (cbw : Cbw) (s₀ s : Msc) : Prop where
  hostIn : s.hostIn = cbw.isIn
  left : s.left = cbw.len
  filled : s.filled = 0
  places : s.places = []
  sent : s.sent = []
  csws : s.csws = []
  tag : s.csw.tag = cbw.tag
  received : ∀ a, 31 ≤ (a - gMassBase).toNat → s.mem a = s₀.mem a

theorem hostSends_of_isIn (h : Started cbw s₀ s) (hin : cbw.isIn = true) :
    s.hostSends = false := by
  rw [Msc.hostSends, h.hostIn, hin]
  rfl

theorem hostSends_iff (h : Started cbw s₀ s) (hstall : s.outStall = false) :
    s.hostSends = false ↔ cbw.len = 0 ∨ cbw.isIn = true := by
  rw [Msc.hostSends, h.hostIn, h.left, hstall]
  cases cbw.isIn <;> simp

/-- The last step of a command sends the status, if the host has done with the data. -/
theorem finish_law (hcsws : u.csws = []) (htag : u.csw.tag = cbw.tag) :
    (∃ t, u.finish residue status = some t ∧ TransactionLaw cbw out s₀ t) ↔
      u.hostSends = false ∧ residue.toNat + u.places.length = cbw.len ∧
        DataLaw cbw out s₀ u := by
  have hfinish : u.finish residue status =
      if u.hostSends then none else some { u with
        csw := { u.csw with dataResidue := residue, status := status }
        csws := [⟨cbw.tag, residue, status⟩]
        bulkState := .normal } := by
    rw [← htag]
    simp [Msc.finish, Msc.ackCmd, Msc.hostSends, hcsws]
  rw [hfinish]
  constructor
  · rintro ⟨t, ht, ⟨residue', status', hcsw, hres⟩, hdata⟩
    split at ht
    · exact absurd ht (by simp)
    · rename_i hsends
      obtain rfl := Option.some.inj ht
      obtain ⟨-, rfl, rfl⟩ : cbw.tag = cbw.tag ∧ residue = residue' ∧ status = status' := by
        simpa using hcsw
      exact ⟨Bool.eq_false_iff.mpr hsends, hres, ⟨hdata.read, hdata.write, hdata.inside,
        hdata.frame⟩⟩
  · rintro ⟨hsends, hres, hdata⟩
    rw [if_neg (Bool.eq_false_iff.mp hsends)]
    exact ⟨_, rfl, ⟨_, _, rfl, hres⟩, ⟨hdata.read, hdata.write, hdata.inside, hdata.frame⟩⟩

/-- Neither READ nor WRITE moves anything when nothing is asked for. -/
def NoSectors (cbw : Cbw) : Prop := cbw.IsRead ∨ cbw.IsWrite → cbw.len = 0

/-- A byte of the storage is far from the block received. -/
theorem storage_far {k : Nat} (hk : k < gStorageSize) :
    (gStorageBase + BitVec.ofNat 32 k - gMassBase).toNat = 2 ^ 16 + k := by
  have hk' : k < 92160 := hk
  rw [show gStorageBase + BitVec.ofNat 32 k - gMassBase =
    BitVec.ofNat 32 (2 ^ 16 + k) by simp only [gStorageBase, gMassBase]; bv_omega]
  rw [BitVec.toNat_ofNat]
  omega

theorem Started.storage (h : Started cbw s₀ s) (k : Nat) : s.storage k = s₀.storage k := by
  unfold Msc.storage
  split
  · rename_i hk
    rw [h.received _ (by rw [storage_far hk]; omega)]
  · rfl

theorem Started.frame (h : Started cbw s₀ s) {a : BitVec 32} (ha : s.mem a ≠ s₀.mem a) :
    (a - gMassBase).toNat < 31 := by
  by_contra hfar
  exact ha (h.received a (by omega))

/-- No data moves. -/
theorem noData_data (h : Started cbw s₀ u) (hno : NoSectors cbw) : DataLaw cbw out s₀ u where
  read hread hmatch := by
    rw [h.sent, hno (.inl hread)]
    rfl
  write hwrite hmatch := by
    refine ⟨fun i hi => ?_, fun k _ => h.storage k⟩
    rw [hno (.inr hwrite)] at hi
    exact absurd hi (Nat.not_lt_zero i)
  inside p hp := by
    rw [h.places] at hp
    exact absurd hp (by simp)
  frame _ ha := .inr (h.frame ha)

theorem noData_law (h : Started cbw s₀ u) (hno : NoSectors cbw) :
    (∃ t, u.finish residue status = some t ∧ TransactionLaw cbw out s₀ t) ↔
      u.hostSends = false ∧ residue.toNat = cbw.len := by
  rw [finish_law h.csws h.tag, h.places]
  constructor
  · rintro ⟨hsends, hres, -⟩
    exact ⟨hsends, hres⟩
  · rintro ⟨hsends, hres⟩
    exact ⟨hsends, hres, noData_data h hno⟩

/-- A status that leaves no residue -/
theorem noResidue_law (h : Started cbw s₀ u) (hstall : u.outStall = false)
    (hno : NoSectors cbw) :
    (∃ t, u.finish 0 status = some t ∧ TransactionLaw cbw out s₀ t) ↔ cbw.len = 0 := by
  rw [noData_law h hno, hostSends_iff h hstall]
  constructor
  · rintro ⟨-, hlen⟩
    exact hlen.symm
  · intro hlen
    exact ⟨.inl hlen, hlen.symm⟩

/-- A status that leaves all of the data -/
theorem allResidue_law (h : Started cbw s₀ u) (hno : NoSectors cbw) :
    (∃ t, u.finish cbw.dataTransferLength status = some t ∧ TransactionLaw cbw out s₀ t) ↔
      u.hostSends = false := by
  rw [noData_law h hno]
  exact and_iff_left rfl

/-! ## Replies -/

theorem forall_memoryAt {P : Place → Prop} {a : BitVec 32} {n : Nat} :
    (∀ p ∈ memoryAt a n, P p) ↔ ∀ x ∈ addrs a n, P (.memory x) := by
  simp [memoryAt]

@[simp] theorem length_memoryAt {a : BitVec 32} {n : Nat} : (memoryAt a n).length = n := by
  rw [memoryAt, List.length_map, length_addrs]

/-- The reply buffer is in front of the storage. -/
theorem reply_not_storage {a : BitVec 32} (ha : (a - gMassBase).toNat < 2 ^ 16) :
    gStorageSize ≤ (a - gStorageBase).toNat := by
  have hsize : gStorageSize = 92160 := rfl
  rw [hsize]
  simp only [gStorageBase, gMassBase] at ha ⊢
  bv_omega

/-- The data of a reply is right when no more of it is sent than was built. -/
theorem reply_data {m n : Nat} {f : Nat → BitVec 8} (h : Started cbw s₀ s)
    (hrw : ¬ (cbw.IsRead ∨ cbw.IsWrite)) (hm : m < 2 ^ 16)
    (hplaces : u.places = memoryAt gMassBase m) (hfilled : u.filled = n)
    (hmem : u.mem = store s.mem gMassBase n f) : DataLaw cbw out s₀ u ↔ m ≤ n := by
  have hbounds := forall_addrs_sub_lt (b := gMassBase) (x := 0#32) (n := m) (m := min n m)
    (by omega)
  rw [BitVec.add_zero] at hbounds
  constructor
  · intro hdata
    have hinside := hdata.inside
    rw [hplaces, forall_memoryAt] at hinside
    have hwithin : ∀ x ∈ addrs gMassBase m, (x - gMassBase).toNat < min n m := by
      intro x hx
      have hnear := (mem_addrs_iff (by omega)).mp hx
      obtain hstorage | hfill := hinside x hx
      · exact absurd hstorage (Nat.not_lt.mpr (reply_not_storage (by omega)))
      · rw [hfilled] at hfill
        exact Nat.lt_min.mpr ⟨hfill, hnear⟩
    obtain hzero | hle := hbounds.mp hwithin
    · omega
    · have hzero : (0#32).toNat = 0 := rfl
      omega
  · intro hle
    refine ⟨fun hread => absurd (.inl hread) hrw, fun hwrite => absurd (.inr hwrite) hrw, ?_, ?_⟩
    · rw [hplaces, forall_memoryAt]
      intro x hx
      have hnear := (mem_addrs_iff (by omega)).mp hx
      refine .inr ?_
      rw [hfilled]
      omega
    · intro a ha
      rw [hmem] at ha
      by_cases hfill : (a - gMassBase).toNat < n
      · exact .inl (.inr (hfilled ▸ hfill))
      · rw [store_of_le (Nat.not_lt.mp hfill)] at ha
        exact .inr (h.frame ha)

/-- How much of a reply the host takes -/
def Cbw.replied (cbw : Cbw) : Nat := if cbw.isIn then min (cbw.len % 2 ^ 16) cbw.len else 0

theorem Cbw.replied_lt (cbw : Cbw) : cbw.replied < 2 ^ 16 := by
  have hmod := Nat.mod_lt cbw.len (show 0 < 2 ^ 16 by decide)
  unfold Cbw.replied
  split <;> omega

theorem Cbw.replied_eq_iff (cbw : Cbw) (hin : cbw.len = 0 ∨ cbw.isIn = true) :
    cbw.replied = cbw.len ↔ cbw.len < 2 ^ 16 := by
  have hmod := Nat.mod_lt cbw.len (show 0 < 2 ^ 16 by decide)
  unfold Cbw.replied
  obtain hzero | hin := hin
  · rw [hzero]
    simp
  · rw [if_pos hin]
    constructor
    · intro h
      omega
    · intro h
      rw [Nat.mod_eq_of_lt h, Nat.min_self]

theorem reply_eq (h : Started cbw s₀ s) (r : List (BitVec 8)) :
    s.reply cbw r = if s.hostSends then none else
      some ((s.fill r).send (memoryAt gMassBase cbw.replied)) := by
  have hsends : (s.fill r).hostSends = s.hostSends := rfl
  have hin : (s.fill r).hostIn = cbw.isIn := h.hostIn
  have hleft : (s.fill r).left = cbw.len := h.left
  rw [Msc.reply, Msc.bulkIn, hsends, hin, hleft]
  rfl

/-- A reply that is sent, and a status without residue after it -/
theorem reply_law {r : List (BitVec 8)} (h : Started cbw s₀ s) (hstall : s.outStall = false)
    (hrw : ¬ (cbw.IsRead ∨ cbw.IsWrite)) (hr : r.length < 2 ^ 16) :
    (∃ t, (s.reply cbw r).bind (Msc.finish · 0 status) = some t ∧
        TransactionLaw cbw out s₀ t) ↔
      cbw.len = 0 ∨ (cbw.isIn = true ∧ cbw.len ≤ r.length) := by
  rw [reply_eq h]
  by_cases hsends : s.hostSends = true
  · -- the host still sends, and the device waits
    have hno : ¬ (cbw.len = 0 ∨ cbw.isIn = true) := by
      rw [← hostSends_iff h hstall, hsends]
      decide
    rw [if_pos hsends]
    constructor
    · rintro ⟨t, ht, -⟩
      exact absurd ht (by simp)
    · rintro (hlen | ⟨hin, -⟩)
      · exact absurd (.inl hlen) hno
      · exact absurd (.inr hin) hno
  have hyes := (hostSends_iff h hstall).mp (Bool.eq_false_iff.mpr hsends)
  rw [if_neg hsends, Option.bind_some]
  have hplaces : ((s.fill r).send (memoryAt gMassBase cbw.replied)).places =
      memoryAt gMassBase cbw.replied := by
    rw [Msc.send, show (s.fill r).places = [] from h.places, List.nil_append]
  have hdone : ((s.fill r).send (memoryAt gMassBase cbw.replied)).hostSends = false := by
    have hhost : ((s.fill r).send (memoryAt gMassBase cbw.replied)).hostIn = cbw.isIn := h.hostIn
    have hleft : ((s.fill r).send (memoryAt gMassBase cbw.replied)).left =
        cbw.len - cbw.replied := by
      rw [Msc.send, show (s.fill r).left = cbw.len from h.left, length_memoryAt]
    rw [Msc.hostSends, hhost, hleft]
    obtain hzero | hin := hyes
    · rw [hzero, Nat.zero_sub, bne_self_eq_false, Bool.and_false]
    · rw [hin]
      rfl
  rw [finish_law (u := (s.fill r).send (memoryAt gMassBase cbw.replied)) h.csws h.tag,
    reply_data (n := r.length) (f := fun i => r.getD i 0) h hrw cbw.replied_lt hplaces rfl rfl,
    hplaces, length_memoryAt, hdone]
  have heq := cbw.replied_eq_iff hyes
  constructor
  · rintro ⟨-, hlen, hle⟩
    have hlen' : cbw.replied = cbw.len := by simpa using hlen
    obtain hzero | hin := hyes
    · exact .inl hzero
    · exact .inr ⟨hin, by omega⟩
  · intro hkept
    have hlen : cbw.replied = cbw.len := heq.mpr (by omega)
    exact ⟨rfl, by simpa using hlen, by omega⟩

theorem requestSense_eq : s.requestSense cbw =
    ({ s with prevent := 0, senseKey := (0, 0, 0) } : Msc).reply cbw s.senseReply := by
  unfold Msc.requestSense Msc.reply Msc.bulkIn
  have hsame : ({ s with prevent := 0, senseKey := (0, 0, 0) }.fill s.senseReply).hostSends =
      ({ s with prevent := 0 }.fill s.senseReply).hostSends := rfl
  rw [hsame]
  split <;> rfl

/-- A reply of bounded length, or a halt that leaves no residue -/
theorem bounded_law {max : Nat} {reply : Msc → Option Msc} (h : Started cbw s₀ s)
    (hstall : s.outStall = false) (hno : NoSectors cbw)
    (hreply : 0 < cbw.len → cbw.len ≤ max →
      ((∃ t, (reply s).bind (Msc.finish · 0 0) = some t ∧ TransactionLaw cbw out s₀ t) ↔
        cbw.isIn = true)) :
    (∃ t, s.bounded cbw max reply = some t ∧ TransactionLaw cbw out s₀ t) ↔
      cbw.len = 0 ∨ (cbw.isIn = true ∧ cbw.len ≤ max) := by
  unfold Msc.bounded
  split
  · rename_i hlen
    obtain ⟨hpos, hmax⟩ : 0 < cbw.len ∧ cbw.len ≤ max := hlen
    rw [hreply hpos hmax]
    constructor
    · exact fun hin => .inr ⟨hin, hmax⟩
    · rintro (hzero | ⟨hin, -⟩)
      · omega
      · exact hin
  · rename_i hlen
    have hlen' : ¬ (0 < cbw.len ∧ cbw.len ≤ max) := hlen
    rw [noResidue_law (u := { s with inStall := true, prevent := 1 }) { h with } hstall hno]
    omega

theorem inquiry_law (h : Started cbw s₀ s) (hstall : s.outStall = false)
    (hrw : ¬ (cbw.IsRead ∨ cbw.IsWrite)) (hpos : 0 < cbw.len) (hmax : cbw.len ≤ 36) :
    (∃ t, (s.bulkIn inquiryBytes cbw.dataTransferLength.toNat).bind (Msc.finish · 0 0) = some t ∧
      TransactionLaw cbw out s₀ t) ↔ cbw.isIn = true := by
  have hlen : cbw.dataTransferLength.toNat = cbw.len := rfl
  rw [Msc.bulkIn]
  by_cases hsends : s.hostSends = true
  · rw [if_pos hsends]
    constructor
    · rintro ⟨t, ht, -⟩
      exact absurd ht (by simp)
    · intro hin
      rw [hostSends_of_isIn h hin] at hsends
      exact absurd hsends (by decide)
  have hin : cbw.isIn = true :=
    ((hostSends_iff h hstall).mp (Bool.eq_false_iff.mpr hsends)).resolve_left (by omega)
  have hcount : min (cbw.len % 2 ^ 16) cbw.len = cbw.len := by omega
  rw [if_neg hsends, h.hostIn, if_pos hin, h.left, hlen, hcount, Option.bind_some]
  have hplaces : (s.send (inquiryBytes cbw.len)).places = inquiryBytes cbw.len := by
    rw [Msc.send, h.places, List.nil_append]
  refine iff_of_true ?_ hin
  rw [finish_law (u := s.send (inquiryBytes cbw.len)) h.csws h.tag, hplaces]
  refine ⟨?_, ?_, ?_⟩
  · rw [Msc.hostSends, show (s.send (inquiryBytes cbw.len)).hostIn = cbw.isIn from h.hostIn, hin]
    rfl
  · simp [inquiryBytes]
  · refine ⟨fun hread => absurd (.inl hread) hrw, fun hwrite => absurd (.inr hwrite) hrw, ?_,
      fun a ha => .inr (h.frame ha)⟩
    rw [hplaces]
    intro p hp
    obtain ⟨i, hi, rfl⟩ := List.mem_map.mp hp
    exact (List.mem_range.mp hi).trans_le hmax

/-! ## Sectors -/

theorem take_frame {a : BitVec 32} {n : Nat} (h : Started cbw s₀ s) (hn : n ≤ 2 ^ 32)
    (hinside : ∀ p ∈ (s.take out a n).places, (s.take out a n).Inside p) (x : BitVec 32)
    (hx : (s.take out a n).mem x ≠ s₀.mem x) :
    (s.take out a n).Inside (.memory x) ∨ (x - gMassBase).toNat < 31 := by
  by_cases hnear : (x - a).toNat < n
  · refine .inl (hinside _ ?_)
    rw [Msc.take, h.places, List.nil_append]
    exact List.mem_map.mpr ⟨x, (mem_addrs_iff hn).mpr hnear, rfl⟩
  · have hsame : (s.take out a n).mem x = s.mem x := by
      show store s.mem a n (fun i => out (s.places.length + i)) x = s.mem x
      exact store_of_le (Nat.not_lt.mp hnear)
    exact .inr (h.frame (hsame ▸ hx))

/-- Bytes at `lba` of the storage are inside it when they end there. -/
theorem inside_iff {v : Msc} (lba : BitVec 32) (n : Nat) (hfilled : v.filled = 0) :
    (∀ p ∈ memoryAt (gStorageBase + lba) n, v.Inside p) ↔
      n = 0 ∨ lba.toNat + n ≤ gStorageSize := by
  rw [← forall_addrs_sub_lt (b := gStorageBase) (show gStorageSize < 2 ^ 32 by decide),
    forall_memoryAt]
  refine forall₂_congr fun x _ => ?_
  unfold Msc.Inside
  rw [hfilled]
  exact or_iff_left (Nat.not_lt_zero _)

theorem modeSelect_law (h : Started cbw s₀ s) (hstall : s.outStall = false)
    (hrw : ¬ (cbw.IsRead ∨ cbw.IsWrite)) :
    (∃ t, s.modeSelect out cbw = some t ∧ TransactionLaw cbw out s₀ t) ↔
      cbw.len = 0 ∨ (cbw.isIn = false ∧ cbw.len < 2 ^ 16) := by
  have hlen : cbw.dataTransferLength.toNat = cbw.len := rfl
  have hmod := Nat.mod_lt cbw.len (show 0 < 2 ^ 16 by decide)
  unfold Msc.modeSelect
  split
  · rename_i hne
    have hpos : cbw.len ≠ 0 := fun hzero => hne (BitVec.eq_of_toNat_eq hzero)
    rw [Msc.bulkOut]
    by_cases hsends : s.hostSends = true
    · have hout : cbw.isIn = false := by
        by_contra hin
        rw [hostSends_of_isIn h (Bool.not_eq_false _ |>.mp hin)] at hsends
        exact absurd hsends (by decide)
      rw [if_pos hsends, Option.bind_some, h.left, hlen]
      generalize hn : min (cbw.len % 2 ^ 16) cbw.len = n
      have hplaces : (s.take out gStorageBase n).places = memoryAt gStorageBase n := by
        rw [Msc.take, h.places, List.nil_append]
        rfl
      have hinside : ∀ p ∈ (s.take out gStorageBase n).places,
          (s.take out gStorageBase n).Inside p := by
        have hall := (inside_iff (v := s.take out gStorageBase n) 0#32 n h.filled).mpr
          (.inr (show 0 + n ≤ 92160 by omega))
        rw [BitVec.add_zero] at hall
        rw [hplaces]
        exact hall
      rw [finish_law (u := s.take out gStorageBase n) h.csws h.tag, hplaces, length_memoryAt]
      constructor
      · rintro ⟨-, hres, -⟩
        have hres' : n = cbw.len := by simpa using hres
        exact .inr ⟨hout, by omega⟩
      · intro hkept
        have hn' : n = cbw.len := by omega
        refine ⟨?_, by simpa using hn', ?_⟩
        · have hleft : (s.take out gStorageBase n).left = 0 := by
            rw [Msc.take, h.left, hn', Nat.sub_self]
          rw [Msc.hostSends, hleft, bne_self_eq_false, Bool.and_false]
        · exact ⟨fun hread => absurd (.inl hread) hrw, fun hwrite => absurd (.inr hwrite) hrw,
            hinside, take_frame h (by omega) hinside⟩
    · -- the host has no data for the device, which waits
      rw [if_neg hsends]
      have hin := ((hostSends_iff h hstall).mp (Bool.eq_false_iff.mpr hsends)).resolve_left hpos
      constructor
      · rintro ⟨t, ht, -⟩
        exact absurd ht (by simp)
      · rintro (hzero | ⟨hout, -⟩)
        · exact absurd hzero hpos
        · rw [hin] at hout
          exact absurd hout (by decide)
  · rename_i hzero
    have hzero' : cbw.len = 0 := by
      rw [Cbw.len, not_not.mp hzero]
      rfl
    rw [noResidue_law h hstall fun h => absurd h hrw]
    exact iff_of_true hzero' (.inl hzero')

section Chunks

variable {bulk : BitVec 32 → Nat → Msc → Option Msc} {after : BitVec 32 → Nat → Msc → Msc}
  {ok : Msc → Prop}

/-- The state after transfers of up to the largest size, each behind the one before -/
structure Chunks (bulk : BitVec 32 → Nat → Msc → Option Msc)
    (after : BitVec 32 → Nat → Msc → Msc) (ok : Msc → Prop) : Prop where
  step : ∀ a n s, ok s → 0 < n → n ≤ usbdMaxLen → n ≤ s.left → bulk a n s = some (after a n s)
  ok : ∀ a n s, ok s → ok (after a n s)
  left : ∀ a n s, (after a n s).left = s.left - n
  add : ∀ a n k s, n + k ≤ 2 ^ 32 →
    after (a + BitVec.ofNat 32 n) k (after a n s) = after a (n + k) s

/-- The loop goes on where `n` bytes have been moved. -/
theorem Chunks.loop (h : Chunks bulk after ok) (hok : ok s) (lba : BitVec 32) {n i : Nat}
    (hleft : n + i * usbdMaxLen ≤ s.left) (hsize : s.left ≤ 2 ^ 32) :
    moveLoop bulk i (lba + BitVec.ofNat 32 n) (after (gStorageBase + lba) n s) =
      some (lba + BitVec.ofNat 32 (n + i * usbdMaxLen),
        after (gStorageBase + lba) (n + i * usbdMaxLen) s) := by
  have hmax : usbdMaxLen = 32768 := rfl
  induction i generalizing n with
  | zero => rw [Nat.zero_mul, Nat.add_zero, moveLoop]
  | succ i ih =>
    have hsum : n + (i + 1) * usbdMaxLen = n + usbdMaxLen + i * usbdMaxLen := by
      rw [Nat.succ_mul]
      omega
    have hstep := h.step (gStorageBase + lba + BitVec.ofNat 32 n) usbdMaxLen
      (after (gStorageBase + lba) n s) (h.ok _ _ _ hok) (by decide) (Nat.le_refl _)
      (by rw [h.left]; omega)
    rw [h.add _ _ _ _ (by omega)] at hstep
    rw [moveLoop, ← BitVec.add_assoc, hstep, Option.bind_some, BitVec.add_assoc,
      ← BitVec.ofNat_add, ih (by omega), hsum]

/-- All of the data is moved as by one transfer. -/
theorem Chunks.moveData (h : Chunks bulk after ok) (hok : ok s) (lba : BitVec 32) {len : Nat}
    (hpos : 0 < len) (hleft : len ≤ s.left) (hsize : s.left ≤ 2 ^ 32) :
    moveData bulk lba len s = some (after (gStorageBase + lba) len s) := by
  have hmax : usbdMaxLen = 32768 := rfl
  unfold UsbDevice.moveData
  split
  · rename_i hlong
    have hdiv := Nat.div_add_mod len usbdMaxLen
    have hmod := Nat.mod_lt len (show 0 < usbdMaxLen by decide)
    obtain ⟨i, hi⟩ : ∃ i, len / usbdMaxLen = i + 1 :=
      ⟨len / usbdMaxLen - 1, by have := Nat.div_pos hlong.le (show 0 < usbdMaxLen by decide); omega⟩
    have hsum : usbdMaxLen + i * usbdMaxLen + len % usbdMaxLen = len := by
      rw [hi, Nat.mul_succ, Nat.mul_comm] at hdiv
      omega
    have hfirst := h.step (gStorageBase + lba) usbdMaxLen s hok (by decide) (Nat.le_refl _)
      (by omega)
    have hloop := h.loop hok lba (n := usbdMaxLen) (i := i) (by omega) hsize
    rw [hi, moveLoop, hfirst, Option.bind_some, hloop, Option.bind_some]
    simp only
    split
    · rename_i hrest
      have hlast := h.step
        (gStorageBase + lba + BitVec.ofNat 32 (usbdMaxLen + i * usbdMaxLen)) (len % usbdMaxLen)
        (after (gStorageBase + lba) (usbdMaxLen + i * usbdMaxLen) s) (h.ok _ _ _ hok) (by omega)
        (by omega) (by rw [h.left]; omega)
      rw [h.add _ _ _ _ (by omega), hsum] at hlast
      rw [← BitVec.add_assoc, hlast]
    · rename_i hrest
      have hexact : usbdMaxLen + i * usbdMaxLen = len := by omega
      rw [hexact]
  · exact h.step _ _ _ hok hpos (by omega) hleft

end Chunks

theorem send_send {ps qs : List Place} : (s.send ps).send qs = s.send (ps ++ qs) := by
  simp only [Msc.send, List.append_assoc, List.map_append, List.length_append, Nat.sub_sub]
  -- sending does not change what a place holds
  have hbyte : (s.send ps).byteAt = s.byteAt := by
    funext p
    cases p <;> rfl
  unfold Msc.send at hbyte
  rw [hbyte]

theorem bulkIn_chunks : Chunks (fun a => Msc.bulkIn (memoryAt a))
    (fun a n s => s.send (memoryAt a n)) (fun s => s.hostIn = true) where
  step a n s hin _ hmax hleft := by
    have hlimit : usbdMaxLen = 32768 := rfl
    have hsends : s.hostSends = false := by
      rw [Msc.hostSends, hin]
      rfl
    rw [Msc.bulkIn, hsends, if_neg (by decide), if_pos hin,
      show min (n % 2 ^ 16) s.left = n by omega]
  ok _ _ _ hin := hin
  left a n s := by rw [Msc.send, length_memoryAt]
  add a n k s _ := by
    rw [send_send, memoryAt, memoryAt, memoryAt, addrs_add, List.map_append]

theorem bulkOut_chunks : Chunks (Msc.bulkOut out) (fun a n s => s.take out a n)
    (fun s => s.hostIn = false ∧ s.outStall = false) where
  step a n s hok hpos hmax hleft := by
    have hlimit : usbdMaxLen = 32768 := rfl
    have hsends : s.hostSends = true := by
      rw [Msc.hostSends, hok.1, hok.2]
      simp only [Bool.not_false, Bool.true_and]
      exact bne_iff_ne.mpr (by omega)
    rw [Msc.bulkOut, if_pos hsends, show min (n % 2 ^ 16) s.left = n by omega]
  ok _ _ _ hok := hok
  left _ _ _ := rfl
  add a n k s hsize := by
    simp only [Msc.take, List.append_assoc, List.length_append, List.length_map, length_addrs,
      Nat.sub_sub, addrs_add, List.map_append, Nat.add_assoc]
    rw [← store_store hsize]

theorem lbaAddress_toNat (cbw : Cbw) :
    cbw.lbaAddress.toNat = cbw.firstSector * usbdSectorSize % 2 ^ 32 := by
  rw [Cbw.lbaAddress, BitVec.toNat_mul, BitVec.toNat_ofNat]
  rfl

/-- Bytes in range end in the storage, and sectors in range are where they should be. -/
theorem InRange.bounds (h : InRange cbw) :
    cbw.lbaAddress.toNat + cbw.len ≤ gStorageSize ∧
      (cbw.len = cbw.sectors * usbdSectorSize →
        cbw.lbaAddress.toNat = cbw.firstSector * usbdSectorSize) := by
  have hsize : gStorageSize = 92160 := rfl
  have hsectors : gTotalSectors = 180 := rfl
  have haddr := lbaAddress_toNat cbw
  unfold InRange at h
  rw [usbdSectorSize] at *
  split at h
  · rename_i hmatch
    rw [Nat.mod_eq_of_lt (by omega)] at haddr
    exact ⟨by omega, fun _ => haddr⟩
  · rename_i hmatch
    exact ⟨h, fun hyes => absurd hyes hmatch⟩

/-- Where the last byte of the sectors named is in the storage, they are in range. -/
theorem inRange_of_last (hbytes : cbw.lbaAddress.toNat + cbw.len ≤ gStorageSize)
    (hlast : cbw.len = cbw.sectors * usbdSectorSize →
      (s.storage (cbw.firstSector * usbdSectorSize + (cbw.len - 1))).isSome = true) :
    InRange cbw := by
  have hsize : gStorageSize = 92160 := rfl
  have hsectors : gTotalSectors = 180 := rfl
  unfold InRange
  split
  · rename_i hmatch
    have hin := hlast hmatch
    unfold Msc.storage at hin
    rw [usbdSectorSize] at hin hmatch
    split at hin
    · omega
    · exact absurd hin (by simp)
  · exact hbytes

/-- The end of a READ that has moved its data -/
theorem read_law (h : Started cbw s₀ s) (hread : cbw.IsRead) (hin : cbw.isIn = true)
    (hpos : cbw.len ≠ 0) :
    (∃ t, (s.send (memoryAt (gStorageBase + cbw.lbaAddress) cbw.len)).finish 0 status = some t ∧
      TransactionLaw cbw out s₀ t) ↔ InRange cbw := by
  generalize hu : s.send (memoryAt (gStorageBase + cbw.lbaAddress) cbw.len) = u
  have hplaces : u.places = memoryAt (gStorageBase + cbw.lbaAddress) cbw.len := by
    rw [← hu, Msc.send, h.places, List.nil_append]
  have hsent : u.sent = (addrs (gStorageBase + cbw.lbaAddress) cbw.len).map s.mem := by
    rw [← hu, Msc.send, h.sent, List.nil_append, memoryAt, List.map_map]
    rfl
  have hsends : u.hostSends = false := by
    rw [Msc.hostSends, show u.hostIn = cbw.isIn by rw [← hu]; exact h.hostIn, hin]
    rfl
  have hinside := inside_iff (v := u) cbw.lbaAddress cbw.len (by rw [← hu]; exact h.filled)
  rw [finish_law (by rw [← hu]; exact h.csws) (by rw [← hu]; exact h.tag), hplaces,
    length_memoryAt, hsends]
  constructor
  · rintro ⟨-, -, hdata⟩
    have hbytes := (hinside.mp (hplaces ▸ hdata.inside)).resolve_left hpos
    refine inRange_of_last (s := s₀) hbytes fun hmatch => ?_
    have hlast := congrArg (·[cbw.len - 1]?) (hdata.read hread hmatch)
    simp only [List.getElem?_map, hsent] at hlast
    rw [List.getElem?_range (by omega), addrs, List.getElem?_map,
      List.getElem?_range (by omega)] at hlast
    simp only [Option.map_some, Option.some.injEq] at hlast
    rw [← hlast]
    rfl
  · intro hrange
    obtain ⟨hbytes, hsector⟩ := hrange.bounds
    have hsize : gStorageSize = 92160 := rfl
    refine ⟨rfl, Nat.zero_add _, fun _ hmatch => ?_, fun hwrite => ?_,
      hplaces ▸ hinside.mpr (.inr hbytes), fun a ha => .inr (h.frame ?_)⟩
    · rw [hsent, addrs, List.map_map, List.map_map]
      refine List.map_congr_left fun i hi => ?_
      have hi' := List.mem_range.mp hi
      rw [← hsector hmatch, ← h.storage, Msc.storage, if_pos (by omega), BitVec.ofNat_add,
        BitVec.ofNat_toNat, BitVec.setWidth_eq, ← BitVec.add_assoc]
      rfl
    · -- the opposite directions
      exact absurd (hread.2.symm.trans hwrite.2) (by decide)
    · rw [← hu] at ha
      exact ha

/-- The end of a WRITE that has moved its data -/
theorem write_law (h : Started cbw s₀ s) (hwrite : cbw.IsWrite) (hpos : cbw.len ≠ 0) :
    (∃ t, (s.take out (gStorageBase + cbw.lbaAddress) cbw.len).finish 0 status = some t ∧
      TransactionLaw cbw out s₀ t) ↔ InRange cbw := by
  generalize hu : s.take out (gStorageBase + cbw.lbaAddress) cbw.len = u
  have hlen : cbw.len < 2 ^ 32 := cbw.dataTransferLength.isLt
  have hplaces : u.places = memoryAt (gStorageBase + cbw.lbaAddress) cbw.len := by
    rw [← hu, Msc.take, h.places, List.nil_append]
    rfl
  have hmem : u.mem = store s.mem (gStorageBase + cbw.lbaAddress) cbw.len out := by
    rw [← hu, Msc.take, h.places]
    simp
  have hsends : u.hostSends = false := by
    rw [Msc.hostSends, show u.left = 0 by rw [← hu, Msc.take, h.left, Nat.sub_self],
      bne_self_eq_false, Bool.and_false]
  have hinside := inside_iff (v := u) cbw.lbaAddress cbw.len (by rw [← hu]; exact h.filled)
  rw [finish_law (by rw [← hu]; exact h.csws) (by rw [← hu]; exact h.tag), hplaces,
    length_memoryAt, hsends]
  constructor
  · rintro ⟨-, -, hdata⟩
    have hbytes := (hinside.mp (hplaces ▸ hdata.inside)).resolve_left hpos
    refine inRange_of_last (s := u) hbytes fun hmatch => ?_
    rw [(hdata.write hwrite hmatch).1 _ (by omega)]
    rfl
  · intro hrange
    obtain ⟨hbytes, hsector⟩ := hrange.bounds
    have hsize : gStorageSize = 92160 := rfl
    have hall := hplaces ▸ hinside.mpr (.inr hbytes)
    refine ⟨rfl, Nat.zero_add _, fun hread => ?_, fun _ hmatch => ⟨fun i hi => ?_, fun k hk => ?_⟩,
      hall, fun a ha => ?_⟩
    · exact absurd (hread.2.symm.trans hwrite.2) (by decide)
    · rw [← hsector hmatch, Msc.storage, if_pos (by omega), hmem, BitVec.ofNat_add,
        BitVec.ofNat_toNat, BitVec.setWidth_eq, ← BitVec.add_assoc, store_add_ofNat hi hlen.le]
    · -- a byte of another sector
      rw [← h.storage, Msc.storage, Msc.storage]
      split
      · rename_i hstorage
        have hfar : cbw.len ≤
            (gStorageBase + BitVec.ofNat 32 k - (gStorageBase + cbw.lbaAddress)).toNat := by
          have haddr := hsector hmatch
          rw [usbdSectorSize] at hk haddr hmatch
          rw [add_sub_add_left_eq_sub, BitVec.toNat_sub, BitVec.toNat_ofNat]
          omega
        rw [hmem, store_of_le hfar]
      · rfl
    · rw [← hu] at ha hall ⊢
      exact take_frame h hlen.le hall a ha

/-! ## Every command -/

/-- A READ or WRITE in its own direction, of any bytes at all -/
theorem transfer_law {bulk : BitVec 32 → Nat → Msc → Option Msc}
    {after : BitVec 32 → Nat → Msc → Msc} {ok : Msc → Prop} (hc : Chunks bulk after ok)
    (h : Started cbw s₀ s) (hok : ∀ p, ok { s with prevent := p }) (hpos : cbw.len ≠ 0)
    (hend : ∀ u status, Started cbw s₀ u →
      ((∃ t, (after (gStorageBase + cbw.lbaAddress) cbw.len u).finish 0 status = some t ∧
        TransactionLaw cbw out s₀ t) ↔ InRange cbw)) :
    (∃ t, s.transfer cbw bulk = some t ∧ TransactionLaw cbw out s₀ t) ↔ InRange cbw := by
  have hlen : cbw.dataTransferLength.toNat = cbw.len := rfl
  have hlt : cbw.len < 2 ^ 32 := cbw.dataTransferLength.isLt
  have hmove : ∀ p, moveData bulk cbw.lbaAddress cbw.len { s with prevent := p } =
      some (after (gStorageBase + cbw.lbaAddress) cbw.len { s with prevent := p }) := fun p =>
    hc.moveData (hok p) _ (Nat.pos_of_ne_zero hpos) h.left.ge (h.left ▸ hlt.le)
  unfold Msc.transfer
  simp only [hlen]
  split
  · rw [show moveData bulk cbw.lbaAddress cbw.len s = _ from hmove s.prevent, Option.bind_some]
    exact hend _ _ { h with }
  · rw [if_neg fun hzero => hpos (by rw [Cbw.len, hzero]; rfl), hmove, Option.bind_some]
    exact hend _ _ { h with }

theorem read_kept (h : Started cbw s₀ s) (hstall : s.outStall = false)
    (hop : cbw.opCode = 0x28 ∨ cbw.opCode = 0xa8) :
    (∃ t, s.read cbw = some t ∧ TransactionLaw cbw out s₀ t) ↔
      (cbw.flags = 0x80 → cbw.len = 0 ∨ InRange cbw) := by
  unfold Msc.read
  split
  · rename_i hflags
    have hin : cbw.isIn = true := by
      rw [Cbw.isIn, hflags]
      rfl
    by_cases hpos : cbw.len = 0
    · -- no data, or a status at once
      refine iff_of_true ?_ fun _ => .inl hpos
      have hno : NoSectors cbw := fun _ => hpos
      have hzero : cbw.dataTransferLength = 0 := BitVec.eq_of_toNat_eq hpos
      unfold Msc.transfer
      simp only [hzero]
      split
      · have hsent : s.bulkIn (memoryAt (gStorageBase + cbw.lbaAddress)) 0 = some (s.send []) := by
          rw [Msc.bulkIn, hostSends_of_isIn h hin, if_neg (by decide)]
          simp [memoryAt, addrs]
        have hsame : s.send [] = s := by
          simp [Msc.send]
        rw [show moveData (fun a => Msc.bulkIn (memoryAt a)) cbw.lbaAddress (0 : BitVec 32).toNat s
          = _ from hsent, Option.bind_some, hsame]
        exact (noResidue_law h hstall hno).mpr hpos
      · exact (noResidue_law (u := { s with prevent := 1 }) { h with } hstall hno).mpr hpos
    · rw [transfer_law bulkIn_chunks h (fun _ => h.hostIn.trans hin) hpos fun u status hu =>
        read_law hu ⟨hop, hflags⟩ hin hpos]
      exact ⟨fun hrange _ => .inr hrange, fun hkept => (hkept hflags).resolve_left hpos⟩
  · rename_i hflags
    have hno : NoSectors cbw := by
      rintro (hread | hwrite)
      · exact absurd hread.2 hflags
      · obtain hop | hop := hop <;> rw [Cbw.IsWrite, hop] at hwrite <;>
          exact absurd hwrite.1 (by decide)
    refine iff_of_true ?_ fun hyes => absurd hyes hflags
    refine (allResidue_law (u := { s with prevent := 1, outStall := true }) { h with } hno).mpr ?_
    simp [Msc.hostSends]

theorem write_kept (h : Started cbw s₀ s) (hstall : s.outStall = false)
    (hop : cbw.opCode = 0x2a ∨ cbw.opCode = 0xaa) :
    (∃ t, s.write out cbw = some t ∧ TransactionLaw cbw out s₀ t) ↔
      if cbw.flags = 0x00 then (cbw.len = 0 ∧ cbw.dcount ≠ 0) ∨ (cbw.len ≠ 0 ∧ InRange cbw)
      else cbw.len = 0 ∨ cbw.isIn = true := by
  unfold Msc.write
  split
  · rename_i hflags
    have hin : cbw.isIn = false := by
      rw [Cbw.isIn, hflags]
      rfl
    by_cases hpos : cbw.len = 0
    · have hno : NoSectors cbw := fun _ => hpos
      have hzero : cbw.dataTransferLength = 0 := BitVec.eq_of_toNat_eq hpos
      have hsends : s.hostSends = false := (hostSends_iff h hstall).mpr (.inl hpos)
      unfold Msc.transfer
      simp only [hzero]
      split
      · -- the device waits for a packet that the host has not got
        rename_i hcount
        have hwait : s.bulkOut out (gStorageBase + cbw.lbaAddress) 0 = none := by
          rw [Msc.bulkOut, hsends, if_neg (by decide)]
        rw [show moveData (Msc.bulkOut out) cbw.lbaAddress (0 : BitVec 32).toNat s = _ from hwait]
        refine iff_of_false ?_ ?_
        · rintro ⟨t, ht, -⟩
          exact absurd ht (by simp)
        · rintro (⟨-, hne⟩ | ⟨hne, -⟩)
          · exact hne hcount.symm
          · exact hne hpos
      · rename_i hcount
        refine iff_of_true ?_ (.inl ⟨hpos, Ne.symm hcount⟩)
        exact (noResidue_law (u := { s with prevent := 1 }) { h with } hstall hno).mpr hpos
    · rw [transfer_law bulkOut_chunks h (fun _ => ⟨h.hostIn.trans hin, hstall⟩) hpos
        fun u status hu => write_law hu ⟨hop, hflags⟩ hpos]
      constructor
      · exact fun hrange => .inr ⟨hpos, hrange⟩
      · rintro (⟨hzero, -⟩ | ⟨-, hrange⟩)
        · exact absurd hzero hpos
        · exact hrange
  · rename_i hflags
    have hno : NoSectors cbw := by
      rintro (hread | hwrite)
      · obtain hop | hop := hop <;> rw [Cbw.IsRead, hop] at hread <;>
          exact absurd hread.1 (by decide)
      · exact absurd hwrite.2 hflags
    rw [allResidue_law (u := { s with prevent := 1, inStall := true }) { h with } hno,
      hostSends_iff (s := { s with prevent := 1, inStall := true }) { h with } hstall]

theorem not_isRead_isWrite (cbw : Cbw) (h : cbw.opCode.toNat ∉ [0x28, 0xa8, 0x2a, 0xaa]) :
    ¬ (cbw.IsRead ∨ cbw.IsWrite) := by
  rintro (⟨hop | hop, -⟩ | ⟨hop | hop, -⟩) <;> rw [hop] at h <;> exact h (by decide)

theorem length_modeSense10Reply (page : BitVec 8) :
    (modeSense10Reply page).1.length = match page.toNat with
      | 0x01 | 0x1b => 20
      | 0x05 => 40
      | 0x1c => 16
      | 0x3f => 72
      | _ => 8 := by
  unfold modeSense10Reply
  split <;> rename_i hpage <;> try simp only [hpage]
  · rfl
  · rfl
  · rfl
  · rfl
  · rfl
  · rfl

theorem modeSense10_kept (h : Started cbw s₀ s) (hstall : s.outStall = false)
    (hrw : ¬ (cbw.IsRead ∨ cbw.IsWrite)) :
    (∃ t, (s.modeSense10 cbw).bind (Msc.finish · 0 0) = some t ∧ TransactionLaw cbw out s₀ t) ↔
      cbw.len = 0 ∨ (cbw.isIn = true ∧
        cbw.len ≤ (modeSense10Reply (cbw.au8Data 0)).1.length) := by
  have hshort : (modeSense10Reply (cbw.au8Data 0)).1.length < 2 ^ 16 := by
    rw [length_modeSense10Reply]
    split <;> decide
  unfold Msc.modeSense10
  cases hreply : modeSense10Reply (cbw.au8Data 0) with
  | mk reply known =>
    rw [hreply] at hshort
    simp only
    split
    · exact reply_law h hstall hrw hshort
    · exact reply_law (s := s.setSense 0x05 0x24) { h with } hstall hrw hshort

theorem testUnitReady_kept (h : Started cbw s₀ s) (hstall : s.outStall = false)
    (hno : NoSectors cbw) :
    (∃ t, s.testUnitReady cbw = some t ∧ TransactionLaw cbw out s₀ t) ↔
      cbw.len = 0 ∨ cbw.flags = 0x00 := by
  unfold Msc.testUnitReady
  split
  · rename_i hne
    have hpos : cbw.len ≠ 0 := fun hzero => hne (BitVec.eq_of_toNat_eq hzero)
    split
    · rename_i hflags
      refine iff_of_true ?_ (.inr hflags)
      refine (allResidue_law (u := { s with prevent := 1, outStall := true }) { h with } hno).mpr ?_
      simp [Msc.hostSends]
    · -- no status is ever sent
      rename_i hflags
      refine iff_of_false ?_ (not_or.mpr ⟨hpos, hflags⟩)
      rintro ⟨t, ht, ⟨_, _, hcsw, -⟩, -⟩
      obtain rfl := Option.some.inj ht
      rw [h.csws] at hcsw
      exact absurd hcsw (by simp)
  · rename_i hzero
    have hlen : cbw.len = 0 := by
      rw [Cbw.len, not_not.mp hzero]
      rfl
    refine iff_of_true ?_ (.inl hlen)
    split
    · exact (noResidue_law (u := { s.setSense 0x02 0x3a with prevent := 1 }) { h with } hstall
        hno).mpr hlen
    · exact (noResidue_law h hstall hno).mpr hlen

theorem requestSense_law (h : Started cbw s₀ s) (hstall : s.outStall = false)
    (hrw : ¬ (cbw.IsRead ∨ cbw.IsWrite)) (hpos : 0 < cbw.len) (hmax : cbw.len ≤ 18) :
    (∃ t, (s.requestSense cbw).bind (Msc.finish · 0 0) = some t ∧ TransactionLaw cbw out s₀ t) ↔
      cbw.isIn = true := by
  have hlength : s.senseReply.length = 18 := by simp [Msc.senseReply]
  rw [requestSense_eq, reply_law (s := { s with prevent := 0, senseKey := (0, 0, 0) }) { h with }
    hstall hrw (by rw [hlength]; decide), hlength]
  constructor
  · rintro (hzero | ⟨hin, -⟩)
    · omega
    · exact hin
  · exact fun hin => .inr ⟨hin, hmax⟩

/-- Every command keeps the law exactly under the condition on it. -/
theorem command_kept (h : Started cbw s₀ s) (hstall : s.outStall = false) :
    (∃ t, s.command out cbw = some t ∧ TransactionLaw cbw out s₀ t) ↔ CommandKept cbw := by
  have hrw := not_isRead_isWrite cbw
  unfold Msc.command CommandKept
  split <;> rename_i hop <;> try simp only [hop] at hrw ⊢
  · exact read_kept h hstall (.inr (BitVec.eq_of_toNat_eq hop))
  · exact read_kept h hstall (.inl (BitVec.eq_of_toNat_eq hop))
  · exact write_kept h hstall (.inr (BitVec.eq_of_toNat_eq hop))
  · exact write_kept h hstall (.inl (BitVec.eq_of_toNat_eq hop))
  · have hno : NoSectors cbw := fun h => absurd h (hrw (by decide))
    unfold Msc.preventAllow
    split
    · exact noResidue_law (u := { s.setSense 0x05 0x24 with prevent := 1 }) { h with } hstall hno
    · exact noResidue_law (u := { s with prevent := 0 }) { h with } hstall hno
  · exact testUnitReady_kept h hstall fun h => absurd h (hrw (by decide))
  · have hno : NoSectors cbw := fun h => absurd h (hrw (by decide))
    unfold Msc.startStop
    split
    · exact noResidue_law (u := { s with remove := true }) { h with } hstall hno
    · exact noResidue_law h hstall hno
  · exact noResidue_law h hstall fun h => absurd h (hrw (by decide))
  · have hno : NoSectors cbw := fun h => absurd h (hrw (by decide))
    exact bounded_law h hstall hno (requestSense_law h hstall (hrw (by decide)))
  · exact reply_law h hstall (hrw (by decide)) (by decide)
  · exact reply_law h hstall (hrw (by decide)) (by decide)
  · exact modeSelect_law h hstall (hrw (by decide))
  · exact modeSelect_law h hstall (hrw (by decide))
  · rw [← length_modeSense10Reply]
    exact modeSense10_kept h hstall (hrw (by decide))
  · exact reply_law h hstall (hrw (by decide)) (by decide)
  · have hno : NoSectors cbw := fun h => absurd h (hrw (by decide))
    exact bounded_law h hstall hno (inquiry_law h hstall (hrw (by decide)))
  · exact noResidue_law (u := { s with inStall := true, prevent := 1 }) { h with } hstall
      fun h => absurd h (hrw (by decide))
  · have hno : NoSectors cbw := fun h => absurd h (hrw (by simp_all))
    unfold Msc.unsupported
    rw [allResidue_law (u := s.setSense 0x05 0x20) { h with } hno,
      hostSends_iff (s := s.setSense 0x05 0x20) { h with } hstall]

end Commands

/-! ## A command block -/

theorem ofBytes_congr {b b' : Nat → BitVec 8} (h : ∀ i < 31, b i = b' i) :
    Cbw.ofBytes b = Cbw.ofBytes b' := by
  have hdata : (List.range 14).map (fun i => b (17 + i)) =
      (List.range 14).map (fun i => b' (17 + i)) :=
    List.map_congr_left fun i hi => h _ (by have := List.mem_range.mp hi; omega)
  unfold Cbw.ofBytes
  rw [hdata, h 0 (by decide), h 1 (by decide), h 2 (by decide), h 3 (by decide), h 4 (by decide),
    h 5 (by decide), h 6 (by decide), h 7 (by decide), h 8 (by decide), h 9 (by decide),
    h 10 (by decide), h 11 (by decide), h 12 (by decide), h 15 (by decide)]

/-- The block is read as it was sent. -/
theorem cbw_receiveCbw (s : Msc) {packet : List (BitVec 8)} (hlen : packet.length = 31) :
    (s.receiveCbw packet).cbw = .ofBytes (packet.getD · 0) := by
  refine ofBytes_congr fun i hi => ?_
  show store s.mem gMassBase packet.length (packet.getD · 0) (gMassBase + BitVec.ofNat 32 i) = _
  rw [hlen]
  exact store_add_ofNat hi (show 31 ≤ 2 ^ 32 by decide)

/-- For a valid command block the device keeps the law exactly under the condition on it. -/
theorem processCmd_law_iff (s : Msc) (hs : s.bulkState = .normal) (packet : List (BitVec 8))
    (hlen : packet.length = 31)
    (hsignature : (Cbw.ofBytes (packet.getD · 0)).signature = 0x43425355)
    (out : Nat → BitVec 8) :
    (∃ t, s.processCmd packet out = some t ∧
      TransactionLaw (.ofBytes (packet.getD · 0)) out s t) ↔
        CommandKept (.ofBytes (packet.getD · 0)) := by
  have hcbw := cbw_receiveCbw s hlen
  generalize hc : Cbw.ofBytes (packet.getD · 0) = cbw at *
  have hprocess : s.processCmd packet out =
      (({ s.receiveCbw packet with bulkState := .csw } : Msc).start cbw).command out cbw := by
    have hblock : ({ s.receiveCbw packet with bulkState := .csw } : Msc).cbw = cbw := hcbw
    have hsize : (s.receiveCbw packet).cbwSize = 31 := hlen
    unfold Msc.processCmd
    simp only [if_pos hs]
    rw [if_pos (show (s.receiveCbw packet).bulkState = .cbw from rfl), hblock, if_neg]
    rintro (hbad | hbad)
    · exact hbad hsignature
    · exact hbad hsize
  have hstart : Started cbw s
      (({ s.receiveCbw packet with bulkState := .csw } : Msc).start cbw) := by
    refine ⟨rfl, rfl, rfl, rfl, rfl, rfl, rfl, fun a ha => ?_⟩
    show store s.mem gMassBase packet.length (packet.getD · 0) a = s.mem a
    exact store_of_le (hlen ▸ ha)
  rw [hprocess]
  exact command_kept hstart rfl

/-- After `MSC_Init`, with a storage of zeros -/
def mscInit : Msc where
  mem := fun _ => 0
  bulkState := .normal
  cbwSize := 0
  prevent := 0
  remove := false
  senseKey := (0, 0, 0)
  epStallLock := 0
  csw := ⟨0, 0, 0⟩
  inStall := false
  outStall := false
  hostIn := false
  left := 0
  filled := 0
  places := []
  sent := []
  csws := []

/-- READ_10 of two sectors from sector 3 on -/
theorem processCmd_law_read :
    let packet : List (BitVec 8) :=
      [0x55, 0x53, 0x42, 0x43, 0x01, 0x00, 0x00, 0x00, 0x00, 0x04, 0x00, 0x00, 0x80, 0x00, 0x0a,
        0x28, 0x00, 0x00, 0x00, 0x00, 0x03, 0x00, 0x00, 0x02, 0x00, 0x00, 0x00, 0x00, 0x00, 0x00,
        0x00]
    ∃ t, mscInit.processCmd packet (fun _ => 0) = some t ∧
      TransactionLaw (.ofBytes (packet.getD · 0)) (fun _ => 0) mscInit t := by
  refine (processCmd_law_iff mscInit rfl _ rfl (by decide) (fun _ => 0)).mpr ?_
  show _ → _ ∨ InRange _
  intro _
  exact .inr (by unfold InRange; decide)

/-- TEST_UNIT_READY with a length, in the direction of the host, gets no status. -/
theorem not_transactionLaw_testUnitReady :
    ¬ ∀ (s : Msc) (packet : List (BitVec 8)) (out : Nat → BitVec 8), s.bulkState = .normal →
      packet.length = 31 → (Cbw.ofBytes (packet.getD · 0)).signature = 0x43425355 →
      ∃ t, s.processCmd packet out = some t ∧
        TransactionLaw (.ofBytes (packet.getD · 0)) out s t := by
  intro h
  obtain ⟨t, ht, ⟨_, _, hcsw, -⟩, -⟩ := h mscInit
    [0x55, 0x53, 0x42, 0x43, 0x01, 0x00, 0x00, 0x00, 0x01, 0x00, 0x00, 0x00, 0x80, 0x00, 0x06, 0x00,
      0x00, 0x00, 0x00, 0x00, 0x00, 0x00, 0x00, 0x00, 0x00, 0x00, 0x00, 0x00, 0x00, 0x00, 0x00]
    (fun _ => 0) rfl rfl (by decide)
  have hnone : (mscInit.processCmd
      [0x55, 0x53, 0x42, 0x43, 0x01, 0x00, 0x00, 0x00, 0x01, 0x00, 0x00, 0x00, 0x80, 0x00, 0x06,
        0x00, 0x00, 0x00, 0x00, 0x00, 0x00, 0x00, 0x00, 0x00, 0x00, 0x00, 0x00, 0x00, 0x00, 0x00,
        0x00] (fun _ => 0)).map (·.csws) = some [] := by decide
  rw [ht, Option.map_some, hcsw] at hnone
  exact absurd hnone (by simp)

end Ma35d1.UsbDevice

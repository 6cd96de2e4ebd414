import Mathlib.Data.BitVec
import Ma35d1.Machine.Fields
import Ma35d1.Sdh.Transfer

/-!
# The capacity of a card

`SDH_cmd_done` puts the 136-bit response together from the response registers, and
`SDH_Get_SD_info` computes the capacity from it. `&sdh->RESP01_R + n` is `n` words behind
`RESP01_R`, not `n` bytes, so that most of the response is read from other registers.
-/

namespace Ma35d1.Sdh.CardInfo

/-! ## The code -/

/-- The controller while a 136-bit response is read: the 120 bits of it in the response
registers at `0x10` to `0x1e`, and what the other registers hold. -/
def deliver (csd : BitVec 120) (other : Nat → BitVec 8) (offset : Nat) : BitVec 8 :=
  if 0x10 ≤ offset ∧ offset < 0x1f then csd.extractLsb' (8 * (offset - 0x10)) 8 else other offset

/-- `inpw`, of the bytes at an offset -/
def inpw (regs : Nat → BitVec 8) (offset : Nat) : BitVec 32 :=
  regs (offset + 3) ++ regs (offset + 2) ++ regs (offset + 1) ++ regs offset

/-- `&sdh->RESP01_R + n`: the pointer is one to words of four bytes. -/
def resp01 (n : Nat) : Nat := 0x10 + n * 4

/-- `cmd->response[i]` after `SDH_cmd_done`, for `MMC_RSP_136` -/
def cmdDone (regs : Nat → BitVec 8) (i : Nat) : BitVec 32 :=
  let response := inpw regs (resp01 ((3 - i) * 4)) <<< 8
  if i ≠ 3 then response ||| (regs (resp01 ((3 - i) * 4 - 1))).setWidth 32 else response

/-- What a command with one block of data to read comes to: the result of `SDH_send_command`,
and the block. -/
structure Reply where
  ret : Int
  block : Nat → BitVec 8

/-- `MMC_CMD_SELECT_CARD` -/
def selectCard : Nat := 7

/-- `MMC_CMD_SEND_EXT_CSD` -/
def sendExtCsd : Nat := 8

/-- A card, and its replies to commands with data, by the index of the command. -/
structure Card where
  type : CardType
  csd : BitVec 120
  reply : Nat → Reply

/-- The fields of `SDH_INFO_T` that are set. -/
structure SdInfo where
  totalSectorN : BitVec 32
  diskSize : BitVec 32
  sectorSize : BitVec 32
  deriving DecidableEq

/-- `size` of a CSD of version 1; `unsigned long` has 64 bits, `size` has 32. -/
def sizeV1 (response : Nat → BitVec 32) : BitVec 32 :=
  let rLen := (response 1 &&& 0x000f0000#32) >>> 16
  let cSize := (response 1 &&& 0x000003ff#32) <<< 2 ||| (response 2 &&& 0xc0000000#32) >>> 30
  let mult := (response 2 &&& 0x00038000#32) >>> 15
  BitVec.ofNat 32 ((cSize.toNat + 1) * 2 ^ (mult.toNat + 2) * 2 ^ rLen.toNat)

/-- `totalSectorN` and `diskSize` from a CSD of version 1. -/
def infoV1 (response : Nat → BitVec 32) (old : SdInfo) : SdInfo :=
  { old with diskSize := sizeV1 response / 1024, totalSectorN := sizeV1 response / 512 }

/-- The capacity from a CSD of version 2. -/
def infoV2 (response : Nat → BitVec 32) (old : SdInfo) : SdInfo :=
  let cSize := (response 1 &&& 0x0000003f#32) <<< 16 ||| (response 2 &&& 0xffff0000#32) >>> 16
  let size := (cSize + 1) * 512
  { old with diskSize := size, totalSectorN := size <<< 1 }

/-- Bytes 212 to 215 of a block. -/
def sectorCount (dmabuf : Nat → BitVec 8) : BitVec 32 :=
  (dmabuf 215).setWidth 32 <<< 24 ||| (dmabuf 214).setWidth 32 <<< 16 |||
    (dmabuf 213).setWidth 32 <<< 8 ||| (dmabuf 212).setWidth 32

/-- The capacity of a large eMMC. The data command is `MMC_CMD_SELECT_CARD` once more. -/
def infoExt (card : Card) (old : SdInfo) : SdInfo :=
  let r := card.reply selectCard
  if r.ret = 0 then
    { old with totalSectorN := sectorCount r.block, diskSize := sectorCount r.block / 2 }
  else old

/-- `SDH_Get_SD_info`, once `MMC_CMD_SEND_CSD` has been answered. -/
def getSdInfo (regs : Nat → BitVec 8) (card : Card) (old : SdInfo) : SdInfo :=
  let response := cmdDone regs
  let info :=
    if card.type = .mmc ∨ card.type = .emmc then
      if response 0 &&& 0xc0000000#32 = 0xc0000000#32 then infoExt card old
      else infoV1 response old
    else if response 0 &&& 0xc0000000#32 ≠ 0 then infoV2 response old
    else infoV1 response old
  { info with sectorSize := 512 }

/-! ## What the definitions say -/

/-- Bits `hi` to `lo` of the CSD register; its bits 7 to 0 are not delivered. -/
def csdField (csd : BitVec 120) (hi lo : Nat) : Nat := csd.toNat / 2 ^ (lo - 8) % 2 ^ (hi - lo + 1)

/-- `(C_SIZE + 1) * 2 ^ (C_SIZE_MULT + 2) * 2 ^ READ_BL_LEN` -/
def bytesV1 (csd : BitVec 120) : Nat :=
  (csdField csd 73 62 + 1) * 2 ^ (csdField csd 49 47 + 2) * 2 ^ csdField csd 83 80

/-- The 512-byte sectors and the KB of a card, where its definition gives them. -/
def capacity (card : Card) : Option (Nat × Nat) :=
  let v1 := (bytesV1 card.csd / 512, bytesV1 card.csd / 1024)
  if card.type = .mmc ∨ card.type = .emmc then
    if csdField card.csd 127 126 = 3 then
      -- `SEC_COUNT` of the extended CSD
      if (card.reply sendExtCsd).ret = 0 then
        let sectors := (sectorCount (card.reply sendExtCsd).block).toNat
        some (sectors, sectors / 2)
      else none
    else some v1
  else if csdField card.csd 127 126 = 0 then some v1
  else if csdField card.csd 127 126 = 1 then
    some ((csdField card.csd 69 48 + 1) * 1024, (csdField card.csd 69 48 + 1) * 512)
  else none

/-- The response is the CSD with eight bits below it, and each of the two numbers that fits is
the one of the card's definition. -/
structure CapacityLaw (card : Card) (other : Nat → BitVec 8) (old : SdInfo) : Prop where
  response : ∀ i < 4, cmdDone (deliver card.csd other) i =
    (card.csd ++ 0#8).extractLsb' (32 * (3 - i)) 32
  sectors : ∀ n ∈ capacity card, n.1 < 2 ^ 32 →
    (getSdInfo (deliver card.csd other) card old).totalSectorN.toNat = n.1
  size : ∀ n ∈ capacity card, n.2 < 2 ^ 32 →
    (getSdInfo (deliver card.csd other) card old).diskSize.toNat = n.2

/-- Byte `k` of the 15 of a CSD. -/
def csdByte (csd : BitVec 120) (k : Nat) : BitVec 8 := csd.extractLsb' (8 * k) 8

/-- The registers that are read in the place of the response registers hold the same. -/
structure Aliased (csd : BitVec 120) (other : Nat → BitVec 8) : Prop where
  response0 : other 0x42 = csdByte csd 14 ∧ other 0x41 = csdByte csd 13 ∧
    other 0x40 = csdByte csd 12 ∧ other 0x3c = csdByte csd 11
  response1 : other 0x32 = csdByte csd 10 ∧ other 0x31 = csdByte csd 9 ∧
    other 0x30 = csdByte csd 8 ∧ other 0x2c = csdByte csd 7
  response2 : other 0x22 = csdByte csd 6 ∧ other 0x21 = csdByte csd 5 ∧
    other 0x20 = csdByte csd 4 ∧ csdByte csd 12 = csdByte csd 3

/-- Less than 4 GB where the bytes are counted, and a data command that brings what the extended
CSD says where that has the capacity. -/
def Countable (card : Card) (old : SdInfo) : Prop :=
  if card.type = .mmc ∨ card.type = .emmc then
    if csdField card.csd 127 126 = 3 then
      (card.reply sendExtCsd).ret = 0 →
        if (card.reply selectCard).ret = 0 then
          sectorCount (card.reply selectCard).block = sectorCount (card.reply sendExtCsd).block
        else
          old.totalSectorN = sectorCount (card.reply sendExtCsd).block ∧
            old.diskSize = sectorCount (card.reply sendExtCsd).block / 2
    else bytesV1 card.csd < 2 ^ 32
  else csdField card.csd 127 126 = 0 → bytesV1 card.csd < 2 ^ 32

section Response

variable {csd : BitVec 120} {other regs : Nat → BitVec 8} {old : SdInfo} {card : Card} {i k : Nat}

/-- Four bytes, the highest first. -/
def word (b₃ b₂ b₁ b₀ : BitVec 8) : BitVec 32 := b₃ ++ b₂ ++ b₁ ++ b₀

theorem word_toNat (b₃ b₂ b₁ b₀ : BitVec 8) : (word b₃ b₂ b₁ b₀).toNat =
    b₃.toNat * 2 ^ 24 + b₂.toNat * 2 ^ 16 + b₁.toNat * 2 ^ 8 + b₀.toNat := by
  have h₃ := b₃.isLt
  have h₂ := b₂.isLt
  have h₁ := b₁.isLt
  have h₀ := b₀.isLt
  unfold word
  simp only [BitVec.toNat_append]
  rw [← Nat.shiftLeft_add_eq_or_of_lt h₂, ← Nat.shiftLeft_add_eq_or_of_lt h₁,
    ← Nat.shiftLeft_add_eq_or_of_lt h₀]
  simp only [Nat.shiftLeft_eq]
  omega

theorem word_inj {b₃ b₂ b₁ b₀ c₃ c₂ c₁ c₀ : BitVec 8} :
    word b₃ b₂ b₁ b₀ = word c₃ c₂ c₁ c₀ ↔ b₃ = c₃ ∧ b₂ = c₂ ∧ b₁ = c₁ ∧ b₀ = c₀ := by
  constructor
  · intro h
    have hnat := congrArg BitVec.toNat h
    rw [word_toNat, word_toNat] at hnat
    have hb := And.intro (And.intro b₃.isLt b₂.isLt) (And.intro b₁.isLt b₀.isLt)
    have hc := And.intro (And.intro c₃.isLt c₂.isLt) (And.intro c₁.isLt c₀.isLt)
    refine ⟨BitVec.eq_of_toNat_eq ?_, BitVec.eq_of_toNat_eq ?_, BitVec.eq_of_toNat_eq ?_,
      BitVec.eq_of_toNat_eq ?_⟩ <;> omega
  · rintro ⟨rfl, rfl, rfl, rfl⟩
    rfl

/-- A word moved up by a byte, and another byte below it. -/
theorem inpw_shift_or (regs : Nat → BitVec 8) (o : Nat) (b : BitVec 8) :
    inpw regs o <<< 8 ||| b.setWidth 32 =
      word (regs (o + 2)) (regs (o + 1)) (regs o) b := by
  have h₂ := (regs (o + 2)).isLt
  have h₁ := (regs (o + 1)).isLt
  have h₀ := (regs o).isLt
  have hb := b.isLt
  have hshift : (inpw regs o <<< 8).toNat =
      ((regs (o + 2)).toNat * 2 ^ 16 + (regs (o + 1)).toNat * 2 ^ 8 + (regs o).toNat) * 2 ^ 8 := by
    have hword := word_toNat (regs (o + 3)) (regs (o + 2)) (regs (o + 1)) (regs o)
    rw [BitVec.toNat_shiftLeft, show inpw regs o = word _ _ _ _ from rfl, hword, Nat.shiftLeft_eq]
    omega
  have hlow : (b.setWidth 32).toNat = b.toNat := by
    rw [BitVec.toNat_setWidth]
    exact Nat.mod_eq_of_lt (by omega)
  apply BitVec.eq_of_toNat_eq
  rw [Machine.toNat_or_of_dvd (k := 8) (by rw [hshift]; exact Nat.dvd_mul_left _ _)
    (by rw [hlow]; exact hb), hshift, hlow, word_toNat]
  omega

theorem csdByte_toNat (csd : BitVec 120) (k : Nat) :
    (csdByte csd k).toNat = csd.toNat / 2 ^ (8 * k) % 256 :=
  Machine.field_eq csd (8 * k) 8

theorem shifted_toNat (csd : BitVec 120) : (csd ++ 0#8).toNat = csd.toNat * 256 := by
  rw [BitVec.toNat_append, Nat.shiftLeft_eq]
  exact Nat.or_zero _

/-- A word of the response as it should be. -/
theorem shifted_word (csd : BitVec 120) (k : Nat) :
    (csd ++ 0#8).extractLsb' (8 * (k + 1)) 32 =
      word (csdByte csd (k + 3)) (csdByte csd (k + 2)) (csdByte csd (k + 1)) (csdByte csd k) := by
  have hdiv : csd.toNat * 256 / 2 ^ (8 * (k + 1)) = csd.toNat / 2 ^ (8 * k) := by
    rw [Nat.mul_add, Nat.pow_add, ← Nat.div_div_eq_div_mul, Nat.div_right_comm]
    exact congrArg (· / 2 ^ (8 * k)) (Nat.mul_div_cancel _ (by decide))
  have hbyte : ∀ j, csd.toNat / 2 ^ (8 * (k + j)) = csd.toNat / 2 ^ (8 * k) / 2 ^ (8 * j) := by
    intro j
    rw [Nat.mul_add, Nat.pow_add, Nat.div_div_eq_div_mul]
  apply BitVec.eq_of_toNat_eq
  rw [BitVec.extractLsb'_toNat, shifted_toNat, Nat.shiftRight_eq_div_pow, hdiv, word_toNat]
  simp only [csdByte_toNat, hbyte]
  generalize csd.toNat / 2 ^ (8 * k) = x
  omega

theorem deliver_other (csd : BitVec 120) (other : Nat → BitVec 8) (hk : 0x1f ≤ k) :
    deliver csd other k = other k :=
  if_neg fun h => by omega

theorem deliver_resp (csd : BitVec 120) (other : Nat → BitVec 8) (hk : k < 15) :
    deliver csd other (0x10 + k) = csdByte csd k := by
  unfold deliver csdByte
  rw [if_pos ⟨by omega, by omega⟩, Nat.add_sub_cancel_left]

/-- The last word of the response is the one that is read where it is. -/
theorem cmdDone_three (csd : BitVec 120) (other : Nat → BitVec 8) :
    cmdDone (deliver csd other) 3 = (csd ++ 0#8).extractLsb' 0 32 := by
  have hread : cmdDone (deliver csd other) 3 =
      word (csdByte csd 2) (csdByte csd 1) (csdByte csd 0) 0 := by
    have hor := inpw_shift_or (deliver csd other) 0x10 0
    rw [show (0 : BitVec 8).setWidth 32 = 0#32 from rfl, BitVec.or_zero] at hor
    show inpw (deliver csd other) 0x10 <<< 8 = _
    rw [hor, show 0x10 + 2 = 0x10 + 2 from rfl, deliver_resp csd other (k := 2) (by decide),
      deliver_resp csd other (k := 1) (by decide), show 0x10 = 0x10 + 0 from rfl,
      deliver_resp csd other (k := 0) (by decide)]
  rw [hread]
  apply BitVec.eq_of_toNat_eq
  rw [BitVec.extractLsb'_toNat, shifted_toNat, Nat.shiftRight_eq_div_pow, word_toNat]
  simp only [csdByte_toNat]
  show _ = csd.toNat * 256 / 1 % 2 ^ 32
  rw [show (0 : BitVec 8).toNat = 0 from rfl]
  omega

/-- The response is right exactly where the registers read in its place are. -/
theorem response_iff (csd : BitVec 120) (other : Nat → BitVec 8) :
    (∀ i < 4, cmdDone (deliver csd other) i = (csd ++ 0#8).extractLsb' (32 * (3 - i)) 32) ↔
      Aliased csd other := by
  have h0 : cmdDone (deliver csd other) 0 =
      word (other 0x42) (other 0x41) (other 0x40) (other 0x3c) := by
    show inpw (deliver csd other) 0x40 <<< 8 ||| (deliver csd other 0x3c).setWidth 32 = _
    rw [inpw_shift_or, deliver_other _ _ (by decide), deliver_other _ _ (by decide),
      deliver_other _ _ (by decide), deliver_other _ _ (by decide)]
  have h1 : cmdDone (deliver csd other) 1 =
      word (other 0x32) (other 0x31) (other 0x30) (other 0x2c) := by
    show inpw (deliver csd other) 0x30 <<< 8 ||| (deliver csd other 0x2c).setWidth 32 = _
    rw [inpw_shift_or, deliver_other _ _ (by decide), deliver_other _ _ (by decide),
      deliver_other _ _ (by decide), deliver_other _ _ (by decide)]
  have h2 : cmdDone (deliver csd other) 2 =
      word (other 0x22) (other 0x21) (other 0x20) (csdByte csd 12) := by
    show inpw (deliver csd other) 0x20 <<< 8 ||| (deliver csd other (0x10 + 12)).setWidth 32 = _
    rw [inpw_shift_or, deliver_other _ _ (by decide), deliver_other _ _ (by decide),
      deliver_other _ _ (by decide), deliver_resp _ _ (by decide)]
  have w0 : (csd ++ 0#8).extractLsb' (32 * (3 - 0)) 32 =
      word (csdByte csd 14) (csdByte csd 13) (csdByte csd 12) (csdByte csd 11) :=
    shifted_word csd 11
  have w1 : (csd ++ 0#8).extractLsb' (32 * (3 - 1)) 32 =
      word (csdByte csd 10) (csdByte csd 9) (csdByte csd 8) (csdByte csd 7) :=
    shifted_word csd 7
  have w2 : (csd ++ 0#8).extractLsb' (32 * (3 - 2)) 32 =
      word (csdByte csd 6) (csdByte csd 5) (csdByte csd 4) (csdByte csd 3) :=
    shifted_word csd 3
  constructor
  · intro h
    have e0 := h 0 (by decide)
    have e1 := h 1 (by decide)
    have e2 := h 2 (by decide)
    rw [h0, w0, word_inj] at e0
    rw [h1, w1, word_inj] at e1
    rw [h2, w2, word_inj] at e2
    exact ⟨e0, e1, e2⟩
  · rintro ⟨e0, e1, e2⟩ i hi
    obtain rfl | rfl | rfl | rfl : i = 0 ∨ i = 1 ∨ i = 2 ∨ i = 3 := by omega
    · rw [h0, w0, word_inj]
      exact e0
    · rw [h1, w1, word_inj]
      exact e1
    · rw [h2, w2, word_inj]
      exact e2
    · exact cmdDone_three csd other

/-! ## Fields of a response that is right -/

/-- A word of the response from bit `lo` on. -/
theorem response_bits {response : Nat → BitVec 32}
    (hr : ∀ i < 4, response i = (csd ++ 0#8).extractLsb' (32 * (3 - i)) 32) (hi : i < 3)
    (lo n : Nat) (hn : lo + n ≤ 32) :
    (response i).toNat / 2 ^ lo % 2 ^ n =
      csd.toNat / 2 ^ (32 * (3 - i) + lo - 8) % 2 ^ n := by
  have hsplit : (2 : Nat) ^ 32 = 2 ^ lo * 2 ^ (32 - lo) := by
    rw [← Nat.pow_add, Nat.add_sub_cancel' (by omega)]
  have hdvd : (2 : Nat) ^ n ∣ 2 ^ (32 - lo) := Nat.pow_dvd_pow 2 (by omega)
  have hpow : (2 : Nat) ^ (32 * (3 - i)) = 256 * 2 ^ (32 * (3 - i) - 8) := by
    rw [show (256 : Nat) = 2 ^ 8 from rfl, ← Nat.pow_add]
    congr 1
    omega
  have hplace : 32 * (3 - i) - 8 + lo = 32 * (3 - i) + lo - 8 := by omega
  rw [hr i (by omega), BitVec.extractLsb'_toNat, shifted_toNat, Nat.shiftRight_eq_div_pow, hsplit,
    Nat.mod_mul_right_div_self, Nat.mod_mod_of_dvd _ hdvd, hpow, Nat.mul_comm csd.toNat,
    Nat.mul_div_mul_left _ _ (by decide), Nat.div_div_eq_div_mul, ← Nat.pow_add, hplace]

/-- `(w & msk) >> lo` for a mask of `n` ones -/
theorem masked_toNat (w msk : BitVec 32) {m : BitVec 32} (lo n : Nat) (hm : msk >>> lo = m)
    (hn : m.toNat = 2 ^ n - 1) : ((w &&& msk) >>> lo).toNat = w.toNat / 2 ^ lo % 2 ^ n := by
  rw [BitVec.ushiftRight_and_distrib, hm, BitVec.toNat_and, BitVec.toNat_ushiftRight, hn,
    Nat.and_two_pow_sub_one_eq_mod, Nat.shiftRight_eq_div_pow]

/-- The bits of two words that belong together. -/
theorem joined_toNat {hi lo : BitVec 32} {k a b : Nat} (ha : hi.toNat = a) (hb : lo.toNat = b)
    (hbk : b < 2 ^ k) (hak : a * 2 ^ k < 2 ^ 32) : (hi <<< k ||| lo).toNat = a * 2 ^ k + b := by
  have hshift : (hi <<< k).toNat = a * 2 ^ k := by
    rw [BitVec.toNat_shiftLeft, ha, Nat.shiftLeft_eq, Nat.mod_eq_of_lt hak]
  rw [Machine.toNat_or_of_dvd (k := k) (by rw [hshift]; exact Nat.dvd_mul_left _ _)
    (by rw [hb]; exact hbk), hshift, hb]

section Right

variable (hr : ∀ i < 4, cmdDone regs i = (csd ++ 0#8).extractLsb' (32 * (3 - i)) 32)

include hr

theorem structure_eq :
    (cmdDone regs 0 &&& 0xc0000000#32).toNat = csdField csd 127 126 * 2 ^ 30 := by
  have hbits := response_bits hr (i := 0) (by decide) 30 2 (by decide)
  have hmask := masked_toNat (cmdDone regs 0) 0xc0000000#32 30 2 (m := 3) rfl rfl
  rw [BitVec.toNat_ushiftRight, Nat.shiftRight_eq_div_pow, hbits] at hmask
  -- nothing is left below the two bits
  have hlow : (cmdDone regs 0 &&& 0xc0000000#32).toNat % 2 ^ 30 = 0 := by
    rw [BitVec.toNat_and, Nat.and_mod_two_pow]
    exact Nat.and_zero _
  have hsplit := Nat.div_add_mod (cmdDone regs 0 &&& 0xc0000000#32).toNat (2 ^ 30)
  rw [hlow, hmask, Nat.add_zero, Nat.mul_comm] at hsplit
  exact hsplit.symm

theorem cSizeV1_eq :
    ((cmdDone regs 1 &&& 0x000003ff#32) <<< 2 |||
      (cmdDone regs 2 &&& 0xc0000000#32) >>> 30).toNat = csdField csd 73 62 := by
  have hhigh := response_bits hr (i := 1) (by decide) 0 10 (by decide)
  have hlow := response_bits hr (i := 2) (by decide) 30 2 (by decide)
  have hmask := masked_toNat (cmdDone regs 1) 0x3ff#32 0 10 (m := 0x3ff) rfl rfl
  have hmask' := masked_toNat (cmdDone regs 2) 0xc0000000#32 30 2 (m := 3) rfl rfl
  rw [BitVec.ushiftRight_zero] at hmask
  rw [hhigh] at hmask
  rw [hlow] at hmask'
  rw [joined_toNat hmask hmask' (Nat.mod_lt _ (by decide)) (by omega)]
  show csd.toNat / 2 ^ 56 % 2 ^ 10 * 2 ^ 2 + csd.toNat / 2 ^ 54 % 2 ^ 2 =
    csd.toNat / 2 ^ 54 % 2 ^ 12
  omega

theorem cSizeV2_eq :
    ((cmdDone regs 1 &&& 0x0000003f#32) <<< 16 |||
      (cmdDone regs 2 &&& 0xffff0000#32) >>> 16).toNat = csdField csd 69 48 := by
  have hhigh := response_bits hr (i := 1) (by decide) 0 6 (by decide)
  have hlow := response_bits hr (i := 2) (by decide) 16 16 (by decide)
  have hmask := masked_toNat (cmdDone regs 1) 0x3f#32 0 6 (m := 0x3f) rfl rfl
  have hmask' := masked_toNat (cmdDone regs 2) 0xffff0000#32 16 16 (m := 0xffff) rfl rfl
  rw [BitVec.ushiftRight_zero] at hmask
  rw [hhigh] at hmask
  rw [hlow] at hmask'
  rw [joined_toNat hmask hmask' (Nat.mod_lt _ (by decide)) (by omega)]
  show csd.toNat / 2 ^ 56 % 2 ^ 6 * 2 ^ 16 + csd.toNat / 2 ^ 40 % 2 ^ 16 =
    csd.toNat / 2 ^ 40 % 2 ^ 22
  omega

theorem sizeV1_toNat : (sizeV1 (cmdDone regs)).toNat = bytesV1 csd % 2 ^ 32 := by
  have hLen := masked_toNat (cmdDone regs 1) 0x000f0000#32 16 4 (m := 0xf) rfl rfl
  have hMult := masked_toNat (cmdDone regs 2) 0x00038000#32 15 3 (m := 0x7) rfl rfl
  rw [response_bits hr (by decide) _ _ (by decide)] at hLen hMult
  show (BitVec.ofNat 32 _).toNat = _
  rw [cSizeV1_eq hr, hLen, hMult, BitVec.toNat_ofNat]
  rfl

theorem structure_three_iff :
    cmdDone regs 0 &&& 0xc0000000#32 = 0xc0000000#32 ↔ csdField csd 127 126 = 3 := by
  have hval := structure_eq hr
  rw [← BitVec.toNat_inj, hval]
  show _ = 3 * 2 ^ 30 ↔ _
  omega

theorem structure_zero_iff :
    cmdDone regs 0 &&& 0xc0000000#32 = 0 ↔ csdField csd 127 126 = 0 := by
  have hval := structure_eq hr
  rw [← BitVec.toNat_inj, hval]
  show _ = 0 ↔ _
  omega

end Right

theorem csdField_lt (csd : BitVec 120) (hi lo : Nat) : csdField csd hi lo < 2 ^ (hi - lo + 1) :=
  Nat.mod_lt _ (Nat.two_pow_pos _)

/-- The bytes of a CSD of version 1 have at most 37 bits. -/
theorem bytesV1_le (csd : BitVec 120) : bytesV1 csd ≤ 2 ^ 36 := by
  have hsize := csdField_lt csd 73 62
  have hmult := csdField_lt csd 49 47
  have hlen := csdField_lt csd 83 80
  calc bytesV1 csd ≤ 2 ^ 12 * 2 ^ 9 * 2 ^ 15 :=
        Nat.mul_le_mul (Nat.mul_le_mul hsize (Nat.pow_le_pow_right (by decide) (by omega)))
          (Nat.pow_le_pow_right (by decide) (by omega))
    _ = 2 ^ 36 := by decide

/-- Both numbers are right: what the law says once the response is. -/
def CountsRight (card : Card) (info : SdInfo) : Prop :=
  ∀ n ∈ capacity card, (n.1 < 2 ^ 32 → info.totalSectorN.toNat = n.1) ∧
    (n.2 < 2 ^ 32 → info.diskSize.toNat = n.2)

theorem countsRight_some {info : SdInfo} {a b : Nat} (h : capacity card = some (a, b)) :
    CountsRight card info ↔
      (a < 2 ^ 32 → info.totalSectorN.toNat = a) ∧ (b < 2 ^ 32 → info.diskSize.toNat = b) := by
  unfold CountsRight
  rw [h]
  simp

theorem countsRight_none {info : SdInfo} (h : capacity card = none) : CountsRight card info := by
  intro n hn
  rw [h] at hn
  cases hn

/-- The bytes of a CSD of version 1 are counted in 32 bits. -/
theorem infoV1_right (old : SdInfo)
    (hr : ∀ i < 4, cmdDone regs i = (card.csd ++ 0#8).extractLsb' (32 * (3 - i)) 32)
    (hcap : capacity card = some (bytesV1 card.csd / 512, bytesV1 card.csd / 1024))
    {info : SdInfo} (hn : info.totalSectorN = (infoV1 (cmdDone regs) old).totalSectorN)
    (hd : info.diskSize = (infoV1 (cmdDone regs) old).diskSize) :
    CountsRight card info ↔ bytesV1 card.csd < 2 ^ 32 := by
  have hle := bytesV1_le card.csd
  have hsectors : info.totalSectorN.toNat = bytesV1 card.csd % 2 ^ 32 / 512 := by
    rw [hn]
    exact BitVec.toNat_udiv.trans (congrArg (· / 512) (sizeV1_toNat hr))
  have hsize : info.diskSize.toNat = bytesV1 card.csd % 2 ^ 32 / 1024 := by
    rw [hd]
    exact BitVec.toNat_udiv.trans (congrArg (· / 1024) (sizeV1_toNat hr))
  rw [countsRight_some hcap, hsectors, hsize]
  omega

/-- No number of a CSD of version 2 is cut off that fits. -/
theorem infoV2_right (old : SdInfo)
    (hr : ∀ i < 4, cmdDone regs i = (card.csd ++ 0#8).extractLsb' (32 * (3 - i)) 32)
    (hcap : capacity card =
      some ((csdField card.csd 69 48 + 1) * 1024, (csdField card.csd 69 48 + 1) * 512))
    {info : SdInfo} (hn : info.totalSectorN = (infoV2 (cmdDone regs) old).totalSectorN)
    (hd : info.diskSize = (infoV2 (cmdDone regs) old).diskSize) : CountsRight card info := by
  have hlt := csdField_lt card.csd 69 48
  have hsize : (infoV2 (cmdDone regs) old).diskSize.toNat =
      (csdField card.csd 69 48 + 1) * 512 := by
    show ((_ + 1) * 512 : BitVec 32).toNat = _
    rw [BitVec.toNat_mul, BitVec.toNat_add, cSizeV2_eq hr]
    show (csdField card.csd 69 48 + 1) % 2 ^ 32 * 512 % 2 ^ 32 = _
    omega
  have hsectors : (infoV2 (cmdDone regs) old).totalSectorN.toNat =
      (csdField card.csd 69 48 + 1) * 512 * 2 % 2 ^ 32 := by
    show ((infoV2 (cmdDone regs) old).diskSize <<< 1).toNat = _
    rw [BitVec.toNat_shiftLeft, hsize, Nat.shiftLeft_eq]
  rw [countsRight_some hcap, hn, hd, hsectors, hsize]
  omega

/-- The sectors of a large eMMC are those of the block that the data command has brought. -/
theorem infoExt_right (hcap : capacity card =
      if (card.reply sendExtCsd).ret = 0 then
        some ((sectorCount (card.reply sendExtCsd).block).toNat,
          (sectorCount (card.reply sendExtCsd).block).toNat / 2)
      else none)
    {info : SdInfo} (hn : info.totalSectorN = (infoExt card old).totalSectorN)
    (hd : info.diskSize = (infoExt card old).diskSize) :
    CountsRight card info ↔ ((card.reply sendExtCsd).ret = 0 →
      if (card.reply selectCard).ret = 0 then
        sectorCount (card.reply selectCard).block = sectorCount (card.reply sendExtCsd).block
      else
        old.totalSectorN = sectorCount (card.reply sendExtCsd).block ∧
          old.diskSize = sectorCount (card.reply sendExtCsd).block / 2) := by
  by_cases hext : (card.reply sendExtCsd).ret = 0
  · rw [if_pos hext] at hcap
    generalize sectorCount (card.reply sendExtCsd).block = n at hcap ⊢
    have hlt := n.isLt
    have hhalf : (n / 2).toNat = n.toNat / 2 := BitVec.toNat_udiv
    have hwhole : CountsRight card info ↔
        (infoExt card old).totalSectorN = n ∧ (infoExt card old).diskSize = n / 2 := by
      rw [countsRight_some hcap, hn, hd, ← BitVec.toNat_inj, ← BitVec.toNat_inj, hhalf]
      exact and_congr (imp_iff_right hlt) (imp_iff_right (by omega))
    rw [hwhole, imp_iff_right hext]
    unfold infoExt
    by_cases hsel : (card.reply selectCard).ret = 0
    · simp only [if_pos hsel]
      constructor
      · exact fun h => h.1
      · exact fun h => ⟨h, congrArg (· / 2) h⟩
    · simp only [if_neg hsel]
  · rw [if_neg hext] at hcap
    exact iff_of_true (countsRight_none hcap) fun h => absurd h hext

/-- With the right response the numbers are right exactly where they are countable. -/
theorem countsRight_iff (old : SdInfo)
    (hr : ∀ i < 4, cmdDone regs i = (card.csd ++ 0#8).extractLsb' (32 * (3 - i)) 32) :
    CountsRight card (getSdInfo regs card old) ↔ Countable card old := by
  have hthree := structure_three_iff hr
  have hzero := structure_zero_iff hr
  by_cases hmmc : card.type = .mmc ∨ card.type = .emmc
  · by_cases h3 : csdField card.csd 127 126 = 3
    · have hinfo : getSdInfo regs card old = { infoExt card old with sectorSize := 512 } := by
        simp only [getSdInfo, if_pos hmmc, if_pos (hthree.2 h3)]
      rw [Countable, if_pos hmmc, if_pos h3]
      apply infoExt_right
      · rw [capacity, if_pos hmmc, if_pos h3]
      · rw [hinfo]
      · rw [hinfo]
    · have hinfo : getSdInfo regs card old =
          { infoV1 (cmdDone regs) old with sectorSize := 512 } := by
        simp only [getSdInfo, if_pos hmmc, if_neg fun h => h3 (hthree.1 h)]
      rw [Countable, if_pos hmmc, if_neg h3]
      refine infoV1_right old hr ?_ (by rw [hinfo]) (by rw [hinfo])
      rw [capacity, if_pos hmmc, if_neg h3]
  · by_cases h0 : csdField card.csd 127 126 = 0
    · have hinfo : getSdInfo regs card old =
          { infoV1 (cmdDone regs) old with sectorSize := 512 } := by
        simp only [getSdInfo, if_neg hmmc]
        rw [if_neg (not_not_intro (hzero.2 h0))]
      rw [Countable, if_neg hmmc, imp_iff_right h0]
      refine infoV1_right old hr ?_ (by rw [hinfo]) (by rw [hinfo])
      rw [capacity, if_neg hmmc, if_pos h0]
    · have hinfo : getSdInfo regs card old =
          { infoV2 (cmdDone regs) old with sectorSize := 512 } := by
        simp only [getSdInfo, if_neg hmmc]
        rw [if_pos fun h => h0 (hzero.1 h)]
      refine iff_of_true ?_ ?_
      · by_cases h1 : csdField card.csd 127 126 = 1
        · refine infoV2_right old hr ?_ (by rw [hinfo]) (by rw [hinfo])
          rw [capacity, if_neg hmmc, if_neg h0, if_pos h1]
        · apply countsRight_none
          rw [capacity, if_neg hmmc, if_neg h0, if_neg h1]
      · rw [Countable, if_neg hmmc]
        exact fun h => absurd h h0

end Response

/-- The response and the capacity are right exactly where the registers that are read for the
response registers hold what these do, and the capacity is countable. -/
theorem getSdInfo_law_iff (card : Card) (other : Nat → BitVec 8) (old : SdInfo) :
    CapacityLaw card other old ↔ Aliased card.csd other ∧ Countable card old := by
  constructor
  · intro h
    exact ⟨(response_iff _ _).1 h.response,
      (countsRight_iff old h.response).1 fun n hn => ⟨h.sectors n hn, h.size n hn⟩⟩
  · rintro ⟨halias, hcount⟩
    have hr := (response_iff card.csd other).2 halias
    have hright := (countsRight_iff old hr).2 hcount
    exact ⟨hr, fun n hn => (hright n hn).1, fun n hn => (hright n hn).2⟩

/-- An SDHC card of 512 KB: version 2 of the CSD, and nothing else in it. -/
def smallSdhc : Card := ⟨.sdHigh, BitVec.ofNat 120 (2 ^ 118), fun _ => ⟨-1, fun _ => 0⟩⟩

/-- `CLK_CTRL_R` of a running card clock and `NORMAL_INT_STAT_R` of a completed command, and zero
in the other registers. -/
def completed (offset : Nat) : BitVec 8 :=
  if offset = 0x2c then 7 else if offset = 0x30 then 1 else 0

/-- The version is read from the capabilities, and the size from the clock and the status. -/
theorem not_capacityLaw_smallSdhc :
    capacity smallSdhc = some (1024, 512) ∧
      getSdInfo (deliver smallSdhc.csd completed) smallSdhc ⟨0, 0, 0⟩ = ⟨8, 4, 512⟩ ∧
      ¬ CapacityLaw smallSdhc completed ⟨0, 0, 0⟩ := by
  have hinfo : getSdInfo (deliver smallSdhc.csd completed) smallSdhc ⟨0, 0, 0⟩ = ⟨8, 4, 512⟩ := by
    decide
  have hcap : capacity smallSdhc = some (1024, 512) := by decide
  refine ⟨hcap, hinfo, fun h => ?_⟩
  have hsectors := h.sectors (1024, 512) hcap (by decide)
  rw [hinfo] at hsectors
  exact absurd hsectors (by decide)

end Ma35d1.Sdh.CardInfo

import Mathlib.Data.List.GetD
import Mathlib.Data.Nat.Digits.Defs
import Mathlib.Tactic.Ring

/-!
# Hexadecimal text and registers

`MbedTLS_ALT_Hex2Reg` walks a string from its end and packs eight digits into each word;
`MbedTLS_ALT_Reg2Hex` writes a given number of digits back. A number is a little-endian list
of digits, in base 16 on one side and in base `2 ^ 32` on the other.
-/

namespace Ma35d1.Tsi

/-! ## The code -/

/-- `hex_char_tbl`, without its terminator -/
def hexCharTbl : List (BitVec 8) :=
  [0x30, 0x31, 0x32, 0x33, 0x34, 0x35, 0x36, 0x37, 0x38, 0x39, 0x61, 0x62, 0x63, 0x64, 0x65, 0x66]

/-- `get_Nth_nibble_char` -/
def getNthNibbleChar (val32 : BitVec 32) (idx : Nat) : BitVec 8 :=
  hexCharTbl.getD (val32 >>> (idx * 4) &&& 0xf#32).toNat 0

/-- `ch2hex` -/
def ch2hex (ch : BitVec 8) : BitVec 8 :=
  if ch ≤ 0x39#8 then ch - 0x30#8
  else if ch ≤ 0x7a#8 ∧ 0x61#8 ≤ ch then ch - 0x61#8 + 10#8
  else ch - 0x41#8 + 10#8

/-- The inner loop of `MbedTLS_ALT_Hex2Reg` with `n` rounds left before `i` is 8; `k` is
`si + 1`. -/
def hexGroup (input : List (BitVec 8)) : Nat → Nat → Nat → BitVec 32 → BitVec 32 × Nat
  | 0, _, k, val32 => (val32, k)
  | _ + 1, _, 0, val32 => (val32, 0)
  | n + 1, i, k + 1, val32 =>
    hexGroup input n (i + 1) k (val32 ||| (ch2hex (input.getD k 0)).setWidth 32 <<< (i * 4))

/-- The outer loop, of at most `n` rounds. -/
def hexWords (input : List (BitVec 8)) : Nat → Nat → Nat → (Nat → BitVec 32) → Nat → BitVec 32
  | 0, _, _, reg => reg
  | n + 1, k, ri, reg =>
    if k = 0 then reg
    else
      let g := hexGroup input 8 0 k 0
      hexWords input n g.2 (ri + 1) (Function.update reg ri g.1)

/-- `MbedTLS_ALT_Hex2Reg`; every round takes a character, so there are no more than `si + 1`. -/
def hex2Reg (input : List (BitVec 8)) (reg : Nat → BitVec 32) : Nat → BitVec 32 :=
  -- `(int)strlen(input)`
  let k := (BitVec.ofNat 32 input.length).toInt.toNat
  hexWords input k k 0 reg

/-- The inner loop of `MbedTLS_ALT_Reg2Hex`; `k` is `idx + 1`. -/
def putGroup (val32 : BitVec 32) : Nat → Nat → Nat → (Nat → BitVec 8) → (Nat → BitVec 8) × Nat
  | 0, _, k, output => (output, k)
  | _ + 1, _, 0, output => (output, 0)
  | n + 1, i, k + 1, output =>
    putGroup val32 n (i + 1) k (Function.update output k (getNthNibbleChar val32 i))

/-- The outer loop, of at most `n` rounds. -/
def putWords (reg : Nat → BitVec 32) : Nat → Nat → Nat → (Nat → BitVec 8) → Nat → BitVec 8
  | 0, _, _, output => output
  | n + 1, k, ri, output =>
    if k = 0 then output
    else
      let g := putGroup (reg ri) 8 0 k output
      putWords reg n g.2 (ri + 1) g.1

/-- `MbedTLS_ALT_Reg2Hex`, for a count that is not negative. -/
def reg2Hex (count : Nat) (reg : Nat → BitVec 32) (output : Nat → BitVec 8) : Nat → BitVec 8 :=
  putWords reg count count 0 (Function.update output count 0)

/-! ## Numbers -/

def IsHex (c : BitVec 8) : Prop :=
  (0x30#8 ≤ c ∧ c ≤ 0x39#8) ∨ (0x61#8 ≤ c ∧ c ≤ 0x66#8) ∨ (0x41#8 ≤ c ∧ c ≤ 0x46#8)

instance (c : BitVec 8) : Decidable (IsHex c) := by unfold IsHex; infer_instance

/-- The digit that a character stands for. -/
def hexVal (c : BitVec 8) : Nat :=
  if c ≤ 0x39#8 then c.toNat - 0x30 else if 0x61#8 ≤ c then c.toNat - 0x57 else c.toNat - 0x37

def toLower (c : BitVec 8) : BitVec 8 := if 0x41#8 ≤ c ∧ c ≤ 0x46#8 then c + 0x20#8 else c

/-- The digits of a string, the last one first. -/
def lowDigits (s : List (BitVec 8)) : List Nat := (s.map hexVal).reverse

/-- The number that a string denotes. -/
def denotes (s : List (BitVec 8)) : Nat := Nat.ofDigits 16 (lowDigits s)

/-- The digit at `i` of a number in base `2 ^ 32`. -/
def wordOf (v i : Nat) : BitVec 32 := BitVec.ofNat 32 (v / (2 ^ 32) ^ i)

/-- The words that `n` hexadecimal digits take. -/
def wordCount (n : Nat) : Nat := (n + 7) / 8

/-- The memory holds the string `s` and its terminator. -/
def HoldsString (mem : Nat → BitVec 8) (s : List (BitVec 8)) : Prop :=
  (∀ (j : Nat) (h : j < s.length), mem j = s[j]) ∧ mem s.length = 0 ∧ 0 ∉ s

section Digits

variable {s : List (BitVec 8)} {c : BitVec 8} {n k i j v : Nat}

theorem ch2hex_toNat (hc : IsHex c) : (ch2hex c).toNat = hexVal c ∧ hexVal c < 16 := by
  revert c
  decide +kernel

theorem hexCharTbl_hexVal (hc : IsHex c) : hexCharTbl.getD (hexVal c) 0 = toLower c := by
  revert c
  decide +kernel

theorem hexCharTbl_isHex (hk : k < 16) :
    IsHex (hexCharTbl.getD k 0) ∧ hexVal (hexCharTbl.getD k 0) = k := by
  revert k
  decide

theorem isHex_ne_zero (hc : IsHex c) : c ≠ 0 := by
  revert c
  decide +kernel

/-! ## The number of a prefix -/

/-- One more character below. -/
theorem denotes_take_succ (hk : k < s.length) :
    denotes (s.take (k + 1)) = hexVal s[k] + 16 * denotes (s.take k) := by
  have hdigits : lowDigits (s.take (k + 1)) = hexVal s[k] :: lowDigits (s.take k) := by
    unfold lowDigits
    rw [List.take_succ_eq_append_getElem hk, List.map_append, List.reverse_append]
    rfl
  unfold denotes
  rw [hdigits, Nat.ofDigits_cons]

theorem denotes_take_zero : denotes (s.take 0) = 0 := rfl

/-- The last `n` of the digits dropped. -/
theorem denotes_div (hs : ∀ c ∈ s, IsHex c) (hk : k ≤ s.length) (n : Nat) :
    denotes (s.take k) / 16 ^ n = denotes (s.take (k - n)) := by
  induction n generalizing k with
  | zero => rw [Nat.pow_zero, Nat.div_one, Nat.sub_zero]
  | succ n ih =>
    rw [Nat.pow_succ', ← Nat.div_div_eq_div_mul]
    cases k with
    | zero => rw [Nat.zero_sub, denotes_take_zero, Nat.zero_div]
    | succ k =>
      have hlt := (ch2hex_toNat (hs _ (List.getElem_mem hk))).2
      have hdiv : (hexVal s[k] + 16 * denotes (s.take k)) / 16 = denotes (s.take k) := by omega
      rw [denotes_take_succ hk, hdiv, ih (Nat.le_of_lt hk), Nat.add_sub_add_right]

/-- The digit of a character. -/
theorem denotes_digit (hs : ∀ c ∈ s, IsHex c) (hj : j < s.length) :
    denotes s / 16 ^ (s.length - 1 - j) % 16 = hexVal s[j] := by
  have hlt := (ch2hex_toNat (hs _ (List.getElem_mem hj))).2
  have hlen : s.length - (s.length - 1 - j) = j + 1 := by omega
  have hdiv := denotes_div hs (Nat.le_refl s.length) (s.length - 1 - j)
  rw [List.take_length, hlen, denotes_take_succ hj] at hdiv
  rw [hdiv]
  omega

theorem wordOf_zero (v : Nat) : wordOf v 0 = BitVec.ofNat 32 (v % 16 ^ 8) := by
  apply BitVec.eq_of_toNat_eq
  simp only [wordOf, Nat.pow_zero, Nat.div_one, BitVec.toNat_ofNat]
  exact (Nat.mod_mod v (2 ^ 32)).symm

theorem wordOf_succ (v i : Nat) : wordOf v (i + 1) = wordOf (v / 16 ^ 8) i := by
  unfold wordOf
  rw [Nat.pow_succ', ← Nat.div_div_eq_div_mul]
  rfl

theorem wordCount_pos (hk : k ≠ 0) : wordCount k = wordCount (k - 8) + 1 := by
  unfold wordCount
  omega

/-! ## Text to words -/

/-- Up to eight digits are put above those that are in the word. -/
theorem hexGroup_eq (hs : ∀ c ∈ s, IsHex c) (val32 : BitVec 32) (hk : k ≤ s.length)
    (hi : i + n ≤ 8) (hval : val32.toNat < 16 ^ i) :
    hexGroup s n i k val32 =
      (BitVec.ofNat 32 (val32.toNat + 16 ^ i * (denotes (s.take k) % 16 ^ n)), k - n) := by
  induction n generalizing i k val32 with
  | zero =>
    rw [hexGroup, Nat.pow_zero, Nat.mod_one, Nat.mul_zero, Nat.add_zero, Nat.sub_zero,
      BitVec.ofNat_toNat, BitVec.setWidth_eq]
  | succ n ih =>
    cases k with
    | zero =>
      rw [hexGroup, denotes_take_zero, Nat.zero_mod, Nat.mul_zero, Nat.add_zero, Nat.zero_sub,
        BitVec.ofNat_toNat, BitVec.setWidth_eq]
    | succ k =>
      obtain ⟨hdigit, hlt⟩ := ch2hex_toNat (hs _ (List.getElem_mem hk))
      have hpow : 16 ^ (i + 1) ≤ 16 ^ 8 := Nat.pow_le_pow_right (by decide) (by omega)
      have hsum : 16 ^ i * hexVal s[k] + val32.toNat < 16 ^ (i + 1) := by
        rw [Nat.pow_succ]
        calc 16 ^ i * hexVal s[k] + val32.toNat < 16 ^ i * hexVal s[k] + 16 ^ i :=
              Nat.add_lt_add_left hval _
          _ = 16 ^ i * (hexVal s[k] + 1) := (Nat.mul_succ _ _).symm
          _ ≤ 16 ^ i * 16 := Nat.mul_le_mul_left _ hlt
      have hshift : ((ch2hex s[k]).setWidth 32 <<< (i * 4)).toNat = 16 ^ i * hexVal s[k] := by
        have h16 : 2 ^ (i * 4) = 16 ^ i := by rw [Nat.mul_comm, Nat.pow_mul]
        have hfit : hexVal s[k] * 16 ^ i < 2 ^ 32 := by
          rw [Nat.mul_comm]
          exact (Nat.le_add_right _ _).trans_lt (hsum.trans_le hpow)
        rw [BitVec.toNat_shiftLeft, BitVec.toNat_setWidth, hdigit, Nat.shiftLeft_eq, h16,
          Nat.mod_eq_of_lt (hlt.trans (by decide)), Nat.mod_eq_of_lt hfit, Nat.mul_comm]
      have hor : (val32 ||| (ch2hex s[k]).setWidth 32 <<< (i * 4)).toNat =
          16 ^ i * hexVal s[k] + val32.toNat := by
        have h16 : 16 ^ i = 2 ^ (4 * i) := by rw [Nat.pow_mul]
        rw [BitVec.toNat_or, hshift, Nat.or_comm]
        rw [h16] at hval ⊢
        exact (Nat.two_pow_add_eq_or_of_lt hval _).symm
      have hmod : denotes (s.take (k + 1)) % 16 ^ (n + 1) =
          hexVal s[k] + 16 * (denotes (s.take k) % 16 ^ n) := by
        rw [denotes_take_succ hk, Nat.pow_succ', Nat.mod_mul]
        have hlow : (hexVal s[k] + 16 * denotes (s.take k)) % 16 = hexVal s[k] := by omega
        have hhigh : (hexVal s[k] + 16 * denotes (s.take k)) / 16 = denotes (s.take k) := by omega
        rw [hlow, hhigh]
      rw [hexGroup, List.getD_eq_getElem _ _ hk,
        ih _ (Nat.le_of_lt hk) (by omega) (by rw [hor]; exact hsum), hor, hmod,
        Nat.add_sub_add_right]
      congr 2
      ring

/-- The words from `ri` on are those of the prefix. -/
theorem hexWords_apply (hs : ∀ c ∈ s, IsHex c) (hk : k ≤ s.length) (hn : k ≤ n) (ri : Nat)
    (reg : Nat → BitVec 32) (i : Nat) :
    hexWords s n k ri reg i =
      if ri ≤ i ∧ i < ri + wordCount k then wordOf (denotes (s.take k)) (i - ri) else reg i := by
  induction n generalizing k ri reg with
  | zero =>
    obtain rfl : k = 0 := by omega
    rw [hexWords, if_neg (by unfold wordCount; omega)]
  | succ n ih =>
    by_cases hk0 : k = 0
    · rw [hexWords, if_pos hk0, if_neg (by unfold wordCount; omega)]
    · have hgroup := hexGroup_eq hs (n := 8) (i := 0) 0 hk (by decide) (by decide)
      have hfirst : (hexGroup s 8 0 k 0).1 = wordOf (denotes (s.take k)) 0 := by
        rw [hgroup, wordOf_zero]
        simp
      rw [hexWords, if_neg hk0]
      show hexWords s n (hexGroup s 8 0 k 0).2 (ri + 1)
        (Function.update reg ri (hexGroup s 8 0 k 0).1) i = _
      rw [hfirst, hgroup]
      show hexWords s n (k - 8) (ri + 1) _ i = _
      rw [ih (by omega) (by omega), ← denotes_div hs hk 8, wordCount_pos hk0]
      by_cases hi : i = ri
      · subst hi
        rw [if_neg (by omega), if_pos (by omega), Function.update_self, Nat.sub_self]
      · rw [Function.update_of_ne hi]
        by_cases hin : ri + 1 ≤ i ∧ i < ri + 1 + wordCount (k - 8)
        · have hsub : i - ri = i - (ri + 1) + 1 := by omega
          rw [if_pos hin, if_pos (by omega), hsub, wordOf_succ]
        · rw [if_neg hin, if_neg (by omega)]

/-- A length that an `int` holds. -/
theorem toNat_ofNat_toInt (hn : n < 2 ^ 31) : (BitVec.ofNat 32 n).toInt.toNat = n := by
  have hmod : n % 2 ^ 32 = n := Nat.mod_eq_of_lt (by omega)
  rw [BitVec.toInt_eq_toNat_of_lt (by rw [BitVec.toNat_ofNat, hmod]; omega), BitVec.toNat_ofNat,
    hmod, Int.toNat_natCast]

/-- The words of a string, and no other, are written. -/
theorem hex2Reg_apply (hs : ∀ c ∈ s, IsHex c) (hlen : s.length < 2 ^ 31) (reg : Nat → BitVec 32)
    (i : Nat) :
    hex2Reg s reg i = if i < wordCount s.length then wordOf (denotes s) i else reg i := by
  unfold hex2Reg
  rw [toNat_ofNat_toInt hlen, hexWords_apply hs (Nat.le_refl _) (Nat.le_refl _), List.take_length]
  simp

/-! ## Words to text -/

theorem putGroup_eq (w : BitVec 32) (i k : Nat) (output : Nat → BitVec 8) :
    putGroup w n i k output =
      (fun j => if k - n ≤ j ∧ j < k then getNthNibbleChar w (i + (k - 1 - j)) else output j,
        k - n) := by
  induction n generalizing i k output with
  | zero =>
    rw [putGroup, Nat.sub_zero]
    congr 1
    funext j
    rw [if_neg (by omega)]
  | succ n ih =>
    cases k with
    | zero =>
      rw [putGroup, Nat.zero_sub]
      rfl
    | succ k =>
      rw [putGroup, ih, Nat.add_sub_add_right]
      congr 1
      funext j
      by_cases hj : j = k
      · subst hj
        rw [if_neg (by omega), if_pos (by omega), Function.update_self, Nat.add_sub_cancel,
          Nat.sub_self, Nat.add_zero]
      · rw [Function.update_of_ne hj]
        by_cases hin : k - n ≤ j ∧ j < k
        · have hidx : i + 1 + (k - 1 - j) = i + (k + 1 - 1 - j) := by omega
          rw [if_pos hin, if_pos (by omega), hidx]
        · rw [if_neg hin, if_neg (by omega)]

theorem putWords_apply (reg : Nat → BitVec 32) (hn : k ≤ n) (ri : Nat) (output : Nat → BitVec 8)
    (j : Nat) :
    putWords reg n k ri output j =
      if j < k then getNthNibbleChar (reg (ri + (k - 1 - j) / 8)) ((k - 1 - j) % 8)
      else output j := by
  induction n generalizing k ri output with
  | zero => rw [putWords, if_neg (by omega)]
  | succ n ih =>
    by_cases hk0 : k = 0
    · rw [putWords, if_pos hk0, if_neg (by omega)]
    · rw [putWords, if_neg hk0]
      show putWords reg n (putGroup (reg ri) 8 0 k output).2 (ri + 1)
        (putGroup (reg ri) 8 0 k output).1 j = _
      rw [putGroup_eq]
      show putWords reg n (k - 8) (ri + 1) _ j = _
      rw [ih (by omega)]
      by_cases hlow : j < k - 8
      · have hword : ri + 1 + (k - 8 - 1 - j) / 8 = ri + (k - 1 - j) / 8 := by omega
        have hnib : (k - 8 - 1 - j) % 8 = (k - 1 - j) % 8 := by omega
        rw [if_pos hlow, if_pos (by omega), hword, hnib]
      · rw [if_neg hlow]
        by_cases hj : j < k
        · have hword : ri + (k - 1 - j) / 8 = ri := by omega
          have hnib : (k - 1 - j) % 8 = 0 + (k - 1 - j) := by omega
          rw [if_pos hj, hword, hnib]
          exact if_pos ⟨Nat.le_of_not_lt hlow, hj⟩
        · rw [if_neg hj]
          exact if_neg fun h => hj h.2

/-- A nibble of a word is a hexadecimal digit of the number. -/
theorem nibble_wordOf (v : Nat) (hi : i < 8) :
    getNthNibbleChar (wordOf v n) i = hexCharTbl.getD (v / 16 ^ (8 * n + i) % 16) 0 := by
  have hsplit : (2 : Nat) ^ 32 = 16 ^ i * 16 ^ (8 - i) := by
    rw [← Nat.pow_add, Nat.add_sub_cancel' (Nat.le_of_lt hi)]
    rfl
  have hdvd : 16 ∣ 16 ^ (8 - i) := dvd_pow_self 16 (by omega)
  have hshift : 2 ^ (i * 4) = 16 ^ i := by rw [Nat.mul_comm, Nat.pow_mul]
  have hwords : v / (2 ^ 32) ^ n / 16 ^ i = v / 16 ^ (8 * n + i) := by
    rw [Nat.div_div_eq_div_mul, Nat.pow_add, Nat.pow_mul]
    rfl
  unfold getNthNibbleChar wordOf
  congr 1
  rw [BitVec.toNat_and, BitVec.toNat_ushiftRight, BitVec.toNat_ofNat, Nat.shiftRight_eq_div_pow,
    hshift]
  refine (Nat.and_two_pow_sub_one_eq_mod _ 4).trans ?_
  have hmod : ∀ x : Nat, x % 2 ^ 32 / 16 ^ i % 2 ^ 4 = x / 16 ^ i % 16 := by
    intro x
    rw [hsplit, Nat.mod_mul_right_div_self]
    exact Nat.mod_mod_of_dvd _ hdvd
  rw [hmod, hwords]

/-- What is written of the number that the words hold. -/
theorem reg2Hex_apply {reg : Nat → BitVec 32} (hreg : ∀ i < wordCount n, reg i = wordOf v i)
    (output : Nat → BitVec 8) (j : Nat) :
    reg2Hex n reg output j =
      if j < n then hexCharTbl.getD (v / 16 ^ (n - 1 - j) % 16) 0
      else if j = n then 0 else output j := by
  unfold reg2Hex
  rw [putWords_apply reg (Nat.le_refl n)]
  by_cases hj : j < n
  · have hword : 0 + (n - 1 - j) / 8 < wordCount n := by
      unfold wordCount
      omega
    rw [if_pos hj, if_pos hj, hreg _ hword, nibble_wordOf v (Nat.mod_lt _ (by decide)),
      Nat.zero_add, Nat.div_add_mod]
  · rw [if_neg hj, if_neg hj, Function.update_apply]

/-! ## Round trips -/

/-- The digits of a number as text. -/
def textOf (n v : Nat) : List (BitVec 8) :=
  (List.range n).map fun j => hexCharTbl.getD (v / 16 ^ (n - 1 - j) % 16) 0

theorem textOf_length (n v : Nat) : (textOf n v).length = n := by
  rw [textOf, List.length_map, List.length_range]

theorem textOf_getElem (h : j < (textOf n v).length) :
    (textOf n v)[j] = hexCharTbl.getD (v / 16 ^ (n - 1 - j) % 16) 0 := by
  simp only [textOf, List.getElem_map, List.getElem_range]

theorem textOf_isHex : ∀ c ∈ textOf n v, IsHex c := by
  intro c hc
  obtain ⟨j, -, rfl⟩ := List.mem_map.1 hc
  exact (hexCharTbl_isHex (Nat.mod_lt _ (by decide))).1

theorem denotes_textOf (hv : v < 16 ^ n) : denotes (textOf n v) = v := by
  have hprefix : ∀ k ≤ n, denotes ((textOf n v).take k) = v / 16 ^ (n - k) := by
    intro k hk
    induction k with
    | zero => exact (Nat.div_eq_of_lt hv).symm
    | succ k ih =>
      have hlt : k < (textOf n v).length := by
        rw [textOf_length]
        exact hk
      have hpow : 16 ^ (n - k) = 16 ^ (n - 1 - k) * 16 := by
        rw [← Nat.pow_succ]
        congr 1
        omega
      have hsub : n - (k + 1) = n - 1 - k := by omega
      rw [denotes_take_succ hlt, ih (Nat.le_of_lt hk), textOf_getElem,
        (hexCharTbl_isHex (Nat.mod_lt _ (by decide))).2, hpow, ← Nat.div_div_eq_div_mul, hsub]
      exact Nat.mod_add_div _ 16
  have hall := hprefix n (Nat.le_refl n)
  rw [Nat.sub_self, Nat.pow_zero, Nat.div_one] at hall
  have htake : (textOf n v).take n = textOf n v :=
    List.take_of_length_le (Nat.le_of_eq (textOf_length n v))
  rwa [htake] at hall

/-- The string at an address has one value. -/
theorem HoldsString.unique {mem : Nat → BitVec 8} {t : List (BitVec 8)} (hs : HoldsString mem s)
    (ht : HoldsString mem t) : s = t := by
  have hnot : ∀ {s t : List (BitVec 8)}, HoldsString mem s → HoldsString mem t →
      ¬ s.length < t.length := by
    intro s t hs ht hlt
    have hzero := (ht.1 s.length hlt).symm.trans hs.2.1
    exact ht.2.2 (hzero ▸ List.getElem_mem hlt)
  have hlen : s.length = t.length :=
    Nat.le_antisymm (Nat.le_of_not_lt (hnot ht hs)) (Nat.le_of_not_lt (hnot hs ht))
  refine List.ext_getElem hlen fun j h₁ h₂ => ?_
  rw [← hs.1 j h₁, ← ht.1 j h₂]

theorem holdsString_textOf {reg : Nat → BitVec 32} (hreg : ∀ i < wordCount n, reg i = wordOf v i)
    (output : Nat → BitVec 8) : HoldsString (reg2Hex n reg output) (textOf n v) := by
  refine ⟨fun j h => ?_, ?_, fun h => isHex_ne_zero (textOf_isHex 0 h) rfl⟩
  · have hj : j < n := by rwa [textOf_length] at h
    rw [reg2Hex_apply hreg, if_pos hj, textOf_getElem]
  · rw [textOf_length, reg2Hex_apply hreg, if_neg (Nat.lt_irrefl n), if_pos rfl]

theorem textOf_denotes (hs : ∀ c ∈ s, IsHex c) : textOf s.length (denotes s) = s.map toLower := by
  refine List.ext_getElem (by rw [textOf_length, List.length_map]) fun j h₁ h₂ => ?_
  have hj : j < s.length := by rwa [textOf_length] at h₁
  rw [textOf_getElem, denotes_digit hs hj, List.getElem_map,
    hexCharTbl_hexVal (hs _ (List.getElem_mem hj))]

end Digits

/-- Text of `n` digits becomes the words of the number it denotes and no others, which become
the text in lower case again; and the text of any number of no more than `n` digits becomes
its words again. -/
theorem hex2Reg_reg2Hex {n : Nat} (hn : n < 2 ^ 31) :
    (∀ s : List (BitVec 8), s.length = n → (∀ c ∈ s, IsHex c) →
      ∀ (reg : Nat → BitVec 32) (output : Nat → BitVec 8),
        (∀ i, hex2Reg s reg i = if i < wordCount n then wordOf (denotes s) i else reg i) ∧
        HoldsString (reg2Hex n (hex2Reg s reg) output) (s.map toLower) ∧
        ∀ j, n < j → reg2Hex n (hex2Reg s reg) output j = output j) ∧
    ∀ v < 16 ^ n, ∀ (reg reg' : Nat → BitVec 32) (output : Nat → BitVec 8),
      (∀ i < wordCount n, reg i = wordOf v i) →
      (∃ s, HoldsString (reg2Hex n reg output) s) ∧
      ∀ s, HoldsString (reg2Hex n reg output) s →
        ∀ i, hex2Reg s reg' i = if i < wordCount n then wordOf v i else reg' i := by
  constructor
  · rintro s rfl hs reg output
    have hwords := hex2Reg_apply hs hn reg
    have hreg : ∀ i < wordCount s.length, hex2Reg s reg i = wordOf (denotes s) i := by
      intro i hi
      rw [hwords, if_pos hi]
    refine ⟨hwords, ?_, fun j hj => ?_⟩
    · rw [← textOf_denotes hs]
      exact holdsString_textOf hreg output
    · rw [reg2Hex_apply hreg, if_neg (by omega), if_neg (by omega)]
  · intro v hv reg reg' output hreg
    have htext := holdsString_textOf hreg output
    refine ⟨⟨_, htext⟩, fun s hs i => ?_⟩
    have hlen := textOf_length n v
    rw [hs.unique htext, hex2Reg_apply textOf_isHex (by rw [hlen]; exact hn), hlen,
      denotes_textOf hv]

/-- Nine digits of both cases: a full word and one digit. -/
theorem hex2Reg_reg2Hex_nine :
    HoldsString
      (reg2Hex 9 (hex2Reg [0x31, 0x41, 0x62, 0x43, 0x30, 0x39, 0x66, 0x46, 0x37] fun _ => 0)
        fun _ => 0xff)
      [0x31, 0x61, 0x62, 0x63, 0x30, 0x39, 0x66, 0x66, 0x37] :=
  ((hex2Reg_reg2Hex (by decide)).1 _ rfl (by decide) _ _).2.1

end Ma35d1.Tsi

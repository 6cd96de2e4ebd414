import Ma35d1.UsbHost.Hid.Parser

/-!
# What a report descriptor means

A report descriptor is a sequence of items. Global items hold until they are changed, `Push`
and `Pop` save and restore them, and each input and output item assigns Report Size times
Report Count bits to the report of the Report ID in force, with the flags of its own data.
-/

namespace Ma35d1.UsbHost.Hid

open Ma35d1.UsbHost.Core

/-- The data bytes of a short item. -/
def shortLen (head : BitVec 8) : Nat := if head.toNat % 4 = 3 then 4 else head.toNat % 4

/-- A short item, or a long one, which has the tag field 15. -/
inductive Item
  | short (head : BitVec 8) (data : List (BitVec 8)) (htag : head.toNat / 16 ≠ 15)
      (hlen : data.length = shortLen head)
  | long (head tag : BitVec 8) (data : List (BitVec 8)) (htag : head.toNat / 16 = 15)
      (hlen : data.length < 256)

/-- The value of little-endian bytes. -/
def leValue : List (BitVec 8) → Nat
  | [] => 0
  | x :: xs => x.toNat + 256 * leValue xs

namespace Item

def bytes : Item → List (BitVec 8)
  | short head data _ _ => head :: data
  | long head tag data _ _ => head :: BitVec.ofNat 8 data.length :: tag :: data

def kind : Item → ItemTag
  | short head _ _ _ => tagOf (head &&& 0xFC#8)
  | long _ _ _ _ _ => .unknown

def value : Item → Nat
  | short _ data _ _ => leValue data
  | long _ _ data _ _ => leValue data

/-- The flags of a main item. -/
def flags (i : Item) : MainStatus where
  constant := i.value.testBit 0
  variable_ := i.value.testBit 1
  relative := i.value.testBit 2
  wrap := i.value.testBit 3
  nonLinear := i.value.testBit 4
  noPreferred := i.value.testBit 5
  nullState := i.value.testBit 6
  isVolatile := i.value.testBit 7
  bufferedBytes := i.value.testBit 8

end Item

/-- The global items that the length of a report depends on. -/
structure Globals where
  reportSize : Nat
  reportId : Nat
  reportCount : Nat
  deriving DecidableEq, Repr

/-- Bits assigned to the report of an ID: an input or an output report. -/
structure Assigned where
  kind : ItemTag
  reportId : Nat
  bits : Nat
  deriving DecidableEq, Repr

/-- What a parser knows behind some items. -/
structure Meaning where
  globals : Globals
  saved : List Globals
  assigned : List Assigned
  deriving DecidableEq, Repr

def Meaning.start : Meaning := ⟨⟨0, 0, 0⟩, [], []⟩

namespace Meaning

/-- The bits that a main item assigns, of whichever usages. -/
def assign (m : Meaning) (kind : ItemTag) : Meaning :=
  { m with assigned := m.assigned ++
    [⟨kind, m.globals.reportId, m.globals.reportSize * m.globals.reportCount⟩] }

def pop (m : Meaning) : Meaning :=
  match m.saved with
  | [] => m
  | g :: gs => { m with globals := g, saved := gs }

def step (m : Meaning) (i : Item) : Meaning :=
  match i.kind with
  | .input => m.assign .input
  | .output => m.assign .output
  | .reportSize => { m with globals := { m.globals with reportSize := i.value } }
  | .reportId => { m with globals := { m.globals with reportId := i.value } }
  | .reportCount => { m with globals := { m.globals with reportCount := i.value } }
  | .push => { m with saved := m.globals :: m.saved }
  | .pop => m.pop
  | _ => m

/-- The bit length of the report of an ID. -/
def bits (m : Meaning) (kind : ItemTag) (id : Nat) : Nat :=
  (m.assigned.map fun a => if a.kind = kind ∧ a.reportId = id then a.bits else 0).sum

theorem bits_assign (m : Meaning) (kind k : ItemTag) (id : Nat) :
    (m.assign kind).bits k id = m.bits k id +
      if kind = k ∧ m.globals.reportId = id then m.globals.reportSize * m.globals.reportCount
      else 0 := by
  unfold bits assign
  rw [List.map_append, List.sum_append]
  rfl

/-- Only input and output items assign bits. -/
theorem step_assigned {m : Meaning} {i : Item} (hi : i.kind ≠ .input) (ho : i.kind ≠ .output) :
    (m.step i).assigned = m.assigned := by
  unfold step
  split
  · rename_i h
    exact absurd h hi
  · rename_i h
    exact absurd h ho
  · rfl
  · rfl
  · rfl
  · rfl
  · unfold pop
    split
    · rfl
    · rfl
  · rfl

end Meaning

/-! ## Items in memory -/

/-- Memory that begins with `bytes`, with `rest` behind them. -/
def ahead (bytes : List (BitVec 8)) (rest : Buf) : Buf := fun i =>
  if h : i < bytes.length then bytes[i] else rest (i - bytes.length)

theorem ahead_nil (rest : Buf) : ahead [] rest = rest := rfl

theorem ahead_zero (x : BitVec 8) (xs : List (BitVec 8)) (rest : Buf) :
    ahead (x :: xs) rest 0 = x := rfl

theorem ahead_succ (x : BitVec 8) (xs : List (BitVec 8)) (rest : Buf) (i : Nat) :
    ahead (x :: xs) rest (i + 1) = ahead xs rest i := by
  unfold ahead
  by_cases h : i < xs.length
  · rw [dif_pos h, dif_pos (show i + 1 < (x :: xs).length from Nat.succ_lt_succ h)]
    rfl
  · rw [dif_neg h, dif_neg (show ¬ i + 1 < (x :: xs).length from fun h' => h (Nat.lt_of_succ_lt_succ h')),
      List.length_cons, Nat.add_sub_add_right]

theorem ahead_append (xs ys : List (BitVec 8)) (rest : Buf) :
    ahead (xs ++ ys) rest = ahead xs (ahead ys rest) := by
  induction xs with
  | nil => rfl
  | cons x xs ih =>
    funext i
    cases i with
    | zero => rfl
    | succ i => rw [List.cons_append, ahead_succ, ahead_succ, ih]

/-- What lies behind some bytes. -/
theorem ahead_behind (xs : List (BitVec 8)) (rest : Buf) (i : Nat) :
    ahead xs rest (xs.length + i) = rest i := by
  unfold ahead
  rw [dif_neg (by omega), Nat.add_sub_cancel_left]

/-- The bytes of some items. -/
def encode (items : List Item) : List (BitVec 8) := items.flatMap Item.bytes

/-- The items of a descriptor, each with the memory behind it. -/
def descriptor (tail : Buf) : List Item → List (Item × Buf)
  | [] => []
  | i :: is => (i, ahead (encode is) tail) :: descriptor tail is

/-- Where an item lies. -/
def Item.buff (i : Item) (rest : Buf) : Buf := ahead i.bytes rest

namespace Item

theorem itemTag_buff (i : Item) (rest : Buf) : itemTag (i.buff rest) 0 = i.kind := by
  cases i with
  | short head data htag hlen => rfl
  | long head tag data htag hlen =>
    show tagOf (head &&& 0xFC#8) = .unknown
    have hall : ∀ h : BitVec 8, h.toNat / 16 = 15 → tagOf (h &&& 0xFC#8) = .unknown := by decide
    exact hall head htag

theorem itemLen_buff (i : Item) (rest : Buf) : itemLen (i.buff rest) 0 = i.bytes.length := by
  cases i with
  | short head data htag hlen =>
    have ht : bTag ((short head data htag hlen).buff rest) 0 = head.toNat / 16 := rfl
    rw [itemLen, bSize, ht, if_neg htag, if_neg htag]
    show shortLen head + 1 = (head :: data).length
    rw [List.length_cons, hlen]
  | long head tag data htag hlen =>
    have ht : bTag ((long head tag data htag hlen).buff rest) 0 = head.toNat / 16 := rfl
    rw [itemLen, bSize, ht, if_pos htag, if_pos htag]
    show (BitVec.ofNat 8 data.length).toNat + 3 = data.length + 3
    rw [BitVec.toNat_ofNat, Nat.mod_eq_of_lt hlen]

end Item

end Ma35d1.UsbHost.Hid

import Mathlib.Data.BitVec
import Mathlib.Data.List.Range
import Ma35d1.Heap.LinkedPath

/-!
# Shared descriptors

The descriptors of one direction of the link: `desc_vring0` of the core that sends, which is
`desc_vring1` of the core that receives. They are linked by byte offsets from the start of the
shared memory, with 0 for the end.
-/

namespace Ma35d1.Amp

open Ma35d1.Heap.LinkedPath (Path)

/-- `VRING_SIZE`, the value of `desc_num` -/
def descNum : Nat := 8
/-- `desc_txbuf`, and `desc_rxbuf` of the other core: `RING_TX_SIZE / VRING_SIZE` -/
def descTxbuf : Nat := 2048
/-- `NO_NAME_SERVICE` -/
def noNameService : Nat := 32
/-- `offsetof(struct remote_resource_table, desc_vring0)` -/
def descVring0 : Nat := 116
/-- `sizeof(struct rsc_table_desc)` -/
def sizeofDesc : Nat := 44

/-- `RXBUF_QUEUE_SIZE` -/
def rxbufQueueSize : Nat := 7
/-- `RXBUF_POOL_SIZE` -/
def rxbufPoolSize : Nat := rxbufQueueSize + 1

def cmdHead : BitVec 8 := 0x1
def cmdClaim : BitVec 8 := 0x10
def cmdClose : BitVec 8 := 0x20

def stsReading : BitVec 8 := 0x1
def stsAck : BitVec 8 := 0x4
def stsBind : BitVec 8 := 0x10
def stsClose : BitVec 8 := 0x20
def stsErr : BitVec 8 := 0x80

abbrev Name := List (BitVec 8)

/-- `strncpy(dst, name, NO_NAME_SERVICE)` -/
def strncpyName (name : Name) : Name :=
  let s := (name.takeWhile (· ≠ 0)).take noNameService
  s ++ List.replicate (noNameService - s.length) 0

def zeroName : Name := List.replicate noNameService 0

/-- `struct rsc_table_desc` -/
structure RscDesc where
  cmd : BitVec 8
  sts : BitVec 8
  len : Nat
  bufOffset : Nat
  nxtOffset : Nat
  ns : Name
  deriving DecidableEq

/-- The descriptors, by index. -/
abbrev Descs := Nat → RscDesc

/-- The offset of descriptor `i`. -/
def descOffset (i : Nat) : Nat := descVring0 + sizeofDesc * i

/-- The descriptor at the offset `p`. -/
def descAt (p : Nat) : Nat := (p - descVring0) / sizeofDesc

theorem descAt_descOffset (i : Nat) : descAt (descOffset i) = i := by
  unfold descAt descOffset
  rw [Nat.add_sub_cancel_left]
  exact Nat.mul_div_cancel_left i (by decide)

theorem descOffset_inj : Function.Injective descOffset := by
  intro i j h
  rw [← descAt_descOffset i, h, descAt_descOffset]

theorem descOffset_ne_zero (i : Nat) : descOffset i ≠ 0 := by
  unfold descOffset descVring0
  omega

/-- The descriptors from the offset `p` to the end of the chain are `l`. -/
def Chain (desc : Descs) (p : Nat) (l : List Nat) : Prop :=
  Path descOffset (fun i => (desc i).nxtOffset) p l 0

theorem Chain.nodup {desc : Descs} {p : Nat} {l : List Nat} (h : Chain desc p l) : l.Nodup :=
  Path.nodup descOffset_inj h fun i _ => (descOffset_ne_zero i).symm

/-- Only one list is the chain from an offset. -/
theorem Chain.unique {desc : Descs} {p : Nat} {l m : List Nat} (hl : Chain desc p l)
    (hm : Chain desc p m) : l = m :=
  Path.unique descOffset_inj hl hm (fun i _ => (descOffset_ne_zero i).symm)
    fun i _ => (descOffset_ne_zero i).symm

/-- A chain depends on the links of its own descriptors. -/
theorem Chain.congr {desc desc' : Descs} {p : Nat} {l : List Nat} (h : Chain desc p l)
    (hn : ∀ i ∈ l, (desc i).nxtOffset = (desc' i).nxtOffset) : Chain desc' p l :=
  Path.congr h (fun _ _ => rfl) hn

/-! ## Taking descriptors -/

/-- The loop of `ma35_check_available_desc` over the indices that are left: `prev` is the
descriptor to be linked, `none` for the local `head`, and `head` its `nxt_offset`. -/
def linkFree : List Nat → Nat → Option Nat → Nat → (Nat → Bool) → Descs →
    Nat × (Nat → Bool) × Descs
  | [], _, _, head, flag, desc => (head, flag, desc)
  | i :: is, req, prev, head, flag, desc =>
    if req = 0 then (head, flag, desc)
    else if flag i then linkFree is req prev head flag desc
    else
      match prev with
      | none => linkFree is (req - 1) (some i) (descOffset i) (Function.update flag i true) desc
      | some p =>
        linkFree is (req - 1) (some i) head (Function.update flag i true)
          (Function.update desc p { desc p with nxtOffset := descOffset i })

/-- The free ones among `is`. -/
def freeOf (flag : Nat → Bool) (is : List Nat) : List Nat := is.filter fun i => !flag i

/-- Only the link differs. -/
def SameButNext (d d' : RscDesc) : Prop := d' = { d with nxtOffset := d'.nxtOffset }

section Link

variable {is : List Nat} {req p head i : Nat} {flag : Nat → Bool} {desc : Descs}

theorem freeOf_update (hi : i ∉ is) (b : Bool) :
    freeOf (Function.update flag i b) is = freeOf flag is := by
  unfold freeOf
  apply List.filter_congr
  intro j hj
  have hji : j ≠ i := fun h => hi (h ▸ hj)
  rw [Function.update_of_ne hji]

theorem freeOf_cons_used (h : flag i = true) : freeOf flag (i :: is) = freeOf flag is := by
  unfold freeOf
  rw [List.filter_cons_of_neg (by simp [h])]

theorem freeOf_cons_free (h : flag i = false) : freeOf flag (i :: is) = i :: freeOf flag is := by
  unfold freeOf
  rw [List.filter_cons_of_pos (by simp [h])]

/-- Behind a descriptor that ends its chain, the loop links the first `req` free ones. -/
theorem linkFree_some (req p head : Nat) (flag : Nat → Bool) (desc : Descs) (hnd : is.Nodup)
    (hp : p ∉ is) (hp0 : (desc p).nxtOffset = 0)
    (h0 : ∀ i ∈ is, flag i = false → (desc i).nxtOffset = 0) :
    (linkFree is req (some p) head flag desc).1 = head ∧
    (∀ i, (linkFree is req (some p) head flag desc).2.1 i =
      (flag i || decide (i ∈ (freeOf flag is).take req))) ∧
    Chain (linkFree is req (some p) head flag desc).2.2 (descOffset p)
      (p :: (freeOf flag is).take req) ∧
    (∀ i, i ∉ p :: (freeOf flag is).take req →
      (linkFree is req (some p) head flag desc).2.2 i = desc i) ∧
    ∀ i, SameButNext (desc i) ((linkFree is req (some p) head flag desc).2.2 i) := by
  induction is generalizing req p flag desc with
  | nil =>
    simp only [linkFree, freeOf, List.filter_nil, List.take_nil]
    exact ⟨trivial, fun i => by simp, ⟨rfl, hp0⟩, fun i _ => trivial, fun i => rfl⟩
  | cons i is ih =>
    obtain ⟨hi, hnd⟩ := List.nodup_cons.mp hnd
    have hpi : p ≠ i := fun h => hp (h ▸ List.mem_cons_self)
    have hpis : p ∉ is := fun h => hp (List.mem_cons_of_mem _ h)
    by_cases hreq : req = 0
    · subst hreq
      simp only [linkFree, if_true, List.take_zero]
      exact ⟨trivial, fun i => by simp, ⟨rfl, hp0⟩, fun i _ => trivial, fun i => rfl⟩
    · cases hflag : flag i with
      | true =>
        rw [linkFree, if_neg hreq, if_pos hflag, freeOf_cons_used hflag]
        exact ih req p flag desc hnd hpis hp0 fun j hj => h0 j (List.mem_cons_of_mem _ hj)
      | false =>
        obtain ⟨req, rfl⟩ := Nat.exists_eq_succ_of_ne_zero hreq
        rw [linkFree, if_neg hreq, if_neg (by simp [hflag]), freeOf_cons_free hflag,
          List.take_succ_cons, Nat.succ_sub_one]
        have hlink : ∀ j, j ≠ p → Function.update desc p
            { desc p with nxtOffset := descOffset i } j = desc j :=
          fun j hj => Function.update_of_ne hj _ _
        obtain ⟨hhead, hflags, hchain, hother, hsame⟩ := ih req i
          (Function.update flag i true)
          (Function.update desc p { desc p with nxtOffset := descOffset i }) hnd hi
          (by rw [hlink i hpi.symm]; exact h0 i List.mem_cons_self hflag)
          (fun j hj hfree => by
            have hji : j ≠ i := fun h => hi (h ▸ hj)
            have hjp : j ≠ p := fun h => hpis (h ▸ hj)
            rw [Function.update_of_ne hji] at hfree
            rw [hlink j hjp]
            exact h0 j (List.mem_cons_of_mem _ hj) hfree)
        rw [freeOf_update hi] at hflags hchain hother
        have hpout : p ∉ i :: (freeOf flag is).take req := by
          rw [List.mem_cons]
          rintro (h | h)
          · exact hpi h
          · exact hpis (List.mem_of_mem_filter (List.mem_of_mem_take h))
        refine ⟨hhead, fun j => ?_, ⟨rfl, ?_⟩, fun j hj => ?_, fun j => ?_⟩
        · rw [hflags]
          by_cases hji : j = i
          · simp [hji]
          · simp [hji]
        · -- the link written to `p` is not touched again
          have hlinked := hother p hpout
          rw [Function.update_self] at hlinked
          simp only [hlinked]
          exact hchain
        · rw [List.mem_cons, not_or] at hj
          rw [hother j hj.2, hlink j hj.1]
        · have hj := hsame j
          by_cases hjp : j = p
          · rw [hjp, Function.update_self] at hj
            rw [hjp]
            exact hj
          · rw [hlink j hjp] at hj
            exact hj

/-- From nothing, the loop makes a chain of the first `req` free descriptors. -/
theorem linkFree_none (head : Nat) (hnd : is.Nodup) (h0 : ∀ i ∈ is, flag i = false → (desc i).nxtOffset = 0)
    (hreq : 0 < req) (hfree : freeOf flag is ≠ []) :
    (∀ i, (linkFree is req none head flag desc).2.1 i =
      (flag i || decide (i ∈ (freeOf flag is).take req))) ∧
    Chain (linkFree is req none head flag desc).2.2 (linkFree is req none head flag desc).1
      ((freeOf flag is).take req) ∧
    (∀ i, i ∉ (freeOf flag is).take req →
      (linkFree is req none head flag desc).2.2 i = desc i) ∧
    ∀ i, SameButNext (desc i) ((linkFree is req none head flag desc).2.2 i) := by
  induction is with
  | nil => exact absurd rfl hfree
  | cons i is ih =>
    obtain ⟨hi, hnd⟩ := List.nodup_cons.mp hnd
    obtain ⟨req, rfl⟩ := Nat.exists_eq_succ_of_ne_zero (Nat.pos_iff_ne_zero.mp hreq)
    cases hflag : flag i with
    | true =>
      rw [linkFree, if_neg (Nat.succ_ne_zero req), if_pos hflag, freeOf_cons_used hflag]
      rw [freeOf_cons_used hflag] at hfree
      exact ih hnd (fun j hj => h0 j (List.mem_cons_of_mem _ hj)) hfree
    | false =>
      rw [linkFree, if_neg (Nat.succ_ne_zero req), if_neg (by simp [hflag]),
        freeOf_cons_free hflag, List.take_succ_cons, Nat.succ_sub_one]
      obtain ⟨hhead, hflags, hchain, hother, hsame⟩ := linkFree_some req i (descOffset i)
        (Function.update flag i true) desc hnd hi
        (h0 i List.mem_cons_self hflag)
        (fun j hj hfree => by
          have hji : j ≠ i := fun h => hi (h ▸ hj)
          rw [Function.update_of_ne hji] at hfree
          exact h0 j (List.mem_cons_of_mem _ hj) hfree)
      rw [freeOf_update hi] at hflags hchain hother
      refine ⟨fun j => ?_, by rw [hhead]; exact hchain, hother, hsame⟩
      rw [hflags]
      by_cases hji : j = i
      · simp [hji]
      · simp [hji]

end Link

end Ma35d1.Amp

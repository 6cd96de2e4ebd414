import Ma35d1.UsbHost.Ohci.State

/-!
# `ohci_init`

The interrupt table starts with the tree of interval heads `_Ied`: entry `idx` leads to
the head of the largest interval that divides `idx + 1`, and each head to the head of
half its interval. The control and bulk lists start empty.
-/

namespace Ma35d1.UsbHost.Ohci

/-- The walk of `init_hcca_int_table` along a list, to hook the head `ied`. -/
def hookIed (ied : Addr) : Nat → Addr → Lists → Option Lists
  | 0, _, _ => none
  | n + 1, p, m =>
    if p = ied then some m
    else match m.nextED p with
      | none => some { m with nextED := Function.update m.nextED p (some ied) }
      | some q => hookIed ied n q m

/-- One pass of the loop `for (idx = interval - 1; idx < 32; idx += interval)` -/
def hookEntry (ied : Addr) (idx : Nat) (m : Lists) : Option Lists :=
  match m.intTable idx with
  | none => some { m with intTable := Function.update m.intTable idx (some ied) }
  | some p => hookIed ied ohciFuel p m

def hookEntries (ied : Addr) (interval : Nat) : Nat → Lists → Option Lists
  | 0, m => some m
  | n + 1, m => (hookEntries ied interval n m).bind (hookEntry ied (interval * (n + 1) - 1))

/-- The loop body of `init_hcca_int_table`; a failed allocation is a null dereference. -/
def initIed (i : Nat) (s : Ohci) : Option Ohci :=
  s.allocOhciEd.bind fun r =>
    let m := { r.2.toLists with
      ied := Function.update r.2.ied i r.1
      edInfo := Function.update r.2.edInfo r.1 0x4000#32 }
    (hookEntries r.1 (2 ^ i) (32 / 2 ^ i) m).map r.2.setLists

/-- `for (i = 5; i >= 0; i--)` -/
def initIeds : Nat → Ohci → Option Ohci
  | 0, s => some s
  | n + 1, s => (initIed n s).bind (initIeds n)

def initHccaIntTable (s : Ohci) : Option Ohci :=
  initIeds numIed (s.setLists { s.toLists with intTable := fun _ => none })

/-- `resetDone` is whether the controller left its reset in time. -/
def ohciInit (resetDone : Bool) (s : Ohci) : Option (Int × Ohci) :=
  if resetDone = false then some (-1, s)
  else
    (initHccaIntTable { s with edRemoveList := none }).map fun s =>
      (0, { s with
        hcControlHeadED := none
        hcBulkHeadED := none
        cle := false
        ble := false
        ple := false
        ie := false
        sfEnable := true })

end Ma35d1.UsbHost.Ohci

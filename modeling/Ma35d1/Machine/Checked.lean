import Mathlib.Init

/-!
# Checked runs

A run comes to a value, returns early with a code, or touches what it must not. `Clean r k` says that
it does not do the last, and that `k` holds of the value if it comes to one. One rule for each way
that runs are put together turns it into a statement about the inputs.
-/

namespace Ma35d1.Machine.Checked

/-- Why a run does not come to a value -/
inductive Stop (ε : Type) where
  | fault
  | early (code : ε)
  deriving DecidableEq, Repr

abbrev Run (ε α : Type) := Except (Stop ε) α

variable {ε α β : Type} {r : Run ε α} {c : Prop} {k : α → Prop}

def fault : Run ε α := .error .fault

def early (code : ε) : Run ε α := .error (.early code)

/-- The run where `c` holds -/
def guarded (c : Prop) [Decidable c] (r : Run ε α) : Run ε α := if c then r else fault

def Clean (r : Run ε α) (k : α → Prop) : Prop :=
  match r with
  | .ok a => k a
  | .error (.early _) => True
  | .error .fault => False

@[simp] theorem clean_ok {a : α} : Clean (.ok a : Run ε α) k ↔ k a := Iff.rfl

@[simp] theorem clean_early {code : ε} : Clean (early code : Run ε α) k ↔ True := Iff.rfl

@[simp] theorem clean_fault : Clean (fault : Run ε α) k ↔ False := Iff.rfl

@[simp] theorem clean_bind {f : α → Run ε β} {k : β → Prop} :
    Clean (r >>= f) k ↔ Clean r fun a => Clean (f a) k := by
  rcases r with (_ | code) | a <;> exact Iff.rfl

@[simp] theorem clean_guarded [Decidable c] : Clean (guarded c r) k ↔ c ∧ Clean r k := by
  unfold guarded
  split
  · rename_i h
    exact (and_iff_right h).symm
  · rename_i h
    exact iff_of_false id fun hc => h hc.1

theorem guarded_of [Decidable c] (h : c) : guarded c r = r := if_pos h

theorem ok_bind {a : α} {f : α → Run ε β} : (.ok a >>= f) = f a := rfl

end Ma35d1.Machine.Checked

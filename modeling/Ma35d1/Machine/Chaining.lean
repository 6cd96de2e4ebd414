import Mathlib.Data.List.Basic

/-!
# Chaining modes

A message is cut into blocks of `n`, the last of which may be shorter, and each block is put through
`step` with what the block in front has left; `step iv block` is the block's output and the vector
for the next one. The modes of block ciphers are steps made from a function on blocks. Nothing here
depends on what a block consists of.
-/

namespace Ma35d1.Machine.Chaining

variable {α : Type*} {n : Nat} {step : List α → List α → List α × List α} {iv l l' block : List α}
  {x : α → α → α} {f : List α → List α}

/-- The message, block after block -/
def chain (n : Nat) (step : List α → List α → List α × List α) (iv l : List α) : List α :=
  if _h : l = [] ∨ n = 0 then []
  else (step iv (l.take n)).1 ++ chain n step (step iv (l.take n)).2 (l.drop n)
termination_by l.length
decreasing_by
  rw [List.length_drop]
  have hpos := List.length_pos_iff.mpr (fun hnil => _h (Or.inl hnil))
  omega

/-! ## Modes -/

def cbcEncrypt (x : α → α → α) (f : List α → List α) (iv block : List α) : List α × List α :=
  (f (List.zipWith x iv block), f (List.zipWith x iv block))

def cbcDecrypt (x : α → α → α) (f : List α → List α) (iv block : List α) : List α × List α :=
  (List.zipWith x (f block) iv, block)

def cfbEncrypt (x : α → α → α) (f : List α → List α) (iv block : List α) : List α × List α :=
  (List.zipWith x (f iv) block, List.zipWith x (f iv) block)

def cfbDecrypt (x : α → α → α) (f : List α → List α) (iv block : List α) : List α × List α :=
  (List.zipWith x (f iv) block, block)

def ofb (x : α → α → α) (f : List α → List α) (iv block : List α) : List α × List α :=
  (List.zipWith x (f iv) block, f iv)

/-! ## Messages in parts -/

@[simp] theorem chain_nil : chain n step iv [] = [] := by
  rw [chain, dif_pos (Or.inl rfl)]

theorem chain_of_ne_nil (hl : l ≠ []) (hn : 0 < n) : chain n step iv l =
    (step iv (l.take n)).1 ++ chain n step (step iv (l.take n)).2 (l.drop n) := by
  rw [chain, dif_neg (by rintro (hnil | hzero); exacts [hl hnil, by omega])]

/-- The first block, and the rest -/
theorem chain_append (h : block.length = n) (hn : 0 < n) :
    chain n step iv (block ++ l) = (step iv block).1 ++ chain n step (step iv block).2 l := by
  subst h
  have hne : block ++ l ≠ [] := fun hnil => by
    rw [(List.append_eq_nil_iff.mp hnil).1] at hn
    exact absurd hn (Nat.lt_irrefl 0)
  rw [chain_of_ne_nil hne hn, List.take_left, List.drop_left]

/-- A message of one block, or less -/
theorem chain_of_le (h : l.length ≤ n) (hl : l ≠ []) : chain n step iv l = (step iv l).1 := by
  have hpos := List.length_pos_iff.mpr hl
  rw [chain_of_ne_nil hl (by omega), List.take_of_length_le h, List.drop_of_length_le h, chain_nil,
    List.append_nil]

/-- A message keeps its length where a block does, if `whole` with nothing but whole blocks. -/
theorem length_chain {whole : Prop} (hn : 0 < n)
    (hout : ∀ iv b, iv.length = n → b.length ≤ n → (whole → b.length = n) →
      (step iv b).1.length = b.length)
    (hnext : ∀ iv b, iv.length = n → b.length = n → (step iv b).2.length = n)
    (hiv : iv.length = n) (hwhole : whole → n ∣ l.length) :
    (chain n step iv l).length = l.length := by
  induction iv, l using chain.induct n step with
  | case1 iv l h =>
    rw [chain, dif_pos h]
    rcases h with rfl | h0
    · rfl
    · omega
  | case2 iv l h ih =>
    have hne : 0 < l.length := List.length_pos_iff.mpr fun hnil => h (Or.inl hnil)
    rw [chain, dif_neg h, List.length_append]
    by_cases hle : l.length ≤ n
    · have hfull : whole → l.length = n := fun hw =>
        Nat.le_antisymm hle (Nat.le_of_dvd hne (hwhole hw))
      rw [List.take_of_length_le hle, List.drop_of_length_le hle, chain_nil,
        hout iv l hiv hle hfull]
      rfl
    · have htake : (l.take n).length = n := by
        rw [List.length_take]
        omega
      rw [hout iv _ hiv (Nat.le_of_eq htake) fun _ => htake,
        ih (hnext iv _ hiv htake) fun hw => by
          rw [List.length_drop]
          exact Nat.dvd_sub (hwhole hw) (Nat.dvd_refl n)]
      rw [List.length_take, List.length_drop]
      omega

end Ma35d1.Machine.Chaining

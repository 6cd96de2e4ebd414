import Mathlib.Data.List.Basic
import Mathlib.Order.Basic
import Mathlib.Order.Lattice

/-!
# Scans for a least element

A loop that keeps the first element of least measure, and leaves as soon as a measure is 0.
-/

namespace Ma35d1.Machine

variable {α β γ ε : Type}

/-! ## Nested loops -/

/-- A loop in a loop is one loop over the pairs. -/
theorem foldlM_flatMap {m : Type → Type} [Monad m] [LawfulMonad m] (f : β → α → m β)
    (g : γ → List α) (l : List γ) (b : β) :
    (l.flatMap g).foldlM f b = l.foldlM (fun b c => (g c).foldlM f b) b := by
  induction l generalizing b with
  | nil => rfl
  | cons c l ih =>
    rw [List.flatMap_cons, List.foldlM_append, List.foldlM_cons]
    exact bind_congr ih

theorem foldlM_congr {m : Type → Type} [Monad m] {f g : β → α → m β} {l : List α}
    (h : ∀ a ∈ l, ∀ b, f b a = g b a) (b : β) : l.foldlM f b = l.foldlM g b := by
  induction l generalizing b with
  | nil => rfl
  | cons a l ih =>
    rw [List.foldlM_cons, List.foldlM_cons, h a List.mem_cons_self b]
    exact congrArg _ (funext fun b => ih (fun a ha => h a (List.mem_cons_of_mem _ ha)) b)

/-! ## The first least element -/

section Least

variable (err : α → Nat) (stop : Nat × α → ε) {l : List α} {b : Nat × α} {t : α}
  {good : α → Prop}

/-- One pass: the measure and the element that are kept, or the exit -/
def keepLeast (b : Nat × α) (a : α) : Except ε (Nat × α) :=
  if err a < b.1 then
    if err a = 0 then .error (stop (0, a)) else .ok (err a, a)
  else .ok b

/-- No element of the list has a smaller measure, and none before it the same. -/
def FirstLeast (l : List α) (t : α) : Prop :=
  ∃ i : Nat, l[i]? = some t ∧
    ∀ (j : Nat) (a : α), l[j]? = some a → err t ≤ err a ∧ (j < i → err t < err a)

/-- A good element has a smaller measure than all that are not good, or the same and is before
them. -/
def Leads (l : List α) (good : α → Prop) : Prop :=
  ∃ (i : Nat) (t : α), l[i]? = some t ∧ good t ∧
    ∀ (j : Nat) (a : α), l[j]? = some a → ¬ good a → err t ≤ err a ∧ (j < i → err t < err a)

variable {err}

theorem FirstLeast.mem (h : FirstLeast err l t) : t ∈ l :=
  let ⟨_, hi, _⟩ := h
  List.mem_of_getElem? hi

theorem FirstLeast.head (h : ∀ a ∈ l, err t ≤ err a) : FirstLeast err (t :: l) t := by
  refine ⟨0, rfl, fun j a hj => ⟨?_, fun hlt => absurd hlt (Nat.not_lt_zero j)⟩⟩
  rcases List.mem_cons.mp (List.mem_of_getElem? hj) with rfl | ha
  · exact Nat.le_refl _
  · exact h a ha

theorem FirstLeast.tail {a : α} (h : FirstLeast err l t) (ha : err t < err a) :
    FirstLeast err (a :: l) t := by
  obtain ⟨i, hi, hall⟩ := h
  refine ⟨i + 1, hi, fun j c hj => ?_⟩
  cases j with
  | zero =>
    obtain rfl : a = c := Option.some.inj hj
    exact ⟨Nat.le_of_lt ha, fun _ => ha⟩
  | succ j => exact (hall j c hj).imp id fun hlt hj => hlt (Nat.lt_of_succ_lt_succ hj)

/-- **What the loop keeps**: what it started with, or the first least element. -/
theorem foldlM_keepLeast (l : List α) (b : Nat × α) :
    (l.foldlM (keepLeast err stop) b = .ok b ∧ ∀ a ∈ l, b.1 ≤ err a) ∨
      ∃ t, FirstLeast err l t ∧ err t < b.1 ∧
        (l.foldlM (keepLeast err stop) b = .ok (err t, t) ∨
          l.foldlM (keepLeast err stop) b = .error (stop (err t, t))) := by
  induction l generalizing b with
  | nil => exact .inl ⟨rfl, fun _ h => absurd h List.not_mem_nil⟩
  | cons a l ih =>
    rw [List.foldlM_cons, keepLeast]
    by_cases hlt : err a < b.1
    · rw [if_pos hlt]
      by_cases h0 : err a = 0
      · rw [if_pos h0]
        refine .inr ⟨a, .head fun c _ => by omega, hlt, .inr ?_⟩
        rw [h0]
        rfl
      · rw [if_neg h0]
        rcases ih (err a, a) with ⟨hok, hall⟩ | ⟨t, ht, hta, hres⟩
        · exact .inr ⟨a, .head hall, hlt, .inl hok⟩
        · exact .inr ⟨t, ht.tail hta, Nat.lt_trans hta hlt, hres⟩
    · rw [if_neg hlt]
      rcases ih b with ⟨hok, hall⟩ | ⟨t, ht, htb, hres⟩
      · refine .inl ⟨hok, fun c hc => ?_⟩
        rcases List.mem_cons.mp hc with rfl | hc
        · exact Nat.not_lt.mp hlt
        · exact hall c hc
      · exact .inr ⟨t, ht.tail (by omega), htb, hres⟩

/-- The first least element is good exactly if a good one leads. -/
theorem FirstLeast.good_iff (h : FirstLeast err l t) : good t ↔ Leads err l good := by
  obtain ⟨i, hi, hall⟩ := h
  constructor
  · intro ht
    exact ⟨i, t, hi, ht, fun j a hj _ => hall j a hj⟩
  · rintro ⟨i', t', hi', ht', hall'⟩
    by_contra ht
    obtain ⟨hle, hlt⟩ := hall i' t' hi'
    obtain ⟨hle', hlt'⟩ := hall' i t hi ht
    obtain h | h | h := Nat.lt_trichotomy i i'
    · exact absurd (hlt' h) (by omega)
    · subst h
      exact ht (Option.some.inj (hi.symm.trans hi') ▸ ht')
    · exact absurd (hlt h) (by omega)

end Least

/-! ## The first admitted element that is least -/

section Admitted

variable {δ : Type} [LinearOrder δ] {ok : α → Prop} {μ : α → δ} {l : List α} {t : α}

/-- One pass: an admitted element is kept if it is less than the one kept before. -/
def keepAdmitted (ok : α → Prop) [DecidablePred ok] (μ : α → δ) (best : Option α) (a : α) : Option α :=
  if ok a then best.elim (some a) fun c => if μ a < μ c then some a else some c else best

section Step

variable [DecidablePred ok] {a c : α}

theorem keepAdmitted_of_lt (hok : ok a) (hlt : μ a < μ c) :
    keepAdmitted ok μ (some c) a = some a := by
  simp [keepAdmitted, hok, hlt]

theorem keepAdmitted_of_not_lt (h : ¬ (ok a ∧ μ a < μ c)) :
    keepAdmitted ok μ (some c) a = some c := by
  unfold keepAdmitted
  split
  · exact if_neg fun hlt => h ⟨‹_›, hlt⟩
  · rfl

theorem keepAdmitted_none (hok : ok a) : keepAdmitted ok μ none a = some a := if_pos hok

theorem keepAdmitted_of_not {best : Option α} (hok : ¬ ok a) : keepAdmitted ok μ best a = best :=
  if_neg hok

end Step

/-- The element is admitted, and less than the admitted ones before it and no greater than those
behind it. -/
def IsFirstLeast (ok : α → Prop) (μ : α → δ) (l : List α) (t : α) : Prop :=
  ∃ l₁ l₂, l = l₁ ++ t :: l₂ ∧ ok t ∧ (∀ a ∈ l₁, ok a → μ t < μ a) ∧ ∀ a ∈ l₂, ok a → μ t ≤ μ a

theorem IsFirstLeast.le (h : IsFirstLeast ok μ l t) {a : α} (ha : a ∈ l) (hok : ok a) :
    μ t ≤ μ a := by
  obtain ⟨l₁, l₂, rfl, -, hbefore, hbehind⟩ := h
  rcases List.mem_append.mp ha with h | h
  · exact (hbefore a h hok).le
  · rcases List.mem_cons.mp h with rfl | h
    · exact le_refl _
    · exact hbehind a h hok

theorem IsFirstLeast.mem (h : IsFirstLeast ok μ l t) : t ∈ l ∧ ok t := by
  obtain ⟨l₁, l₂, rfl, hok, -⟩ := h
  exact ⟨List.mem_append_right _ List.mem_cons_self, hok⟩

theorem IsFirstLeast.cons {a : α} (h : IsFirstLeast ok μ l t) (ha : ok a → μ t < μ a) :
    IsFirstLeast ok μ (a :: l) t := by
  obtain ⟨l₁, l₂, rfl, hok, hbefore, hbehind⟩ := h
  exact ⟨a :: l₁, l₂, rfl, hok, List.forall_mem_cons.mpr ⟨ha, hbefore⟩, hbehind⟩

/-- **What a run keeps** of a list, from an element that was kept before -/
theorem foldl_keepAdmitted_some (ok : α → Prop) [DecidablePred ok] (μ : α → δ) (l : List α)
    (c : α) :
    (l.foldl (keepAdmitted ok μ) (some c) = some c ∧ ∀ a ∈ l, ok a → μ c ≤ μ a) ∨
      ∃ t, l.foldl (keepAdmitted ok μ) (some c) = some t ∧ μ t < μ c ∧ IsFirstLeast ok μ l t := by
  induction l generalizing c with
  | nil => exact .inl ⟨rfl, fun _ h => absurd h List.not_mem_nil⟩
  | cons a l ih =>
    rw [List.foldl_cons]
    by_cases hless : ok a ∧ μ a < μ c
    · rw [keepAdmitted_of_lt hless.1 hless.2]
      rcases ih a with ⟨hkept, hall⟩ | ⟨t, hkept, hlt, hfirst⟩
      · exact .inr ⟨a, hkept, hless.2, [], l, rfl, hless.1, by simp, hall⟩
      · exact .inr ⟨t, hkept, hlt.trans hless.2, hfirst.cons fun _ => hlt⟩
    · have hle : ok a → μ c ≤ μ a := fun hok => not_lt.mp fun hlt => hless ⟨hok, hlt⟩
      rw [keepAdmitted_of_not_lt hless]
      rcases ih c with ⟨hkept, hall⟩ | ⟨t, hkept, hlt, hfirst⟩
      · exact .inl ⟨hkept, List.forall_mem_cons.mpr ⟨hle, hall⟩⟩
      · exact .inr ⟨t, hkept, hlt, hfirst.cons fun hok => hlt.trans_le (hle hok)⟩

/-- From nothing, a run keeps the first least of the admitted elements, if there are any. -/
theorem foldl_keepAdmitted_none (ok : α → Prop) [DecidablePred ok] (μ : α → δ) (l : List α) :
    (l.foldl (keepAdmitted ok μ) none = none ∧ ∀ a ∈ l, ¬ ok a) ∨
      ∃ t, l.foldl (keepAdmitted ok μ) none = some t ∧ IsFirstLeast ok μ l t := by
  induction l with
  | nil => exact .inl ⟨rfl, fun _ h => absurd h List.not_mem_nil⟩
  | cons a l ih =>
    rw [List.foldl_cons]
    by_cases hok : ok a
    · rw [keepAdmitted_none hok]
      rcases foldl_keepAdmitted_some ok μ l a with ⟨hkept, hall⟩ |
        ⟨t, hkept, hlt, hfirst⟩
      · exact .inr ⟨a, hkept, [], l, rfl, hok, by simp, hall⟩
      · exact .inr ⟨t, hkept, hfirst.cons fun _ => hlt⟩
    · rw [keepAdmitted_of_not hok]
      rcases ih with ⟨hkept, hall⟩ | ⟨t, hkept, hfirst⟩
      · exact .inl ⟨hkept, List.forall_mem_cons.mpr ⟨hok, hall⟩⟩
      · exact .inr ⟨t, hkept, hfirst.cons fun h => absurd h hok⟩

end Admitted

end Ma35d1.Machine

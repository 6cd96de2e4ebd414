import Ma35d1.Machine.Chaining

/-!
# Stream ciphers

A key stream is combined with a message unit by unit, from a position of the stream on. A cipher
with a feedback register takes units of `s` from the front of what its function makes of the
register, and shifts the cipher text in at the end. Both may be given a message in parts, and both
are undone with the same stream or register.
-/

namespace Ma35d1.Machine.Streams

open Ma35d1.Machine.Chaining

variable {α : Type*} {x : α → α → α} {ks : Nat → α} {f : List α → List α} {iv l l' : List α}
  {n : Nat}

/-! ## Key streams -/

/-- The message, with the key stream from position `n` on -/
def mask (x : α → α → α) (ks : Nat → α) : Nat → List α → List α
  | _, [] => []
  | n, a :: l => x (ks n) a :: mask x ks (n + 1) l

@[simp] theorem length_mask : (mask x ks n l).length = l.length := by
  induction l generalizing n with
  | nil => rfl
  | cons a l ih => exact congrArg (· + 1) ih

theorem mask_mask (hx : ∀ a b, x a (x a b) = b) : mask x ks n (mask x ks n l) = l := by
  induction l generalizing n with
  | nil => rfl
  | cons a l ih => rw [mask, mask, hx, ih]

/-! ## Feedback by segments -/

def segmentEncrypt (x : α → α → α) (f : List α → List α) (iv block : List α) : List α × List α :=
  (List.zipWith x (f iv) block, iv.drop block.length ++ List.zipWith x (f iv) block)

def segmentDecrypt (x : α → α → α) (f : List α → List α) (iv block : List α) : List α × List α :=
  (List.zipWith x (f iv) block, iv.drop block.length ++ block)

/-- A segment of one unit -/
theorem chain_one {step : List α → List α → List α × List α} (a : α) :
    chain 1 step iv (a :: l) = (step iv [a]).1 ++ chain 1 step (step iv [a]).2 l :=
  chain_append (rfl : [a].length = 1) Nat.one_pos

theorem zipWith_zipWith (hx : ∀ a b, x a (x a b) = b) (h : l'.length ≤ l.length) :
    List.zipWith x l (List.zipWith x l l') = l' := by
  induction l' generalizing l with
  | nil => simp
  | cons b l' ih =>
    cases l with
    | nil => simp at h
    | cons a l =>
      rw [List.zipWith_cons_cons, List.zipWith_cons_cons, hx, ih (by simpa using h)]

/-- Where the step back gives back the block and leaves the same register, so does the chain. -/
theorem chain_chain {enc dec : List α → List α → List α × List α} {s : Nat} {P : List α → Prop}
    (hs : 0 < s)
    (h : ∀ iv b, P iv → b.length ≤ s → (enc iv b).1.length = b.length ∧
      dec iv (enc iv b).1 = (b, (enc iv b).2) ∧ P (enc iv b).2) (hiv : P iv) :
    chain s dec iv (chain s enc iv l) = l := by
  induction iv, l using chain.induct s enc with
  | case1 iv l hl =>
    rcases hl with rfl | h0
    · rw [chain_nil, chain_nil]
    · omega
  | case2 iv l hl ih =>
    have hne : l ≠ [] := fun hnil => hl (.inl hnil)
    obtain ⟨hlen, hdec, hP⟩ := h iv (l.take s) hiv (List.length_take_le s l)
    rw [chain_of_ne_nil hne hs]
    by_cases hle : l.length ≤ s
    · rw [List.take_of_length_le hle] at hlen hdec ⊢
      have hpos := List.length_pos_iff.mpr hne
      rw [List.drop_of_length_le hle, chain_nil, List.append_nil, chain_of_le (by omega)
        (List.length_pos_iff.mp (by omega)), hdec]
    · have htake : (l.take s).length = s := by rw [List.length_take]; omega
      rw [chain_append (hlen.trans htake) hs, hdec, ih hP, List.take_append_drop]

theorem segment_chain {s k : Nat} (hs : 0 < s) (hk : s ≤ k) (hx : ∀ a b, x a (x a b) = b)
    (hf : ∀ b, b.length = k → (f b).length = k) (hiv : iv.length = k) :
    chain s (segmentDecrypt x f) iv (chain s (segmentEncrypt x f) iv l) = l := by
  refine chain_chain (P := fun b => b.length = k) hs (fun iv b hiv hb => ?_) hiv
  have hfull : b.length ≤ (f iv).length := by rw [hf iv hiv]; omega
  have hlen : (List.zipWith x (f iv) b).length = b.length := by
    rw [List.length_zipWith, Nat.min_eq_right hfull]
  refine ⟨hlen, ?_, ?_⟩
  · rw [segmentDecrypt, segmentEncrypt, zipWith_zipWith hx hfull, hlen]
  · rw [segmentEncrypt, List.length_append, List.length_drop, hlen]
    omega

end Ma35d1.Machine.Streams

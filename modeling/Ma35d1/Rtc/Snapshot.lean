import Ma35d1.Rtc.DateTime

/-!
# When a reading is a snapshot

A digit can carry into the next between their reads, so the digits of one call may never
have stood together. The units of the seconds are read last and repeat every ten ticks: a
call of fewer ticks returns what the clock held at its last read, or nothing it ever held.
-/

namespace Ma35d1.Rtc

/-- The ticks between the start of the call and its `i`-th read; 14 is its end. -/
def instant (ticks : Nat → Nat) : Nat → Nat
  | 0 => ticks 0
  | i + 1 => instant ticks i + ticks (i + 1)

/-- The clock `k` ticks later. -/
def Clock.after (c : Clock) (k : Nat) : Clock := Clock.tick^[k] c

/-- What the call returns when it starts with the clock at `c`. -/
def readDuring (h24 : Bool) (c : Clock) (ticks : Nat → Nat) (u32AmPm : BitVec 32) : TimeData :=
  getDateAndTime (fun i => (c.after (instant ticks i)).regs h24) u32AmPm

/-- The call returns what the clock held at one instant of it. -/
def ReadsSnapshot (h24 : Bool) (c : Clock) (ticks : Nat → Nat) (u32AmPm : BitVec 32) : Prop :=
  ∃ k ≤ instant ticks 14, readDuring h24 c ticks u32AmPm = (c.after k).held h24 u32AmPm

/-- No tick between a digit's read and the last read of the call carries into the digit. -/
def NoCarry (h24 : Bool) (c : Clock) (ticks : Nat → Nat) : Prop :=
  ∀ (x : Item) (k : Nat), instant ticks x.read ≤ k → k < instant ticks 13 →
    x.value h24 (c.after (k + 1)) = x.value h24 (c.after k)

/-- A whole number of ten ticks from the last read, the digits are again those read. -/
def Recurs (h24 : Bool) (c : Clock) (ticks : Nat → Nat) : Prop :=
  ∃ k ≤ instant ticks 14, k % 10 = instant ticks 13 % 10 ∧
    ∀ x : Item, x.value h24 (c.after (instant ticks x.read)) = x.value h24 (c.after k)

variable {h24 : Bool} {c : Clock} {ticks : Nat → Nat} {u32AmPm : BitVec 32} {x : Item} {a b k : Nat}

theorem instant_mono (h : a ≤ b) : instant ticks a ≤ instant ticks b := by
  induction h with
  | refl => exact Nat.le_refl _
  | step _ ih => exact ih.trans (Nat.le_add_right _ _)

theorem read_le (x : Item) : x.read ≤ 13 := by cases x <;> decide

theorem after_succ (c : Clock) (k : Nat) : c.after (k + 1) = (c.after k).tick :=
  Function.iterate_succ_apply' Clock.tick k c

/-- The returned date and time is held at `k` exactly when every digit is. -/
theorem readDuring_eq_held :
    readDuring h24 c ticks u32AmPm = (c.after k).held h24 u32AmPm ↔
      ∀ x : Item, x.value h24 (c.after (instant ticks x.read)) = x.value h24 (c.after k) := by
  unfold readDuring
  rw [getDateAndTime_eq h24 (fun i => c.after (instant ticks i)), held_eq]
  constructor
  · intro h x
    exact congrFun (assemble_inj (fun x => value_lt h24 _ x) (fun x => value_lt h24 _ x) h) x
  · intro h
    congr 1
    funext x
    exact h x

/-! ## Ticks and digits -/

theorem sec_tick (c : Clock) : c.tick.sec = (c.sec + 1) % 60 := by
  have hsec := c.sec_lt
  unfold Clock.tick
  split
  · rename_i h
    exact (Nat.mod_eq_of_lt h).symm
  · have h60 : c.sec + 1 = 60 := by omega
    rw [h60]
    split
    · rfl
    · split <;> rfl

theorem sec_after (c : Clock) (k : Nat) : (c.after k).sec = (c.sec + k) % 60 := by
  induction k with
  | zero => exact (Nat.mod_eq_of_lt c.sec_lt).symm
  | succ k ih =>
    rw [after_succ, sec_tick, ih]
    omega

/-- Only the tick after a 9 changes anything but the units of the seconds. -/
theorem value_tick (hx : x ≠ .sec) (h9 : c.sec % 10 ≠ 9) : x.value h24 c.tick = x.value h24 c := by
  have hsec : c.sec + 1 < 60 := by
    have := c.sec_lt
    omega
  unfold Clock.tick
  rw [dif_pos hsec]
  cases x with
  | sec => exact absurd rfl hx
  | tenSec =>
    simp only [Item.value]
    omega
  | _ => rfl

/-- What no tick changes stays. -/
theorem value_const (hab : a ≤ b) (h : ∀ k, a ≤ k → k < b →
    x.value h24 (c.after (k + 1)) = x.value h24 (c.after k)) :
    x.value h24 (c.after a) = x.value h24 (c.after b) := by
  induction hab with
  | refl => rfl
  | step hab ih =>
    rw [h _ hab (Nat.lt_succ_self _)]
    exact ih fun k hak hkb => h k hak (Nat.lt_succ_of_lt hkb)

/-- Within ten ticks a digit that changes does not come back. -/
theorem value_ne_of_carry (hx : x ≠ .sec) (hak : a ≤ k) (hkb : k < b) (hab : b ≤ a + 10)
    (hne : x.value h24 (c.after (k + 1)) ≠ x.value h24 (c.after k)) :
    x.value h24 (c.after a) ≠ x.value h24 (c.after b) := by
  have h9 : (c.after k).sec % 10 = 9 := by
    by_contra h9
    rw [after_succ] at hne
    exact hne (value_tick hx h9)
  -- the other ticks come after another digit of the seconds
  have hother : ∀ j, a ≤ j → j < b → j ≠ k →
      x.value h24 (c.after (j + 1)) = x.value h24 (c.after j) := by
    intro j haj hjb hjk
    rw [after_succ]
    apply value_tick hx
    rw [sec_after] at h9 ⊢
    omega
  have hbefore : x.value h24 (c.after a) = x.value h24 (c.after k) :=
    value_const hak fun j haj hjk => hother j haj (by omega) (by omega)
  have hafter : x.value h24 (c.after (k + 1)) = x.value h24 (c.after b) :=
    value_const hkb fun j hkj hjb => hother j (by omega) hjb (by omega)
  rw [hbefore, ← hafter]
  exact hne.symm

/-! ## The law -/

/-- A call returns what the clock held at some instant of it exactly when no tick carries into
a digit already read, or the call is long enough for the digits to come round again. -/
theorem readsSnapshot_iff (h24 : Bool) (c : Clock) (ticks : Nat → Nat) (u32AmPm : BitVec 32) :
    ReadsSnapshot h24 c ticks u32AmPm ↔
      NoCarry h24 c ticks ∨ (10 ≤ instant ticks 14 ∧ Recurs h24 c ticks) := by
  have hlast : instant ticks 13 ≤ instant ticks 14 := instant_mono (by decide)
  unfold ReadsSnapshot
  simp only [readDuring_eq_held]
  constructor
  · rintro ⟨k, hk, h⟩
    have hmod : k % 10 = instant ticks 13 % 10 := by
      have hsec := h .sec
      simp only [Item.value, Item.read, sec_after] at hsec
      omega
    by_cases hshort : 10 ≤ instant ticks 14
    · exact .inr ⟨hshort, k, hk, hmod, h⟩
    · left
      obtain rfl : k = instant ticks 13 := by omega
      intro x j hxj hj
      by_contra hne
      have hx : x ≠ .sec := by
        rintro rfl
        exact absurd hj (Nat.not_lt.mpr hxj)
      exact value_ne_of_carry hx hxj hj (by omega) hne (h x)
  · rintro (h | ⟨-, k, hk, -, h⟩)
    · exact ⟨instant ticks 13, hlast, fun x => value_const (instant_mono (read_le x)) (h x)⟩
    · exact ⟨k, hk, h⟩

/-- The last second of 2023, a Sunday. -/
def lastSecond : Clock where
  date := ⟨23, 12, 31, 0, by decide, by decide, by decide, by decide⟩
  hour := 23
  min := 59
  sec := 59
  hour_lt := by decide
  min_lt := by decide
  sec_lt := by decide

/-- One tick, between the reads of `CAL` and those of `TIME`. -/
def tickBeforeTime (i : Nat) : Nat := if i = 8 then 1 else 0

/-- The old date is returned with the new time: the midnight a day too early. -/
theorem not_readsSnapshot_lastSecond :
    ¬ ReadsSnapshot true lastSecond tickBeforeTime 0 := by
  rintro ⟨k, hk, h⟩
  have hend : instant tickBeforeTime 14 = 1 := by decide
  rw [hend] at hk
  obtain rfl | rfl : k = 0 ∨ k = 1 := by omega
  · exact absurd (readDuring_eq_held.1 h .sec) (by decide)
  · exact absurd (readDuring_eq_held.1 h .tenDay) (by decide)

end Ma35d1.Rtc

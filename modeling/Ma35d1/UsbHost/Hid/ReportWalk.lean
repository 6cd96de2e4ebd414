import Ma35d1.UsbHost.Hid.ReportLaw

/-!
# Walks and bits

What the walks of the two decoders have in common, and buffers with a single bit.
-/

namespace Ma35d1.UsbHost.Hid

variable {σ : Type} {entry : RpInfo → Cursor → Except Stray (Option (σ × Cursor))}
  {field : Nat → RpInfo → σ} {silent : σ → Prop} {n t : Nat} {c : Cursor} {r : RpInfo}
  {rs : List RpInfo} {data : List (BitVec 8)} {rpd : Rpd} {id : BitVec 8}

/-! ## Walks -/

/-- The loop over the reports that are looked at -/
def lookLoop (entry : RpInfo → Cursor → Except Stray (Option (σ × Cursor))) (n : Nat) :
    List RpInfo → Cursor → Except Stray (Option (List (RpInfo × σ)))
  | [], _ => .ok (some [])
  | r :: rs, c =>
    match entry r c with
    | .error e => .error e
    | .ok none => .ok none
    | .ok (some (x, c)) =>
      if n ≤ c.byteIdx then .ok (some [(r, x)])
      else (lookLoop entry n rs c).map (Option.map ((r, x) :: ·))

theorem reportLoop_eq (h : Bool) (id : BitVec 8) (n : Nat) (rs : List RpInfo) (c : Cursor) :
    reportLoop entry h id n rs c = lookLoop entry n (rs.filter (lookedAt h id)) c := by
  induction rs generalizing c with
  | nil => rfl
  | cons r rs ih =>
    rw [reportLoop]
    by_cases hid : h = true ∧ r.reportId ≠ id
    · have hskip : lookedAt h id r = false := by
        unfold lookedAt
        rw [hid.1, bne_iff_ne.mpr hid.2]
        rfl
      rw [if_pos hid, ih, List.filter_cons_of_neg (by rw [hskip]; exact Bool.false_ne_true)]
    · rw [if_neg hid]
      by_cases htype : r.type = .input
      · have hlook : lookedAt h id r = true := by
          unfold lookedAt
          rw [htype]
          cases h with
          | false => rfl
          | true =>
            have heq : r.reportId = id := by
              by_contra hne
              exact hid ⟨rfl, hne⟩
            rw [heq, bne_self_eq_false]
            rfl
        rw [if_neg (not_not.mpr htype), List.filter_cons_of_pos hlook, lookLoop]
        rcases entry r c with e | _ | ⟨x, c'⟩
        · rfl
        · rfl
        · simp only [ih]
      · have hskip : ¬ lookedAt h id r = true := by
          unfold lookedAt
          rw [Bool.and_eq_true, beq_iff_eq]
          exact fun hlook => htype hlook.2
        rw [if_pos htype, ih, List.filter_cons_of_neg hskip]

/-- The walk begins behind the report ID. -/
theorem walkReports_eq (hn : rpd.hasReportId = true → 0 < data.length) :
    walkReports entry rpd data = lookLoop entry data.length (rpd.looked (data.getD 0 0))
      ⟨rpd.base / 8, rpd.base⟩ := by
  unfold walkReports Rpd.looked Rpd.base
  cases h : rpd.hasReportId with
  | false =>
    rw [if_neg Bool.false_ne_true, if_neg Bool.false_ne_true, reportLoop_eq]
    rfl
  | true => rw [if_pos rfl, if_pos (hn h), if_pos rfl, reportLoop_eq]

theorem walkReports_empty (h : rpd.hasReportId = true) (hn : data.length = 0) :
    walkReports entry rpd data = .error .data := by
  unfold walkReports
  rw [if_pos h, if_neg (by omega)]

/-- The walk comes to its end with the stores expected. -/
def Follows (entry : RpInfo → Cursor → Except Stray (Option (σ × Cursor)))
    (field : Nat → RpInfo → σ) (silent : σ → Prop) (n : Nat) (c : Cursor) (t : Nat)
    (rs : List RpInfo) : Prop :=
  ∃ stores, lookLoop entry n rs c = .ok (some stores) ∧
    SameStores silent stores (expectedFrom field t rs)

theorem follows_nil : Follows entry field silent n c t [] :=
  ⟨[], rfl, fun _ h => absurd h List.not_mem_nil⟩

theorem follows_cons : Follows entry field silent n c t (r :: rs) ↔
    ∃ x c', entry r c = .ok (some (x, c')) ∧ x = field t r ∧
      if n ≤ c'.byteIdx then ∀ y ∈ expectedFrom field (t + r.size * r.count) rs, silent y.2
      else Follows entry field silent n c' (t + r.size * r.count) rs := by
  unfold Follows
  rw [lookLoop, expectedFrom]
  constructor
  · rintro ⟨stores, hloop, hsame⟩
    match he : entry r c with
    | .error e => rw [he] at hloop; cases hloop
    | .ok none => rw [he] at hloop; cases hloop
    | .ok (some (x, c')) =>
      rw [he] at hloop
      refine ⟨x, c', rfl, ?_⟩
      by_cases hstop : n ≤ c'.byteIdx
      · obtain rfl : [(r, x)] = stores := by
          simpa only [if_pos hstop, Except.ok.injEq, Option.some.injEq] using hloop
        rw [if_pos hstop]
        exact ⟨(Prod.mk.inj hsame.1).2, hsame.2⟩
      · simp only [if_neg hstop] at hloop
        match hrest : lookLoop entry n rs c' with
        | .error e => rw [hrest] at hloop; cases hloop
        | .ok none => rw [hrest] at hloop; cases hloop
        | .ok (some rest) =>
          rw [hrest] at hloop
          obtain rfl : (r, x) :: rest = stores := by
            simpa only [Except.map, Option.map, Except.ok.injEq, Option.some.injEq] using hloop
          rw [if_neg hstop]
          exact ⟨(Prod.mk.inj hsame.1).2, rest, rfl, hsame.2⟩
  · rintro ⟨x, c', he, hx, hrest⟩
    rw [he]
    by_cases hstop : n ≤ c'.byteIdx
    · rw [if_pos hstop] at hrest
      exact ⟨[(r, x)], by simp only [if_pos hstop], by rw [hx], hrest⟩
    · rw [if_neg hstop] at hrest
      obtain ⟨rest, hloop, hsame⟩ := hrest
      exact ⟨(r, x) :: rest, by simp only [if_neg hstop, hloop]; rfl, by rw [hx], hsame⟩

theorem expectedFrom_silent (silent : σ → Prop)
    (hfield : ∀ t' r, t ≤ t' → silent (field t' r)) :
    ∀ y ∈ expectedFrom field t rs, silent y.2 := by
  induction rs generalizing t with
  | nil => exact fun _ hy => absurd hy List.not_mem_nil
  | cons r rs ih =>
    intro y hy
    obtain rfl | hy := List.mem_cons.mp hy
    · exact hfield t r (Nat.le_refl t)
    · exact ih (fun t' r' ht' => hfield t' r' (by omega)) y hy

/-! ## Bits -/

theorem packBits_getLsbD (w : Nat) (f : Nat → Bool) (k j : Nat) :
    (packBits w f k).getLsbD j = (decide (j < k) && decide (j < w) && f j) := by
  induction k with
  | zero => simp [packBits]
  | succ k ih =>
    rw [packBits, BitVec.getLsbD_or, ih]
    by_cases hjk : j = k
    · subst hjk
      by_cases hf : f j
      · rw [if_pos hf, BitVec.getLsbD_shiftLeft, hf]
        simp
        omega
      · simp [hf]
    · have hbit : (if f k = true then 1#w <<< k else 0#w).getLsbD j = false := by
        split
        · rw [BitVec.getLsbD_shiftLeft]
          simp
          omega
        · exact BitVec.getLsbD_zero
      have hlt : decide (j < k + 1) = decide (j < k) := by
        congr 1
        exact propext ⟨fun h => by omega, fun h => by omega⟩
      rw [show (if f k = true then 1#w <<< k else 0) = (if f k = true then 1#w <<< k else 0#w) from rfl,
        hbit, hlt, Bool.or_false]

theorem shiftedBit_ok {byteIdx bitIdx i : Nat} (hb : byteIdx < data.length) (hi : i < 32) :
    shiftedBit data byteIdx bitIdx i =
      .ok (if bitAt data (8 * byteIdx + bitIdx % 8) then 1#32 <<< i else 0) := by
  have hbit : bitAt data (8 * byteIdx + bitIdx % 8) =
      (data.getD byteIdx 0).getLsbD (bitIdx % 8) := by
    unfold bitAt
    rw [show (8 * byteIdx + bitIdx % 8) / 8 = byteIdx by omega,
      show (8 * byteIdx + bitIdx % 8) % 8 = bitIdx % 8 by omega]
  rw [shiftedBit, if_pos hb, if_pos hi, hbit]

theorem shiftedBit_reads {byteIdx bitIdx i : Nat} {v : BitVec 32}
    (h : shiftedBit data byteIdx bitIdx i = .ok v) : byteIdx < data.length ∧ i < 32 := by
  unfold shiftedBit at h
  split at h
  · split at h
    · exact ⟨‹_›, ‹_›⟩
    · cases h
  · cases h

/-! ## Buffers with a single bit -/

/-- The bit `p` is set, and the first byte is the report ID if there are any. -/
def oneBit (hasReportId : Bool) (n : Nat) (id : BitVec 8) (p : Nat) : List (BitVec 8) :=
  (List.range n).map fun k =>
    if hasReportId = true ∧ k = 0 then id else if k = p / 8 then 1#8 <<< (p % 8) else 0

theorem oneBit_getD {h : Bool} {p k : Nat} (hk : k < n) : (oneBit h n id p).getD k 0 =
    if h = true ∧ k = 0 then id else if k = p / 8 then 1#8 <<< (p % 8) else 0 := by
  unfold oneBit
  rw [List.getD_eq_getElem?_getD, List.getElem?_map, List.getElem?_range hk]
  rfl

theorem oneBit_received (h : Bool) (n : Nat) (id : BitVec 8) (p : Nat) :
    Received h n id (oneBit h n id p) := by
  refine ⟨by rw [oneBit, List.length_map, List.length_range], fun hid hn => ?_⟩
  rw [oneBit_getD hn, if_pos ⟨hid, rfl⟩]

theorem bitAt_oneBit {h : Bool} {p x : Nat} (hx : h = true → 8 ≤ x) (hxn : x < 8 * n) :
    bitAt (oneBit h n id p) x = decide (x = p) := by
  have hk : x / 8 < n := by omega
  unfold bitAt
  rw [oneBit_getD hk, if_neg fun hid => by have := hx hid.1; omega]
  by_cases hxp : x / 8 = p / 8
  · rw [if_pos hxp, BitVec.getLsbD_shiftLeft]
    have hlt : x % 8 < 8 := Nat.mod_lt _ (by decide)
    by_cases heq : x = p
    · subst heq
      simp [hlt]
    · simp [heq]
      omega
  · rw [if_neg hxp, decide_eq_false fun heq => hxp (by rw [heq])]
    exact BitVec.getLsbD_zero

end Ma35d1.UsbHost.Hid

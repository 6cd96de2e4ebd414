import Ma35d1.UsbHost.Hid.MouseReport
import Ma35d1.UsbHost.Hid.KeyboardReport

/-!
# Decoded reports

Every buffer of a length and report ID is decoded as it should be exactly if the layout meets the
condition.
-/

namespace Ma35d1.UsbHost.Hid

variable {n : Nat} {data : List (BitVec 8)} {id : BitVec 8} {rpd : Rpd}

/-! ## Reports of the parser -/

section Counted

variable {mem : Nat → Bool} {s s' : Parser}

/-- The reports of the list have a field each. -/
def Parser.Counted (s : Parser) : Prop := ∀ r ∈ s.report, 0 < r.reportCount.toNat

/-- What adds reports with a field only, whether it runs out of memory or not -/
def Counts (e : Except Parser Parser) : Prop :=
  match e with
  | .ok s => s.Counted
  | .error s => s.Counted

theorem hidAddReport_counts {type : ItemTag} (hs : s.Counted) (h0 : 0 < s.info.reportCount) :
    Counts (hidAddReport mem type s) := by
  unfold hidAddReport
  split
  · intro r hr
    rcases List.mem_append.mp hr with hr | hr
    · exact hs r hr
    · rw [List.mem_singleton.mp hr]
      exact h0
  · exact hs

theorem addUsages_counts (us : List (BitVec 8)) (hs : s.Counted) :
    Counts (addUsages mem us s) := by
  induction us generalizing s with
  | nil => exact hs
  | cons u us ih =>
    have hadd : Counts (hidAddReport mem .input
        (s.setInfo { s.info with reportCount := 1, dataUsage := u })) :=
      hidAddReport_counts hs (show 0 < 1#8 by decide)
    unfold addUsages
    match he : hidAddReport mem .input
        (s.setInfo { s.info with reportCount := 1, dataUsage := u }) with
    | .ok s₁ =>
      rw [he] at hadd
      exact ih hadd
    | .error s₁ =>
      rw [he] at hadd
      exact hadd

theorem addRest_counts {type : ItemTag} (hs : s.Counted) : Counts (addRest mem type s) := by
  unfold addRest
  split
  · exact hidAddReport_counts hs ‹_›
  · exact hs

theorem splitUsages_counts (hs : s.Counted) : Counts (splitUsages mem s) := by
  unfold splitUsages
  split
  · exact hs
  · have hadd : Counts (addUsages mem s.dataUsages s) := addUsages_counts s.dataUsages hs
    match he : addUsages mem s.dataUsages s with
    | .ok s₁ =>
      rw [he] at hadd
      exact hadd
    | .error s₁ =>
      rw [he] at hadd
      exact hadd

theorem parseInput_counts (hs : s.Counted) : Counts (parseInput mem s) := by
  have hsplit : Counts (splitUsages mem s) := splitUsages_counts hs
  unfold parseInput
  match he : splitUsages mem s with
  | .ok s₁ =>
    rw [he] at hsplit
    exact addRest_counts hsplit
  | .error s₁ =>
    rw [he] at hsplit
    exact hsplit

theorem Counts.itemRet {e : Except Parser Parser} (he : Counts e) (len : Nat) :
    (itemRet len e).2.Counted := by
  cases e <;> exact he

theorem hidParseItem_counted {b : Core.Buf} {p : Nat} {x : Int × Parser} (hs : s.Counted)
    (he : hidParseItem mem b p s = .ok x) : x.2.Counted := by
  unfold hidParseItem at he
  split at he
  · cases he
    exact (parseInput_counts (s := s.readStatus b p) hs).itemRet _
  · cases he
    exact (addRest_counts (s := s.readStatus b p) hs).itemRet _
  · cases he
    exact hs
  · split_ifs at he <;> cases he <;> exact hs
  · cases he
    exact hs
  · cases he
    exact hs

theorem parseItems_counted {b : Core.Buf} {k p : Nat} {remain r : Int} (hs : s.Counted)
    (he : parseItems mem b k p remain s = .ok (r, s')) : s'.Counted := by
  induction k generalizing p remain s with
  | zero => cases he
  | succ k ih =>
    rw [parseItems] at he
    split_ifs at he
    · cases he
      exact hs
    · match hitem : hidParseItem mem b p s with
      | .error e => rw [hitem] at he; cases he
      | .ok (size, s₁) =>
        have hs₁ := hidParseItem_counted hs hitem
        rw [hitem] at he
        simp only [bind, Except.bind] at he
        split_ifs at he
        · cases he
          exact hs₁
        · exact ih hs₁ he

/-- A list that the parser has made, from an empty one -/
def Parser.parsed (s : Parser) (hs : s.Counted) : Rpd := ⟨s.hasReportId, s.report, hs⟩

end Counted

/-! ## What the condition is for -/

theorem decoded_keyboard_iff (hdata : Received rpd.hasReportId n id data)
    (hn : rpd.hasReportId = true → 0 < n) : Decoded .keyboard rpd data ↔
      ∃ o, lookLoop (keyboardEntry data) n (rpd.looked (data.getD 0 0))
          ⟨rpd.base / 8, rpd.base⟩ = .ok o ∧
        ∀ stores, o = some stores → SameStores NoStore stores
          (expectedFrom (keyFields data rpd.base) rpd.base (rpd.looked (data.getD 0 0))) := by
  show (∃ o, walkReports (keyboardEntry data) rpd data = .ok o ∧ _) ↔ _
  unfold keyExpected
  rw [walkReports_eq (by rw [hdata.1]; exact hn), hdata.1]

/-- Without report IDs the first byte does not matter. -/
theorem Rpd.looked_eq (hdata : Received rpd.hasReportId n id data)
    (hn : rpd.hasReportId = true → 0 < n) : rpd.looked (data.getD 0 0) = rpd.looked id := by
  unfold Rpd.looked
  refine List.filter_congr fun r _ => ?_
  unfold lookedAt
  cases hid : rpd.hasReportId with
  | false => rfl
  | true => rw [hdata.2 hid (hn hid)]

theorem Rpd.looked_counted : ∀ r ∈ rpd.looked id, 0 < r.count := fun r hr =>
  rpd.counted r (List.mem_filter.mp hr).1

theorem Rpd.stands (rpd : Rpd) :
    Stands rpd.hasReportId rpd.base ⟨rpd.base / 8, rpd.base⟩ rpd.base := by
  have h8 : 8 * (rpd.base / 8) = rpd.base := by
    unfold Rpd.base
    split <;> rfl
  exact ⟨rfl, rfl, Nat.le_of_eq h8, Nat.le_refl _, Nat.le_refl _, Nat.le_of_eq h8.symm⟩

/-- An empty buffer is not decoded if there are report IDs. -/
theorem nonempty_of_decoded {k : HidDecoder}
    (hall : ∀ data, Received rpd.hasReportId n id data → Decoded k rpd data)
    (hid : rpd.hasReportId = true) : 0 < n := by
  by_contra h0
  have hone := oneBit_received rpd.hasReportId n id 0
  have hdec := hall _ hone
  have hempty : (oneBit rpd.hasReportId n id 0).length = 0 := by
    rw [hone.1]
    omega
  cases k with
  | mouse =>
    obtain ⟨o, ho, -⟩ := hdec
    rw [walkReports_empty hid hempty] at ho
    cases ho
  | keyboard =>
    obtain ⟨o, ho, -⟩ := hdec
    rw [walkReports_empty hid hempty] at ho
    cases ho

theorem decodes_mouse (hn : rpd.hasReportId = true → 0 < n) :
    (∀ data, Received rpd.hasReportId n id data → Decoded .mouse rpd data) ↔
      MouseLayout n rpd.base rpd.base (rpd.looked id) := by
  have hbase : rpd.hasReportId = true → 8 ≤ rpd.base := fun hid => by
    rw [Rpd.base, if_pos hid]
  refine Iff.trans (forall₂_congr fun data hdata => ?_)
    (mouseLayout_iff Rpd.looked_counted hbase (Nat.le_refl _))
  rw [decoded_mouse_iff hdata hn, rpd.looked_eq hdata hn]

theorem decodes_keyboard (hn : rpd.hasReportId = true → 0 < n) :
    (∀ data, Received rpd.hasReportId n id data → Decoded .keyboard rpd data) ↔
      KeyWithin n ⟨rpd.base / 8, rpd.base⟩ (rpd.looked id) ∧
        (KeyRefused n ⟨rpd.base / 8, rpd.base⟩ (rpd.looked id) ∨
          KeyInStep n rpd.base ⟨rpd.base / 8, rpd.base⟩ rpd.base (rpd.looked id)) := by
  constructor
  · intro hall
    have hdec := fun data (hdata : Received rpd.hasReportId n id data) =>
      (decoded_keyboard_iff hdata hn).mp (hall data hdata)
    have hone := oneBit_received rpd.hasReportId n id 0
    obtain ⟨o, ho, -⟩ := hdec _ hone
    rw [rpd.looked_eq hone hn] at ho
    have hw := keyWithin_of_ok Rpd.looked_counted hone.1 ho
    refine ⟨hw, or_iff_not_imp_left.mpr fun hr => ?_⟩
    refine (keyInStep_iff rpd.stands hw hr).mp
      fun data (hdata : Received rpd.hasReportId n id data) => ?_
    obtain ⟨stores, hs⟩ := keyLoop_some hdata.1 hw hr
    obtain ⟨o, ho, hsame⟩ := hdec data hdata
    rw [rpd.looked_eq hdata hn] at ho hsame
    rw [hs] at ho
    cases ho
    exact ⟨stores, hs, hsame stores rfl⟩
  · rintro ⟨hw, hrest⟩ data hdata
    rw [decoded_keyboard_iff hdata hn, rpd.looked_eq hdata hn]
    by_cases hr : KeyRefused n ⟨rpd.base / 8, rpd.base⟩ (rpd.looked id)
    · exact ⟨none, keyLoop_refused hdata.1 hw hr, fun _ hs => by cases hs⟩
    · obtain ⟨stores, hs, hsame⟩ :=
        (keyInStep_iff rpd.stands hw hr).mpr (hrest.resolve_left hr) data hdata
      exact ⟨some stores, hs, fun _ he => by cases he; exact hsame⟩

/-- The input report of a mouse with two axes of twelve bits -/
def axesDescriptor : List (BitVec 8) :=
  [0x05, 0x01, 0x09, 0x02, 0xA1, 0x01, 0x09, 0x01, 0x09, 0x30, 0x09, 0x31, 0x75, 0x0C, 0x95, 0x02,
    0x81, 0x06, 0xC0]

/-- The two reports of its list, for the usages X and Y -/
def axisReport (usage : BitVec 8) : RpInfo :=
  { RpInfo.zero with
    type := .input, usagePage := 1, appUsage := 1, dataUsage := usage, reportSize := 12
    reportCount := 1, status := { MainStatus.zero with variable_ := true, relative := true } }

def axesRpd : Rpd where
  hasReportId := false
  report := [axisReport usageIdX, axisReport usageIdY]
  counted := by decide

end Ma35d1.UsbHost.Hid

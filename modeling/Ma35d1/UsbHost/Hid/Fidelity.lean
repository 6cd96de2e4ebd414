import Ma35d1.Machine.Trace
import Ma35d1.UsbHost.Hid.ParserSafety
import Ma35d1.UsbHost.Hid.ReportItems

/-!
# The reports of a report descriptor

`hid_parse_item` takes the items of a descriptor one after the other. The list it builds is
compared with what the items mean: the bits of every report ID, and the flags of each entry.
-/

namespace Ma35d1.UsbHost.Hid

open Ma35d1.UsbHost.Core Machine

variable {mem : Nat → Bool} {s t : Parser} {us : List (BitVec 8)} {n : Nat}

/-! ## The entries an item adds -/

/-- The report of one interested usage. -/
def single (i : RpInfo) (u : BitVec 8) : RpInfo :=
  { i with type := .input, reportCount := 1, dataUsage := u }

/-- The report of the fields that are left. -/
def restEntries (kind : ItemTag) (i : RpInfo) : List RpInfo :=
  if 0 < i.reportCount then [{ i with type := kind }] else []

/-- `_rp_info` behind the usages of an input item. -/
def restInfo (s : Parser) : RpInfo :=
  if s.dataUsages = [] then s.info
  else { s.info with
    reportCount := s.info.reportCount - BitVec.ofNat 8 s.dataUsages.length
    dataUsage := 0 }

def inputEntries (s : Parser) : List RpInfo :=
  s.dataUsages.map (single s.info) ++ restEntries .input (restInfo s)

theorem hidAddReport_ok {kind : ItemTag} (h : hidAddReport mem kind s = .ok t) :
    t = { s with report := s.report ++ [{ s.info with type := kind }] } := by
  unfold hidAddReport at h
  split at h
  · exact (Except.ok.inj h).symm
  · cases h

theorem addUsages_ok (h : addUsages mem us s = .ok t) :
    t.report = s.report ++ us.map (single s.info) ∧
      ∃ c u, t.info = { s.info with reportCount := c, dataUsage := u } := by
  induction us generalizing s with
  | nil =>
    obtain rfl := Except.ok.inj h
    exact ⟨(List.append_nil _).symm, _, _, rfl⟩
  | cons u us ih =>
    rw [addUsages] at h
    generalize ha : hidAddReport mem .input
      (s.setInfo { s.info with reportCount := 1, dataUsage := u }) = r at h
    cases r with
    | error t => cases h
    | ok t₁ =>
      obtain rfl := hidAddReport_ok ha
      obtain ⟨hr, c, u', hi⟩ := ih h
      refine ⟨?_, c, u', hi⟩
      rw [hr, List.map_cons]
      exact List.append_assoc _ [single s.info u] _

theorem splitUsages_ok (h : splitUsages mem s = .ok t) :
    t.report = s.report ++ s.dataUsages.map (single s.info) ∧ t.info = restInfo s := by
  unfold splitUsages at h
  unfold restInfo
  split at h
  · rename_i hn
    obtain rfl := Except.ok.inj h
    rw [if_pos hn, hn]
    exact ⟨(List.append_nil _).symm, rfl⟩
  · rename_i hn
    rw [if_neg hn]
    generalize ha : addUsages mem s.dataUsages s = r at h
    cases r with
    | error t => cases h
    | ok t₁ =>
      obtain rfl := Except.ok.inj h
      obtain ⟨hr, c, u, hi⟩ := addUsages_ok ha
      refine ⟨hr, ?_⟩
      show ({ t₁.info with reportCount := _, dataUsage := _ } : RpInfo) = _
      rw [hi]

theorem addRest_ok {kind : ItemTag} (h : addRest mem kind s = .ok t) :
    t.report = s.report ++ restEntries kind s.info ∧ t.dataUsages = s.dataUsages := by
  unfold addRest at h
  unfold restEntries
  split at h
  · rename_i hc
    rw [if_pos hc, hidAddReport_ok h]
    exact ⟨rfl, rfl⟩
  · rename_i hc
    obtain rfl := Except.ok.inj h
    rw [if_neg hc]
    exact ⟨(List.append_nil _).symm, rfl⟩

theorem parseInput_ok (h : parseInput mem s = .ok t) : t.report = s.report ++ inputEntries s := by
  unfold parseInput at h
  generalize ha : splitUsages mem s = r at h
  cases r with
  | error t => cases h
  | ok t₁ =>
    obtain ⟨hr, hi⟩ := splitUsages_ok ha
    obtain ⟨hr', -⟩ := addRest_ok h
    rw [hr', hr, hi, List.append_assoc]
    rfl

/-! ## The bits and flags of entries -/

/-- The sum over the entries of a report. -/
def reportBits (rs : List RpInfo) (kind : ItemTag) (id : Nat) : Nat :=
  (rs.map fun r => if r.type = kind ∧ r.reportId.toNat = id then
    r.reportSize.toNat * r.reportCount.toNat else 0).sum

theorem reportBits_append (rs rs' : List RpInfo) (kind : ItemTag) (id : Nat) :
    reportBits (rs ++ rs') kind id = reportBits rs kind id + reportBits rs' kind id := by
  unfold reportBits
  rw [List.map_append, List.sum_append]

theorem reportBits_single (i : RpInfo) (us : List (BitVec 8)) (kind : ItemTag) (id : Nat) :
    reportBits (us.map (single i)) kind id =
      if .input = kind ∧ i.reportId.toNat = id then i.reportSize.toNat * us.length else 0 := by
  induction us with
  | nil =>
    split
    · rfl
    · rfl
  | cons u us ih =>
    have hone : reportBits [single i u] kind id =
        if .input = kind ∧ i.reportId.toNat = id then i.reportSize.toNat * 1 else 0 := rfl
    rw [List.map_cons, ← List.singleton_append, reportBits_append, ih, hone, List.length_cons]
    split
    · rw [Nat.mul_one, Nat.mul_succ, Nat.add_comm]
    · rfl

theorem reportBits_rest (k : ItemTag) (i : RpInfo) (kind : ItemTag) (id : Nat) :
    reportBits (restEntries k i) kind id =
      if k = kind ∧ i.reportId.toNat = id then i.reportSize.toNat * i.reportCount.toNat else 0 := by
  unfold restEntries
  split
  · rfl
  · rename_i hc
    have h0 : i.reportCount.toNat = 0 := Nat.eq_zero_of_not_pos hc
    rw [h0, Nat.mul_zero, ite_self]
    rfl

/-- The fields that the entries of an input item have together: `report_count` less the
usages is kept in eight bits. -/
def fieldCount (s : Parser) : Nat :=
  if s.dataUsages.length ≤ s.info.reportCount.toNat then s.info.reportCount.toNat
  else s.info.reportCount.toNat + 256

theorem length_add_rest (h : s.dataUsages.length ≤ maxDataUsages) :
    s.dataUsages.length + (restInfo s).reportCount.toNat = fieldCount s := by
  have hlt := s.info.reportCount.isLt
  unfold maxDataUsages at h
  unfold restInfo fieldCount
  split
  · rename_i hn
    have h0 : s.dataUsages.length = 0 := List.length_eq_zero_iff.mpr hn
    rw [h0, if_pos (Nat.zero_le _), Nat.zero_add]
  · show _ + (s.info.reportCount - BitVec.ofNat 8 s.dataUsages.length).toNat = _
    rw [BitVec.toNat_sub, BitVec.toNat_ofNat, Nat.mod_eq_of_lt (a := s.dataUsages.length) (by omega)]
    split
    · omega
    · omega

theorem reportBits_input (h : s.dataUsages.length ≤ maxDataUsages) (kind : ItemTag) (id : Nat) :
    reportBits (inputEntries s) kind id =
      if .input = kind ∧ s.info.reportId.toNat = id then s.info.reportSize.toNat * fieldCount s
      else 0 := by
  have hid : (restInfo s).reportId = s.info.reportId := by unfold restInfo; split <;> rfl
  have hsize : (restInfo s).reportSize = s.info.reportSize := by unfold restInfo; split <;> rfl
  rw [inputEntries, reportBits_append, reportBits_single, reportBits_rest, hid, hsize]
  split
  · rw [← Nat.mul_add, length_add_rest h]
  · rfl

theorem restEntries_status {kind : ItemTag} {i r : RpInfo} (h : r ∈ restEntries kind i) :
    r.status = i.status := by
  unfold restEntries at h
  split at h
  · rw [List.mem_singleton.mp h]
  · cases h

theorem inputEntries_status {r : RpInfo} (h : r ∈ inputEntries s) : r.status = s.info.status := by
  rcases List.mem_append.mp h with h | h
  · obtain ⟨u, -, rfl⟩ := List.mem_map.mp h
    rfl
  · rw [restEntries_status h]
    unfold restInfo
    split <;> rfl

theorem restEntries_eq_nil {kind : ItemTag} {i : RpInfo} :
    restEntries kind i = [] ↔ i.reportCount = 0 := by
  unfold restEntries
  split
  · rename_i h
    refine iff_of_false (List.cons_ne_nil _ _) fun h0 => ?_
    rw [h0] at h
    exact absurd h (by decide)
  · rename_i h
    exact iff_of_true rfl (BitVec.eq_of_toNat_eq (Nat.eq_zero_of_not_pos h))

theorem inputEntries_eq_nil :
    inputEntries s = [] ↔ s.dataUsages = [] ∧ s.info.reportCount = 0 := by
  rw [inputEntries, List.append_eq_nil_iff, List.map_eq_nil_iff, restEntries_eq_nil]
  refine and_congr_right fun h => ?_
  rw [restInfo, if_pos h]

/-! ## Flags -/

/-- The flags of a main item are taken as they are: its data lie in the two bytes read, it is
not both constant and variable, and of the flags that earlier main items have left it has
them all. -/
structure StatusTaken (old : MainStatus) (i : Item) (r₀ r₁ : BitVec 8) : Prop where
  read : ∀ k < 8, r₀.getLsbD k = i.value.testBit k
  readNext : r₁.getLsbD 0 = i.value.testBit 8
  one : ¬ (i.flags.constant = true ∧ i.flags.variable_ = true)
  constant : old.constant = true → i.flags.constant = true ∨ i.flags.variable_ = true
  variable_ : old.variable_ = true → i.flags.constant = true ∨ i.flags.variable_ = true
  relative : old.relative = true → i.flags.relative = true
  wrap : old.wrap = true → i.flags.wrap = true
  nonLinear : old.nonLinear = true → i.flags.nonLinear = true
  noPreferred : old.noPreferred = true → i.flags.noPreferred = true
  nullState : old.nullState = true → i.flags.nullState = true
  isVolatile : old.isVolatile = true → i.flags.isVolatile = true
  bufferedBytes : old.bufferedBytes = true → i.flags.bufferedBytes = true

/-- What the status has become, flag by flag. -/
theorem readMainItemStatus_eq (b : Buf) (p : Nat) (s : MainStatus) :
    readMainItemStatus b p s =
      { constant := !(b p).getLsbD 1 && ((b p).getLsbD 0 || s.constant)
        variable_ := (b p).getLsbD 1 || (!(b p).getLsbD 0 && s.variable_)
        relative := (b p).getLsbD 2 || s.relative
        wrap := (b p).getLsbD 3 || s.wrap
        nonLinear := (b p).getLsbD 4 || s.nonLinear
        noPreferred := (b p).getLsbD 5 || s.noPreferred
        nullState := (b p).getLsbD 6 || s.nullState
        isVolatile := (b p).getLsbD 7 || s.isVolatile
        bufferedBytes := (b (p + 1)).getLsbD 0 || s.bufferedBytes } := by
  unfold readMainItemStatus
  generalize (b p).getLsbD 0 = c₀
  generalize (b p).getLsbD 1 = c₁
  generalize (b p).getLsbD 2 = c₂
  generalize (b p).getLsbD 3 = c₃
  generalize (b p).getLsbD 4 = c₄
  generalize (b p).getLsbD 5 = c₅
  generalize (b p).getLsbD 6 = c₆
  generalize (b p).getLsbD 7 = c₇
  generalize (b (p + 1)).getLsbD 0 = c₈
  obtain ⟨a₀, a₁, a₂, a₃, a₄, a₅, a₆, a₇, a₈⟩ := s
  rw [MainStatus.mk.injEq]
  refine ⟨?_, ?_, ?_, ?_, ?_, ?_, ?_, ?_, ?_⟩
  all_goals simp only [apply_ite MainStatus.constant, apply_ite MainStatus.variable_,
    apply_ite MainStatus.relative, apply_ite MainStatus.wrap, apply_ite MainStatus.nonLinear,
    apply_ite MainStatus.noPreferred, apply_ite MainStatus.nullState,
    apply_ite MainStatus.isVolatile, apply_ite MainStatus.bufferedBytes, ite_self]
  · cases c₁ <;> cases c₀ <;> rfl
  · cases c₁ <;> cases c₀ <;> rfl
  · cases c₂ <;> rfl
  · cases c₃ <;> rfl
  · cases c₄ <;> rfl
  · cases c₅ <;> rfl
  · cases c₆ <;> rfl
  · cases c₇ <;> rfl
  · cases c₈ <;> rfl

theorem leValue_testBit (x : BitVec 8) (xs : List (BitVec 8)) (k : Nat) :
    (leValue (x :: xs)).testBit k = if k < 8 then x.getLsbD k else (leValue xs).testBit (k - 8) := by
  rw [leValue, Nat.add_comm, show (256 : Nat) = 2 ^ 8 from rfl,
    Nat.testBit_two_pow_mul_add _ x.isLt]
  rfl

/-- The two bytes read are those of the data, as far as there are any. -/
theorem read_of_main {i : Item} (rest : Buf) (hk : i.kind ≠ .unknown) :
    ((∀ k < 8, (i.buff rest 1).getLsbD k = i.value.testBit k) ∨ ∀ k, i.value.testBit k = false) ∧
      ((i.buff rest 2).getLsbD 0 = i.value.testBit 8 ∨ i.value.testBit 8 = false) := by
  cases i with
  | long head tag data htag hlen => exact absurd rfl hk
  | short head data htag hlen =>
    show ((∀ k < 8, (ahead (head :: data) rest 1).getLsbD k = (leValue data).testBit k) ∨
      ∀ k, (leValue data).testBit k = false) ∧
      ((ahead (head :: data) rest 2).getLsbD 0 = (leValue data).testBit 8 ∨
        (leValue data).testBit 8 = false)
    rw [ahead_succ, ahead_succ]
    cases data with
    | nil => exact ⟨.inr Nat.zero_testBit, .inr (Nat.zero_testBit 8)⟩
    | cons x xs =>
      refine ⟨.inl fun k hk => ?_, ?_⟩
      · rw [leValue_testBit, if_pos hk, ahead_zero]
      · rw [leValue_testBit, if_neg (by omega), ahead_succ]
        cases xs with
        | nil => exact .inr (Nat.zero_testBit 0)
        | cons y ys => exact .inl (by rw [leValue_testBit, if_pos (by omega), ahead_zero])

theorem or_eq_iff (a o v : Bool) (h : a = v ∨ v = false) :
    (a || o) = v ↔ a = v ∧ (o = true → v = true) := by
  revert a o v
  decide

theorem constant_variable_iff (a₀ a₁ o₀ o₁ v₀ v₁ : Bool)
    (h : (a₀ = v₀ ∧ a₁ = v₁) ∨ (v₀ = false ∧ v₁ = false)) :
    (!a₁ && (a₀ || o₀)) = v₀ ∧ (a₁ || (!a₀ && o₁)) = v₁ ↔
      (a₀ = v₀ ∧ a₁ = v₁) ∧ ¬ (v₀ = true ∧ v₁ = true) ∧ (o₀ = true → v₀ = true ∨ v₁ = true) ∧
        (o₁ = true → v₀ = true ∨ v₁ = true) := by
  revert a₀ a₁ o₀ o₁ v₀ v₁
  decide

/-- The status becomes the flags of the item exactly when they are taken as they are. -/
theorem readStatus_iff {i : Item} (rest : Buf) (old : MainStatus) (hk : i.kind ≠ .unknown) :
    readMainItemStatus (i.buff rest) 1 old = i.flags ↔
      StatusTaken old i (i.buff rest 1) (i.buff rest 2) := by
  obtain ⟨hr, hr'⟩ := read_of_main rest hk
  have hbit : ∀ k < 8, (i.buff rest 1).getLsbD k = i.value.testBit k ∨ i.value.testBit k = false :=
    fun k hlt => hr.imp (fun h => h k hlt) (fun h => h k)
  have hpair : ((i.buff rest 1).getLsbD 0 = i.value.testBit 0 ∧
      (i.buff rest 1).getLsbD 1 = i.value.testBit 1) ∨
      (i.value.testBit 0 = false ∧ i.value.testBit 1 = false) :=
    hr.imp (fun h => ⟨h 0 (by omega), h 1 (by omega)⟩) (fun h => ⟨h 0, h 1⟩)
  rw [readMainItemStatus_eq, Item.flags, MainStatus.mk.injEq, ← and_assoc,
    constant_variable_iff _ _ _ _ _ _ hpair, or_eq_iff _ _ _ (hbit 2 (by omega)),
    or_eq_iff _ _ _ (hbit 3 (by omega)), or_eq_iff _ _ _ (hbit 4 (by omega)),
    or_eq_iff _ _ _ (hbit 5 (by omega)), or_eq_iff _ _ _ (hbit 6 (by omega)),
    or_eq_iff _ _ _ (hbit 7 (by omega)), or_eq_iff _ _ _ hr']
  constructor
  · rintro ⟨⟨⟨h0, h1⟩, hone, hc, hv⟩, ⟨h2, o2⟩, ⟨h3, o3⟩, ⟨h4, o4⟩, ⟨h5, o5⟩, ⟨h6, o6⟩,
      ⟨h7, o7⟩, h8, o8⟩
    refine ⟨fun k hlt => ?_, h8, hone, hc, hv, o2, o3, o4, o5, o6, o7, o8⟩
    match k, hlt with
    | 0, _ => exact h0
    | 1, _ => exact h1
    | 2, _ => exact h2
    | 3, _ => exact h3
    | 4, _ => exact h4
    | 5, _ => exact h5
    | 6, _ => exact h6
    | 7, _ => exact h7
  · intro h
    exact ⟨⟨⟨h.read 0 (by omega), h.read 1 (by omega)⟩, h.one, h.constant, h.variable_⟩,
      ⟨h.read 2 (by omega), h.relative⟩, ⟨h.read 3 (by omega), h.wrap⟩,
      ⟨h.read 4 (by omega), h.nonLinear⟩, ⟨h.read 5 (by omega), h.noPreferred⟩,
      ⟨h.read 6 (by omega), h.nullState⟩, ⟨h.read 7 (by omega), h.isVolatile⟩,
      h.readNext, h.bufferedBytes⟩

/-! ## Runs -/

/-- The parser beside what the items mean so far. -/
structure Parsing where
  parser : Parser
  meaning : Meaning
  /-- the entries with the flags of the items that produced them -/
  made : List (RpInfo × MainStatus)
  /-- a usage was stored behind `_data_usages` -/
  overrun : Bool

namespace Parsing

def start : Parsing := ⟨⟨.zero, [], false, []⟩, .start, [], false⟩

/-- Behind an item that leaves the parser as `t`. -/
def take (st : Parsing) (i : Item) (t : Parser) : Parsing where
  parser := t
  meaning := st.meaning.step i
  made := st.made ++ (t.report.drop st.parser.report.length).map fun r => (r, i.flags)
  overrun := false

/-- One item with the memory behind it. An item whose report gets no memory ends the run, as
`hid_parse_report_descriptor` ends there. -/
def step (mem : Nat → Bool) (st : Parsing) (e : Item × Buf) : Option Parsing :=
  if st.overrun then none
  else
    match hidParseItem mem (e.1.buff e.2) 0 st.parser with
    | .error _ => some { st with overrun := true }
    | .ok (size, t) => if size ≤ 0 then none else some (st.take e.1 t)

/-- The list is faithful to the items. -/
structure Faithful (st : Parsing) : Prop where
  fits : st.overrun = false
  bits : ∀ kind id, reportBits st.parser.report kind id = st.meaning.bits kind id
  flags : ∀ x ∈ st.made, x.1.status = x.2

/-- The next main item assigns what the globals of the parser say of `n` fields. -/
def BitsAgree (st : Parsing) (n : Nat) : Prop :=
  st.parser.info.reportSize.toNat * n =
      st.meaning.globals.reportSize * st.meaning.globals.reportCount ∧
    (st.parser.info.reportSize.toNat * n ≠ 0 →
      st.parser.info.reportId.toNat = st.meaning.globals.reportId)

/-- The main item takes its own flags. -/
def FlagsAgree (st : Parsing) (e : Item × Buf) : Prop :=
  StatusTaken st.parser.info.status e.1 (e.1.buff e.2 1) (e.1.buff e.2 2)

/-- The next item adds what it means: an input or output item finds the globals as they should
be, and its flags are its own if it adds entries at all; a usage finds a place. -/
def Agrees (st : Parsing) (e : Item × Buf) : Prop :=
  match e.1.kind with
  | .input =>
    st.BitsAgree (fieldCount st.parser) ∧
      (¬ (st.parser.dataUsages = [] ∧ st.parser.info.reportCount = 0) → st.FlagsAgree e)
  | .output =>
    st.BitsAgree st.parser.info.reportCount.toNat ∧
      (¬ st.parser.info.reportCount = 0 → st.FlagsAgree e)
  | .usage =>
    isDataUsage (e.1.buff e.2 1) = true → st.parser.dataUsages.length < maxDataUsages
  | _ => True

/-- The usages have places, and every entry is known with the flags of its item. -/
structure Tracks (st : Parsing) : Prop where
  usages : st.parser.dataUsages.length ≤ maxDataUsages
  made : st.made.map Prod.fst = st.parser.report

/-- What one item does. -/
inductive Stepped (st : Parsing) (e : Item × Buf) : Parsing → Prop
  | overrun (hk : e.1.kind = .usage) (hd : isDataUsage (e.1.buff e.2 1) = true)
      (hf : maxDataUsages ≤ st.parser.dataUsages.length) : Stepped st e { st with overrun := true }
  | input {t : Parser} (hk : e.1.kind = .input)
      (ht : t.report = st.parser.report ++ inputEntries (st.parser.readStatus (e.1.buff e.2) 0)) :
      Stepped st e (st.take e.1 t)
  | output {t : Parser} (hk : e.1.kind = .output)
      (ht : t.report = st.parser.report ++
        restEntries .output (st.parser.readStatus (e.1.buff e.2) 0).info) :
      Stepped st e (st.take e.1 t)
  | other {t : Parser} (hi : e.1.kind ≠ .input) (ho : e.1.kind ≠ .output)
      (ht : t.report = st.parser.report)
      (hu : e.1.kind = .usage → isDataUsage (e.1.buff e.2 1) = true →
        st.parser.dataUsages.length < maxDataUsages) : Stepped st e (st.take e.1 t)

theorem itemRet_ok {size : Int} {r : Except Parser Parser} (h : itemRet n r = (size, t))
    (hs : ¬ size ≤ 0) : r = .ok t := by
  cases r with
  | ok u =>
    obtain ⟨-, rfl⟩ := Prod.mk.inj h
    rfl
  | error u =>
    obtain ⟨rfl, -⟩ := Prod.mk.inj h
    exact absurd (by decide) hs

/-- An item that does not touch the list. -/
theorem Stepped.of_other {st st' : Parsing} {e : Item × Buf} {size : Int}
    (h : (if size ≤ 0 then none else some (st.take e.1 t)) = some st') (hi : e.1.kind ≠ .input)
    (ho : e.1.kind ≠ .output) (ht : t.report = st.parser.report)
    (hu : e.1.kind = .usage → isDataUsage (e.1.buff e.2 1) = true →
      st.parser.dataUsages.length < maxDataUsages) : Stepped st e st' := by
  split at h
  · cases h
  · obtain rfl := Option.some.inj h
    exact .other hi ho ht hu

theorem step_stepped {st st' : Parsing} {e : Item × Buf} (h : step mem st e = some st') :
    Stepped st e st' := by
  unfold step at h
  split at h
  · cases h
  generalize hp : hidParseItem mem (e.1.buff e.2) 0 st.parser = r at h
  unfold hidParseItem at hp
  rw [Item.itemTag_buff] at hp
  dsimp only at hp
  split at hp
  · rename_i hk
    subst hp
    generalize hq : itemRet _ (parseInput mem (st.parser.readStatus (e.1.buff e.2) 0)) = q at h
    obtain ⟨size, t⟩ := q
    dsimp only at h
    split at h
    · cases h
    · rename_i hs
      obtain rfl := Option.some.inj h
      exact .input hk (parseInput_ok (itemRet_ok hq hs))
  · rename_i hk
    subst hp
    generalize hq : itemRet _ (addRest mem .output (st.parser.readStatus (e.1.buff e.2) 0)) = q at h
    obtain ⟨size, t⟩ := q
    dsimp only at h
    split at h
    · cases h
    · rename_i hs
      obtain rfl := Option.some.inj h
      exact .output hk (addRest_ok (itemRet_ok hq hs)).1
  · rename_i hk
    subst hp
    exact .of_other h (by rw [hk]; decide) (by rw [hk]; decide) rfl
      fun hu => absurd hu (by rw [hk]; decide)
  · rename_i hk
    split at hp
    · rename_i hd
      split at hp
      · rename_i hlt
        subst hp
        exact .of_other h (by rw [hk]; decide) (by rw [hk]; decide) rfl fun _ _ => hlt
      · rename_i hf
        subst hp
        obtain rfl := Option.some.inj h
        exact .overrun hk hd (Nat.not_lt.mp hf)
    · rename_i hd
      subst hp
      exact .of_other h (by rw [hk]; decide) (by rw [hk]; decide) rfl fun _ h => absurd h hd
  · rename_i hk
    subst hp
    exact .of_other h (by rw [hk]; decide) (by rw [hk]; decide) rfl
      fun hu => absurd hu (by rw [hk]; decide)
  · rename_i hi ho _ hu _
    subst hp
    exact .of_other h hi ho rfl fun h => absurd h hu

/-- The entries of an item are behind those of the list. -/
theorem take_made {st : Parsing} {i : Item} {es : List RpInfo}
    (ht : t.report = st.parser.report ++ es) :
    (st.take i t).made = st.made ++ es.map fun r => (r, i.flags) := by
  unfold take
  dsimp only
  rw [ht, List.drop_left]

theorem take_flags {st : Parsing} {i : Item} {es : List RpInfo}
    (ht : t.report = st.parser.report ++ es) (hf : ∀ x ∈ st.made, x.1.status = x.2) :
    (∀ x ∈ (st.take i t).made, x.1.status = x.2) ↔ ∀ r ∈ es, r.status = i.flags := by
  rw [take_made ht]
  constructor
  · intro h r hr
    exact h (r, i.flags) (List.mem_append_right _ (List.mem_map_of_mem hr))
  · intro h x hx
    rcases List.mem_append.mp hx with hx | hx
    · exact hf x hx
    · obtain ⟨r, hr, rfl⟩ := List.mem_map.mp hx
      exact h r hr

/-- Two assignments agree for every report. -/
theorem assign_eq_iff (kind : ItemTag) {x y A B : Nat} :
    (∀ k id, (if kind = k ∧ x = id then A else 0) = if kind = k ∧ y = id then B else 0) ↔
      A = B ∧ (A ≠ 0 → x = y) := by
  constructor
  · intro h
    have hx := h kind x
    have hy := h kind y
    rw [if_pos ⟨rfl, rfl⟩] at hx
    rw [if_pos (show kind = kind ∧ y = y from ⟨rfl, rfl⟩)] at hy
    by_cases hxy : x = y
    · subst hxy
      rw [if_pos ⟨rfl, rfl⟩] at hx
      exact ⟨hx, fun _ => rfl⟩
    · rw [if_neg fun h => hxy h.2.symm] at hx
      rw [if_neg fun h => hxy h.2] at hy
      exact ⟨hx.trans hy, fun h => absurd hx h⟩
  · rintro ⟨rfl, hxy⟩ k id
    by_cases hA : A = 0
    · rw [hA, ite_self, ite_self]
    · rw [hxy hA]

/-- The list is faithful behind a main item that adds `es`, of `n` fields with one status,
exactly when the bits agree and the status, if an entry has it, is the item's. -/
theorem take_faithful_iff {st : Parsing} {e : Item × Buf} {es : List RpInfo} {kind : ItemTag}
    (hf : st.Faithful) (hm : st.meaning.step e.1 = st.meaning.assign kind)
    (ht : t.report = st.parser.report ++ es)
    (hb : ∀ k id, reportBits es k id = if kind = k ∧ st.parser.info.reportId.toNat = id then
      st.parser.info.reportSize.toNat * n else 0)
    (hs : ∀ r ∈ es, r.status = readMainItemStatus (e.1.buff e.2) 1 st.parser.info.status)
    (hk : e.1.kind ≠ .unknown) :
    (st.take e.1 t).Faithful ↔ st.BitsAgree n ∧ (es ≠ [] → st.FlagsAgree e) := by
  have hbits : (∀ k id, reportBits (st.take e.1 t).parser.report k id =
      (st.take e.1 t).meaning.bits k id) ↔ st.BitsAgree n := by
    refine Iff.trans (forall_congr' fun k => forall_congr' fun id => ?_) (assign_eq_iff kind)
    show reportBits t.report k id = (st.meaning.step e.1).bits k id ↔ _
    rw [ht, hm, reportBits_append, Meaning.bits_assign, hf.bits, hb]
    exact Nat.add_left_cancel_iff
  have hflags : (∀ r ∈ es, r.status = e.1.flags) ↔ (es ≠ [] → st.FlagsAgree e) := by
    rw [FlagsAgree, ← readStatus_iff e.2 _ hk]
    constructor
    · intro h hne
      obtain ⟨r, hr⟩ := List.exists_mem_of_ne_nil es hne
      rw [← hs r hr]
      exact h r hr
    · intro h r hr
      rw [hs r hr]
      exact h (List.ne_nil_of_mem hr)
  rw [← hbits, ← hflags, ← take_flags ht hf.flags]
  exact ⟨fun h => ⟨h.bits, h.flags⟩, fun h => ⟨rfl, h.1, h.2⟩⟩

theorem start_tracks : start.Tracks := ⟨Nat.zero_le _, rfl⟩

theorem start_faithful : start.Faithful where
  fits := rfl
  bits := fun _ _ => rfl
  flags := fun _ hx => absurd hx List.not_mem_nil

theorem step_usages {st st' : Parsing} {e : Item × Buf} (h : step mem st e = some st')
    (hu : st.parser.dataUsages.length ≤ maxDataUsages) :
    st'.parser.dataUsages.length ≤ maxDataUsages := by
  have hd := hidParseItem_done mem (e.1.buff e.2) 0 st.parser
  unfold step at h
  split at h
  · cases h
  generalize hidParseItem mem (e.1.buff e.2) 0 st.parser = r at h hd
  cases hd with
  | full _ _ =>
    obtain rfl := Option.some.inj h
    exact hu
  | @next t ha ht =>
    dsimp only at h
    split at h
    · cases h
    · obtain rfl := Option.some.inj h
      show t.dataUsages.length ≤ maxDataUsages
      rw [ht]
      unfold usagesAfter
      split
      · rename_i h
        exact ha h
      · split
        · exact Nat.zero_le _
        · exact hu
  | memory _ _ =>
    dsimp only at h
    rw [if_pos (by decide)] at h
    cases h

theorem Stepped.made {st st' : Parsing} {e : Item × Buf} (h : Stepped st e st')
    (hm : st.made.map Prod.fst = st.parser.report) : st'.made.map Prod.fst = st'.parser.report := by
  have htake : ∀ {t : Parser} {es : List RpInfo}, t.report = st.parser.report ++ es →
      (st.take e.1 t).made.map Prod.fst = t.report := by
    intro t es ht
    have hes : (es.map fun r => (r, e.1.flags)).map Prod.fst = es := by
      rw [List.map_map]
      exact List.map_id _
    rw [take_made ht, List.map_append, hm, hes, ht]
  cases h with
  | overrun _ _ _ => exact hm
  | input _ ht => exact htake ht
  | output _ ht => exact htake ht
  | other _ _ ht _ => exact htake (ht.trans (List.append_nil _).symm)

theorem step_tracks (st : Parsing) (e : Item × Buf) (st' : Parsing) (hs : st.Tracks)
    (h : step mem st e = some st') : st'.Tracks :=
  ⟨step_usages h hs.usages, (step_stepped h).made hs.made⟩

/-- One item keeps the list faithful exactly when it adds what it means. -/
theorem step_faithful_iff (st : Parsing) (e : Item × Buf) (st' : Parsing) (hs : st.Tracks)
    (hf : st.Faithful) (h : step mem st e = some st') : st'.Faithful ↔ st.Agrees e := by
  cases step_stepped h with
  | overrun hk hd hfull =>
    refine iff_of_false (fun h => Bool.noConfusion h.fits) fun h => ?_
    unfold Agrees at h
    rw [hk] at h
    exact absurd (h hd) (Nat.not_lt.mpr hfull)
  | @input t hk ht =>
    have hm : st.meaning.step e.1 = st.meaning.assign .input := by rw [Meaning.step, hk]
    rw [take_faithful_iff hf hm ht (reportBits_input hs.usages) (fun r hr => inputEntries_status hr)
      (by rw [hk]; decide), Agrees, hk, Ne, inputEntries_eq_nil]
    rfl
  | @output t hk ht =>
    have hm : st.meaning.step e.1 = st.meaning.assign .output := by rw [Meaning.step, hk]
    rw [take_faithful_iff hf hm ht (reportBits_rest .output _) (fun r hr => restEntries_status hr)
      (by rw [hk]; decide), Agrees, hk, Ne, restEntries_eq_nil]
    rfl
  | @other t hi ho ht hu =>
    refine iff_of_true ⟨rfl, fun kind id => ?_, ?_⟩ ?_
    · show reportBits t.report kind id = (st.meaning.step e.1).bits kind id
      rw [ht, hf.bits, Meaning.bits, Meaning.bits, Meaning.step_assigned hi ho]
    · rw [take_flags (ht.trans (List.append_nil _).symm) hf.flags]
      exact fun r hr => absurd hr List.not_mem_nil
    · unfold Agrees
      split
      · rename_i hk
        exact absurd hk hi
      · rename_i hk
        exact absurd hk ho
      · rename_i hk
        exact hu hk
      · trivial

/-- The list that is built from a report descriptor is faithful behind each of its items
exactly when each input and output item finds the globals and flags as they should be and each
usage finds a place. -/
theorem descriptor_faithful_iff (mem : Nat → Bool) (tail : Buf) (items : List Item) :
    Trace.Always (step mem) Faithful start (descriptor tail items) ↔
      Trace.EachStep (step mem) Agrees start (descriptor tail items) :=
  Trace.always_iff_eachStep step_tracks step_faithful_iff start_tracks start_faithful

/-- Every entry of the list is known with the flags of its item. -/
theorem descriptor_tracks (mem : Nat → Bool) (tail : Buf) (items : List Item) :
    Trace.Always (step mem) Tracks start (descriptor tail items) :=
  Trace.always_of_step step_tracks start_tracks

/-- Report Size 8, Report Count 2, Usage (X), Usage (Y), Input (Data, Variable, Absolute), and a
second input item of the same size and count. -/
def reused : List Item :=
  [.short 0x75#8 [8#8] (by decide) (by decide), .short 0x95#8 [2#8] (by decide) (by decide),
    .short 0x09#8 [0x30#8] (by decide) (by decide), .short 0x09#8 [0x31#8] (by decide) (by decide),
    .short 0x82#8 [2#8, 0#8] (by decide) (by decide),
    .short 0x82#8 [2#8, 0#8] (by decide) (by decide)]

/-- The two usages leave no count for the second input item. -/
theorem not_always_faithful : ¬ ∀ mem tail items,
    Trace.Always (step mem) Faithful start (descriptor tail items) := by
  intro h
  have hrun : ∃ st, Trace.run (step fun _ => true) start (descriptor (fun _ => 0#8) reused) = some st ∧
      reportBits st.parser.report .input 0 = 16 ∧ st.meaning.bits .input 0 = 32 :=
    ⟨_, rfl, by decide, by decide⟩
  obtain ⟨st, hr, hreport, hmeaning⟩ := hrun
  have hbits := ((h _ _ reused).last hr).bits .input 0
  rw [hreport, hmeaning] at hbits
  exact absurd hbits (by decide)

end Parsing

/-! ## The loop over the items -/

theorem hidParseItem_shift (b : Buf) (p : Nat) (s : Parser) :
    hidParseItem mem b p s = hidParseItem mem (fun i => b (p + i)) 0 s := by
  rfl

/-- A loop that gets through the items has made the run. -/
theorem parseItems_run {b : Buf} {p : Nat} {tail : Buf} {items : List Item} {st : Parsing}
    (hb : ∀ i, b (p + i) = ahead (encode items) tail i) (ho : st.overrun = false)
    (h : parseItems mem b n p (encode items).length st.parser = .ok (0, t)) :
    ∃ st', Trace.run (Parsing.step mem) st (descriptor tail items) = some st' ∧ st'.parser = t ∧
      st'.meaning = items.foldl Meaning.step st.meaning := by
  induction items generalizing st n p with
  | nil =>
    cases n with
    | zero => cases h
    | succ n =>
      rw [parseItems, if_pos (show ((encode []).length : Int) ≤ 0 from Int.le_refl 0)] at h
      obtain ⟨-, rfl⟩ := Prod.mk.inj (Except.ok.inj h)
      exact ⟨st, rfl, rfl, rfl⟩
  | cons i is ih =>
    have hlen : (encode (i :: is)).length = i.bytes.length + (encode is).length := by
      rw [encode, List.flatMap_cons, List.length_append]
      rfl
    have hmem : (fun j => b (p + j)) = i.buff (ahead (encode is) tail) := by
      funext j
      rw [hb, encode, List.flatMap_cons, ahead_append]
      rfl
    cases n with
    | zero => cases h
    | succ n =>
      rw [parseItems] at h
      split at h
      · rename_i h0
        have hpos := itemLen_pos (i.buff tail) 0
        rw [Item.itemLen_buff] at hpos
        omega
      split at h
      · cases h
      obtain ⟨⟨size, u⟩, hi, h⟩ := bind_ok.mp h
      dsimp only at h
      split at h
      · cases h
      rename_i hsize
      rw [hidParseItem_shift, hmem] at hi
      have hstep : Parsing.step mem st (i, ahead (encode is) tail) = some (st.take i u) := by
        rw [Parsing.step, ho, hi]
        exact if_neg hsize
      have hs : size = i.bytes.length := by
        have hd := hidParseItem_done mem (i.buff (ahead (encode is) tail)) 0 st.parser
        rw [hi] at hd
        cases hd with
        | next _ _ => rw [Item.itemLen_buff]
        | memory _ _ => exact absurd (by decide) hsize
      have hrest : ((encode (i :: is)).length : Int) - size = (encode is).length := by omega
      have hoff : p + size.toNat = p + i.bytes.length := by omega
      rw [hrest, hoff] at h
      have hb' : ∀ j, b (p + i.bytes.length + j) = ahead (encode is) tail j := fun j => by
        rw [Nat.add_assoc, hb, encode, List.flatMap_cons, ahead_append, ahead_behind]
        rfl
      obtain ⟨st', hr, ht, hm⟩ := ih hb' (show (st.take i u).overrun = false from rfl) h
      refine ⟨st', ?_, ht, hm⟩
      rw [descriptor, Trace.run, hstep]
      exact hr

/-- The list of a descriptor that has been parsed has the bits the items assign, if every item
has found what it needs. -/
theorem parseItems_faithful {items : List Item} {tail : Buf}
    (h : parseItems mem (ahead (encode items) tail) n 0 (encode items).length
      Parsing.start.parser = .ok (0, t))
    (hc : Trace.EachStep (Parsing.step mem) Parsing.Agrees Parsing.start (descriptor tail items))
    (kind : ItemTag) (id : Nat) :
    reportBits t.report kind id = (items.foldl Meaning.step .start).bits kind id := by
  obtain ⟨st, hr, rfl, hm⟩ := parseItems_run (fun i => by rw [Nat.zero_add]) rfl h
  have hf := ((Trace.always_iff_eachStep Parsing.step_tracks Parsing.step_faithful_iff
    Parsing.start_tracks Parsing.start_faithful).mpr hc).last hr
  rw [hf.bits, hm]
  rfl

/-- Report Size 8, Report Count 2 and Input (Data, Variable, Absolute) -/
def twoBytes : List Item :=
  [.short 0x75#8 [8#8] (by decide) (by decide), .short 0x95#8 [2#8] (by decide) (by decide),
    .short 0x82#8 [2#8, 0#8] (by decide) (by decide)]

theorem parseItems_faithful_twoBytes : ∃ t,
    parseItems (fun _ => true) (ahead (encode twoBytes) fun _ => 0#8) 4 0
      (encode twoBytes).length Parsing.start.parser = .ok (0, t) ∧
    ∀ kind id, reportBits t.report kind id = (twoBytes.foldl Meaning.step .start).bits kind id := by
  have hparse : ∃ t, parseItems (fun _ => true) (ahead (encode twoBytes) fun _ => 0#8) 4 0
      (encode twoBytes).length Parsing.start.parser = .ok (0, t) := ⟨_, rfl⟩
  obtain ⟨t, ht⟩ := hparse
  refine ⟨t, ht, parseItems_faithful ht ?_⟩
  intro s₁ h₁
  obtain rfl := Option.some.inj h₁
  refine ⟨trivial, fun s₂ h₂ => ?_⟩
  obtain rfl := Option.some.inj h₂
  refine ⟨trivial, fun s₃ h₃ => ⟨⟨⟨by decide, by decide⟩, fun _ => ?_⟩, trivial⟩⟩
  constructor
  all_goals decide

end Ma35d1.UsbHost.Hid

import Ma35d1.UsbHost.Hid.Parser

/-!
# Which descriptors are parsed without a stray read

The searches stay within `wTotalLength` where the descriptors they skip do, and the items
stay within what was received where each of them fits and no more usages wait for an input
than there are entries.
-/

namespace Ma35d1.UsbHost.Hid

open Ma35d1.UsbHost.Core

variable {b : Buf} {w p n m len : Nat} {mem : Nat → Bool}

/-! ## Searches -/

theorem bind_ok {α β : Type} {x : Except Fault α} {f : α → Except Fault β} {r : β} :
    (x >>= f) = .ok r ↔ ∃ a, x = .ok a ∧ f a = .ok r := by
  cases x with
  | error e => exact iff_of_false (fun h => (by cases h)) (fun ⟨_, h, _⟩ => (by cases h))
  | ok a => exact ⟨fun h => ⟨a, rfl, h⟩, fun ⟨_, ha, h⟩ => by cases ha; exact h⟩

theorem ok_bind {α β : Type} (a : α) (f : α → Except Fault β) : (Except.ok a >>= f) = f a := rfl

theorem rd_of_lt (h : p < w) : rd b w p = .ok (b p) := if_pos h

theorem rd_of_le (h : w ≤ p) : rd b w p = .error .config := if_neg (Nat.not_lt.mpr h)

theorem rd_ok {v : BitVec 8} (h : rd b w p = .ok v) : p < w ∧ v = b p := by
  unfold rd at h
  split at h
  · rename_i hp
    exact ⟨hp, (Except.ok.inj h).symm⟩
  · cases h

/-- What a search looks for: `test` on a whole descriptor, and no look behind the end. -/
structure Tests (b : Buf) (w : Nat) (hit : Nat → Except Fault Bool) (test : Nat → Bool) : Prop where
  within : ∀ p, p + sizeofDesc ≤ w → hit p = .ok (test p)
  behind : ∀ p, w < p → hit p = .error .config

def ifaceAt (b : Buf) (ifNum : BitVec 8) (p : Nat) : Bool :=
  bDescriptorType b p = usbDtInterface ∧ bInterfaceNumber b p = ifNum ∧ b (p + 5) = usbClassHid

def hidDescAt (b : Buf) (p : Nat) : Bool :=
  bDescriptorType b p = hidDescriptorType ∧ b (p + 6) = reportDescriptorType

theorem isHidIface_tests (ifNum : BitVec 8) : Tests b w (isHidIface b w ifNum) (ifaceAt b ifNum) where
  within := by
    intro p hp
    unfold sizeofDesc at hp
    unfold isHidIface ifaceAt bDescriptorType bInterfaceNumber
    rw [rd_of_lt (show p + 1 < w by omega), rd_of_lt (show p + 2 < w by omega),
      rd_of_lt (show p + 5 < w by omega)]
    by_cases h1 : b (p + 1) = usbDtInterface
    · by_cases h2 : b (p + 2) = ifNum
      · simp [h1, h2, bind, Except.bind, pure, Except.pure]
      · simp [h1, h2, bind, Except.bind, pure, Except.pure]
    · simp [h1, bind, Except.bind, pure, Except.pure]
  behind := by
    intro p hp
    unfold isHidIface
    rw [rd_of_le (show w ≤ p + 1 by omega)]
    rfl

theorem isHidDesc_tests : Tests b w (isHidDesc b w) (hidDescAt b) where
  within := by
    intro p hp
    unfold sizeofDesc at hp
    unfold isHidDesc hidDescAt bDescriptorType
    rw [rd_of_lt (show p + 1 < w by omega), rd_of_lt (show p + 6 < w by omega)]
    by_cases h1 : b (p + 1) = hidDescriptorType
    · simp [h1, bind, Except.bind, pure, Except.pure]
    · simp [h1, bind, Except.bind, pure, Except.pure]
  behind := by
    intro p hp
    unfold isHidDesc
    rw [rd_of_le (show w ≤ p + 1 by omega)]
    rfl

/-- Skipping from `p` on ends within the `w` bytes: too near their end for a descriptor, at a
zero length, or at the descriptor looked for, of which `k` holds. -/
inductive Leads (b : Buf) (w : Nat) (test : Nat → Bool) (stride : Nat → Nat) (k : Nat → Prop) :
    Nat → Prop
  | short {p : Nat} (hp : p ≤ w) (hs : w < p + sizeofDesc) : Leads b w test stride k p
  | found {p : Nat} (hp : p + sizeofDesc ≤ w) (ht : test p = true) (hk : k p) :
      Leads b w test stride k p
  | zero {p : Nat} (hp : p + sizeofDesc ≤ w) (ht : test p = false) (hz : bLength b p = 0) :
      Leads b w test stride k p
  | skip {p : Nat} (hp : p + sizeofDesc ≤ w) (ht : test p = false) (hz : bLength b p ≠ 0)
      (hl : Leads b w test stride k (p + bLength b (stride p))) : Leads b w test stride k p

section

variable {hit : Nat → Except Fault Bool} {test : Nat → Bool} {z : Int} {stride : Nat → Nat}
  {k : Nat → Prop} {r : Search}

theorem seek_short (hp : p ≤ w) (hs : w < p + sizeofDesc) :
    seek b w hit z stride (n + 1) p (w - p) = .ok (.ret hidRetParsing) := by
  rw [seek, if_pos (by omega)]

theorem seek_behind (ht : Tests b w hit test) (hp : w < p) :
    seek b w hit z stride (n + 1) p (w - p) = .error .config := by
  rw [seek, if_neg (by omega), ht.behind p hp]
  rfl

/-- A round of the loop on a whole descriptor. -/
theorem seek_within (ht : Tests b w hit test) (hs : ∀ p, p + sizeofDesc ≤ w → stride p < w)
    (hp : p + sizeofDesc ≤ w) :
    seek b w hit z stride (n + 1) p (w - p) =
      if test p = true then .ok (.found p (w - p))
      else if bLength b p = 0 then .ok (.ret z)
      else seek b w hit z stride n (p + bLength b (stride p)) (w - (p + bLength b (stride p) : Nat)) := by
  have hlt : p < w := by unfold sizeofDesc at hp; omega
  have hzero : b p = 0 ↔ bLength b p = 0 := by
    unfold bLength
    exact ⟨fun h => by rw [h]; rfl, fun h => BitVec.eq_of_toNat_eq h⟩
  have hsub : (w : Int) - p - bLength b (stride p) = w - (p + bLength b (stride p) : Nat) := by omega
  rw [seek, if_neg (by omega), ht.within p hp, rd_of_lt hlt, rd_of_lt (hs p hp), ← hsub]
  cases test p with
  | true => rfl
  | false =>
    show (if b p = 0 then _ else _) = _
    by_cases h0 : b p = 0
    · rw [if_pos h0, if_neg Bool.false_ne_true, if_pos (hzero.mp h0)]
    · rw [if_neg h0, if_neg Bool.false_ne_true, if_neg fun h => h0 (hzero.mpr h)]
      rfl

/-- More rounds do not change the result. -/
theorem seek_mono (ht : Tests b w hit test) (hs : ∀ p, p + sizeofDesc ≤ w → stride p < w)
    (hnm : n ≤ m) (h : seek b w hit z stride n p (w - p) = .ok r) :
    seek b w hit z stride m p (w - p) = .ok r := by
  induction n generalizing m p with
  | zero => cases h
  | succ n ih =>
    obtain ⟨m, rfl⟩ : ∃ k, m = k + 1 := ⟨m - 1, by omega⟩
    by_cases hlt : w < p
    · rw [seek_behind ht hlt] at h
      cases h
    by_cases hw : p + sizeofDesc ≤ w
    · rw [seek_within ht hs hw] at h ⊢
      split
      · rename_i htp
        rwa [if_pos htp] at h
      · rename_i htp
        rw [if_neg htp] at h
        split
        · rename_i hz
          rwa [if_pos hz] at h
        · rename_i hz
          rw [if_neg hz] at h
          exact ih (by omega) h
    · rw [seek_short (by omega) (by omega)] at h ⊢
      exact h

/-- A search that ends has stayed within the bytes. -/
theorem Leads.of_seek (ht : Tests b w hit test) (hs : ∀ p, p + sizeofDesc ≤ w → stride p < w)
    (h : seek b w hit z stride n p (w - p) = .ok r)
    (hk : ∀ q, q + sizeofDesc ≤ w → r = .found q (w - q) → k q) : Leads b w test stride k p := by
  induction n generalizing p with
  | zero => cases h
  | succ n ih =>
    by_cases hlt : w < p
    · rw [seek_behind ht hlt] at h
      cases h
    by_cases hw : p + sizeofDesc ≤ w
    · rw [seek_within ht hs hw] at h
      cases htp : test p with
      | true =>
        rw [if_pos htp] at h
        exact .found hw htp (hk p hw (Except.ok.inj h).symm)
      | false =>
        rw [if_neg (by rw [htp]; exact Bool.false_ne_true)] at h
        by_cases hz : bLength b p = 0
        · exact .zero hw htp hz
        · rw [if_neg hz] at h
          exact .skip hw htp hz (ih h)
    · exact .short (by omega) (by omega)

/-- A search that stays within the bytes ends. -/
theorem Leads.ends (ht : Tests b w hit test) (hs : ∀ p, p + sizeofDesc ≤ w → stride p < w)
    (h : Leads b w test stride k p) :
    ∃ n r, seek b w hit z stride n p (w - p) = .ok r ∧
      ((∃ e, r = .ret e) ∨ ∃ q, r = .found q (w - q) ∧ q + sizeofDesc ≤ w ∧ k q) := by
  induction h with
  | short hp hsh => exact ⟨1, _, seek_short hp hsh, .inl ⟨_, rfl⟩⟩
  | @found p hp htp hk =>
    exact ⟨1, _, (seek_within ht hs hp).trans (if_pos htp), .inr ⟨p, rfl, hp, hk⟩⟩
  | @zero p hp htp hz =>
    refine ⟨1, .ret z, ?_, .inl ⟨_, rfl⟩⟩
    rw [seek_within ht hs hp, htp, if_neg Bool.false_ne_true, if_pos hz]
  | @skip p hp htp hz _ ih =>
    obtain ⟨n, r, hr, hend⟩ := ih
    refine ⟨n + 1, r, ?_, hend⟩
    rw [seek_within ht hs hp, htp, if_neg Bool.false_ne_true, if_neg hz]
    exact hr

end

/-! ## Items -/

/-- The item is an interested usage. -/
def addsUsage (b : Buf) (p : Nat) : Bool := itemTag b p = .usage ∧ isDataUsage (b (p + 1))

/-- The usages that wait for an input behind the item at `p`. -/
def usagesAfter (b : Buf) (p k : Nat) : Nat :=
  if addsUsage b p then k + 1 else if itemTag b p = .input then 0 else k

/-- A report was short of memory, or the parser goes on with `P`. -/
def Adds (mem : Nat → Bool) (P : Parser → Prop) : Except Parser Parser → Prop
  | .ok t => P t
  | .error _ => ∃ k, mem k = false

theorem Adds.mono {P Q : Parser → Prop} {r : Except Parser Parser} (hPQ : ∀ t, P t → Q t)
    (h : Adds mem P r) : Adds mem Q r := by
  cases r with
  | ok t => exact hPQ t h
  | error t => exact h

theorem hidAddReport_adds (mem : Nat → Bool) (type : ItemTag) (s : Parser) :
    Adds mem (fun t => t = { s with report := s.report ++ [{ s.info with type := type }] })
      (hidAddReport mem type s) := by
  unfold hidAddReport
  split
  · rfl
  · rename_i hm
    exact ⟨_, eq_false_of_ne_true hm⟩

theorem addRest_adds (mem : Nat → Bool) (type : ItemTag) (s : Parser) :
    Adds mem (fun t => t.dataUsages = s.dataUsages) (addRest mem type s) := by
  unfold addRest
  split
  · exact (hidAddReport_adds mem type s).mono fun t ht => by rw [ht]
  · rfl

theorem addUsages_adds (mem : Nat → Bool) (us : List (BitVec 8)) (s : Parser) :
    Adds mem (fun _ => True) (addUsages mem us s) := by
  induction us generalizing s with
  | nil => trivial
  | cons u us ih =>
    have hadd := hidAddReport_adds mem .input
      (s.setInfo { s.info with reportCount := 1, dataUsage := u })
    rw [addUsages]
    generalize hidAddReport mem .input
      (s.setInfo { s.info with reportCount := 1, dataUsage := u }) = r at hadd ⊢
    cases r with
    | ok t => exact ih t
    | error t => exact hadd

theorem splitUsages_adds (mem : Nat → Bool) (s : Parser) :
    Adds mem (fun t => t.dataUsages = []) (splitUsages mem s) := by
  unfold splitUsages
  split
  · rename_i h
    exact h
  · have h := addUsages_adds mem s.dataUsages s
    generalize addUsages mem s.dataUsages s = r at h ⊢
    cases r with
    | ok t => rfl
    | error t => exact h

theorem parseInput_adds (mem : Nat → Bool) (s : Parser) :
    Adds mem (fun t => t.dataUsages = []) (parseInput mem s) := by
  have h := splitUsages_adds mem s
  unfold parseInput
  generalize splitUsages mem s = r at h ⊢
  cases r with
  | ok t => exact (addRest_adds mem .input t).mono fun u hu => hu.trans h
  | error t => exact h

/-- What an item makes of the waiting usages. -/
inductive ItemDone (mem : Nat → Bool) (b : Buf) (p k : Nat) : Except Fault (Int × Parser) → Prop
  /-- there is no entry left for a usage -/
  | full (ha : addsUsage b p = true) (hk : maxDataUsages ≤ k) :
      ItemDone mem b p k (.error .dataUsages)
  | next {t : Parser} (ha : addsUsage b p = true → k < maxDataUsages)
      (ht : t.dataUsages.length = usagesAfter b p k) : ItemDone mem b p k (.ok (itemLen b p, t))
  | memory {t : Parser} (ha : addsUsage b p = false) (hm : ∃ i, mem i = false) :
      ItemDone mem b p k (.ok (usbhErrMemoryOut, t))

theorem ItemDone.of_adds {P : Parser → Prop} {k : Nat} {r : Except Parser Parser}
    (ha : addsUsage b p = false) (h : Adds mem P r)
    (hP : ∀ t, P t → t.dataUsages.length = usagesAfter b p k) :
    ItemDone mem b p k (.ok (itemRet (itemLen b p) r)) := by
  cases r with
  | ok t => exact .next (fun h => absurd h (by rw [ha]; exact Bool.false_ne_true)) (hP t h)
  | error t => exact .memory ha h

theorem hidParseItem_done (mem : Nat → Bool) (b : Buf) (p : Nat) (s : Parser) :
    ItemDone mem b p s.dataUsages.length (hidParseItem mem b p s) := by
  have hother : itemTag b p ≠ .usage → addsUsage b p = false := fun h => by
    simp [addsUsage, h]
  have hkeep : itemTag b p ≠ .usage → itemTag b p ≠ .input →
      usagesAfter b p s.dataUsages.length = s.dataUsages.length := fun hu hi => by
    rw [usagesAfter, if_neg (by rw [hother hu]; exact Bool.false_ne_true), if_neg hi]
  have hsame : itemTag b p ≠ .usage → itemTag b p ≠ .input → ∀ t : Parser,
      t.dataUsages = s.dataUsages →
      ItemDone mem b p s.dataUsages.length (.ok (itemLen b p, t)) := fun hu hi t ht =>
    .next (fun h => absurd h (by rw [hother hu]; exact Bool.false_ne_true))
      (by rw [ht, hkeep hu hi])
  unfold hidParseItem
  dsimp only
  split
  · rename_i hi
    have hu : itemTag b p ≠ .usage := by rw [hi]; decide
    refine .of_adds (hother hu) (parseInput_adds mem (s.readStatus b p)) fun t ht => ?_
    rw [ht, usagesAfter, if_neg (by rw [hother hu]; exact Bool.false_ne_true), if_pos hi]
    rfl
  · rename_i ho
    have hu : itemTag b p ≠ .usage := by rw [ho]; decide
    have hi : itemTag b p ≠ .input := by rw [ho]; decide
    refine .of_adds (hother hu) (addRest_adds mem .output (s.readStatus b p)) fun t ht => ?_
    rw [ht, hkeep hu hi]
    rfl
  · rename_i hf
    exact hsame (by rw [hf]; decide) (by rw [hf]; decide) _ rfl
  · rename_i hu
    have hi : itemTag b p ≠ .input := by rw [hu]; decide
    split
    · rename_i hd
      have ha : addsUsage b p = true := by simp [addsUsage, hu, hd]
      split
      · rename_i hk
        refine .next (fun _ => hk) ?_
        rw [usagesAfter, if_pos ha]
        exact List.length_append
      · rename_i hk
        exact .full ha (Nat.not_lt.mp hk)
    · rename_i hd
      have ha : addsUsage b p = false := by simp [addsUsage, hu, eq_false_of_ne_true hd]
      have ha' : ¬ addsUsage b p = true := by rw [ha]; exact Bool.false_ne_true
      refine .next (fun h => absurd h ha') ?_
      rw [usagesAfter, if_neg ha', if_neg hi]
      rfl
  · rename_i hr
    exact hsame (by rw [hr]; decide) (by rw [hr]; decide) _ rfl
  · rename_i hi _ _ hu _
    exact hsame hu hi _ rfl

/-- The items from `p` on, of `len` received bytes, with `k` usages waiting: each is read
within the bytes, and each usage finds an entry. -/
inductive ItemsFit (b : Buf) (len : Nat) : Nat → Nat → Prop
  | done {k : Nat} : ItemsFit b len len k
  | item {p k : Nat} (hp : p < len) (hr : p + itemReads b p ≤ len)
      (ha : addsUsage b p = true → k < maxDataUsages)
      (hn : ItemsFit b len (p + itemLen b p) (usagesAfter b p k)) : ItemsFit b len p k

theorem itemLen_pos (b : Buf) (p : Nat) : 0 < itemLen b p := by
  unfold itemLen
  split <;> omega

theorem itemLen_le_reads (b : Buf) (p : Nat) : itemLen b p ≤ itemReads b p := Nat.le_max_left ..

/-- A round of the loop, once the item has been parsed. -/
theorem parseItems_succ {s : Parser} (hp : p < len) (hr : p + itemReads b p ≤ len) :
    parseItems mem b (n + 1) p (len - p) s =
      hidParseItem mem b p s >>= fun r =>
        if r.1 ≤ 0 then .ok (hidRetParsing, r.2)
        else parseItems mem b n (p + r.1.toNat) (len - p - r.1) r.2 := by
  rw [parseItems, if_neg (by omega), if_neg (by omega)]

theorem parseItems_end {s : Parser} (hp : len ≤ p) :
    parseItems mem b (n + 1) p (len - p) s = .ok (0, s) := by
  rw [parseItems, if_pos (by omega)]

theorem parseItems_behind {s : Parser} (hp : p < len) (hr : len < p + itemReads b p) :
    parseItems mem b (n + 1) p (len - p) s = .error .report := by
  rw [parseItems, if_neg (by omega), if_pos (by omega)]

/-- The next round after an item of its own length. -/
theorem parseItems_next {s t : Parser} (hp : p < len) (hr : p + itemReads b p ≤ len)
    (h : hidParseItem mem b p s = .ok (itemLen b p, t)) :
    parseItems mem b (n + 1) p (len - p) s =
      parseItems mem b n (p + itemLen b p) (len - (p + itemLen b p : Nat)) t := by
  have hpos := itemLen_pos b p
  have hsub : (len : Int) - p - itemLen b p = len - (p + itemLen b p : Nat) := by omega
  rw [parseItems_succ hp hr, h, ← hsub]
  show (if (itemLen b p : Int) ≤ 0 then _ else _) = _
  rw [if_neg (by omega)]
  rfl

/-- More rounds do not change the result. -/
theorem parseItems_mono {s : Parser} {remain : Int} {r : Int × Parser} (hnm : n ≤ m)
    (h : parseItems mem b n p remain s = .ok r) : parseItems mem b m p remain s = .ok r := by
  induction n generalizing m p remain s with
  | zero => cases h
  | succ n ih =>
    obtain ⟨m, rfl⟩ : ∃ k, m = k + 1 := ⟨m - 1, by omega⟩
    rw [parseItems] at h ⊢
    split
    · rename_i h0
      rwa [if_pos h0] at h
    rename_i h0
    rw [if_neg h0] at h
    split
    · rename_i h1
      rwa [if_pos h1] at h
    rename_i h1
    rw [if_neg h1] at h
    obtain ⟨a, ha, h⟩ := bind_ok.mp h
    refine bind_ok.mpr ⟨a, ha, ?_⟩
    obtain ⟨size, t⟩ := a
    dsimp only at h ⊢
    split
    · rename_i h2
      rwa [if_pos h2] at h
    · rename_i h2
      rw [if_neg h2] at h
      exact ih (by omega) h

/-- Items that fit are parsed, whatever memory there is for the reports. -/
theorem ItemsFit.parsed {k : Nat} (h : ItemsFit b len p k) (mem : Nat → Bool) (s : Parser)
    (hk : s.dataUsages.length = k) : ∃ n r, parseItems mem b n p (len - p) s = .ok r := by
  induction h generalizing s with
  | done => exact ⟨1, _, parseItems_end (Nat.le_refl _)⟩
  | @item p k hp hr ha _ ih =>
    have hd := hidParseItem_done mem b p s
    rw [hk] at hd
    generalize hi : hidParseItem mem b p s = r at hd
    cases hd with
    | full hu hf => exact absurd (ha hu) (Nat.not_lt.mpr hf)
    | @next t _ ht =>
      obtain ⟨n, r, h⟩ := ih t ht
      exact ⟨n + 1, r, (parseItems_next hp hr hi).trans h⟩
    | @memory t _ _ =>
      refine ⟨1, (hidRetParsing, t), ?_⟩
      rw [parseItems_succ hp hr, hi]
      rfl

/-- Items that are parsed where there is memory for every report do fit. -/
theorem ItemsFit.of_parseItems {s : Parser} {r : Int × Parser} (hp : p ≤ len)
    (h : parseItems (fun _ => true) b n p (len - p) s = .ok r) :
    ItemsFit b len p s.dataUsages.length := by
  induction n generalizing p s with
  | zero => cases h
  | succ n ih =>
    rcases Nat.eq_or_lt_of_le hp with rfl | hlt
    · exact .done
    by_cases hr : p + itemReads b p ≤ len
    · have hd := hidParseItem_done (fun _ => true) b p s
      generalize hi : hidParseItem (fun _ => true) b p s = r at hd
      cases hd with
      | full _ _ =>
        rw [parseItems_succ hlt hr, hi] at h
        cases h
      | @next t ha ht =>
        rw [parseItems_next hlt hr hi] at h
        have hle : p + itemLen b p ≤ len := Nat.le_trans
          (Nat.add_le_add_left (itemLen_le_reads b p) p) hr
        refine .item hlt hr ha ?_
        rw [← ht]
        exact ih hle h
      | memory _ hm =>
        obtain ⟨i, hi⟩ := hm
        cases hi
    · rw [parseItems_behind hlt (by omega)] at h
      cases h

/-! ## Which descriptors are parsed safely -/

/-- Whatever memory there is for the reports and whatever the LEDs answer, the function
returns: no loop goes on for ever and no run goes wrong. -/
def DescriptorSafe (b : Buf) (ifNum : BitVec 8) (descBuff : Bool)
    (reply : Option (List (BitVec 8))) : Prop :=
  ∀ mem setReport hdev, ∃ n o,
    hidParseReportDescriptor ⟨descBuff, reply, mem, setReport⟩ b ifNum n hdev = .ok o

/-- A report descriptor of at most `len` bytes fits if it comes at all. -/
def ReplyFits (descBuff : Bool) (reply : Option (List (BitVec 8))) (len : Nat) : Prop :=
  ∀ bytes, usbhHidGetReportDescriptor len reply = .ok bytes →
    descBuff = true ∧ ItemsFit (received bytes) bytes.length 0 0

/-- `wDescriptorLength + 8` of the HID descriptor at `p` -/
def descBuffLen (b : Buf) (p : Nat) : Nat := (b (p + 7)).toNat + 256 * (b (p + 8)).toNat + 8

/-- Both searches stay within `wTotalLength`, and the report descriptor fits. -/
def DescriptorFits (b : Buf) (ifNum : BitVec 8) (descBuff : Bool)
    (reply : Option (List (BitVec 8))) : Prop :=
  4 ≤ wTotalLength b ∧
    Leads b (wTotalLength b) (ifaceAt b ifNum) id
      (fun ifd => Leads b (wTotalLength b) (hidDescAt b) (fun _ => ifd)
        (fun hidd => ReplyFits descBuff reply (descBuffLen b hidd)) (ifd + bLength b ifd))
      (bLength b 0)

section

variable {env : Env} {hdev : HidDev} {s : Parser} {ifNum : BitVec 8} {o : Outcome}

theorem parseReport_error {r : Int} (h : usbhHidGetReportDescriptor len env.reply = .error r) :
    parseReport env hdev n len s = .ok ⟨r, s, []⟩ := by
  rw [parseReport, h]

theorem parseReport_null {bytes : List (BitVec 8)}
    (h : usbhHidGetReportDescriptor len env.reply = .ok bytes) (hb : ¬ env.descBuff = true) :
    parseReport env hdev n len s = .error .nullBuff := by
  rw [parseReport, h]
  exact if_neg hb

/-- Behind the loop over the items nothing goes wrong. -/
theorem parseReport_ok {bytes : List (BitVec 8)}
    (h : usbhHidGetReportDescriptor len env.reply = .ok bytes) (hb : env.descBuff = true) :
    (∃ o, parseReport env hdev n len s = .ok o) ↔
      ∃ r, parseItems env.mem (received bytes) n 0 bytes.length s = .ok r := by
  rw [parseReport, h]
  dsimp only
  rw [if_pos hb]
  constructor
  · rintro ⟨o, ho⟩
    obtain ⟨r, hr, -⟩ := bind_ok.mp ho
    exact ⟨r, hr⟩
  · rintro ⟨⟨r, t⟩, hr⟩
    rw [hr]
    show ∃ o, (if r < 0 then _ else _) = _
    split
    · exact ⟨_, rfl⟩
    · split
      · exact ⟨_, rfl⟩
      · exact ⟨_, rfl⟩

/-- More rounds do not make it go wrong. -/
theorem parseReport_mono (hnm : n ≤ m) (h : ∃ o, parseReport env hdev n len s = .ok o) :
    ∃ o, parseReport env hdev m len s = .ok o := by
  cases hr : usbhHidGetReportDescriptor len env.reply with
  | error r => exact ⟨_, parseReport_error hr⟩
  | ok bytes =>
    by_cases hb : env.descBuff = true
    · obtain ⟨r, h⟩ := (parseReport_ok hr hb).mp h
      exact (parseReport_ok hr hb).mpr ⟨r, parseItems_mono hnm h⟩
    · obtain ⟨o, h⟩ := h
      rw [parseReport_null hr hb] at h
      cases h

theorem ReplyFits.parsed (h : ReplyFits env.descBuff env.reply len) (hdev : HidDev)
    (hs : s.dataUsages = []) : ∃ n o, parseReport env hdev n len s = .ok o := by
  cases hr : usbhHidGetReportDescriptor len env.reply with
  | error r => exact ⟨0, _, parseReport_error hr⟩
  | ok bytes =>
    obtain ⟨hb, hf⟩ := h bytes hr
    obtain ⟨n, r, hi⟩ := hf.parsed env.mem s (by rw [hs]; rfl)
    exact ⟨n, (parseReport_ok hr hb).mpr ⟨r, by rw [← Int.sub_zero (bytes.length : Int)]; exact hi⟩⟩

theorem ReplyFits.of_parseReport (hm : env.mem = fun _ => true) (hs : s.dataUsages = [])
    (h : parseReport env hdev n len s = .ok o) : ReplyFits env.descBuff env.reply len := by
  intro bytes hr
  by_cases hb : env.descBuff = true
  · obtain ⟨r, hi⟩ := (parseReport_ok hr hb).mp ⟨o, h⟩
    rw [hm, ← Int.sub_zero (bytes.length : Int)] at hi
    have hf := ItemsFit.of_parseItems (Nat.zero_le _) hi
    rw [hs] at hf
    exact ⟨hb, hf⟩
  · rw [parseReport_null hr hb] at h
    cases h

/-- What follows the second search. -/
def afterHid (env : Env) (b : Buf) (hdev : HidDev) (n : Nat) (s : Parser) :
    Search → Except Fault Outcome
  | .ret r => .ok ⟨r, s, []⟩
  | .found hidd _ => do
    let lo ← rd b (wTotalLength b) (hidd + 7)
    let hi ← rd b (wTotalLength b) (hidd + 8)
    parseReport env hdev n (lo.toNat + 256 * hi.toNat + 8) s

/-- The second search and what follows. -/
def afterIface (env : Env) (b : Buf) (hdev : HidDev) (n : Nat) (s : Parser) :
    Search → Except Fault Outcome
  | .ret r => .ok ⟨r, s, []⟩
  | .found ifd size => do
    let l ← rd b (wTotalLength b) ifd
    seekHid b (wTotalLength b) ifd n (ifd + l.toNat) (size - l.toNat) >>= afterHid env b hdev n s

theorem afterHid_found {hidd : Nat} {size : Int} (h : hidd + sizeofDesc ≤ wTotalLength b) :
    afterHid env b hdev n s (.found hidd size) = parseReport env hdev n (descBuffLen b hidd) s := by
  unfold sizeofDesc at h
  unfold afterHid
  dsimp only
  rw [rd_of_lt (show hidd + 7 < wTotalLength b by omega), ok_bind,
    rd_of_lt (show hidd + 8 < wTotalLength b by omega), ok_bind]
  rfl

theorem afterIface_found {ifd : Nat} (h : ifd + sizeofDesc ≤ wTotalLength b) :
    afterIface env b hdev n s (.found ifd (wTotalLength b - ifd)) =
      seekHid b (wTotalLength b) ifd n (ifd + bLength b ifd)
        (wTotalLength b - (ifd + bLength b ifd : Nat)) >>= afterHid env b hdev n s := by
  have hsub : (wTotalLength b : Int) - ifd - bLength b ifd =
      wTotalLength b - (ifd + bLength b ifd : Nat) := by omega
  unfold sizeofDesc at h
  unfold afterIface
  dsimp only
  rw [rd_of_lt (show ifd < wTotalLength b by omega), ok_bind, ← hsub]
  rfl

theorem hidParseReportDescriptor_eq (h : 4 ≤ wTotalLength b) :
    hidParseReportDescriptor env b ifNum n hdev =
      seekIface b (wTotalLength b) ifNum n (bLength b 0) (wTotalLength b - bLength b 0) >>=
        afterIface env b hdev n ⟨.zero, [], false, hdev.report⟩ := by
  unfold hidParseReportDescriptor
  dsimp only
  rw [rd_of_lt (show 0 < wTotalLength b by omega), ok_bind,
    rd_of_lt (show 2 < wTotalLength b by omega), ok_bind,
    rd_of_lt (show 3 < wTotalLength b by omega), ok_bind]
  refine congrArg (seekIface b (wTotalLength b) ifNum n (bLength b 0)
    (wTotalLength b - bLength b 0) >>= ·) (funext fun r => ?_)
  cases r with
  | ret r => rfl
  | found ifd size =>
    unfold afterIface
    dsimp only
    refine congrArg (rd b (wTotalLength b) ifd >>= ·) (funext fun l => ?_)
    refine congrArg (seekHid b (wTotalLength b) ifd n (ifd + l.toNat) (size - l.toNat) >>= ·)
      (funext fun r => ?_)
    cases r with
    | ret r => rfl
    | found hidd size => rfl

theorem header_read (h : hidParseReportDescriptor env b ifNum n hdev = .ok o) :
    4 ≤ wTotalLength b := by
  unfold hidParseReportDescriptor at h
  obtain ⟨_, -, h⟩ := bind_ok.mp h
  obtain ⟨_, -, h⟩ := bind_ok.mp h
  obtain ⟨_, h3, -⟩ := bind_ok.mp h
  exact (rd_ok h3).1

theorem iface_stride {p : Nat} (h : p + sizeofDesc ≤ w) : id p < w := by
  unfold sizeofDesc at h
  show p < w
  omega

theorem DescriptorFits.safe {descBuff : Bool} {reply : Option (List (BitVec 8))}
    (h : DescriptorFits b ifNum descBuff reply) : DescriptorSafe b ifNum descBuff reply := by
  intro mem setReport hdev
  obtain ⟨hw, hl⟩ := h
  obtain ⟨n₁, r, h₁, hend⟩ := hl.ends (z := -1) (isHidIface_tests ifNum) fun p hp => iface_stride hp
  rcases hend with ⟨e, rfl⟩ | ⟨ifd, rfl, hi, hl⟩
  · refine ⟨n₁, ⟨e, ⟨.zero, [], false, hdev.report⟩, []⟩, ?_⟩
    rw [hidParseReportDescriptor_eq hw, show seekIface b _ ifNum n₁ _ _ = _ from h₁]
    rfl
  have hifd : ∀ p, p + sizeofDesc ≤ wTotalLength b → ifd < wTotalLength b := fun _ _ =>
    iface_stride hi
  obtain ⟨n₂, r, h₂, hend⟩ := hl.ends (z := hidRetParsing) isHidDesc_tests hifd
  -- what is left after the two searches, for all rounds from `n₀` on
  have hrest : ∃ n₀, ∀ m, n₀ ≤ m → ∃ o, afterHid ⟨descBuff, reply, mem, setReport⟩ b hdev m
      ⟨.zero, [], false, hdev.report⟩ r = .ok o := by
    rcases hend with ⟨e, rfl⟩ | ⟨hidd, rfl, hh, hf⟩
    · exact ⟨0, fun m _ => ⟨_, rfl⟩⟩
    · have hf : ReplyFits (⟨descBuff, reply, mem, setReport⟩ : Env).descBuff
        (⟨descBuff, reply, mem, setReport⟩ : Env).reply (descBuffLen b hidd) := hf
      obtain ⟨n₀, hn₀⟩ := hf.parsed (s := ⟨.zero, [], false, hdev.report⟩) hdev rfl
      refine ⟨n₀, fun m hm => ?_⟩
      rw [afterHid_found hh]
      exact parseReport_mono hm hn₀
  obtain ⟨n₀, hrest⟩ := hrest
  have h₁' := seek_mono (m := max n₁ (max n₂ n₀)) (isHidIface_tests ifNum)
    (fun p hp => iface_stride hp) (by omega) h₁
  have h₂' := seek_mono (m := max n₁ (max n₂ n₀)) isHidDesc_tests hifd (by omega) h₂
  obtain ⟨o, ho⟩ := hrest (max n₁ (max n₂ n₀)) (by omega)
  refine ⟨max n₁ (max n₂ n₀), o, ?_⟩
  rw [hidParseReportDescriptor_eq hw, show seekIface b _ ifNum _ _ _ = _ from h₁', ok_bind,
    afterIface_found hi, show seekHid b _ ifd _ _ _ = _ from h₂', ok_bind]
  exact ho

theorem DescriptorSafe.fits {descBuff : Bool} {reply : Option (List (BitVec 8))}
    (h : DescriptorSafe b ifNum descBuff reply) : DescriptorFits b ifNum descBuff reply := by
  obtain ⟨n, o, ho⟩ := h (fun _ => true) (fun _ => 0) ⟨0, 0, []⟩
  have hw := header_read ho
  rw [hidParseReportDescriptor_eq hw] at ho
  obtain ⟨r, h₁, ho⟩ := bind_ok.mp ho
  refine ⟨hw, Leads.of_seek (isHidIface_tests ifNum) (fun p hp => iface_stride hp) h₁ ?_⟩
  rintro ifd hi rfl
  rw [afterIface_found hi] at ho
  obtain ⟨r, h₂, ho⟩ := bind_ok.mp ho
  refine Leads.of_seek isHidDesc_tests (fun _ _ => iface_stride hi) h₂ ?_
  rintro hidd hh rfl
  rw [afterHid_found hh] at ho
  exact ReplyFits.of_parseReport rfl rfl ho

/-- A configuration and a report descriptor are parsed safely, whatever memory there is for
the reports, exactly when both searches stay within `wTotalLength`, there is a buffer for
what is received, and the items fit in it with never more than sixteen usages waiting. -/
theorem descriptorSafe_iff (b : Buf) (ifNum : BitVec 8) (descBuff : Bool)
    (reply : Option (List (BitVec 8))) :
    DescriptorSafe b ifNum descBuff reply ↔ DescriptorFits b ifNum descBuff reply :=
  ⟨DescriptorSafe.fits, DescriptorFits.safe⟩

end

/-- The configuration of a mouse. -/
def mouse : Buf := fun p =>
  [0x09#8, 0x02#8, 0x22#8, 0x00#8, 0x01#8, 0x01#8, 0x00#8, 0xA0#8, 0x32#8,
    0x09#8, 0x04#8, 0x00#8, 0x00#8, 0x01#8, 0x03#8, 0x01#8, 0x02#8, 0x00#8,
    0x09#8, 0x21#8, 0x11#8, 0x01#8, 0x00#8, 0x01#8, 0x22#8, 0x22#8, 0x00#8,
    0x07#8, 0x05#8, 0x81#8, 0x03#8, 0x08#8, 0x00#8, 0x0A#8].getD p 0#8

/-- Seventeen times `Usage (X)`. -/
def seventeenUsages : List (BitVec 8) := (List.replicate 17 [0x09#8, 0x30#8]).flatten

theorem not_itemsFit_seventeenUsages {k : Nat} (hk : k ≤ 16) :
    ¬ ItemsFit (received seventeenUsages) seventeenUsages.length (2 * k) k := by
  have hitem : ∀ k < 17, itemLen (received seventeenUsages) (2 * k) = 2 ∧
      addsUsage (received seventeenUsages) (2 * k) = true := by decide
  have hlen : seventeenUsages.length = 34 := rfl
  induction hj : 16 - k generalizing k with
  | zero =>
    intro h
    obtain rfl : k = 16 := by omega
    cases h with
    | item _ _ ha _ => exact absurd (ha (hitem 16 (by omega)).2) (by decide)
  | succ j ih =>
    intro h
    obtain ⟨hl, ha⟩ := hitem k (by omega)
    generalize hp : 2 * k = p at h hl ha
    generalize seventeenUsages.length = len at h hlen ih
    cases h with
    | done => omega
    | item _ _ _ hn =>
      rw [hl, usagesAfter, if_pos ha, ← hp, ← Nat.mul_succ] at hn
      exact ih (by omega) (by omega) hn

/-- The seventeenth usage is stored behind the sixteen entries. -/
theorem mouse_not_safe : ¬ ∀ b ifNum descBuff reply, DescriptorSafe b ifNum descBuff reply := by
  intro h
  obtain ⟨-, hl⟩ := (h mouse 0 true (some seventeenUsages)).fits
  cases hl with
  | short _ hs => exact absurd hs (by decide)
  | zero _ ht _ => exact absurd ht (by decide)
  | skip _ ht _ _ => exact absurd ht (by decide)
  | found _ _ hl =>
    cases hl with
    | short _ hs => exact absurd hs (by decide)
    | zero _ ht _ => exact absurd ht (by decide)
    | skip _ ht _ _ => exact absurd ht (by decide)
    | found _ _ hf =>
      exact not_itemsFit_seventeenUsages (Nat.zero_le 16) (hf seventeenUsages rfl).2

end Ma35d1.UsbHost.Hid

import Mathlib.Data.List.Flatten
import Ma35d1.UsbDevice.HidTransfer

/-!
# Commands, data and pages in step

As long as every report is a command that is taken or a whole page that is where the copy looks for
it, the page counter, the pages asked for and the two endpoints stay in step.
-/

namespace Ma35d1.UsbDevice.HidTransfer

open Ma35d1.Machine.Copy
open Ma35d1.Machine.Trace

/-! ## The command record -/

theorem word_copyTo_wordBytes (m : Nat → BitVec 8) (k : Nat) (v : BitVec 32) :
    word (copyTo m k (wordBytes v)) k = v := by
  have h (j : Nat) (hj : j < 4) : copyTo m k (wordBytes v) (k + j) = (wordBytes v)[j] :=
    copyTo_add hj
  have h0 := h 0 (by decide)
  rw [Nat.add_zero] at h0
  rw [word, h 3 (by decide), h 2 (by decide), h 1 (by decide), h0]
  simp only [wordBytes, List.getElem_cons_zero, List.getElem_cons_succ]
  rw [BitVec.extractLsb'_append_extractLsb'_eq_extractLsb' (by rfl),
    BitVec.extractLsb'_append_extractLsb'_eq_extractLsb' (by rfl),
    BitVec.extractLsb'_append_extractLsb'_eq_extractLsb' (by rfl)]
  exact BitVec.extractLsb'_eq_self

theorem word_copyTo_of_disjoint {m : Nat → BitVec 8} {l : List (BitVec 8)} {i k : Nat}
    (h : k + 4 ≤ i ∨ i + l.length ≤ k) : word (copyTo m i l) k = word m k := by
  unfold word
  rw [copyTo_of_not, copyTo_of_not, copyTo_of_not, copyTo_of_not]
  all_goals omega

namespace Device

variable {d : Device} {c : BitVec 8} {v : BitVec 32}

@[simp] theorem u8Cmd_setCmd : (d.setCmd c).u8Cmd = c := rfl

@[simp] theorem u32Arg2_setCmd : (d.setCmd c).u32Arg2 = d.u32Arg2 :=
  word_copyTo_of_disjoint (.inr (show 0 + 1 ≤ _ by decide))

@[simp] theorem u32Signature_setCmd : (d.setCmd c).u32Signature = d.u32Signature :=
  word_copyTo_of_disjoint (.inr (show 0 + 1 ≤ _ by decide))

@[simp] theorem u8Cmd_setSignature : (d.setSignature v).u8Cmd = d.u8Cmd := rfl

@[simp] theorem u32Arg2_setSignature : (d.setSignature v).u32Arg2 = d.u32Arg2 :=
  word_copyTo_of_disjoint (.inl (by decide))

@[simp] theorem u32Signature_setSignature : (d.setSignature v).u32Signature = v :=
  word_copyTo_wordBytes _ _ _

end Device

/-! ## The law -/

/-- The places of `k` whole pages, and those that were sent -/
def pages (k : Nat) : List Nat := (List.replicate k (List.range' 0 pageSize)).flatten

def places (packets : List (Nat × Nat)) : List Nat :=
  packets.flatMap fun p => List.range' p.1 p.2

theorem pages_succ (k : Nat) : pages (k + 1) = pages k ++ List.range' 0 pageSize := by
  rw [pages, List.replicate_succ', List.flatten_append, List.flatten_singleton]
  rfl

theorem pages_prefix {k n a : Nat} (hk : k < n) (ha : a ≤ pageSize) :
    pages k ++ List.range' 0 a <+: pages n := by
  induction n with
  | zero => exact absurd hk (Nat.not_lt_zero k)
  | succ n ih =>
    rw [pages_succ]
    rcases Nat.lt_succ_iff_lt_or_eq.mp hk with hlt | rfl
    · exact (ih hlt).trans (List.prefix_append _ _)
    · obtain ⟨b, hb⟩ := Nat.exists_eq_add_of_le ha
      rw [hb, ← List.range'_append_1, ← List.append_assoc]
      exact List.prefix_append _ _

theorem places_append (ps qs : List (Nat × Nat)) : places (ps ++ qs) = places ps ++ places qs :=
  List.flatMap_append

theorem places_packet (a n : Nat) : places [(a, n)] = List.range' a n := List.append_nil _

/-- What the host may rely on -/
structure TransferLaw (l : Link) : Prop where
  inside : l.dev.stray = false
  programs : l.dev.programmed.flatten = l.data.take (pageSize * l.dev.programmed.length)
  whole : ∀ p ∈ l.dev.programmed, p.length = pageSize
  counts : l.dev.programmed.length = min (l.data.length / pageSize) l.toWrite
  sends : places l.sent <+: pages l.toRead
  sendsAll : l.dev.ep1In = none → places l.sent = pages l.toRead
  armed : l.dev.ep1In = none ∨ l.data.length < pageSize * l.toWrite → l.dev.ep1Out ≠ none

namespace Device

/-- The data phase of a read command, till its last packet is given to the endpoint -/
def Reading (d : Device) : Prop :=
  d.u8Cmd = hidCmdRead ∧ ¬ (d.u32Arg2 ≤ d.u32Signature ∧ d.bytesInPageBuf = 0)

instance (d : Device) : Decidable d.Reading := inferInstanceAs (Decidable (_ ∧ _))

/-- The command in `gCmd` is one of the four. -/
def Known (d : Device) : Prop :=
  d.u8Cmd = hidCmdErase ∨ d.u8Cmd = hidCmdRead ∨ d.u8Cmd = hidCmdWrite ∨ d.u8Cmd = hidCmdTest

instance (d : Device) : Decidable d.Known := inferInstanceAs (Decidable (_ ∨ _ ∨ _ ∨ _))

/-- The data of a write command is a whole page, and it is where the copy looks for it. -/
def DataKept (d : Device) (report : List (BitVec 8)) (buf : OutBuf) : Prop :=
  d.bytesInPageBuf + report.length = pageSize ∧
    (buf = .ep1BufOut ∨ copyFrom d.ep1BufOut 0 report.length = report)

instance (d : Device) (report : List (BitVec 8)) (buf : OutBuf) :
    Decidable (d.DataKept report buf) := inferInstanceAs (Decidable (_ ∧ _))

/-- A command fits into `gCmd` and is taken; while the last packet of a read command is sent, it
does not read. -/
def CommandKept (d new : Device) (len : Nat) : Prop :=
  len ≤ cmdSize ∧ new.Checked len ∧ new.Known ∧
    (d.ep1In ≠ none → ¬ d.Reading ∧ (new.u8Cmd = hidCmdRead → new.u32Arg2 = 0))

instance (d new : Device) (len : Nat) : Decidable (d.CommandKept new len) :=
  inferInstanceAs (Decidable (_ ∧ _ ∧ _ ∧ (_ → _ ∧ (_ → _))))

end Device

namespace Link

/-- The condition on a step -/
def TransferKept (l : Link) : Event → Prop
  | .report bytes => ∀ o ∈ l.dev.ep1Out,
    if l.dev.Writing then l.dev.DataKept bytes o.1
    else l.dev.CommandKept ((l.dev.receive bytes o.1).copyCmd bytes.length) bytes.length
  | .inDone => True

instance decidableTransferKept (l : Link) : ∀ e, Decidable (l.TransferKept e)
  | .report bytes =>
    match h : l.dev.ep1Out with
    | none => .isTrue fun o ho => by
      rw [h] at ho
      exact absurd ho (by simp)
    | some o => decidable_of_iff (if l.dev.Writing then l.dev.DataKept bytes o.1
        else l.dev.CommandKept ((l.dev.receive bytes o.1).copyCmd bytes.length) bytes.length)
        ⟨fun hk o' ho' => by
          rw [h] at ho'
          obtain rfl := Option.some.inj ho'
          exact hk, fun hk => hk o h⟩
  | .inDone => .isTrue trivial

/-- The packets of a read command that were given to the endpoint, up to some place in a page -/
def Given (l : Link) : Prop :=
  l.dev.u32Signature ≤ l.dev.u32Arg2 ∧ l.dev.bytesInPageBuf ≤ pageSize ∧
    ∃ k, k + 1 + (l.dev.u32Arg2.toNat - l.dev.u32Signature.toNat) = l.toRead ∧
      places (l.sent ++ l.dev.ep1In.toList) =
        pages k ++ List.range' 0 (pageSize - l.dev.bytesInPageBuf)

/-- The counters, the pages and the packets in step -/
structure Inv (l : Link) : Prop where
  inside : l.dev.stray = false
  armed : l.dev.ep1Out ≠ none
  whole : ∀ p ∈ l.dev.programmed, p.length = pageSize
  programs : l.dev.programmed.flatten = l.data
  counts : l.data.length = pageSize * l.dev.programmed.length
  writing : l.dev.Writing →
    l.dev.programmed.length + (l.dev.u32Arg2.toNat - l.dev.u32Signature.toNat) = l.toWrite
  written : ¬ l.dev.Writing → l.dev.programmed.length = l.toWrite
  reading : l.dev.Reading → l.dev.ep1In ≠ none ∧ l.Given
  rested : ¬ l.dev.Reading → l.dev.bytesInPageBuf = 0 ∧
    places (l.sent ++ l.dev.ep1In.toList) = pages l.toRead

variable {l t : Link} {e : Event}

theorem Inv.law (h : Inv l) : TransferLaw l := by
  have hle : l.dev.programmed.length ≤ l.toWrite := by
    by_cases hw : l.dev.Writing
    · have := h.writing hw
      omega
    · exact Nat.le_of_eq (h.written hw)
  have hcounts := h.counts
  refine ⟨h.inside, ?_, h.whole, ?_, ?_, fun hin => ?_, fun _ => h.armed⟩
  · rw [← hcounts, List.take_length, h.programs]
  · rw [hcounts, Nat.mul_div_cancel_left _ (by decide), Nat.min_eq_left hle]
  · have hhanded : places l.sent <+: places (l.sent ++ l.dev.ep1In.toList) := by
      rw [places_append]
      exact List.prefix_append _ _
    refine hhanded.trans ?_
    by_cases hr : l.dev.Reading
    · obtain ⟨-, -, -, k, hk, hplaces⟩ := h.reading hr
      rw [hplaces]
      exact pages_prefix (by omega) (Nat.sub_le _ _)
    · exact (h.rested hr).2 ▸ List.prefix_rfl
  · have hr : ¬ l.dev.Reading := fun hr => (h.reading hr).1 hin
    have := (h.rested hr).2
    rwa [hin, Option.toList_none, List.append_nil] at this

theorem inv_start (speed : Speed) : Inv (start speed) :=
  ⟨rfl, nofun, nofun, rfl, rfl, fun h => absurd h.1 (show (0 : BitVec 8) ≠ _ by decide),
    fun _ => rfl, fun h => absurd h.1 (show (0 : BitVec 8) ≠ _ by decide), fun _ => ⟨rfl, rfl⟩⟩

/-- When the last of its packets is given, the pages of a read command are all given. -/
theorem Given.rested (h : l.Given) (hcmd : l.dev.u8Cmd = hidCmdRead) (hr : ¬ l.dev.Reading) :
    l.dev.bytesInPageBuf = 0 ∧ places (l.sent ++ l.dev.ep1In.toList) = pages l.toRead := by
  obtain ⟨hle, -, k, hk, hplaces⟩ := h
  obtain ⟨hdone, hzero⟩ : l.dev.u32Arg2 ≤ l.dev.u32Signature ∧ l.dev.bytesInPageBuf = 0 := by
    by_contra hnot
    exact hr ⟨hcmd, hnot⟩
  refine ⟨hzero, ?_⟩
  rw [hplaces, hzero, Nat.sub_zero, ← pages_succ]
  congr 1
  bv_omega

/-! ## A report of data -/

/-- A page was programmed, and the OUT endpoint is armed for what comes next. -/
structure PageTaken (d t : Device) (page : List (BitVec 8)) : Prop where
  stray : t.stray = d.stray
  programmed : t.programmed = d.programmed ++ [page]
  bytes : t.bytesInPageBuf = 0
  ep1In : t.ep1In = d.ep1In
  ep1Out : t.ep1Out ≠ none
  u32Arg2 : t.u32Arg2 = d.u32Arg2
  u32Signature : t.u32Signature = d.u32Signature + 1
  u8Cmd : t.u8Cmd = d.u8Cmd ∧ d.u32Signature + 1 < d.u32Arg2 ∨
    t.u8Cmd = hidCmdNone ∧ ¬ d.u32Signature + 1 < d.u32Arg2

theorem pageDone_taken (d : Device) (size : Nat) :
    PageTaken d (d.pageDone size) (copyFrom d.pageBuff 0 pageSize) := by
  unfold Device.pageDone
  split
  case isTrue hlt =>
    exact ⟨rfl, rfl, rfl, rfl, nofun, Device.u32Arg2_setSignature,
      Device.u32Signature_setSignature, .inl ⟨rfl, hlt⟩⟩
  case isFalse hlt =>
    exact ⟨rfl, rfl, rfl, rfl, nofun, Device.u32Arg2_setSignature.trans Device.u32Arg2_setCmd,
      Device.u32Signature_setSignature, .inr ⟨rfl, hlt⟩⟩

/-- A report that was received: only the buffer it is in has changed. -/
structure Received (d r : Device) : Prop where
  cmd : r.cmd = d.cmd
  bytes : r.bytesInPageBuf = d.bytesInPageBuf
  stray : r.stray = d.stray
  programmed : r.programmed = d.programmed
  ep1In : r.ep1In = d.ep1In

theorem received (d : Device) (bytes : List (BitVec 8)) (buf : OutBuf) :
    Received d (d.receive bytes buf) := by
  cases buf <;> exact ⟨rfl, rfl, rfl, rfl, rfl⟩

theorem Received.fields {d r : Device} (h : Received d r) : r.u8Cmd = d.u8Cmd ∧
    r.u32Arg2 = d.u32Arg2 ∧ r.u32Signature = d.u32Signature := by
  obtain ⟨hcmd, -⟩ := h
  exact ⟨congrFun hcmd 0, congrArg (word · 6) hcmd, congrArg (word · 10) hcmd⟩

/-- A whole page of data is programmed as it came. -/
theorem dataKept_taken {bytes : List (BitVec 8)} {buf : OutBuf} (hw : l.dev.Writing)
    (hzero : l.dev.bytesInPageBuf = 0) (hk : l.dev.DataKept bytes buf) :
    PageTaken l.dev ((l.dev.receive bytes buf).getOutReport bytes.length) bytes := by
  obtain ⟨hsize, hbuf⟩ := hk
  have hlen : bytes.length = pageSize := by omega
  -- the copy finds the report
  have hfrom : copyFrom (l.dev.receive bytes buf).ep1BufOut 0 bytes.length = bytes := by
    cases buf with
    | ep1BufOut =>
      show copyFrom (copyTo l.dev.ep1BufOut 0 bytes) 0 bytes.length = bytes
      exact copyFrom_copyTo rfl
    | pageBuff => exact hbuf.resolve_left nofun
  have hr := received l.dev bytes buf
  revert hr hfrom
  generalize l.dev.receive bytes buf = r
  intro hfrom hr
  obtain ⟨hcmd, harg, hsig⟩ := hr.fields
  have hbytes : (r.copyData bytes.length).bytesInPageBuf = pageSize :=
    (congrArg (· + bytes.length) hr.bytes).trans hsize
  have hout : r.getOutReport bytes.length =
      (r.copyData bytes.length).pageDone bytes.length := by
    have hw' : r.Writing := ⟨hcmd.trans hw.1, by
      rw [hsig, harg]
      exact hw.2⟩
    rw [Device.getOutReport, if_pos hw', if_pos (Nat.le_of_eq hbytes.symm)]
  have hpage : copyFrom (r.copyData bytes.length).pageBuff 0 pageSize = bytes := by
    show copyFrom (copyTo r.pageBuff r.bytesInPageBuf (copyFrom r.ep1BufOut 0 bytes.length)) 0 _ = _
    rw [hfrom, hr.bytes, hzero]
    exact copyFrom_copyTo hlen
  have hinside : (r.copyData bytes.length).stray = l.dev.stray := by
    show (r.stray || decide (pageSize < (r.copyData bytes.length).bytesInPageBuf)) = _
    rw [hbytes, hr.stray]
    exact Bool.or_false _
  have ht := pageDone_taken (r.copyData bytes.length) bytes.length
  rw [hpage, ← hout] at ht
  refine ⟨ht.stray.trans hinside, ht.programmed.trans (congrArg (· ++ [bytes]) hr.programmed),
    ht.bytes, ht.ep1In.trans hr.ep1In, ht.ep1Out, ht.u32Arg2.trans harg,
    ht.u32Signature.trans (congrArg (· + 1) hsig), ?_⟩
  have hcmd' := ht.u8Cmd
  rwa [show (r.copyData bytes.length).u8Cmd = l.dev.u8Cmd from hcmd,
    show (r.copyData bytes.length).u32Signature = l.dev.u32Signature from hsig,
    show (r.copyData bytes.length).u32Arg2 = l.dev.u32Arg2 from harg] at hcmd'

theorem Inv.data (h : Inv l) {bytes : List (BitVec 8)} {buf : OutBuf} (hw : l.dev.Writing)
    (hk : l.dev.DataKept bytes buf) : Inv { l.count (l.dev.receive bytes buf) bytes with
      dev := (l.dev.receive bytes buf).getOutReport bytes.length } := by
  have hread : ¬ l.dev.Reading := fun hr => absurd (hw.1.symm.trans hr.1) (by decide)
  obtain ⟨hzero, hplaces⟩ := h.rested hread
  have hlen : bytes.length = pageSize := by
    have := hk.1
    omega
  have ht := dataKept_taken hw hzero hk
  have hwrite := h.writing hw
  have hlt : l.dev.u32Signature.toNat < l.dev.u32Arg2.toNat := hw.2
  have hcounts := h.counts
  have hcount : l.count (l.dev.receive bytes buf) bytes = { l with data := l.data ++ bytes } :=
    if_pos (by
      rw [hcounts]
      exact Nat.mul_lt_mul_of_pos_left (by omega) (by decide))
  rw [hcount]
  revert ht
  generalize (l.dev.receive bytes buf).getOutReport bytes.length = t
  intro ht
  have hsig : t.u32Signature.toNat = l.dev.u32Signature.toNat + 1 := by
    rw [ht.u32Signature]
    bv_omega
  have hcmd := ht.u8Cmd
  have hlength : t.programmed.length = l.dev.programmed.length + 1 := by
    rw [ht.programmed, List.length_append, List.length_singleton]
  have hread' : ¬ t.Reading := by
    rintro ⟨hcmd', -⟩
    rcases hcmd with ⟨hsame, -⟩ | ⟨hnone, -⟩
    · exact absurd (hw.1.symm.trans (hsame.symm.trans hcmd')) (by decide)
    · exact absurd (hnone.symm.trans hcmd') (by decide)
  refine ⟨ht.stray.trans h.inside, ht.ep1Out, fun p hp => ?_, ?_, ?_, fun hw' => ?_, fun hw' => ?_,
    fun hr => absurd hr hread', fun _ => ⟨ht.bytes, ?_⟩⟩
  · rcases List.mem_append.mp (ht.programmed ▸ hp) with hp | hp
    · exact h.whole p hp
    · rw [List.mem_singleton.mp hp, hlen]
  · show t.programmed.flatten = l.data ++ bytes
    rw [ht.programmed, List.flatten_append, List.flatten_singleton, h.programs]
  · show (l.data ++ bytes).length = pageSize * t.programmed.length
    rw [List.length_append, hcounts, hlen, hlength, Nat.mul_succ]
  · show t.programmed.length + (t.u32Arg2.toNat - t.u32Signature.toNat) = l.toWrite
    rw [hlength, hsig, ht.u32Arg2]
    omega
  · show t.programmed.length = l.toWrite
    have hlast : ¬ l.dev.u32Signature + 1 < l.dev.u32Arg2 := fun hlt => by
      rcases hcmd with ⟨hsame, -⟩ | ⟨-, hnot⟩
      · exact hw' ⟨hsame.trans hw.1, by
          rw [ht.u32Signature, ht.u32Arg2]
          exact hlt⟩
      · exact hnot hlt
    have hnat : ¬ l.dev.u32Signature.toNat + 1 < l.dev.u32Arg2.toNat := by bv_omega
    omega
  · show places (l.sent ++ t.ep1In.toList) = pages l.toRead
    rw [ht.ep1In]
    exact hplaces

/-! ## A command -/

/-- What a command that is taken does -/
theorem processCommand_taken {d r : Device} {len : Nat} (hc : (d.copyCmd len).Checked len)
    (hr : (d.copyCmd len).runCommand = some r) : d.processCommand len = (r.setupOut, 0) := by
  refine (if_pos hc).trans ?_
  rw [hr]

/-- The host's count after a command that is taken -/
theorem Inv.count_command (h : Inv l) (hw : ¬ l.dev.Writing) {d r : Device}
    {bytes : List (BitVec 8)} (hc : (d.copyCmd bytes.length).Checked bytes.length)
    (hr : (d.copyCmd bytes.length).runCommand = some r) : l.count d bytes =
      if (d.copyCmd bytes.length).u8Cmd = hidCmdWrite then
        { l with toWrite := l.toWrite + (d.copyCmd bytes.length).u32Arg2.toNat }
      else if (d.copyCmd bytes.length).u8Cmd = hidCmdRead then
        { l with toRead := l.toRead + (d.copyCmd bytes.length).u32Arg2.toNat }
      else l := by
  have hdone : ¬ l.data.length < pageSize * l.toWrite := by
    rw [h.counts, h.written hw]
    exact Nat.lt_irrefl _
  refine (if_neg hdone).trans (if_pos ?_)
  rw [processCommand_taken hc hr]

/-- A command that asks for `w` pages to be written, or for none, and for no page to be read -/
theorem Inv.after (h : Inv l) (hw : ¬ l.dev.Writing) {d : Device} {w : Nat}
    {sent : List (Nat × Nat)} (hplaces : places (sent ++ d.ep1In.toList) = pages l.toRead)
    (hstray : d.stray = false) (hout : d.ep1Out ≠ none)
    (hprog : d.programmed = l.dev.programmed) (hread : ¬ d.Reading) (hbytes : d.bytesInPageBuf = 0)
    (hwriting : d.Writing → d.u32Arg2.toNat - d.u32Signature.toNat = w)
    (hwritten : ¬ d.Writing → w = 0) :
    Inv { l with dev := d, toWrite := l.toWrite + w, sent := sent } := by
  have hall := h.written hw
  refine ⟨hstray, hout, fun p hp => h.whole p (hprog ▸ hp), ?_, ?_, fun hw' => ?_, fun hw' => ?_,
    fun hr' => absurd hr' hread, fun _ => ⟨hbytes, hplaces⟩⟩
  · show d.programmed.flatten = l.data
    rw [hprog, h.programs]
  · show l.data.length = pageSize * d.programmed.length
    rw [hprog, h.counts]
  · show d.programmed.length + (d.u32Arg2.toNat - d.u32Signature.toNat) = l.toWrite + w
    rw [hprog, hall, hwriting hw']
  · show d.programmed.length = l.toWrite + w
    rw [hprog, hall, hwritten hw', Nat.add_zero]

/-- The next packet of a page is given to the IN endpoint. -/
theorem places_setupIn {ps : List (Nat × Nat)} {d : Device} {k : Nat}
    (hbytes : d.bytesInPageBuf ≤ pageSize)
    (hps : places ps = pages k ++ List.range' 0 (pageSize - d.bytesInPageBuf)) :
    places (ps ++ d.setupIn.ep1In.toList) =
      pages k ++ List.range' 0 (pageSize - d.setupIn.bytesInPageBuf) := by
  have hlen : min d.speed.ep1MaxPacketSize d.bytesInPageBuf ≤ d.bytesInPageBuf :=
    Nat.min_le_right ..
  show places (ps ++ [(pageSize - d.bytesInPageBuf,
    min d.speed.ep1MaxPacketSize d.bytesInPageBuf)]) = pages k ++ List.range' 0 (pageSize -
      (d.bytesInPageBuf - min d.speed.ep1MaxPacketSize d.bytesInPageBuf))
  rw [places_append, places_packet, hps, List.append_assoc]
  have hsum : pageSize - (d.bytesInPageBuf - min d.speed.ep1MaxPacketSize d.bytesInPageBuf) =
      pageSize - d.bytesInPageBuf + min d.speed.ep1MaxPacketSize d.bytesInPageBuf := by
    omega
  rw [hsum, ← List.range'_append_1, Nat.zero_add]

/-- A packet of a read command was given to the endpoint. -/
theorem Inv.given (h : Inv l) (hw : ¬ l.dev.Writing) {d : Device} {n : Nat}
    {sent : List (Nat × Nat)} (hstray : d.stray = false) (hout : d.ep1Out ≠ none)
    (hprog : d.programmed = l.dev.programmed) (hcmd : d.u8Cmd = hidCmdRead) (hin : d.ep1In ≠ none)
    (hg : Given { l with dev := d, toRead := n, sent := sent }) :
    Inv { l with dev := d, toRead := n, sent := sent } := by
  have hwrite : ¬ d.Writing := fun hw' => absurd (hcmd.symm.trans hw'.1) (by decide)
  refine ⟨hstray, hout, fun p hp => h.whole p (hprog ▸ hp), ?_, ?_, fun hw' => absurd hw' hwrite,
    fun _ => ?_, fun _ => ⟨hin, hg⟩, fun hr => hg.rested hcmd hr⟩
  · show d.programmed.flatten = l.data
    rw [hprog, h.programs]
  · show l.data.length = pageSize * d.programmed.length
    rw [hprog, h.counts]
  · show d.programmed.length = l.toWrite
    rw [hprog, h.written hw]

/-- A read command sets up its first packet. -/
theorem Inv.read (h : Inv l) (hw : ¬ l.dev.Writing) (hr : ¬ l.dev.Reading)
    (hin : l.dev.ep1In = none) {d : Device} (hstray : d.stray = false)
    (hprog : d.programmed = l.dev.programmed) (hcmd : d.u8Cmd = hidCmdRead)
    (hpages : d.u32Arg2 ≠ 0) : Inv { l with
      dev := d.cmdReadPages.setupOut, toRead := l.toRead + d.u32Arg2.toNat } := by
  obtain ⟨m, hm⟩ : ∃ m : Device, m = { d with
      pageBuff := copyTo d.pageBuff 0 (List.replicate pageSize 0xff)
      bytesInPageBuf := pageSize }.setSignature 1 := ⟨_, rfl⟩
  have hread : d.cmdReadPages = m.setupIn := hm ▸ if_pos hpages
  have hsig : m.u32Signature = 1 := hm ▸ Device.u32Signature_setSignature
  have harg : m.u32Arg2 = d.u32Arg2 := hm ▸ Device.u32Arg2_setSignature
  have hbytes : m.bytesInPageBuf = pageSize := hm ▸ rfl
  have hm' : m.stray = d.stray ∧ m.programmed = d.programmed ∧ m.u8Cmd = d.u8Cmd :=
    hm ▸ ⟨rfl, rfl, rfl⟩
  rw [hread]
  refine h.given hw (hm'.1.trans hstray) nofun (hm'.2.1.trans hprog) (hm'.2.2.trans hcmd) nofun
    ⟨?_, Nat.le_trans (Nat.sub_le _ _) (Nat.le_of_eq hbytes), l.toRead, ?_, ?_⟩
  · show m.u32Signature ≤ m.u32Arg2
    rw [hsig, harg]
    bv_omega
  · show l.toRead + 1 + (m.u32Arg2.toNat - m.u32Signature.toNat) = _
    rw [hsig, harg]
    bv_omega
  · refine places_setupIn (Nat.le_of_eq hbytes) ?_
    have hplaces := (h.rested hr).2
    rw [hin, Option.toList_none, List.append_nil] at hplaces
    rw [hbytes, Nat.sub_self, hplaces]
    exact (List.append_nil _).symm

theorem Inv.command (h : Inv l) {bytes : List (BitVec 8)} {buf : OutBuf} (hw : ¬ l.dev.Writing)
    (hk : l.dev.CommandKept ((l.dev.receive bytes buf).copyCmd bytes.length) bytes.length) :
    Inv { l.count (l.dev.receive bytes buf) bytes with
      dev := (l.dev.receive bytes buf).getOutReport bytes.length } := by
  obtain ⟨hlen, hchecked, hknown, hbusy⟩ := hk
  have hr : ¬ l.dev.Reading := fun hr => (hbusy (h.reading hr).1).1 hr
  have hrec := received l.dev bytes buf
  have hw' : ¬ (l.dev.receive bytes buf).Writing := fun hw' => hw (by
    obtain ⟨hcmd, harg, hsig⟩ := hrec.fields
    exact ⟨hcmd.symm.trans hw'.1, by
      rw [← hsig, ← harg]
      exact hw'.2⟩)
  obtain ⟨n, hn⟩ : ∃ n, n = (l.dev.receive bytes buf).copyCmd bytes.length := ⟨_, rfl⟩
  have hstray : n.stray = false := by
    rw [hn]
    show ((l.dev.receive bytes buf).stray || decide (cmdSize < bytes.length)) = false
    rw [hrec.stray, h.inside, decide_eq_false (Nat.not_lt.mpr hlen)]
    rfl
  have hprog : n.programmed = l.dev.programmed := hn ▸ hrec.programmed
  have hplaces : places (l.sent ++ n.ep1In.toList) = pages l.toRead := by
    rw [show n.ep1In = l.dev.ep1In from hn ▸ hrec.ep1In]
    exact (h.rested hr).2
  have hbytes : n.bytesInPageBuf = 0 := hn ▸ hrec.bytes.trans (h.rested hr).1
  have hout {r : Device} (hrun : n.runCommand = some r) :
      (l.dev.receive bytes buf).getOutReport bytes.length = r.setupOut := by
    rw [Device.getOutReport, if_neg hw', processCommand_taken hchecked (hn ▸ hrun)]
  have hcount {r : Device} (hrun : n.runCommand = some r) :=
    h.count_command hw hchecked (hn ▸ hrun)
  rw [← hn] at hknown hbusy hcount
  have hnone : Inv { l with dev := (n.setCmd hidCmdNone).setupOut } :=
    h.after (w := 0) hw hplaces hstray nofun hprog
      (fun hr' => absurd hr'.1 (show hidCmdNone ≠ hidCmdRead by decide)) hbytes
      (fun hw' => absurd hw'.1 (show hidCmdNone ≠ hidCmdWrite by decide)) fun _ => rfl
  rcases hknown with hcmd | hcmd | hcmd | hcmd
  · have hrun : n.runCommand = some n.cmdEraseSectors := if_pos hcmd
    rw [hout hrun, hcount hrun, hcmd, if_neg (by decide), if_neg (by decide)]
    exact hnone
  · have hrun : n.runCommand = some n.cmdReadPages := by
      rw [Device.runCommand, hcmd, if_neg (by decide), if_pos rfl]
    rw [hout hrun, hcount hrun, hcmd, if_neg (by decide), if_pos rfl]
    by_cases hpages : n.u32Arg2 = 0
    · -- no page is read
      have hsame : n.cmdReadPages = n := if_neg fun hne => hne hpages
      rw [hsame, hpages]
      refine h.after (w := 0) hw hplaces hstray nofun hprog (fun hr' => hr'.2 ⟨?_, hbytes⟩) hbytes
        (fun hw' => absurd (hcmd.symm.trans hw'.1) (by decide)) fun _ => rfl
      show n.u32Arg2 ≤ n.u32Signature
      rw [hpages]
      exact Nat.zero_le _
    · have hfree : l.dev.ep1In = none := by
        by_contra hne
        exact hpages ((hbusy hne).2 hcmd)
      exact h.read hw hr hfree hstray hprog hcmd hpages
  · have hrun : n.runCommand = some n.cmdWritePages := by
      rw [Device.runCommand, hcmd, if_neg (by decide), if_neg (by decide), if_pos rfl]
    rw [hout hrun, hcount hrun, hcmd, if_pos rfl]
    have hsig : n.cmdWritePages.u32Signature = 0 := Device.u32Signature_setSignature
    have harg : n.cmdWritePages.u32Arg2 = n.u32Arg2 := Device.u32Arg2_setSignature
    refine h.after hw (d := n.cmdWritePages.setupOut) hplaces hstray nofun hprog
      (fun hr' => absurd (hcmd.symm.trans hr'.1) (by decide)) rfl (fun _ => ?_) fun hw' => ?_
    · show n.cmdWritePages.u32Arg2.toNat - n.cmdWritePages.u32Signature.toNat = _
      rw [hsig, harg]
      exact Nat.sub_zero _
    · have hle : ¬ n.cmdWritePages.u32Signature < n.cmdWritePages.u32Arg2 := fun hlt =>
        hw' ⟨hcmd, hlt⟩
      rw [hsig, harg] at hle
      bv_omega
  · have hrun : n.runCommand = some n.cmdTest := by
      rw [Device.runCommand, hcmd, if_neg (by decide), if_neg (by decide), if_neg (by decide),
        if_pos rfl]
    rw [hout hrun, hcount hrun, hcmd, if_neg (by decide), if_neg (by decide)]
    exact hnone

/-! ## A packet that was sent -/

theorem Inv.inDone (h : Inv l) {p : Nat × Nat} (hp : l.dev.ep1In = some p) :
    Inv { l with dev := { l.dev with ep1In := none }.setInReport, sent := l.sent ++ [p] } := by
  have hplaces : places (l.sent ++ [p]) = places (l.sent ++ l.dev.ep1In.toList) := by
    rw [hp]
    rfl
  have hlast (hr : ¬ l.dev.Reading) : places (l.sent ++ [p] ++ []) = pages l.toRead := by
    rw [List.append_nil, hplaces]
    exact (h.rested hr).2
  by_cases hnone : l.dev.u8Cmd = hidCmdNone
  · have hset : { l.dev with ep1In := none }.setInReport =
        { l.dev with ep1In := none }.setupOut := if_pos hnone
    have hr : ¬ l.dev.Reading := fun hr => absurd (hnone.symm.trans hr.1) (by decide)
    have hw : ¬ l.dev.Writing := fun hw => absurd (hnone.symm.trans hw.1) (by decide)
    rw [hset]
    exact h.after (w := 0) hw (hlast hr) h.inside nofun rfl hr (h.rested hr).1
      (fun hw' => absurd hw' hw) fun _ => rfl
  by_cases hread : l.dev.u8Cmd = hidCmdRead
  · have hw : ¬ l.dev.Writing := fun hw => absurd (hread.symm.trans hw.1) (by decide)
    by_cases hdone : l.dev.u32Arg2 ≤ l.dev.u32Signature ∧ l.dev.bytesInPageBuf = 0
    · have hset : { l.dev with ep1In := none }.setInReport =
          { l.dev with ep1In := none }.setCmd hidCmdNone :=
        (if_neg hnone).trans ((if_pos hread).trans (if_pos hdone))
      rw [hset]
      exact h.after (w := 0) hw (hlast fun hr => hr.2 hdone) h.inside h.armed rfl
        (fun hr => absurd hr.1 (show hidCmdNone ≠ hidCmdRead by decide)) hdone.2
        (fun hw' => absurd hw'.1 (show hidCmdNone ≠ hidCmdWrite by decide)) fun _ => rfl
    · have hset : { l.dev with ep1In := none }.setInReport =
          ({ l.dev with ep1In := none } : Device).nextPage.setupIn :=
        (if_neg hnone).trans ((if_pos hread).trans (if_neg hdone))
      obtain ⟨-, hle, hbytes, k, hk, hgiven⟩ := h.reading ⟨hread, hdone⟩
      rw [hset]
      obtain ⟨m, hm, hstray, hout, hprog, hcmd, hle', hbytes', k', hk', hgiven'⟩ :
          ∃ m, m = ({ l.dev with ep1In := none } : Device).nextPage ∧ m.stray = false ∧
            m.ep1Out ≠ none ∧ m.programmed = l.dev.programmed ∧ m.u8Cmd = hidCmdRead ∧
            m.u32Signature ≤ m.u32Arg2 ∧ m.bytesInPageBuf ≤ pageSize ∧
            ∃ k', k' + 1 + (m.u32Arg2.toNat - m.u32Signature.toNat) = l.toRead ∧
              places (l.sent ++ [p]) =
                pages k' ++ List.range' 0 (pageSize - m.bytesInPageBuf) := by
        rw [← hplaces] at hgiven
        by_cases hzero : l.dev.bytesInPageBuf = 0
        · -- the page was sent
          have hnext : ({ l.dev with ep1In := none } : Device).nextPage =
              { l.dev with ep1In := none, bytesInPageBuf := pageSize }.setSignature
                (l.dev.u32Signature + 1) := if_pos hzero
          have hlt : l.dev.u32Signature < l.dev.u32Arg2 :=
            BitVec.not_le.mp fun hge => hdone ⟨hge, hzero⟩
          refine ⟨_, hnext.symm, h.inside, h.armed, rfl, hread, ?_, Nat.le_refl _, k + 1, ?_, ?_⟩
          · rw [Device.u32Signature_setSignature, Device.u32Arg2_setSignature]
            show l.dev.u32Signature + 1 ≤ l.dev.u32Arg2
            bv_omega
          · rw [Device.u32Signature_setSignature, Device.u32Arg2_setSignature]
            show k + 1 + 1 + (l.dev.u32Arg2.toNat - (l.dev.u32Signature + 1).toNat) = _
            bv_omega
          · rw [hgiven, hzero, Nat.sub_zero, pages_succ]
            exact (List.append_nil _).symm
        · have hnext : ({ l.dev with ep1In := none } : Device).nextPage =
              { l.dev with ep1In := none } := if_neg hzero
          exact ⟨_, hnext.symm, h.inside, h.armed, rfl, hread, hle, hbytes, k, hk, hgiven⟩
      rw [← hm]
      exact h.given hw hstray hout hprog hcmd nofun
        ⟨hle', Nat.le_trans (Nat.sub_le _ _) hbytes', k', hk', places_setupIn hbytes' hgiven'⟩
  · have hset : { l.dev with ep1In := none }.setInReport = { l.dev with ep1In := none } :=
      (if_neg hnone).trans (if_neg hread)
    have hr : ¬ l.dev.Reading := fun hr => hread hr.1
    rw [hset]
    exact ⟨h.inside, h.armed, h.whole, h.programs, h.counts, h.writing, h.written,
      fun hr' => absurd hr' hr, fun _ => ⟨(h.rested hr).1, hlast hr⟩⟩

theorem Inv.step (h : Inv l) (hk : l.TransferKept e) (ht : step l e = some t) : Inv t := by
  cases e with
  | report bytes =>
    obtain ⟨o, ho, ht⟩ := Option.bind_eq_some_iff.mp ht
    obtain ⟨-, ht⟩ := Option.ite_none_right_eq_some.mp ht
    obtain rfl := Option.some.inj ht
    have hk := hk o ho
    by_cases hw : l.dev.Writing
    · rw [if_pos hw] at hk
      exact h.data hw hk
    · rw [if_neg hw] at hk
      exact h.command hw hk
  | inDone =>
    obtain ⟨p, hp, rfl⟩ := Option.map_eq_some_iff.mp ht
    exact h.inDone hp

/-- **The HID transfer device.** In every run whose steps meet the condition, the law holds in every
state reached. -/
theorem run_hidTransferLaw (speed : Speed) (es : List Event)
    (hkept : EachStep step TransferKept (start speed) es) :
    Always step TransferLaw (start speed) es :=
  (always_of_eachStep (P := Inv) (fun _ _ _ h hk ht => h.step hk ht) (inv_start speed) hkept).mono
    fun _ h => h.law

/-- A command for some pages, without the two bytes of its checksum -/
def command (cmd n : BitVec 8) (sum : List (BitVec 8)) : Event :=
  .report ([cmd, 14, 0, 0, 0, 0, n, 0, 0, 0, 0x48, 0x49, 0x44, 0x43] ++ sum)

/-- At high speed a page is written and two pages are read. -/
theorem run_hidTransferLaw_high : Always step TransferLaw (start .high)
    [command hidCmdWrite 1 [0xea, 0x01, 0, 0], .report (List.replicate 512 0x5a),
      command hidCmdRead 2 [0xfa, 0x01, 0, 0], .inDone, .inDone] :=
  run_hidTransferLaw .high _ (by decide +kernel)

/-- At full speed the first report of a page is the last one that is taken. -/
theorem not_hidTransferLaw_full : ¬ Always step TransferLaw (start .full)
    [command hidCmdWrite 1 [0xea, 0x01, 0, 0], .report (List.replicate 64 0x5a)] := by
  intro hlaw
  have hend : (run step (start .full) [command hidCmdWrite 1 [0xea, 0x01, 0, 0],
      .report (List.replicate 64 0x5a)]).map (fun l => (l.dev.ep1In, l.dev.ep1Out)) =
        some (none, none) := by decide
  obtain ⟨l, hl, hout⟩ := Option.map_eq_some_iff.mp hend
  obtain ⟨hin, hout⟩ := Prod.mk.inj hout
  exact (hlaw.last hl).armed (.inl hin) hout

end Link

end Ma35d1.UsbDevice.HidTransfer

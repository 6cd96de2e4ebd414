import Ma35d1.UsbDevice.Ep0

/-!
# Answers to a request

What the host may be told after a SETUP packet: data of the object that it asked for, a status, or
a stall. A request is answered when it is one of those that the device knows and asks for some of
the data.
-/

namespace Ma35d1.UsbDevice

def Ep0.stalled (s : Ep0) : Bool := s.inStall 0 || s.outStall 0

/-- The request has data for the host. -/
def UsbCmd.inData (cmd : UsbCmd) : Bool := cmd.isIn && cmd.wLength != 0

/-! ## What an answer is -/

/-- The object that a standard request names. -/
def Names (cmd : UsbCmd) (highSpeed : Bool) (obj : Obj) : Prop :=
  match cmd.bRequest.toNat with
  | 0x08 => obj = .usbConfig
  | 0x0a => obj = .usbAltInterface
  | 0x00 => obj = .buf
  | _ =>
    match ((cmd.wValue &&& 0xff00) >>> 8).toNat with
    | 0x01 => obj = .devDesc
    | 0x02 => obj = if highSpeed then .configDesc else .fullConfigDesc
    | 0x06 => obj = .qualDesc
    | 0x07 => obj = if highSpeed then .hsOtherConfigDesc else .fsOtherConfigDesc
    | 0x21 => obj = .configDesc
    | 0x22 => obj = .hidReportDesc (cmd.wIndex &&& 0xff).toNat
    | _ => obj = .stringDesc (cmd.wValue &&& 0xff).toNat

/-- An IN data stage of at most `wLength` bytes, inside the object that the request names. -/
structure DataIn (info : Info) (cmd : UsbCmd) (s : Ep0) : Prop where
  state : s.gEp0State = .waitForComplete
  stall : s.stalled = false
  fault : s.fault = false
  data : ∃ d, s.inDesc = some d ∧ d.len ≤ cmd.wLength.toNat ∧ d.off + d.len ≤ info.size d.obj ∧
    (cmd.bmRequestType &&& 0x60 = 0 → Names cmd s.highSpeed d.obj)

/-- A status of length 0 to the host. -/
structure ZeroIn (s : Ep0) : Prop where
  state : s.gEp0State = .waitForInComplete
  stall : s.stalled = false
  fault : s.fault = false
  data : ∃ obj off, s.inDesc = some ⟨obj, off, 0⟩

/-- A stall, with the endpoint ready for the next SETUP packet. -/
structure Stalled (s : Ep0) : Prop where
  state : s.gEp0State = .waitForSetup
  stall : s.stalled = true
  fault : s.fault = false
  out : s.out = some .setup

/-- The request has exactly one answer. -/
def Answered (info : Info) (cmd : UsbCmd) (s : Ep0) : Prop :=
  (DataIn info cmd s ∧ ¬ ZeroIn s ∧ ¬ Stalled s) ∨ (¬ DataIn info cmd s ∧ ZeroIn s ∧ ¬ Stalled s) ∨
    (¬ DataIn info cmd s ∧ ¬ ZeroIn s ∧ Stalled s)

/-- The descriptors are as long as they say, and the tables of a device agree. -/
structure InfoOk (info : Info) : Prop where
  devDesc : 18 ≤ info.devDesc.length
  qualDesc : 10 ≤ info.qualDesc.length
  config : ∀ desc ∈ [info.configDesc, info.fullConfigDesc, info.hsOtherConfigDesc,
    info.fsOtherConfigDesc], 9 ≤ desc.length ∧
      (desc.getD 2 0).toNat + (desc.getD 3 0).toNat * 2 ^ 8 ≤ desc.length
  strings : ∀ desc ∈ info.stringDesc, desc ≠ [] ∧ (desc.getD 0 0).toNat ≤ desc.length
  reports : info.hidReportSize.length = info.hidReportDesc.length ∧
    ∀ i < info.hidReportSize.length,
      info.hidReportSize.getD i 0 ≤ (info.hidReportDesc.getD i []).length
  hids : ∀ off ∈ info.configHidDescIdx, off + 9 ≤ info.configDesc.length

/-- The callback answers as `MSC_ClassRequest` does: data if the host takes some, a zero-length
status if it does not, or a stall. -/
def Proper (info : Info) (cmd : UsbCmd) (s : Ep0) : Prop :=
  (DataIn info cmd s ∧ cmd.inData = true) ∨ (ZeroIn s ∧ cmd.inData = false) ∨ Stalled s

/-- The descriptor asked for is one that the device has, or that it says it has not, and some of
it is asked for. -/
def DescriptorHeld (info : Info) (cmd : UsbCmd) : Prop :=
  match ((cmd.wValue &&& 0xff00) >>> 8).toNat with
  | 0x01 | 0x02 | 0x06 | 0x07 => cmd.wLength ≠ 0
  | 0x21 => cmd.wLength ≠ 0 ∧ (cmd.wIndex &&& 0xff).toNat < info.configHidDescIdx.length
  | 0x22 => cmd.wLength ≠ 0 ∧ (cmd.wIndex &&& 0xff).toNat < info.hidReportSize.length
  | 0x03 => (cmd.wValue &&& 0xff).toNat < 8 →
    cmd.wLength ≠ 0 ∧ (cmd.wValue &&& 0xff).toNat < info.stringDesc.length
  | _ => True

/-- When the device answers a request and comes back from the transfer. -/
def RequestKept (info : Info) (cb : Callbacks) (s : Ep0) (cmd : UsbCmd) : Prop :=
  match (cmd.bmRequestType &&& 0x60).toNat with
  | 0x00 =>
    if cmd.isIn then
      match cmd.bRequest.toNat with
      | 0x08 | 0x0a => cmd.wLength ≠ 0
      | 0x06 => DescriptorHeld info cmd
      | 0x00 => 2 ≤ cmd.wLength.toNat
      | _ => True
    else
      match cmd.bRequest.toNat with
      | 0x05 => cmd.bmRequestType = 0
      | 0x0b => ∀ f ∈ cb.setInterface, ∀ t, t.stalled = false → t.fault = false →
        (f (cmd.wValue.setWidth 8) t).stalled = false ∧ (f (cmd.wValue.setWidth 8) t).fault = false
      | _ => True
  | 0x20 => ∃ f ∈ cb.classReq, Proper info cmd (f cmd s)
  | 0x40 => ∃ f ∈ cb.vendorReq, Proper info cmd (f cmd s)
  | _ => True

/-! ## Every request has one -/

section Answers

variable {info : Info} {cb : Callbacks} {s : Ep0} {cmd : UsbCmd} {obj : Obj} {off len : Nat}
  {value : BitVec 16}

theorem prepareCtrlIn_dataIn (hs : s.stalled = false) (hf : s.fault = false)
    (hlen : len ≤ cmd.wLength.toNat) (hsize : off + len ≤ info.size obj)
    (hname : cmd.bmRequestType &&& 0x60 = 0 → Names cmd s.highSpeed obj) :
    DataIn info cmd (s.prepareCtrlIn obj off len) :=
  ⟨rfl, hs, hf, _, rfl, hlen, hsize, hname⟩

theorem sendZero_zeroIn (hs : s.stalled = false) (hf : s.fault = false) : ZeroIn s.sendZero :=
  ⟨rfl, hs, hf, _, _, rfl⟩

/-- A stall of endpoint 0 leaves it ready for a SETUP packet. -/
theorem setStall_stalled (hf : s.fault = false) (hv : value &&& 0xf = 0) :
    Stalled (s.setStall value) := by
  have hn : (value &&& 0xf).toNat = 0 := by rw [hv]; rfl
  unfold Ep0.setStall
  rw [hn]
  simp only [if_true]
  split
  · exact ⟨rfl, by simp [Ep0.stalled, Ep0.preSetup], hf, rfl⟩
  split
  · exact ⟨rfl, by simp [Ep0.stalled, Ep0.preSetup], hf, rfl⟩
  · exact ⟨rfl, by simp [Ep0.stalled, Ep0.preSetup], hf, rfl⟩

/-- A stall of another endpoint. -/
theorem setStall_other (hv : value &&& 0xf ≠ 0) :
    (s.setStall value).stalled = s.stalled ∧ (s.setStall value).fault = s.fault := by
  have hn : (value &&& 0xf).toNat ≠ 0 := by
    intro h
    exact hv (BitVec.eq_of_toNat_eq h)
  unfold Ep0.setStall
  generalize (value &&& 0xf).toNat = n at hn
  simp only [if_neg hn]
  split
  · exact ⟨by simp [Ep0.stalled, Function.update_of_ne hn.symm], rfl⟩
  split
  · exact ⟨by simp [Ep0.stalled, Function.update_of_ne hn.symm], rfl⟩
  · exact ⟨by simp [Ep0.stalled, Function.update_of_ne hn.symm], rfl⟩

theorem update_false {f : Nat → Bool} (h : f 0 = false) (n : Nat) :
    Function.update f n false 0 = false := by
  by_cases hn : 0 = n
  · rw [hn, Function.update_self]
  · rw [Function.update_of_ne hn, h]

theorem clearStall_stalled (hs : s.stalled = false) : (s.clearStall value).stalled = false := by
  unfold Ep0.stalled at hs ⊢
  rw [Bool.or_eq_false_iff] at hs ⊢
  unfold Ep0.clearStall
  simp only
  split
  · exact ⟨update_false hs.1 _, hs.2⟩
  · exact ⟨hs.1, update_false hs.2 _⟩

theorem clearStall_fault : (s.clearStall value).fault = s.fault := by
  unfold Ep0.clearStall
  split <;> rfl

/-- A configuration descriptor is sent up to the length it gives. -/
theorem configIn_dataIn {desc : List (BitVec 8)} (hs : s.stalled = false) (hf : s.fault = false)
    (hdesc : 9 ≤ desc.length ∧
      (desc.getD 2 0).toNat + (desc.getD 3 0).toNat * 2 ^ 8 ≤ desc.length)
    (hsize : info.size obj = desc.length)
    (hname : cmd.bmRequestType &&& 0x60 = 0 → Names cmd s.highSpeed obj) :
    DataIn info cmd (s.configIn cmd obj desc) := by
  obtain ⟨hlong, htotal⟩ := hdesc
  have hlo : desc[2]? = some (desc.getD 2 0) := by
    rw [List.getD_eq_getElem?_getD, List.getElem?_eq_getElem (by omega), Option.getD_some]
  have hhi : desc[3]? = some (desc.getD 3 0) := by
    rw [List.getD_eq_getElem?_getD, List.getElem?_eq_getElem (by omega), Option.getD_some]
  unfold Ep0.configIn
  rw [hlo, hhi]
  refine prepareCtrlIn_dataIn hs hf (Nat.min_le_left _ _) ?_ hname
  rw [hsize, Nat.zero_add]
  exact (Nat.min_le_right _ _).trans htotal

theorem getStatus_dataIn (hinfo : InfoOk info) (hs : s.stalled = false) (hf : s.fault = false)
    (hlen : 2 ≤ cmd.wLength.toNat) (hreq : cmd.bRequest.toNat = 0x00) :
    DataIn info cmd (s.getStatus info cmd) := by
  have hname : ∀ hs, cmd.bmRequestType &&& 0x60 = 0 → Names cmd hs .buf := by
    intro _ _
    simp only [Names, hreq]
  have hsize : 0 + 2 ≤ info.size .buf := show 0 + 2 ≤ 4 by decide
  obtain ⟨hlong, -⟩ := hinfo.config info.configDesc (by simp)
  unfold Ep0.getStatus
  split
  · rw [List.getElem?_eq_getElem (show 7 < info.configDesc.length by omega)]
    exact prepareCtrlIn_dataIn hs hf hlen hsize (hname _)
  split
  · exact prepareCtrlIn_dataIn hs hf hlen hsize (hname _)
  split
  · exact prepareCtrlIn_dataIn hs hf hlen hsize (hname _)
  · exact prepareCtrlIn_dataIn hs hf hlen hsize (hname _)

/-- A descriptor that the device has is sent, and any other is refused. -/
theorem getDescriptor_answer (hinfo : InfoOk info) (hs : s.stalled = false) (hf : s.fault = false)
    (hreq : cmd.bRequest.toNat = 0x06) (hk : DescriptorHeld info cmd) :
    (DataIn info cmd (s.getDescriptor info cmd) ∧ cmd.wLength ≠ 0) ∨
      Stalled (s.getDescriptor info cmd) := by
  unfold DescriptorHeld at hk
  unfold Ep0.getDescriptor
  simp only
  split <;> rename_i htype <;> simp only [htype] at hk
  · refine .inl ⟨prepareCtrlIn_dataIn hs hf (Nat.min_le_left _ _) ?_ fun _ => ?_, hk⟩
    · rw [Nat.zero_add]
      exact (Nat.min_le_right _ _).trans hinfo.devDesc
    · simp only [Names, hreq, htype]
  · refine .inl ⟨?_, hk⟩
    split <;> rename_i hspeed
    · refine configIn_dataIn hs hf (hinfo.config _ (by simp)) rfl fun _ => ?_
      simp only [Names, hreq, htype, hspeed, if_true]
    · refine configIn_dataIn hs hf (hinfo.config _ (by simp)) rfl fun _ => ?_
      simp only [Names, hreq, htype, if_neg hspeed]
  · refine .inl ⟨prepareCtrlIn_dataIn hs hf (Nat.min_le_left _ _) ?_ fun _ => ?_, hk⟩
    · rw [Nat.zero_add]
      exact (Nat.min_le_right _ _).trans hinfo.qualDesc
    · simp only [Names, hreq, htype]
  · refine .inl ⟨?_, hk⟩
    split <;> rename_i hspeed
    · refine configIn_dataIn hs hf (hinfo.config _ (by simp)) rfl fun _ => ?_
      simp only [Names, hreq, htype, hspeed, if_true]
    · refine configIn_dataIn hs hf (hinfo.config _ (by simp)) rfl fun _ => ?_
      simp only [Names, hreq, htype, if_neg hspeed]
  · obtain ⟨hlen, hi⟩ := hk
    rw [List.getElem?_eq_getElem hi]
    refine .inl ⟨prepareCtrlIn_dataIn hs hf (Nat.min_le_left _ _) ?_ fun _ => ?_, hlen⟩
    · have hoff := hinfo.hids _ (List.getElem_mem hi)
      exact (Nat.add_le_add_left (Nat.min_le_right _ _) _).trans hoff
    · simp only [Names, hreq, htype]
  · obtain ⟨hlen, hi⟩ := hk
    obtain ⟨hsame, hreports⟩ := hinfo.reports
    rw [List.getElem?_eq_getElem hi, List.getElem?_eq_getElem (hsame ▸ hi)]
    refine .inl ⟨prepareCtrlIn_dataIn hs hf (Nat.min_le_left _ _) ?_ fun _ => ?_, hlen⟩
    · have hreport := hreports _ hi
      rw [List.getD_eq_getElem?_getD, List.getElem?_eq_getElem hi, Option.getD_some] at hreport
      rw [Nat.zero_add]
      exact (Nat.min_le_right _ _).trans hreport
    · simp only [Names, hreq, htype]
  · split
    · rename_i hlt
      obtain ⟨hlen, hi⟩ := hk hlt
      obtain ⟨hne, hlong⟩ := hinfo.strings _ (List.getElem_mem hi)
      have hpos := List.length_pos_iff.mpr hne
      rw [List.getElem?_eq_getElem hi, Option.bind_some, List.getElem?_eq_getElem hpos]
      refine .inl ⟨prepareCtrlIn_dataIn hs hf (Nat.min_le_left _ _) ?_ fun _ => ?_, hlen⟩
      · rw [List.getD_eq_getElem?_getD, List.getElem?_eq_getElem hpos, Option.getD_some] at hlong
        rw [Nat.zero_add, Info.size, List.getD_eq_getElem?_getD, List.getElem?_eq_getElem hi,
          Option.getD_some]
        exact (Nat.min_le_right _ _).trans hlong
      · simp only [Names, hreq, htype]
    · exact .inr (setStall_stalled hf rfl)
  · exact .inr (setStall_stalled hf rfl)

theorem clearFeature_answer (hs : s.stalled = false) (hf : s.fault = false) :
    ZeroIn (s.clearFeature cmd) ∨ Stalled (s.clearFeature cmd) := by
  unfold Ep0.clearFeature
  split
  · simp only
    split
    · rename_i hep
      exact .inr (setStall_stalled hf hep)
    split
    · exact .inl (sendZero_zeroIn (clearStall_stalled hs) (clearStall_fault.trans hf))
    · exact .inl (sendZero_zeroIn hs hf)
  split
  · exact .inl (sendZero_zeroIn hs hf)
  · exact .inl (sendZero_zeroIn hs hf)

theorem setFeatureRest_zeroIn (hs : s.stalled = false) (hf : s.fault = false) :
    ZeroIn (s.setFeatureRest cmd) := by
  unfold Ep0.setFeatureRest
  simp only
  split <;> split <;> exact sendZero_zeroIn hs hf

theorem setFeature_answer (hs : s.stalled = false) (hf : s.fault = false) :
    ZeroIn (s.setFeature cmd) ∨ Stalled (s.setFeature cmd) := by
  unfold Ep0.setFeature
  split
  · split
    · rename_i hep
      exact .inr (setStall_stalled hf hep)
    · rename_i hep
      obtain ⟨hstall, hfault⟩ := setStall_other (s := s) hep
      exact .inl (setFeatureRest_zeroIn (hstall.trans hs) (hfault.trans hf))
  · exact .inl (setFeatureRest_zeroIn hs hf)

theorem setInterface_zeroIn (hs : s.stalled = false) (hf : s.fault = false)
    (hk : ∀ f ∈ cb.setInterface, ∀ t, t.stalled = false → t.fault = false →
      (f (cmd.wValue.setWidth 8) t).stalled = false ∧ (f (cmd.wValue.setWidth 8) t).fault = false) :
    ZeroIn (s.setInterface cb cmd) := by
  unfold Ep0.setInterface
  cases hcb : cb.setInterface with
  | none => exact sendZero_zeroIn hs hf
  | some f =>
    exact sendZero_zeroIn (hk f hcb _ (by exact hs) (by exact hf)).1
      (hk f hcb _ (by exact hs) (by exact hf)).2

/-- A standard request is answered when the condition on it holds. -/
theorem standardRequest_proper (hinfo : InfoOk info) (hs : s.stalled = false)
    (hf : s.fault = false) (htype : (cmd.bmRequestType &&& 0x60).toNat = 0x00)
    (hk : RequestKept info cb s cmd) : Proper info cmd (s.standardRequest info cb cmd) := by
  unfold RequestKept at hk
  simp only [htype] at hk
  have hdata : ∀ t, cmd.isIn = true → cmd.wLength ≠ 0 → DataIn info cmd t → Proper info cmd t := by
    intro t hin hlen ht
    refine .inl ⟨ht, ?_⟩
    rw [UsbCmd.inData, hin, Bool.true_and]
    exact bne_iff_ne.mpr hlen
  have hzero : ∀ t, ¬ cmd.isIn = true → ZeroIn t ∨ Stalled t → Proper info cmd t := by
    rintro t hout (ht | ht)
    · refine .inr (.inl ⟨ht, ?_⟩)
      rw [UsbCmd.inData, Bool.eq_false_iff.mpr hout, Bool.false_and]
    · exact .inr (.inr ht)
  unfold Ep0.standardRequest
  split
  · rename_i hin
    rw [if_pos hin] at hk
    split <;> rename_i hreq <;> simp only [hreq] at hk
    · refine hdata _ hin hk (prepareCtrlIn_dataIn hs hf ?_ (show 0 + 1 ≤ 4 by decide) fun _ => ?_)
      · exact Nat.pos_of_ne_zero fun h => hk (BitVec.eq_of_toNat_eq h)
      · simp only [Names, hreq]
    · obtain ⟨ht, hlen⟩ | ht := getDescriptor_answer hinfo hs hf hreq hk
      · exact hdata _ hin hlen ht
      · exact .inr (.inr ht)
    · refine hdata _ hin hk (prepareCtrlIn_dataIn hs hf ?_ (show 0 + 1 ≤ 4 by decide) fun _ => ?_)
      · exact Nat.pos_of_ne_zero fun h => hk (BitVec.eq_of_toNat_eq h)
      · simp only [Names, hreq]
    · refine hdata _ hin (fun h => ?_) (getStatus_dataIn hinfo hs hf hk hreq)
      rw [h] at hk
      exact absurd hk (by decide)
    · exact .inr (.inr (setStall_stalled hf rfl))
  · rename_i hout
    rw [if_neg hout] at hk
    split <;> rename_i hreq <;> simp only [hreq] at hk
    · exact hzero _ hout (clearFeature_answer hs hf)
    · rw [if_neg (not_not.mpr hk)]
      exact hzero _ hout (.inl (sendZero_zeroIn hs hf))
    · exact hzero _ hout (.inl (sendZero_zeroIn hs hf))
    · exact hzero _ hout (setFeature_answer hs hf)
    · exact hzero _ hout (.inl (setInterface_zeroIn hs hf hk))
    · exact .inr (.inr (setStall_stalled hf rfl))

/-- So is every request. -/
theorem processSetupPacket_proper (hinfo : InfoOk info) (hs : s.stalled = false)
    (hf : s.fault = false) (hk : RequestKept info cb s cmd) :
    Proper info cmd (s.processSetupPacket info cb cmd) := by
  have hkept := hk
  unfold RequestKept at hk
  unfold Ep0.processSetupPacket
  split <;> rename_i htype <;> simp only [htype] at hk
  · exact standardRequest_proper hinfo hs hf htype hkept
  · obtain ⟨f, hf', ht⟩ := hk
    rw [Option.mem_def.mp hf']
    exact ht
  · obtain ⟨f, hf', ht⟩ := hk
    rw [Option.mem_def.mp hf']
    exact ht
  · exact .inr (.inr (setStall_stalled hf rfl))

/-- A proper answer is the only one. -/
theorem Proper.answered (h : Proper info cmd s) : Answered info cmd s := by
  obtain ⟨ht, -⟩ | ⟨ht, -⟩ | ht := h
  · refine .inl ⟨ht, fun hz => ?_, fun hz => ?_⟩
    · exact absurd (ht.state.symm.trans hz.state) (by decide)
    · exact absurd (ht.state.symm.trans hz.state) (by decide)
  · refine .inr (.inl ⟨fun hz => ?_, ht, fun hz => ?_⟩)
    · exact absurd (ht.state.symm.trans hz.state) (by decide)
    · exact absurd (ht.state.symm.trans hz.state) (by decide)
  · refine .inr (.inr ⟨fun hz => ?_, fun hz => ?_, ht⟩)
    · exact absurd (ht.state.symm.trans hz.state) (by decide)
    · exact absurd (ht.state.symm.trans hz.state) (by decide)

/-- With XferCompl or without, the handler of a SETUP packet does no more than answer it. -/
theorem outIrq_setup (hs : s.gEp0State = .waitForSetup) (xferCompl : Bool)
    (h : Proper info cmd (s.processSetupPacket info cb cmd)) :
    s.outIrq info cb (some cmd) xferCompl = s.processSetupPacket info cb cmd := by
  have hstate : (s.processSetupPacket info cb cmd).gEp0State ≠ .waitForOutComplete ∧
      (s.processSetupPacket info cb cmd).gEp0State ≠ .dataStateRecv := by
    obtain ⟨ht, -⟩ | ⟨ht, -⟩ | ht := h <;> rw [ht.state] <;> decide
  unfold Ep0.outIrq
  simp only [if_pos hs]
  split
  · rw [if_pos hstate.1, Ep0.completeRx, if_neg hstate.2]
  · rfl

end Answers

end Ma35d1.UsbDevice

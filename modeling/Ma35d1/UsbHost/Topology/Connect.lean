import Ma35d1.UsbHost.Topology.Teardown

/-!
# Connecting

A device that is connected is put in front of the list and its interfaces are bound, or it is given
up. What that leaves of the list, of the addresses and of the DMA pool does not depend on the hubs.
-/

namespace Ma35d1.UsbHost.Topology

namespace Usb

variable {s t u : Usb} {id a b : Nat} {d x y : Udev} {k : Slot} {p : Probe} {ps : List Probe}

/-! ## The interfaces of a device -/

/-- What `hub_probe` reads of a device is what it was connected with. -/
structure Kin (x d : Udev) : Prop where
  id : x.id = d.id
  parent : x.parent = d.parent
  portNum : x.portNum = d.portNum
  speed : x.speed = d.speed
  hcDriver : x.hcDriver = d.hcDriver

theorem Kin.refl (d : Udev) : Kin d d := ⟨rfl, rfl, rfl, rfl, rfl⟩

theorem hubProbe_ok {ports : BitVec 8} (h : s.hubProbe d a ports k = .ok t) :
    t = s.setHub k ⟨a, d.id, s.posIdAt d.parent d.portNum, ports⟩ := by
  unfold hubProbe at h
  split at h
  · exact (Except.ok.inj h).symm
  · cases h

/-- What `hub_probe` does, and what the other drivers do -/
theorem probe_ok (h : s.probe d p = .ok t) : t = s ∨
    (∃ a, p = .bound a ∧ a ∉ s.liveIfaces ∧ t = s.addIface d.id ⟨a, false⟩) ∨
    (∃ a ports k, p = .hub a ports ∧ a ∉ s.liveIfaces ∧ s.allocHubDevice = some k ∧
      t = (s.setHub k ⟨a, d.id, s.posIdAt d.parent d.portNum, ports⟩).addIface d.id ⟨a, true⟩) ∨
    ∃ a k, p = .hubFails a ∧ a ∉ s.liveIfaces ∧ s.allocHubDevice = some k ∧
      t = (s.setHub k ⟨a, d.id, s.posIdAt d.parent d.portNum, 0⟩).freeHubDevice k := by
  cases p with
  | unbound => exact .inl (Except.ok.inj h).symm
  | bound a =>
    simp only [probe] at h
    split at h
    · cases h
    · exact .inr (.inl ⟨a, rfl, ‹_›, (Except.ok.inj h).symm⟩)
  | hub a ports =>
    simp only [probe] at h
    split at h
    · cases h
    · cases hk : s.allocHubDevice with
      | none => exact .inl (Except.ok.inj (hk ▸ h)).symm
      | some k =>
        simp only [hk] at h
        obtain ⟨u, hu, h⟩ := Except.bind_ok.mp h
        obtain rfl := hubProbe_ok hu
        exact .inr (.inr (.inl ⟨a, ports, k, rfl, ‹_›, rfl, (Except.ok.inj h).symm⟩))
  | hubFails a =>
    simp only [probe] at h
    split at h
    · cases h
    · cases hk : s.allocHubDevice with
      | none => exact .inl (Except.ok.inj (hk ▸ h)).symm
      | some k =>
        simp only [hk] at h
        obtain ⟨u, hu, h⟩ := Except.bind_ok.mp h
        obtain rfl := hubProbe_ok hu
        exact .inr (.inr (.inr ⟨a, k, rfl, ‹_›, rfl, (Except.ok.inj h).symm⟩))

/-! ## The list of devices -/

/-- A write to the device in front leaves the others alone. -/
theorem update_cons {l : List Udev} {f : Udev → Udev} (hlist : s.gUdevList = x :: l)
    (hx : x.id = id) (hnew : id ∉ l.map Udev.id) : (s.update id f).gUdevList = f x :: l := by
  show s.gUdevList.map _ = _
  rw [hlist, List.map_cons, if_pos hx]
  refine congrArg _ ((List.map_congr_left fun y hy => if_neg fun he => ?_).trans (List.map_id' l))
  exact hnew (he ▸ List.mem_map_of_mem hy)

theorem probe_list {l : List Udev} (hlist : s.gUdevList = x :: l) (hkin : Kin x d)
    (hnew : d.id ∉ l.map Udev.id) (h : s.probe d p = .ok t) :
    ∃ y, t.gUdevList = y :: l ∧ Kin y d ∧ y.devNum = x.devNum ∧ y.cfdBuff = x.cfdBuff := by
  have hadd (v : Usb) (i : Iface) (hv : v.gUdevList = s.gUdevList) :
      ∃ y, (v.addIface d.id i).gUdevList = y :: l ∧ Kin y d ∧ y.devNum = x.devNum ∧
        y.cfdBuff = x.cfdBuff :=
    ⟨_, update_cons (hv.trans hlist) hkin.id hnew,
      ⟨hkin.id, hkin.parent, hkin.portNum, hkin.speed, hkin.hcDriver⟩, rfl, rfl⟩
  rcases probe_ok h with rfl | ⟨a, -, -, rfl⟩ | ⟨a, ports, k, -, -, -, rfl⟩ | ⟨a, k, -, -, -, rfl⟩
  · exact ⟨x, hlist, hkin, rfl, rfl⟩
  · exact hadd s _ rfl
  · exact hadd _ _ rfl
  · exact ⟨x, hlist, hkin, rfl, rfl⟩

theorem parseConfiguration_list {l : List Udev} (hlist : s.gUdevList = x :: l) (hkin : Kin x d)
    (hnew : d.id ∉ l.map Udev.id) (h : Usb.parseConfiguration d s ps = .ok t) :
    ∃ y, t.gUdevList = y :: l ∧ Kin y d ∧ y.devNum = x.devNum ∧ y.cfdBuff = x.cfdBuff := by
  induction ps generalizing s x with
  | nil =>
    obtain rfl := Except.ok.inj h
    exact ⟨x, hlist, hkin, rfl, rfl⟩
  | cons p ps ih =>
    obtain ⟨u, hu, h⟩ := Except.bind_ok.mp h
    obtain ⟨y, hy, hykin, hnum, hcfd⟩ := probe_list hlist hkin hnew hu
    obtain ⟨z, hz, hzkin, hznum, hzcfd⟩ := ih hy hykin h
    exact ⟨z, hz, hzkin, hznum.trans hnum, hzcfd.trans hcfd⟩

/-! ## `connect_device` -/

/-- The addresses and the rest of the memory are the same. -/
structure SameRest (s t : Usb) : Prop where
  pool : t.devAddrPool = s.devAddrPool
  addr : t.deviceAddr = s.deviceAddr
  others : t.others = s.others

theorem SameRest.trans (h₁ : SameRest s t) (h₂ : SameRest t u) : SameRest s u :=
  ⟨h₂.pool.trans h₁.pool, h₂.addr.trans h₁.addr, h₂.others.trans h₁.others⟩

theorem probe_rest (h : s.probe d p = .ok t) : SameRest s t := by
  rcases probe_ok h with rfl | ⟨a, -, -, rfl⟩ | ⟨a, ports, k, -, -, -, rfl⟩ |
    ⟨a, k, -, -, -, rfl⟩ <;>
  exact ⟨rfl, rfl, rfl⟩

theorem parseConfiguration_rest (h : Usb.parseConfiguration d s ps = .ok t) : SameRest s t := by
  induction ps generalizing s with
  | nil =>
    obtain rfl := Except.ok.inj h
    exact ⟨rfl, rfl, rfl⟩
  | cons p ps ih =>
    obtain ⟨u, hu, h⟩ := Except.bind_ok.mp h
    exact (probe_rest hu).trans (ih h)

theorem allocDevAddress_ok (h : s.allocDevAddress = .ok (a, t)) :
    searchAddr s.devAddrPool 128 (nextAddr s.deviceAddr) = some a ∧
      t = { s with devAddrPool := Function.update s.devAddrPool a true, deviceAddr := a } := by
  unfold allocDevAddress at h
  split at h
  · cases h
  · rename_i hs
    obtain ⟨rfl, rfl⟩ := Prod.mk.inj (Except.ok.inj h)
    exact ⟨hs, rfl⟩

/-- The device in front is given up: `free_dev_address` is left to do. -/
def GivesUp (s : Usb) (d : Udev) (l : List Udev) (u : Usb) : Prop :=
  ∃ x, u.gUdevList = x :: l ∧ Kin x d ∧ u.gHubDev = s.gHubDev ∧ SameRest s u

/-- The interfaces of the device in front are bound, from `v` on. -/
structure Parses (s : Usb) (d : Udev) (l : List Udev) (a : Nat) (v : Usb) (x : Udev) : Prop where
  list : v.gUdevList = x :: l
  kin : Kin x d
  devNum : x.devNum = a
  cfdBuff : x.cfdBuff = true
  ifaceList : x.ifaceList = d.ifaceList
  hubs : v.gHubDev = s.gHubDev
  rest : SameRest s v

theorem connectDevice_ok {l : List Udev} {c : Enumeration} {ok : Bool}
    (hlist : s.gUdevList = d :: l) (hnew : d.id ∉ l.map Udev.id)
    (h : s.connectDevice d c = .ok (ok, t)) :
    ∃ a v, s.allocDevAddress = .ok (a, v) ∧
      ((ok = false ∧ ∃ u, GivesUp v d l u ∧ t = u.freeDevAddress a) ∨
        ∃ ps w x u, c = .parsed ps ok ∧ Parses v d l a w x ∧ x.units + w.others +
            (l.map Udev.units).sum ≤ dmaUnits ∧ Usb.parseConfiguration d w ps = .ok u ∧
          t = if ok then u else u.freeDevAddress a) := by
  unfold connectDevice at h
  obtain ⟨⟨a, v⟩, hv, h⟩ := Except.bind_ok.mp h
  refine ⟨a, v, hv, ?_⟩
  have hvl : v.gUdevList = d :: l := by
    obtain ⟨-, rfl⟩ := allocDevAddress_ok hv
    exact hlist
  have hnum := update_cons (f := fun d => { d with devNum := a }) hvl rfl hnew
  have hcfd := update_cons (f := fun d => { d with cfdBuff := true }) hnum rfl hnew
  simp only at h
  split at h
  · obtain ⟨rfl, rfl⟩ := Prod.mk.inj (Except.ok.inj h)
    exact .inl ⟨rfl, v, ⟨d, hvl, .refl d, rfl, rfl, rfl, rfl⟩, rfl⟩
  · split at h
    · obtain ⟨rfl, rfl⟩ := Prod.mk.inj (Except.ok.inj h)
      exact .inl ⟨rfl, _, ⟨_, hnum, ⟨rfl, rfl, rfl, rfl, rfl⟩, rfl, rfl, rfl, rfl⟩, rfl⟩
    · rename_i hroom
      cases c with
      | parsed ps ok' =>
        obtain ⟨u, hu, h⟩ := Except.bind_ok.mp h
        have hcase : ok = ok' ∧ t = if ok' then u else u.freeDevAddress a := by
          cases ok' <;> obtain ⟨rfl, rfl⟩ := Prod.mk.inj (Except.ok.inj h) <;> exact ⟨rfl, rfl⟩
        obtain ⟨rfl, rfl⟩ := hcase
        refine .inr ⟨ps, _, _, u, rfl, ⟨hcfd, ⟨rfl, rfl, rfl, rfl, rfl⟩, rfl, rfl, rfl, rfl,
          rfl, rfl, rfl⟩, ?_, hu, rfl⟩
        have hfits := (not_not.mp (not_or.mp (not_or.mp hroom).2).2)
        unfold HasRoom dmaUsed at hfits
        rw [hnum, List.map_cons, List.sum_cons] at hfits
        simp only [Udev.units, if_true] at hfits ⊢
        change v.others + _ + _ ≤ _ at hfits
        show _ + v.others + _ ≤ _
        omega
      | _ =>
        obtain ⟨rfl, rfl⟩ := Prod.mk.inj (Except.ok.inj h)
        exact .inl ⟨rfl, _, ⟨_, hcfd, ⟨rfl, rfl, rfl, rfl, rfl⟩, rfl, rfl, rfl, rfl⟩, rfl⟩

/-! ## A device is connected -/

theorem device_none_iff : s.device id = none ↔ id ∉ s.ids := by
  unfold device ids
  rw [List.find?_eq_none]
  simp

theorem freeDevAddress_rest (s : Usb) (a) : (s.freeDevAddress a).others = s.others ∧
    (s.freeDevAddress a).deviceAddr = s.deviceAddr := by
  unfold freeDevAddress
  split <;> exact ⟨rfl, rfl⟩

/-- The device that `connect_device` has failed for is taken from the front. -/
theorem freeDevice_cons {l : List Udev} (hlist : s.gUdevList = x :: l) (hid : x.id = id) :
    (s.freeDevice id).gUdevList = l := by
  show s.gUdevList.eraseP _ = l
  rw [hlist, List.eraseP_cons_of_pos (by simpa using hid)]

/-- Either nothing becomes of a device, or it is in front with its interfaces bound. -/
theorem attach_ok {c : Enumeration} (h : s.attach d c = .ok t) : t = s ∨
    d.id ∉ s.ids ∧ s.HasRoom udevUnits ∧
      ∃ a v, { s with gUdevList := d :: s.gUdevList }.allocDevAddress = .ok (a, v) ∧
        ((∃ u, GivesUp v d s.gUdevList u ∧ t = (u.freeDevAddress a).freeDevice d.id) ∨
          ∃ ps ok w x u, c = .parsed ps ok ∧ Parses v d s.gUdevList a w x ∧
            x.units + w.others + (s.gUdevList.map Udev.units).sum ≤ dmaUnits ∧
            Usb.parseConfiguration d w ps = .ok u ∧
            t = if ok then u else (u.freeDevAddress a).freeDevice d.id) := by
  unfold attach at h
  split at h
  · rename_i hroom
    split at h
    · cases h
    · rename_i hnone
      have hnew : d.id ∉ s.ids := device_none_iff.mp (Option.not_isSome_iff_eq_none.mp hnone)
      obtain ⟨⟨ok, u⟩, hu, h⟩ := Except.bind_ok.mp h
      obtain rfl := Except.ok.inj h
      obtain ⟨a, v, hv, hcase⟩ := connectDevice_ok rfl hnew hu
      refine .inr ⟨hnew, hroom, a, v, hv, ?_⟩
      rcases hcase with ⟨rfl, w, hw, rfl⟩ | ⟨ps, w, x, y, hc, hp, hfits, hy, rfl⟩
      · exact .inl ⟨w, hw, rfl⟩
      · refine .inr ⟨ps, ok, w, x, y, hc, hp, hfits, hy, ?_⟩
        cases ok <;> rfl
  · exact .inl (Except.ok.inj h).symm

end Usb

end Ma35d1.UsbHost.Topology

import Mathlib.Algebra.Order.BigOperators.Group.List
import Mathlib.Algebra.Order.Ring.Nat
import Ma35d1.UsbHost.Topology.Model

/-!
# Disconnecting ends

`disconnect_device`, `hub_disconnect` and their loops call each other. What every one of their steps
keeps, they keep; each call that a hub makes has an interface fewer to go through, which bounds how
deep they nest, whatever the hubs find at their ports.
-/

namespace Ma35d1.UsbHost.Topology

theorem Except.bind_ok {α β : Type} {x : Except Fault α} {f : α → Except Fault β} {b : β} :
    (x >>= f) = .ok b ↔ ∃ a, x = .ok a ∧ f a = .ok b := by
  cases x with
  | error e => exact ⟨fun h => (by cases h), fun ⟨a, h, _⟩ => (by cases h)⟩
  | ok a =>
    refine ⟨fun h => ⟨a, rfl, h⟩, ?_⟩
    rintro ⟨a', h, hf⟩
    cases h
    exact hf

namespace Usb

variable {s t : Usb} {id : Nat} {d : Udev} {k : Slot}

/-! ## Writing to a device -/

@[simp] theorem setIfaces_gHubDev (s : Usb) (id is) : (s.setIfaces id is).gHubDev = s.gHubDev := rfl

@[simp] theorem freeDevice_gHubDev (s : Usb) (id) : (s.freeDevice id).gHubDev = s.gHubDev := rfl

@[simp] theorem freeHubDevice_gUdevList (s : Usb) (k) :
    (s.freeHubDevice k).gUdevList = s.gUdevList := rfl

@[simp] theorem freeDevAddress_gUdevList (s : Usb) (a) :
    (s.freeDevAddress a).gUdevList = s.gUdevList := by
  unfold freeDevAddress
  split <;> rfl

@[simp] theorem freeDevAddress_gHubDev (s : Usb) (a) :
    (s.freeDevAddress a).gHubDev = s.gHubDev := by
  unfold freeDevAddress
  split <;> rfl

def ids (s : Usb) : List Nat := s.gUdevList.map Udev.id

theorem device_mem (h : s.device id = some d) : d ∈ s.gUdevList ∧ d.id = id := by
  have hid := List.find?_some h
  exact ⟨List.mem_of_find?_eq_some h, by simpa using hid⟩

/-- Where no two devices have one address, a device is found at its own. -/
theorem device_of_mem (hn : s.ids.Nodup) (hd : d ∈ s.gUdevList) : s.device d.id = some d := by
  unfold device ids at *
  generalize s.gUdevList = l at *
  induction l with
  | nil => cases hd
  | cons x l ih =>
    obtain ⟨hx, hl⟩ := List.nodup_cons.mp hn
    rcases List.mem_cons.mp hd with rfl | hmem
    · simp
    · have hne : x.id ≠ d.id := fun he => hx (he ▸ List.mem_map_of_mem hmem)
      simp [hne, ih hl hmem]

theorem eq_of_id (hn : s.ids.Nodup) {x y : Udev} (hx : x ∈ s.gUdevList) (hy : y ∈ s.gUdevList)
    (h : x.id = y.id) : x = y :=
  Option.some.inj ((device_of_mem hn hx).symm.trans (h ▸ device_of_mem hn hy))

/-- A write to a device does not move it. -/
theorem ids_update {f : Udev → Udev} (hf : ∀ d, (f d).id = d.id) : (s.update id f).ids = s.ids := by
  unfold ids update
  rw [List.map_map]
  refine List.map_congr_left fun x _ => ?_
  show (if x.id = id then f x else x).id = x.id
  split
  · exact hf x
  · rfl

@[simp] theorem ids_setIfaces (s : Usb) (id is) : (s.setIfaces id is).ids = s.ids :=
  ids_update fun _ => rfl

theorem ids_freeDevice_sublist (s : Usb) (id) : (s.freeDevice id).ids.Sublist s.ids :=
  List.eraseP_sublist.map Udev.id

/-- A sum over the devices where one is written -/
theorem sum_update (f : Udev → Nat) (g : Udev → Udev) (hn : s.ids.Nodup)
    (hd : s.device id = some d) :
    ((s.update id g).gUdevList.map f).sum + f d = (s.gUdevList.map f).sum + f (g d) := by
  obtain ⟨hmem, rfl⟩ := device_mem hd
  clear hd
  unfold update ids at *
  generalize s.gUdevList = l at *
  induction l with
  | nil => cases hmem
  | cons x l ih =>
    obtain ⟨hx, hl⟩ := List.nodup_cons.mp hn
    rcases List.mem_cons.mp hmem with rfl | hmem
    · have hsame : (l.map fun x => if x.id = d.id then g x else x) = l := by
        refine (List.map_congr_left fun x hx' => if_neg fun he => ?_).trans (List.map_id' l)
        exact hx (he ▸ List.mem_map_of_mem hx')
      simp only [List.map_cons, hsame, if_true, List.sum_cons]
      omega
    · have hne : x.id ≠ d.id := fun he => hx (he ▸ List.mem_map_of_mem hmem)
      have hrest := ih hl hmem
      simp only [List.map_cons, if_neg hne, List.sum_cons] at hrest ⊢
      omega

theorem ifaceCount_pop {i : Iface} {is : List Iface} (hn : s.ids.Nodup)
    (hd : s.device id = some d) (hi : d.ifaceList = i :: is) :
    (s.setIfaces id is).ifaceCount + 1 = s.ifaceCount := by
  have hsum := sum_update (fun d => d.ifaceList.length) (fun d => { d with ifaceList := is }) hn hd
  rw [hi] at hsum
  simp only [List.length_cons] at hsum
  unfold ifaceCount setIfaces
  omega

theorem ifaceCount_freeDevice_le (s : Usb) (id) : (s.freeDevice id).ifaceCount ≤ s.ifaceCount :=
  (List.eraseP_sublist.map fun d : Udev => d.ifaceList.length).sum_le_sum fun _ _ => Nat.zero_le _

/-! ## What every step keeps -/

/-- A relation that the writes of `disconnect_device` and `hub_disconnect` keep to -/
structure Keeps (R : Usb → Usb → Prop) : Prop where
  refl : ∀ s, R s s
  trans : ∀ {s t u}, R s t → R t u → R s u
  pop : ∀ {s id d i is}, s.device id = some d → d.ifaceList = i :: is → R s (s.setIfaces id is)
  free : ∀ {s id d}, s.device id = some d → R s ((s.freeDevAddress d.devNum).freeDevice id)
  freeHub : ∀ s k, R s (s.freeHubDevice k)

/-- What a call with this much fuel keeps to -/
structure KeepsAt (R : Usb → Usb → Prop) (fuel : Nat) : Prop where
  device : ∀ {s id t}, disconnectDevice fuel s id = .ok t → R s t
  ifaces : ∀ {s id t}, dropIfaces fuel s id = .ok t → R s t
  hub : ∀ {s iface t}, hubDisconnect fuel s iface = .ok t → R s t
  ports : ∀ {s k port t}, disconnectPorts fuel s k port = .ok t → R s t

variable {R : Usb → Usb → Prop}

theorem KeepsAt.disconnectDevice {fuel : Nat} (hR : Keeps R) (ih : KeepsAt R fuel)
    (h : disconnectDevice (fuel + 1) s id = .ok t) : R s t := by
  rw [Usb.disconnectDevice, Except.bind_ok] at h
  obtain ⟨u, hu, h⟩ := h
  cases hd : u.device id with
  | none => simp [hd] at h
  | some d =>
    simp only [hd, Except.ok.injEq] at h
    exact h ▸ hR.trans (ih.ifaces hu) (hR.free hd)

theorem KeepsAt.dropIfaces {fuel : Nat} (hR : Keeps R) (ih : KeepsAt R fuel)
    (h : dropIfaces (fuel + 1) s id = .ok t) : R s t := by
  rw [Usb.dropIfaces] at h
  cases hd : s.device id with
  | none => simp [hd] at h
  | some d =>
    cases hi : d.ifaceList with
    | nil =>
      simp only [hd, hi, Except.ok.injEq] at h
      exact h ▸ hR.refl s
    | cons i is =>
      simp only [hd, hi] at h
      obtain ⟨u, hu, h⟩ := Except.bind_ok.mp h
      have hpop := hR.pop hd hi
      refine hR.trans (hR.trans hpop ?_) (ih.ifaces h)
      split at hu
      · exact ih.hub hu
      · cases hu
        exact hR.refl _

theorem KeepsAt.hubDisconnect {fuel iface : Nat} (hR : Keeps R) (ih : KeepsAt R fuel)
    (h : hubDisconnect (fuel + 1) s iface = .ok t) : R s t := by
  rw [Usb.hubDisconnect] at h
  cases hk : s.findHubDevice iface with
  | none =>
    simp only [hk, Except.ok.injEq] at h
    exact h ▸ hR.refl s
  | some k =>
    simp only [hk] at h
    obtain ⟨u, hu, h⟩ := Except.bind_ok.mp h
    cases h
    exact hR.trans (ih.ports hu) (hR.freeHub u k)

theorem KeepsAt.disconnectPorts {fuel port : Nat} (hR : Keeps R) (ih : KeepsAt R fuel)
    (h : disconnectPorts (fuel + 1) s k port = .ok t) : R s t := by
  rw [Usb.disconnectPorts] at h
  cases hk : s.gHubDev k with
  | none =>
    simp only [hk, Except.ok.injEq] at h
    exact h ▸ hR.refl s
  | some hub =>
    simp only [hk] at h
    split at h
    · cases h
      exact hR.refl s
    · cases hd : s.usbhFindDevice hub.posId port with
      | none =>
        simp only [hd] at h
        exact ih.ports h
      | some d =>
        simp only [hd] at h
        obtain ⟨u, hu, h⟩ := Except.bind_ok.mp h
        exact hR.trans (ih.device hu) (ih.ports h)

/-- By induction on how deep the calls nest, each of the four functions keeps to it. -/
theorem Keeps.all (hR : Keeps R) (fuel : Nat) : KeepsAt R fuel := by
  induction fuel with
  | zero =>
    constructor <;> intros <;>
      simp_all [Usb.disconnectDevice, Usb.dropIfaces, Usb.hubDisconnect, Usb.disconnectPorts]
  | succ fuel ih =>
    exact ⟨ih.disconnectDevice hR, ih.dropIfaces hR, ih.hubDisconnect hR, ih.disconnectPorts hR⟩

/-! ## How deep the calls nest -/

/-- No two devices have one address, and no interface is added. -/
def Narrows (s t : Usb) : Prop := s.ids.Nodup → t.ids.Nodup ∧ t.ifaceCount ≤ s.ifaceCount

theorem narrows : Keeps Narrows where
  refl _ hn := ⟨hn, Nat.le_refl _⟩
  trans h₁ h₂ hn :=
    have hn₁ := (h₁ hn).1
    ⟨(h₂ hn₁).1, (h₂ hn₁).2.trans (h₁ hn).2⟩
  pop hd hi hn := ⟨by rwa [ids_setIfaces], by have := ifaceCount_pop hn hd hi; omega⟩
  free {s id d} _ hn := by
    have hlist : (s.freeDevAddress d.devNum).gUdevList = s.gUdevList :=
      freeDevAddress_gUdevList s d.devNum
    have hn' : (s.freeDevAddress d.devNum).ids.Nodup := by
      unfold ids
      rwa [hlist]
    refine ⟨(ids_freeDevice_sublist _ id).nodup hn', ?_⟩
    refine (ifaceCount_freeDevice_le _ id).trans (le_of_eq ?_)
    unfold ifaceCount
    rw [hlist]
  freeHub _ _ hn := ⟨hn, Nat.le_refl _⟩

/-- Calls with this much fuel end, the interfaces being as many as they are. -/
structure EndsAt (fuel : Nat) : Prop where
  device : ∀ s id, s.ids.Nodup → 260 * s.ifaceCount + 2 ≤ fuel →
    disconnectDevice fuel s id ≠ .error .fuel
  ifaces : ∀ s id, s.ids.Nodup → 260 * s.ifaceCount + 1 ≤ fuel →
    dropIfaces fuel s id ≠ .error .fuel
  hub : ∀ s iface, s.ids.Nodup → 260 * s.ifaceCount + 260 ≤ fuel →
    hubDisconnect fuel s iface ≠ .error .fuel
  ports : ∀ s k port, s.ids.Nodup → 260 * s.ifaceCount + 3 + (256 - port) ≤ fuel →
    disconnectPorts fuel s k port ≠ .error .fuel

theorem Except.bind_ne_fuel {α β : Type} {x : Except Fault α} {f : α → Except Fault β}
    (hx : x ≠ .error .fuel) (hf : ∀ a, x = .ok a → f a ≠ .error .fuel) :
    (x >>= f) ≠ .error .fuel := by
  cases x with
  | error e => exact fun h => hx (by cases h; rfl)
  | ok a => exact hf a rfl

theorem EndsAt.disconnectDevice {fuel : Nat} (ih : EndsAt fuel) (hn : s.ids.Nodup)
    (hf : 260 * s.ifaceCount + 2 ≤ fuel + 1) :
    Usb.disconnectDevice (fuel + 1) s id ≠ .error .fuel := by
  rw [Usb.disconnectDevice]
  refine Except.bind_ne_fuel (ih.ifaces s id hn (by omega)) fun u _ => ?_
  cases u.device id <;> exact fun h => by cases h

theorem EndsAt.dropIfaces {fuel : Nat} (ih : EndsAt fuel) (hn : s.ids.Nodup)
    (hf : 260 * s.ifaceCount + 1 ≤ fuel + 1) :
    Usb.dropIfaces (fuel + 1) s id ≠ .error .fuel := by
  rw [Usb.dropIfaces]
  cases hd : s.device id with
  | none => exact fun h => by cases h
  | some d =>
    cases hi : d.ifaceList with
    | nil => simp [hi]
    | cons i is =>
      simp only [hi]
      have hpop := ifaceCount_pop hn hd hi
      have hn' : (s.setIfaces id is).ids.Nodup := by rwa [ids_setIfaces]
      refine Except.bind_ne_fuel ?_ fun u hu => ?_
      · split
        · exact ih.hub _ _ hn' (by omega)
        · exact fun h => by cases h
      · have hu' : u.ids.Nodup ∧ u.ifaceCount ≤ (s.setIfaces id is).ifaceCount := by
          split at hu
          · exact (narrows.all fuel).hub hu hn'
          · cases hu
            exact ⟨hn', Nat.le_refl _⟩
        exact ih.ifaces u id hu'.1 (by omega)

theorem EndsAt.hubDisconnect {fuel iface : Nat} (ih : EndsAt fuel) (hn : s.ids.Nodup)
    (hf : 260 * s.ifaceCount + 260 ≤ fuel + 1) :
    Usb.hubDisconnect (fuel + 1) s iface ≠ .error .fuel := by
  rw [Usb.hubDisconnect]
  cases s.findHubDevice iface with
  | none => exact fun h => by cases h
  | some k => exact Except.bind_ne_fuel (ih.ports s k 1 hn (by omega)) fun u _ h => by cases h

theorem EndsAt.disconnectPorts {fuel port : Nat} (ih : EndsAt fuel) (hn : s.ids.Nodup)
    (hf : 260 * s.ifaceCount + 3 + (256 - port) ≤ fuel + 1) :
    Usb.disconnectPorts (fuel + 1) s k port ≠ .error .fuel := by
  rw [Usb.disconnectPorts]
  cases s.gHubDev k with
  | none => exact fun h => by cases h
  | some hub =>
    by_cases hport : hub.bNbrPorts.toNat < port
    · simp [hport]
    · have hlt := hub.bNbrPorts.isLt
      simp only [hport, if_false]
      cases hd : s.usbhFindDevice hub.posId port with
      | none => exact ih.ports s k _ hn (by omega)
      | some d =>
        refine Except.bind_ne_fuel (ih.device s _ hn (by omega)) fun u hu => ?_
        obtain ⟨hn', hle⟩ := (narrows.all fuel).device hu hn
        exact ih.ports u k _ hn' (by omega)

theorem endsAt (fuel : Nat) : EndsAt fuel := by
  induction fuel with
  | zero => constructor <;> intros <;> omega
  | succ fuel ih =>
    exact ⟨fun _ _ => ih.disconnectDevice, fun _ _ => ih.dropIfaces, fun _ _ => ih.hubDisconnect,
      fun _ _ _ => ih.disconnectPorts⟩

theorem disconnect_ne_fuel (hn : s.ids.Nodup) (id : Nat) : s.disconnect id ≠ .error .fuel :=
  (endsAt _).device s id hn (Nat.le_refl _)

theorem dropIfaces_ne_fuel (hn : s.ids.Nodup) (id : Nat) :
    dropIfaces s.disconnectFuel s id ≠ .error .fuel :=
  (endsAt _).ifaces s id hn (Nat.le_succ _)

end Usb

end Ma35d1.UsbHost.Topology

import Ma35d1.Machine.Trace
import Ma35d1.UsbHost.Topology.Connect

/-!
# The addresses of the devices

Every device that is listed has an address of its own, which is marked, and no other address is.
There is always one left for a device that comes: a device that is listed holds its `UDEV_T` and its
configuration in the DMA pool, so that there are fewer of them than addresses, and the search goes
once around.
-/

namespace Ma35d1.UsbHost.Topology

open Ma35d1.Machine.Trace

namespace Usb

variable {s t u : Usb} {id a b port : Nat} {d x y : Udev} {k : Slot} {hub : HubDev} {e : Event}
  {hc : HcDriver} {change : PortChange} {c : Enumeration} {p : Probe} {ps : List Probe}
  {pool : Nat → Bool}

/-! ## The search -/

theorem nextAddr_range (a : Nat) : 1 ≤ nextAddr a ∧ nextAddr a < 128 := by
  unfold nextAddr
  split <;> omega

theorem searchAddr_some {fuel : Nat} (ha : 1 ≤ a ∧ a < 128)
    (h : searchAddr pool fuel a = some b) : pool b = false ∧ 1 ≤ b ∧ b < 128 := by
  induction fuel generalizing a with
  | zero => cases h
  | succ fuel ih =>
    rw [searchAddr] at h
    split at h
    · obtain rfl := Option.some.inj h
      exact ⟨‹_›, ha⟩
    · exact ih (nextAddr_range a) h

/-- The turns that the search takes from `a` to `b` -/
def turns (a b : Nat) : Nat := if a ≤ b then b - a else b + 127 - a

theorem turns_nextAddr (ha : 1 ≤ a ∧ a < 128) (hb : 1 ≤ b ∧ b < 128) (hne : a ≠ b) :
    turns (nextAddr a) b + 1 = turns a b := by
  unfold turns nextAddr
  split_ifs <;> omega

/-- An address that is not marked is come to, wherever the search begins. -/
theorem searchAddr_ne_none {fuel : Nat} (ha : 1 ≤ a ∧ a < 128) (hb : 1 ≤ b ∧ b < 128)
    (hp : pool b = false) (hf : turns a b < fuel) : searchAddr pool fuel a ≠ none := by
  induction fuel generalizing a with
  | zero => omega
  | succ fuel ih =>
    rw [searchAddr]
    split
    · exact fun h => by cases h
    · have hne : a ≠ b := fun he => ‹¬ pool a = false› (he ▸ hp)
      have hturn := turns_nextAddr ha hb hne
      exact ih (nextAddr_range a) (by omega)

/-- Of fewer than 127 addresses that are marked, the search finds another. -/
theorem searchAddr_total {l : List Nat} (hl : l.length < 127) (hpool : ∀ a, pool a = true → a ∈ l)
    (ha : 1 ≤ a ∧ a < 128) : searchAddr pool 128 a ≠ none := by
  have hfree : ∃ b ∈ List.range' 1 127, pool b = false := by
    by_contra hall
    push Not at hall
    have hsub : List.range' 1 127 ⊆ l := fun b hb =>
      hpool b (Bool.eq_true_of_not_eq_false (hall b hb))
    have hle := (List.subperm_of_subset List.nodup_range' hsub).length_le
    rw [List.length_range'] at hle
    omega
  obtain ⟨b, hb, hp⟩ := hfree
  have hb' := List.mem_range'_1.mp hb
  refine searchAddr_ne_none ha (b := b) (by omega) hp ?_
  unfold turns
  split <;> omega

/-! ## The invariant -/

/-- The devices that are listed are those with an address and a configuration. -/
structure Numbered (s : Usb) : Prop where
  ids : s.ids.Nodup
  distinct : (s.gUdevList.map Udev.devNum).Nodup
  range : ∀ d ∈ s.gUdevList, 1 ≤ d.devNum ∧ d.devNum < 128
  pool : ∀ a, s.devAddrPool a = true ↔ ∃ d ∈ s.gUdevList, d.devNum = a
  buff : ∀ d ∈ s.gUdevList, d.cfdBuff = true
  room : s.dmaUsed ≤ dmaUnits

/-- What the invariant depends on of a device -/
def tag (d : Udev) : Nat × Nat × Bool := (d.id, d.devNum, d.cfdBuff)

/-- The devices hold the same, and so does all else. -/
structure SameTags (s t : Usb) : Prop where
  tags : t.gUdevList.map tag = s.gUdevList.map tag
  pool : t.devAddrPool = s.devAddrPool
  others : t.others = s.others

theorem numbered_init : Numbered init where
  ids := List.nodup_nil
  distinct := List.nodup_nil
  range d hd := by cases hd
  pool a := by simp [init]
  buff d hd := by cases hd
  room := Nat.zero_le _

theorem map_of_tags {α : Type} (f : Nat × Nat × Bool → α) {l l' : List Udev}
    (h : l.map tag = l'.map tag) :
    l.map (fun d => f (tag d)) = l'.map fun d => f (tag d) := by
  have hmap := congrArg (List.map f) h
  rwa [List.map_map, List.map_map] at hmap

theorem mem_of_tags {l l' : List Udev} (h : l.map tag = l'.map tag) (hx : x ∈ l) :
    ∃ y ∈ l', tag y = tag x :=
  List.mem_map.mp (h ▸ List.mem_map_of_mem hx)

theorem Numbered.congr (hs : Numbered s) (h : SameTags s t) : Numbered t where
  ids := by
    show (t.gUdevList.map Udev.id).Nodup
    rw [show t.gUdevList.map Udev.id = s.gUdevList.map Udev.id from map_of_tags Prod.fst h.tags]
    exact hs.ids
  distinct := by
    rw [show t.gUdevList.map Udev.devNum = s.gUdevList.map Udev.devNum from
      map_of_tags (fun x => x.2.1) h.tags]
    exact hs.distinct
  range x hx := by
    obtain ⟨y, hy, htag⟩ := mem_of_tags h.tags hx
    rw [← show y.devNum = x.devNum from congrArg (fun z => z.2.1) htag]
    exact hs.range y hy
  pool a := by
    rw [h.pool, hs.pool]
    constructor
    · rintro ⟨x, hx, hxa⟩
      obtain ⟨y, hy, htag⟩ := mem_of_tags h.tags.symm hx
      exact ⟨y, hy, (congrArg (fun z => z.2.1) htag).trans hxa⟩
    · rintro ⟨x, hx, hxa⟩
      obtain ⟨y, hy, htag⟩ := mem_of_tags h.tags hx
      exact ⟨y, hy, (congrArg (fun z => z.2.1) htag).trans hxa⟩
  buff x hx := by
    obtain ⟨y, hy, htag⟩ := mem_of_tags h.tags hx
    exact (congrArg (fun z => z.2.2) htag).symm.trans (hs.buff y hy)
  room := by
    have hsum : t.gUdevList.map Udev.units = s.gUdevList.map Udev.units :=
      map_of_tags (fun x => udevUnits + if x.2.2 then cfdUnits else 0) h.tags
    show t.others + _ ≤ _
    rw [hsum, h.others]
    exact hs.room

/-! ## Devices go -/

theorem eraseP_id {l : List Udev} (hn : (l.map Udev.id).Nodup) :
    l.eraseP (fun d => d.id = id) = l.filter fun d => d.id ≠ id := by
  induction l with
  | nil => rfl
  | cons x l ih =>
    obtain ⟨hx, hl⟩ := List.nodup_cons.mp hn
    by_cases he : x.id = id
    · have hrest : l.filter (fun d => d.id ≠ id) = l := List.filter_eq_self.mpr fun y hy => by
        refine decide_eq_true fun hid => hx ?_
        rw [he, ← hid]
        exact List.mem_map_of_mem hy
      rw [List.eraseP_cons_of_pos (by simpa using he), List.filter_cons_of_neg (by simpa using he),
        hrest]
    · simp [he, ih hl]

theorem SameTags.update {f : Udev → Udev} (hf : ∀ d, tag (f d) = tag d) (s : Usb) (id : Nat) :
    SameTags s (s.update id f) where
  tags := by
    show (s.gUdevList.map _).map _ = _
    rw [List.map_map]
    refine List.map_congr_left fun x _ => ?_
    show tag (if x.id = id then f x else x) = tag x
    split
    · exact hf x
    · rfl
  pool := rfl
  others := rfl

theorem SameTags.setIfaces (s : Usb) (id is) : SameTags s (s.setIfaces id is) := by
  apply SameTags.update
  intro d
  rfl

theorem SameTags.addIface (s : Usb) (id i) : SameTags s (s.addIface id i) := by
  apply SameTags.update
  intro d
  rfl

/-- The address of a device is free when the device is. -/
theorem Numbered.free (hs : Numbered s) (hd : s.device id = some d) :
    Numbered ((s.freeDevAddress d.devNum).freeDevice id) := by
  obtain ⟨hmem, rfl⟩ := device_mem hd
  have hlist : ((s.freeDevAddress d.devNum).freeDevice d.id).gUdevList =
      s.gUdevList.filter fun x => x.id ≠ d.id := by
    show (s.freeDevAddress d.devNum).gUdevList.eraseP _ = _
    rw [freeDevAddress_gUdevList]
    exact eraseP_id hs.ids
  have hpool : (s.freeDevAddress d.devNum).devAddrPool =
      Function.update s.devAddrPool d.devNum false := by
    unfold freeDevAddress
    rw [if_pos (hs.range d hmem).2]
  have hsub : (s.gUdevList.filter fun x => x.id ≠ d.id).Sublist s.gUdevList :=
    List.filter_sublist
  constructor
  · unfold Usb.ids
    rw [hlist]
    exact (hsub.map _).nodup hs.ids
  · rw [hlist]
    exact (hsub.map _).nodup hs.distinct
  · rw [hlist]
    exact fun x hx => hs.range x (hsub.subset hx)
  · intro a
    show (s.freeDevAddress d.devNum).devAddrPool a = true ↔ _
    rw [hpool, hlist]
    by_cases ha : a = d.devNum
    · subst ha
      rw [Function.update_self]
      refine iff_of_false Bool.false_ne_true ?_
      rintro ⟨x, hx, hxa⟩
      obtain ⟨hx, hne⟩ := List.mem_filter.mp hx
      have hxd : x = d := List.inj_on_of_nodup_map hs.distinct hx hmem hxa
      simp [hxd] at hne
    · rw [Function.update_of_ne ha, hs.pool]
      refine exists_congr fun x => ?_
      constructor
      · rintro ⟨hx, rfl⟩
        refine ⟨List.mem_filter.mpr ⟨hx, decide_eq_true fun hid => ha ?_⟩, rfl⟩
        rw [eq_of_id hs.ids hx hmem hid]
      · rintro ⟨hx, rfl⟩
        exact ⟨hsub.subset hx, rfl⟩
  · rw [hlist]
    exact fun x hx => hs.buff x (hsub.subset hx)
  · have hle := (hsub.map Udev.units).sum_le_sum fun _ _ => Nat.zero_le _
    have hroom := hs.room
    unfold dmaUsed at hroom ⊢
    rw [hlist, show ((s.freeDevAddress d.devNum).freeDevice d.id).others = s.others from
      (freeDevAddress_rest s _).1]
    omega

/-- Every step of a disconnection keeps the invariant. -/
theorem keeps_numbered : Keeps fun s t => Numbered s → Numbered t where
  refl _ hs := hs
  trans h₁ h₂ hs := h₂ (h₁ hs)
  pop _ _ hs := hs.congr (.setIfaces _ _ _)
  free hd hs := hs.free hd
  freeHub _ _ hs := hs.congr ⟨rfl, rfl, rfl⟩

theorem keeps_length : Keeps fun s t => t.gUdevList.length ≤ s.gUdevList.length where
  refl _ := Nat.le_refl _
  trans h₁ h₂ := Nat.le_trans h₂ h₁
  pop _ _ := (List.length_map _).le
  free _ := by
    refine List.eraseP_sublist.length_le.trans ?_
    rw [freeDevAddress_gUdevList]
  freeHub _ _ := Nat.le_refl _

/-- A call that comes back has taken the interfaces and then the device. -/
theorem disconnectDevice_ok {fuel : Nat} (h : disconnectDevice fuel s id = .ok t) :
    ∃ n u d, dropIfaces n s id = .ok u ∧ u.device id = some d ∧
      t.gUdevList = u.gUdevList.eraseP fun x => x.id = id := by
  cases fuel with
  | zero => cases h
  | succ fuel =>
    rw [disconnectDevice, Except.bind_ok] at h
    obtain ⟨u, hu, h⟩ := h
    cases hd : u.device id with
    | none => simp [hd] at h
    | some d =>
      simp only [hd, Except.ok.injEq] at h
      refine ⟨fuel, u, d, hu, hd, ?_⟩
      rw [← h]
      show (u.freeDevAddress d.devNum).gUdevList.eraseP _ = _
      rw [freeDevAddress_gUdevList]

theorem disconnectDevice_length {fuel : Nat} (h : disconnectDevice fuel s id = .ok t) :
    t.gUdevList.length < s.gUdevList.length := by
  obtain ⟨n, u, d, hu, hd, hlist⟩ := disconnectDevice_ok h
  have hle := (keeps_length.all n).ifaces hu
  obtain ⟨hmem, rfl⟩ := device_mem hd
  have hlen := List.length_eraseP_of_mem hmem (p := fun x => x.id = d.id) (by simp)
  have hpos := List.length_pos_of_mem hmem
  rw [hlist]
  omega

/-- No device comes to the list. -/
def NoneNew (s t : Usb) : Prop := ∀ x ∈ t.gUdevList, ∃ y ∈ s.gUdevList, tag y = tag x

theorem NoneNew.of_tags (h : SameTags s t) : NoneNew s t :=
  fun _ hx => mem_of_tags h.tags hx

theorem keeps_noneNew : Keeps NoneNew where
  refl _ x hx := ⟨x, hx, rfl⟩
  trans h₁ h₂ x hx := by
    obtain ⟨y, hy, hyx⟩ := h₂ x hx
    obtain ⟨z, hz, hzy⟩ := h₁ y hy
    exact ⟨z, hz, hzy.trans hyx⟩
  pop _ _ := .of_tags (.setIfaces _ _ _)
  free _ x hx := by
    have hmem := List.mem_of_mem_eraseP hx
    rw [freeDevAddress_gUdevList] at hmem
    exact ⟨x, hmem, rfl⟩
  freeHub _ _ x hx := ⟨x, hx, rfl⟩

theorem disconnectDevice_gone {fuel : Nat} (hn : s.ids.Nodup)
    (h : disconnectDevice fuel s id = .ok t) : id ∉ t.ids := by
  obtain ⟨n, u, d, hu, -, hlist⟩ := disconnectDevice_ok h
  rw [eraseP_id ((narrows.all n).ifaces hu hn).1] at hlist
  unfold ids
  rw [hlist]
  intro hmem
  obtain ⟨x, hx, hid⟩ := List.mem_map.mp hmem
  exact absurd hid (of_decide_eq_true (List.mem_filter.mp hx).2)

/-- The device is gone and its address is free, and of the others none has come. -/
structure Returned (s t : Usb) (id : Nat) : Prop where
  gone : id ∉ t.ids
  noneNew : NoneNew s t
  address : ∀ d, s.device id = some d → t.devAddrPool d.devNum = false

theorem Numbered.returned (hs : Numbered s) (h : s.disconnect id = .ok t) : Returned s t id := by
  have hgone := disconnectDevice_gone hs.ids h
  have hold := (keeps_noneNew.all _).device h
  have ht : Numbered t := (keeps_numbered.all _).device h hs
  refine ⟨hgone, hold, fun d hd => Bool.eq_false_of_not_eq_true fun hpool => ?_⟩
  obtain ⟨hmem, rfl⟩ := device_mem hd
  obtain ⟨x, hx, hnum⟩ := (ht.pool d.devNum).mp hpool
  obtain ⟨y, hy, htag⟩ := hold x hx
  have hyd : y = d := List.inj_on_of_nodup_map hs.distinct hy hmem
    ((congrArg (fun z => z.2.1) htag).trans hnum)
  refine hgone ?_
  rw [← hyd, show y.id = x.id from congrArg Prod.fst htag]
  exact List.mem_map_of_mem hx

/-- The loop of a root port ends: every turn has a device fewer. -/
theorem disconnectRoot_ne_fuel {fuel : Nat} (hn : s.ids.Nodup)
    (hf : s.gUdevList.length < fuel) : disconnectRoot hc port fuel s ≠ .error .fuel := by
  induction fuel generalizing s with
  | zero => omega
  | succ fuel ih =>
    rw [disconnectRoot]
    cases s.findDeviceByPort hc port with
    | none => exact fun h => by cases h
    | some d =>
      refine Except.bind_ne_fuel (disconnect_ne_fuel hn d.id) fun u hu => ?_
      have hlt := disconnectDevice_length hu
      exact ih ((narrows.all _).device hu hn).1 (by omega)

theorem disconnectRootPort_ne_fuel (hn : s.ids.Nodup) :
    s.disconnectRootPort hc port ≠ .error .fuel :=
  disconnectRoot_ne_fuel hn (Nat.lt_succ_self _)

theorem Numbered.disconnectRoot {fuel : Nat} (hs : Numbered s)
    (h : disconnectRoot hc port fuel s = .ok t) : Numbered t := by
  induction fuel generalizing s with
  | zero => cases h
  | succ fuel ih =>
    rw [Usb.disconnectRoot] at h
    cases hf : s.findDeviceByPort hc port with
    | none =>
      simp only [hf, Except.ok.injEq] at h
      exact h ▸ hs
    | some d =>
      simp only [hf] at h
      obtain ⟨u, hu, h⟩ := Except.bind_ok.mp h
      exact ih ((keeps_numbered.all _).device hu hs) h

theorem Numbered.disconnectPort (hs : Numbered s) (h : s.disconnectPort hub port = .ok t) :
    Numbered t := by
  unfold Usb.disconnectPort at h
  cases hf : s.usbhFindDevice hub.posId port with
  | none =>
    simp only [hf, Except.ok.injEq] at h
    exact h ▸ hs
  | some d =>
    simp only [hf] at h
    exact (keeps_numbered.all _).device h hs

theorem disconnectPort_ne_fuel (hn : s.ids.Nodup) : s.disconnectPort hub port ≠ .error .fuel := by
  unfold Usb.disconnectPort
  cases s.usbhFindDevice hub.posId port with
  | none => exact fun h => by cases h
  | some d => exact disconnect_ne_fuel hn d.id

/-! ## A device comes -/

theorem SameTags.trans (h₁ : SameTags s t) (h₂ : SameTags t u) : SameTags s u :=
  ⟨h₂.tags.trans h₁.tags, h₂.pool.trans h₁.pool, h₂.others.trans h₁.others⟩

theorem probe_tags (h : s.probe d p = .ok t) : SameTags s t := by
  rcases probe_ok h with rfl | ⟨a, -, -, rfl⟩ | ⟨a, ports, k, -, -, -, rfl⟩ | ⟨a, k, -, -, -, rfl⟩
  · exact ⟨rfl, rfl, rfl⟩
  · exact .addIface s _ _
  · exact .trans (t := s.setHub k _) ⟨rfl, rfl, rfl⟩ (.addIface _ _ _)
  · exact ⟨rfl, rfl, rfl⟩

theorem parseConfiguration_tags (h : Usb.parseConfiguration d s ps = .ok t) : SameTags s t := by
  induction ps generalizing s with
  | nil =>
    obtain rfl := Except.ok.inj h
    exact ⟨rfl, rfl, rfl⟩
  | cons p ps ih =>
    obtain ⟨u, hu, h⟩ := Except.bind_ok.mp h
    exact (probe_tags hu).trans (ih h)

theorem hubProbe_ne_fuel {ports : BitVec 8} : s.hubProbe d a ports k ≠ .error .fuel := by
  unfold hubProbe
  split <;> exact fun h => by cases h

theorem probe_ne_fuel : s.probe d p ≠ .error .fuel := by
  cases p with
  | unbound => exact fun h => by cases h
  | bound a =>
    simp only [probe]
    split <;> exact fun h => by cases h
  | hub a ports =>
    simp only [probe]
    split
    · exact fun h => by cases h
    · cases s.allocHubDevice with
      | none => exact fun h => by cases h
      | some k => exact Except.bind_ne_fuel hubProbe_ne_fuel fun _ _ h => by cases h
  | hubFails a =>
    simp only [probe]
    split
    · exact fun h => by cases h
    · cases s.allocHubDevice with
      | none => exact fun h => by cases h
      | some k => exact Except.bind_ne_fuel hubProbe_ne_fuel fun _ _ h => by cases h

theorem parseConfiguration_ne_fuel : Usb.parseConfiguration d s ps ≠ .error .fuel := by
  induction ps generalizing s with
  | nil => exact fun h => by cases h
  | cons p ps ih => exact Except.bind_ne_fuel probe_ne_fuel fun u _ => ih

/-- The DMA pool holds no more than 25 devices with their configurations. -/
theorem Numbered.length_le (hs : Numbered s) : s.gUdevList.length ≤ 25 := by
  have hunits : ∀ n ∈ s.gUdevList.map Udev.units, udevUnits + cfdUnits ≤ n := by
    intro n hn
    obtain ⟨d, hd, rfl⟩ := List.mem_map.mp hn
    unfold Udev.units
    rw [if_pos (hs.buff d hd)]
  have hsum := List.card_nsmul_le_sum _ _ hunits
  rw [List.length_map] at hsum
  change s.gUdevList.length * _ ≤ _ at hsum
  have hroom := hs.room
  unfold dmaUsed dmaUnits at hroom
  unfold udevUnits cfdUnits at hsum
  omega

/-- `alloc_dev_address` comes to an address that no device has. -/
theorem Numbered.searchAddr (hs : Numbered s) (a : Nat) :
    searchAddr s.devAddrPool 128 (nextAddr a) ≠ none := by
  refine searchAddr_total (l := s.gUdevList.map Udev.devNum) ?_ (fun b hb => ?_) (nextAddr_range a)
  · rw [List.length_map]
    exact hs.length_le.trans_lt (by decide)
  · obtain ⟨d, hd, rfl⟩ := (hs.pool b).mp hb
    exact List.mem_map_of_mem hd

/-- A device comes to the list, its address being free. -/
theorem Numbered.cons (hs : Numbered s) (hlist : t.gUdevList = x :: s.gUdevList)
    (hnew : x.id ∉ s.ids) (hnum : x.devNum = a) (ha : 1 ≤ a ∧ a < 128)
    (hfree : s.devAddrPool a = false) (hcfd : x.cfdBuff = true)
    (hpool : t.devAddrPool = Function.update s.devAddrPool a true)
    (hroom : x.units + t.others + (s.gUdevList.map Udev.units).sum ≤ dmaUnits) : Numbered t := by
  have hother : ∀ y ∈ s.gUdevList, y.devNum ≠ a := fun y hy he => by
    rw [(hs.pool a).mpr ⟨y, hy, he⟩] at hfree
    cases hfree
  constructor
  · unfold Usb.ids
    rw [hlist, List.map_cons]
    exact List.nodup_cons.mpr ⟨hnew, hs.ids⟩
  · rw [hlist, List.map_cons, List.nodup_cons]
    refine ⟨fun hmem => ?_, hs.distinct⟩
    obtain ⟨y, hy, he⟩ := List.mem_map.mp hmem
    exact hother y hy (he.trans hnum)
  · rw [hlist, List.forall_mem_cons, hnum]
    exact ⟨ha, hs.range⟩
  · intro b
    rw [hpool, hlist]
    by_cases hb : b = a
    · subst hb
      rw [Function.update_self]
      exact iff_of_true rfl ⟨x, List.mem_cons_self, hnum⟩
    · have hne : x.devNum ≠ b := fun he => hb (he.symm.trans hnum)
      rw [Function.update_of_ne hb, hs.pool]
      simp [hne]
  · rw [hlist, List.forall_mem_cons]
    exact ⟨hcfd, hs.buff⟩
  · unfold dmaUsed
    rw [hlist, List.map_cons, List.sum_cons]
    omega

/-- Nothing has become of a device: the list, the addresses and the memory are what they were. -/
structure Unattached (s t : Usb) : Prop where
  list : t.gUdevList = s.gUdevList
  pool : t.devAddrPool = s.devAddrPool
  others : t.others = s.others

/-- The device is in front with its configuration, at an address that was free. -/
structure Attached (s t : Usb) (id : Nat) (x : Udev) : Prop where
  new : x.id ∉ s.ids
  list : t.gUdevList = x :: s.gUdevList
  id : x.id = id
  cfdBuff : x.cfdBuff = true
  range : 1 ≤ x.devNum ∧ x.devNum < 128
  free : s.devAddrPool x.devNum = false
  pool : t.devAddrPool = Function.update s.devAddrPool x.devNum true
  others : t.others = s.others
  room : x.units + t.others + (s.gUdevList.map Udev.units).sum ≤ dmaUnits

theorem attach_all_or_nothing (h : s.attach d c = .ok t) :
    Unattached s t ∨ ∃ x, Attached s t d.id x := by
  rcases attach_ok h with rfl | ⟨hnew, -, a, v, hv, hcase⟩
  · exact .inl ⟨rfl, rfl, rfl⟩
  obtain ⟨hfind, rfl⟩ := allocDevAddress_ok hv
  obtain ⟨hfree, ha⟩ := searchAddr_some (nextAddr_range _) hfind
  have hfree : s.devAddrPool a = false := hfree
  -- the address of a device that is given up is marked no longer
  have hgiven (u : Usb) (hlist : ∃ y, u.gUdevList = y :: s.gUdevList ∧ y.id = d.id)
      (hpool : u.devAddrPool = Function.update s.devAddrPool a true)
      (hothers : u.others = s.others) :
      Unattached s ((u.freeDevAddress a).freeDevice d.id) := by
    obtain ⟨y, hy, hid⟩ := hlist
    constructor
    · exact freeDevice_cons (by rw [freeDevAddress_gUdevList, hy]) hid
    · show (u.freeDevAddress a).devAddrPool = _
      unfold freeDevAddress
      rw [if_pos ha.2, hpool]
      show Function.update (Function.update _ _ _) _ _ = _
      rw [Function.update_idem, ← hfree, Function.update_eq_self]
    · exact (freeDevAddress_rest u a).1.trans hothers
  rcases hcase with ⟨u, ⟨x, hx, hkin, -, hrest⟩, rfl⟩ | ⟨ps, ok, w, x, u, -, hp, hroom, hu, rfl⟩
  · exact .inl (hgiven u ⟨x, hx, hkin.id⟩ hrest.pool hrest.others)
  · obtain ⟨y, hy, hykin, hnum, hcfd⟩ := parseConfiguration_list hp.list hp.kin hnew hu
    have hrest := hp.rest.trans (parseConfiguration_rest hu)
    cases ok with
    | false => exact .inl (hgiven u ⟨y, hy, hykin.id⟩ hrest.pool hrest.others)
    | true =>
      have hunits : y.units = x.units := by
        unfold Udev.units
        rw [hcfd]
      obtain rfl : y.devNum = a := hnum.trans hp.devNum
      rw [if_pos rfl]
      refine .inr ⟨y, hykin.id ▸ hnew, hy, hykin.id, hcfd.trans hp.cfdBuff, ha, hfree, hrest.pool,
        hrest.others, ?_⟩
      rw [hunits, hrest.others, ← hp.rest.others]
      exact hroom

theorem Numbered.attach (hs : Numbered s) (h : s.attach d c = .ok t) : Numbered t := by
  rcases attach_all_or_nothing h with hsame | ⟨x, hx⟩
  · exact hs.congr ⟨by rw [hsame.list], hsame.pool, hsame.others⟩
  · exact hs.cons hx.list hx.new rfl hx.range hx.free hx.cfdBuff hx.pool hx.room

theorem connectDevice_ne_fuel (h : s.allocDevAddress ≠ .error .fuel) :
    s.connectDevice d c ≠ .error .fuel := by
  unfold connectDevice
  refine Except.bind_ne_fuel h fun r _ => ?_
  obtain ⟨a, u⟩ := r
  simp only
  split
  · exact fun h => by cases h
  · split
    · exact fun h => by cases h
    · cases c with
      | parsed ps ok =>
        refine Except.bind_ne_fuel parseConfiguration_ne_fuel fun v _ => ?_
        exact fun h => by cases h
      | _ => exact fun h => by cases h

/-- The search of `alloc_dev_address` ends whenever a device is connected. -/
theorem Numbered.attach_ne_fuel (hs : Numbered s) : s.attach d c ≠ .error .fuel := by
  unfold Usb.attach
  split
  · split
    · exact fun h => by cases h
    · refine Except.bind_ne_fuel (connectDevice_ne_fuel ?_) fun r _ => ?_
      · unfold allocDevAddress
        cases hf : Usb.searchAddr s.devAddrPool 128 (nextAddr s.deviceAddr) with
        | none => exact absurd hf (hs.searchAddr _)
        | some a =>
          exact fun h => by cases h
      · exact fun h => by cases h
  · exact fun h => by cases h

/-! ## Ports -/

theorem toOption_eq_some {α : Type} {x : Except Fault α} {a : α} (h : x.toOption = some a) :
    x = .ok a := by
  cases x with
  | error f => cases h
  | ok b => exact congrArg _ (Option.some.inj h)

theorem Numbered.rhPolling (hs : Numbered s) (h : s.rhPolling hc port change = .ok t) :
    Numbered t := by
  unfold Usb.rhPolling at h
  obtain ⟨u, hu, h⟩ := Except.bind_ok.mp h
  have hnu := hs.disconnectRoot hu
  cases change with
  | gone =>
    simp only at h
    split at h
    · exact hnu.disconnectRoot h
    · exact Except.ok.inj h ▸ hnu
  | noReset => exact Except.ok.inj h ▸ hnu
  | attached id speed c => exact hnu.attach h

theorem Numbered.rhPolling_ne_fuel (hs : Numbered s) :
    s.rhPolling hc port change ≠ .error .fuel := by
  unfold Usb.rhPolling
  refine Except.bind_ne_fuel (disconnectRootPort_ne_fuel hs.ids) fun u hu => ?_
  have hnu : Numbered u := hs.disconnectRoot hu
  cases change with
  | gone =>
    simp only
    split
    · exact disconnectRootPort_ne_fuel hnu.ids
    · exact fun h => by cases h
  | noReset => exact fun h => by cases h
  | attached id speed c => exact hnu.attach_ne_fuel

theorem Numbered.portConnectChange (hs : Numbered s)
    (h : s.portConnectChange k hub port change = .ok t) : Numbered t := by
  unfold Usb.portConnectChange at h
  obtain ⟨u, hu, h⟩ := Except.bind_ok.mp h
  have hnu := hs.disconnectPort hu
  cases change with
  | gone => exact Except.ok.inj h ▸ hnu
  | noReset => exact Except.ok.inj h ▸ hnu
  | attached id speed c =>
    simp only at h
    split at h
    · cases h
    · exact hnu.attach h

theorem Numbered.portConnectChange_ne_fuel (hs : Numbered s) :
    s.portConnectChange k hub port change ≠ .error .fuel := by
  unfold Usb.portConnectChange
  refine Except.bind_ne_fuel (disconnectPort_ne_fuel hs.ids) fun u hu => ?_
  have hnu : Numbered u := hs.disconnectPort hu
  cases change with
  | gone => exact fun h => by cases h
  | noReset => exact fun h => by cases h
  | attached id speed c =>
    simp only
    split
    · exact fun h => by cases h
    · exact hnu.attach_ne_fuel

theorem Numbered.resetDevice {probes : Option (List Probe)} (hs : Numbered s)
    (h : s.resetDevice id probes = .ok t) : Numbered t := by
  unfold Usb.resetDevice at h
  cases hd : s.device id with
  | none => simp [hd] at h
  | some d =>
    simp only [hd] at h
    obtain ⟨u, hu, h⟩ := Except.bind_ok.mp h
    have hnu := (keeps_numbered.all _).ifaces hu hs
    cases probes with
    | none => exact Except.ok.inj h ▸ hnu
    | some ps => exact hnu.congr (parseConfiguration_tags h)

theorem resetDevice_ne_fuel {probes : Option (List Probe)} (hn : s.ids.Nodup) :
    s.resetDevice id probes ≠ .error .fuel := by
  unfold Usb.resetDevice
  cases s.device id with
  | none => exact fun h => by cases h
  | some d =>
    refine Except.bind_ne_fuel (dropIfaces_ne_fuel hn id) fun u _ => ?_
    cases probes with
    | none => exact fun h => by cases h
    | some ps => exact parseConfiguration_ne_fuel

theorem Numbered.step (hs : Numbered s) (h : s.step e = some t) : Numbered t := by
  cases e with
  | rootPort hc port change =>
    obtain ⟨-, h⟩ := Option.ite_none_right_eq_some.mp h
    exact hs.rhPolling (toOption_eq_some h)
  | hubPort k port change =>
    obtain ⟨hub, -, h⟩ := Option.bind_eq_some_iff.mp h
    obtain ⟨-, h⟩ := Option.ite_none_right_eq_some.mp h
    exact hs.portConnectChange (toOption_eq_some h)
  | reset id probes => exact hs.resetDevice (toOption_eq_some h)
  | others n =>
    obtain ⟨hle, h⟩ := Option.ite_none_right_eq_some.mp h
    obtain rfl := Option.some.inj h
    refine ⟨hs.ids, hs.distinct, hs.range, hs.pool, hs.buff, ?_⟩
    unfold dmaUsed at hle ⊢
    simp only at hle ⊢
    omega

/-! ## Runs -/

/-- The loops of an event end. -/
def Ends (s : Usb) : Event → Prop
  | .rootPort hc port change => s.rhPolling hc port change ≠ .error .fuel
  | .hubPort k port change =>
    ∀ hub, s.gHubDev k = some hub → s.portConnectChange k hub port change ≠ .error .fuel
  | .reset id probes => s.resetDevice id probes ≠ .error .fuel
  | .others _ => True

theorem Numbered.ends (hs : Numbered s) : s.Ends e := by
  cases e with
  | rootPort hc port change => exact hs.rhPolling_ne_fuel
  | hubPort k port change => exact fun hub _ => hs.portConnectChange_ne_fuel
  | reset id probes => exact resetDevice_ne_fuel hs.ids
  | others n => trivial

/-- Each device that is listed has an address of its own, the addresses that are marked are those of
the devices, and whatever happens next comes to an end. -/
structure AddressLaw (s : Usb) : Prop where
  distinct : s.gUdevList.Pairwise fun x y => x.devNum ≠ 0 → x.devNum ≠ y.devNum
  range : ∀ d ∈ s.gUdevList, d.devNum ≠ 0 → 1 ≤ d.devNum ∧ d.devNum ≤ 127
  pool : ∀ a, 1 ≤ a → a ≤ 127 → (s.devAddrPool a = true ↔ ∃ d ∈ s.gUdevList, d.devNum = a)
  ends : ∀ e, s.Ends e

theorem Numbered.law (hs : Numbered s) : AddressLaw s where
  distinct := by
    refine (List.pairwise_map.mp hs.distinct).imp ?_
    intro x y hne _
    exact hne
  range d hd _ := ⟨(hs.range d hd).1, Nat.le_of_lt_succ (hs.range d hd).2⟩
  pool a _ _ := hs.pool a
  ends _ := hs.ends

theorem numbered_always (es : List Event) : Always step Numbered init es :=
  always_of_step (fun _ _ _ hs ht => Numbered.step hs ht) numbered_init

/-- Whatever devices come and go, are given up or reset -/
theorem address_always (es : List Event) : Always step AddressLaw init es :=
  (numbered_always es).mono fun _ hs => hs.law

/-- What is connected comes whole or not at all, and what is disconnected gives its address back. -/
structure ConnectLaw (s : Usb) : Prop where
  attach : ∀ d c t, s.attach d c = .ok t → Unattached s t ∨ ∃ x, Attached s t d.id x
  attachEnds : ∀ d c, s.attach d c ≠ .error .fuel
  disconnect : ∀ id t, s.disconnect id = .ok t → Returned s t id

/-- No device is listed twice, and the DMA pool has room for all of them. -/
structure PoolLaw (s : Usb) : Prop where
  ids : s.ids.Nodup
  room : s.dmaUsed ≤ dmaUnits
  few : s.gUdevList.length ≤ 25

theorem pool_always (es : List Event) : Always step PoolLaw init es :=
  (numbered_always es).mono fun _ hs => ⟨hs.ids, hs.room, hs.length_le⟩

end Usb

end Ma35d1.UsbHost.Topology

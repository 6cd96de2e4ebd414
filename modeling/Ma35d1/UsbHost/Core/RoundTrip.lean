import Ma35d1.UsbHost.Core.Description
import Ma35d1.UsbHost.Core.ParseSafety

/-!
# The configuration that was described is found

On the bytes of a well-formed configuration every loop of the three parsers stops where the
description says: at the next endpoint, behind the last one, at the next setting and at the
next interface number. What is offered to the drivers is what was described.
-/

namespace Ma35d1.UsbHost.Core

open Machine.Layout Description

section Cursors

variable {b : Buf} {c c' c'' : Cursor} {k n : Nat} {l m : List (BitVec 8)}

/-- `c'` stands `k` bytes behind `c`. -/
structure Past (k : Nat) (c c' : Cursor) : Prop where
  off : c'.off = c.off + k
  len : c'.len = c.len - k
  parsedLen : c'.parsedLen = c.parsedLen + k

theorem Past.here (c : Cursor) : Past 0 c c :=
  ⟨rfl, (Int.sub_zero _).symm, (Int.add_zero _).symm⟩

theorem Past.note (h : Past k c c') (e : ParseEvent) : Past k c (c'.note e) :=
  ⟨h.off, h.len, h.parsedLen⟩

theorem Past.readHdr (h : Past k c c') : Past k c c'.readHdr := (h.note _).note _

theorem Past.skip (h : Past k c c') (n : Nat) : Past (k + n) c (c'.skip n) := by
  obtain ⟨ho, hl, hp⟩ := h
  constructor
  · show c'.off + (n : Int).toNat = c.off + (k + n)
    omega
  · show c'.len - n = c.len - (k + n : Nat)
    omega
  · show c'.parsedLen + n = c.parsedLen + (k + n : Nat)
    omega

theorem Past.trans (h : Past k c c') (h' : Past n c' c'') : Past (k + n) c c'' := by
  obtain ⟨ho, hl, hp⟩ := h
  obtain ⟨ho', hl', hp'⟩ := h'
  constructor <;> omega

/-- The bytes left are `l`. -/
structure Stands (b : Buf) (c : Cursor) (l : List (BitVec 8)) : Prop where
  bytes : LiesAt b c.off l
  len : c.len = l.length

theorem Stands.past (h : Stands b c (l ++ m)) (hp : Past l.length c c') : Stands b c' m := by
  constructor
  · rw [hp.off]
    exact h.bytes.right
  · rw [hp.len, h.len, List.length_append]
    omega

theorem Stands.same (h : Stands b c l) (hp : Past 0 c c') : Stands b c' l := h.past (l := []) hp

theorem Stands.end (h : Stands b c []) : c.len = 0 := h.len

/-- What the parsers see of a descriptor in front of them. -/
structure Sees (b : Buf) (c : Cursor) (type : BitVec 8) (size : Nat) : Prop where
  length : bLength b c.off = size
  type : bDescriptorType b c.off = type
  good : badHdr b c = false
  pos : 0 < c.len

theorem Stands.desc {type : BitVec 8} {body : List (BitVec 8)}
    (h : Stands b c (descBytes type body ++ m)) (hs : body.length ≤ 253) :
    Sees b c type (descBytes type body).length := by
  have hlen : bLength b c.off = body.length + 2 := by
    have h0 : b c.off = BitVec.ofNat 8 (body.length + 2) := h.bytes.head
    unfold bLength
    rw [h0]
    exact (BitVec.toNat_ofNat ..).trans (Nat.mod_eq_of_lt (by omega))
  have hc : c.len = body.length + 2 + m.length := by
    rw [h.len, List.length_append, descBytes_length]
    omega
  refine ⟨hlen, h.bytes.tail.head, ?_, by omega⟩
  rw [badHdr, Bool.or_eq_false_iff, decide_eq_false_iff_not, decide_eq_false_iff_not]
  omega

theorem othersBytes_cons (o : Other) (os : List Other) (m : List (BitVec 8)) :
    othersBytes (o :: os) ++ m = descBytes o.type o.body ++ (othersBytes os ++ m) := by
  rw [othersBytes, List.flatMap_cons, List.append_assoc]
  rfl

/-- The step over another descriptor in front of the cursor leads to `d`. -/
structure StepsOver (b : Buf) (o : Other) (c d : Cursor) (l : List (BitVec 8)) : Prop where
  sees : Sees b c o.type o.bytes.length
  past : Past o.bytes.length c d
  stands : Stands b d l
  shorter : d.len.toNat < c.len.toNat

/-- What all four loops do of a descriptor they do not know. -/
theorem Stands.stepsOver {o : Other} {os : List Other} (hs : Stands b c (othersBytes (o :: os) ++ m))
    (h0 : Past 0 c c') : StepsOver b o c (c'.skip (bLength b c.off)) (othersBytes os ++ m) := by
  rw [othersBytes_cons] at hs
  have h := hs.desc o.short
  have hp := h0.skip (descBytes o.type o.body).length
  rw [Nat.zero_add] at hp
  rw [h.length]
  refine ⟨h, hp, hs.past hp, ?_⟩
  have hlen := hp.len
  have hpos := h.pos
  rw [descBytes_length] at hlen ⊢
  omega

theorem Past.others {o : Other} {os : List Other} (h : Past o.bytes.length c c')
    (h' : Past (othersBytes os).length c' c'') : Past (othersBytes (o :: os)).length c c'' := by
  rw [othersBytes, List.flatMap_cons, List.length_append]
  exact h.trans h'

end Cursors

/-! ## Endpoints -/

section Endpoints

variable {b : Buf} {c : Cursor} {k n i ifd : Nat} {m : List (BitVec 8)}

/-- The other descriptors before an endpoint are stepped over. -/
theorem seekEndpoint_others (ep : Option Nat) {os : List Other} {body : List (BitVec 8)}
    (hs : Stands b c (othersBytes os ++ (descBytes usbDtEndpoint body ++ m)))
    (hb : body.length ≤ 253) (hn : c.len.toNat ≤ n) :
    ∃ c', seekEndpoint b n ep c = (some (some c'.off), c') ∧
      Past (othersBytes os).length c c' := by
  induction os generalizing c n ep with
  | nil =>
    have h := hs.desc hb
    obtain ⟨n, rfl⟩ : ∃ k, n = k + 1 := ⟨n - 1, by have := h.pos; omega⟩
    refine ⟨c.readHdr, ?_, (Past.here c).readHdr⟩
    rw [seekEndpoint, if_neg (Int.not_le.mpr h.pos), h.good, if_neg Bool.false_ne_true,
      if_pos h.type]
    rfl
  | cons o os ih =>
    have h := hs.stepsOver (Past.here c).readHdr
    have hshort := h.shorter
    obtain ⟨n, rfl⟩ : ∃ k, n = k + 1 := ⟨n - 1, by omega⟩
    obtain ⟨c', hrun, hpast⟩ := ih (some c.off) (n := n) h.stands (by omega)
    refine ⟨c', ?_, h.past.others hpast⟩
    rw [seekEndpoint, if_neg (Int.not_le.mpr h.sees.pos), h.sees.good, if_neg Bool.false_ne_true,
      if_neg (by rw [h.sees.type]; exact o.other.2.2)]
    exact hrun

theorem word_append (w : BitVec 16) : (w.extractLsb' 8 8).append (w.extractLsb' 0 8) = w := by
  show w.extractLsb' 8 8 ++ w.extractLsb' 0 8 = w
  ext j hj
  rw [BitVec.getElem_append]
  split
  · rw [BitVec.getElem_extractLsb', Nat.zero_add, BitVec.getLsbD_eq_getElem hj]
  · rw [BitVec.getElem_extractLsb', show 8 + (j - 8) = j by omega, BitVec.getLsbD_eq_getElem hj]

theorem packetSize_toNat (w : BitVec 16) :
    packetSize w = BitVec.ofNat 16 (w.toNat % 2048 * (1 + w.toNat / 2048 % 4)) := by
  have hsize : w &&& 0x07ff#16 = BitVec.ofNat 16 (w.toNat % 2048) := by
    apply BitVec.eq_of_toNat_eq
    rw [BitVec.toNat_and]
    show w.toNat &&& 2 ^ 11 - 1 = _
    rw [Nat.and_two_pow_sub_one_eq_mod, BitVec.toNat_ofNat]
    omega
  have hadd : (w >>> 11) &&& 3#16 = BitVec.ofNat 16 (w.toNat / 2048 % 4) := by
    apply BitVec.eq_of_toNat_eq
    rw [BitVec.toNat_and, BitVec.toNat_ushiftRight, Nat.shiftRight_eq_div_pow]
    show w.toNat / 2 ^ 11 &&& 2 ^ 2 - 1 = _
    rw [Nat.and_two_pow_sub_one_eq_mod, BitVec.toNat_ofNat]
    omega
  rw [packetSize, hsize, hadd, BitVec.ofNat_mul, BitVec.ofNat_add]

/-- The fields are read where the endpoint has them. -/
theorem epInfo_desc {e : Endpoint} {p : Nat}
    (h : LiesAt b p (descBytes usbDtEndpoint e.body ++ m)) : epInfo b p = e.info := by
  have h2 := h.tail.tail
  have haddr : b (p + 2) = e.bEndpointAddress := h2.head
  have hattr : b (p + 3) = e.bmAttributes := h2.tail.head
  have hlow : b (p + 4) = e.wMaxPacketSize.extractLsb' 0 8 := h2.tail.tail.head
  have hhigh : b (p + 5) = e.wMaxPacketSize.extractLsb' 8 8 := h2.tail.tail.tail.head
  have hint : b (p + 6) = e.bInterval := h2.tail.tail.tail.tail.head
  rw [epInfo, haddr, hattr, hint, hlow, hhigh, word_append, packetSize_toNat]
  rfl

theorem endpoint_bytes (e : Endpoint) (m : List (BitVec 8)) :
    e.bytes ++ m = othersBytes e.before ++ (descBytes usbDtEndpoint e.body ++ m) :=
  List.append_assoc ..

/-- One call takes the endpoint with the descriptors before it. -/
theorem usbhParseEndpoint_parses (ifd i : Nat) {e : Endpoint} {off : Nat} {len : Int} {log : List ParseEvent}
    (hs : Stands b ⟨off, len, 0, log⟩ (e.bytes ++ m)) :
    ∃ log', usbhParseEndpoint b ifd i off len log = .ok (some (e.bytes.length, e.info), log') := by
  rw [endpoint_bytes] at hs
  obtain ⟨c', hrun, hp⟩ := seekEndpoint_others none (n := len.toNat) hs e.body_short le_rfl
  have hat := hs.past hp
  have hlen : c'.parsedLen + bLength b c'.off = e.bytes.length := by
    rw [hp.parsedLen, (hat.desc e.body_short).length, Endpoint.bytes, List.length_append]
    show (0 : Int) + _ + _ = _
    omega
  refine ⟨(((storeEndpoint c'.off ifd i c').note (.read c'.off)).note
    (.report len (c'.parsedLen + bLength b c'.off))).log, ?_⟩
  rw [usbhParseEndpoint, hrun, ← hlen, ← epInfo_desc hat.bytes]
  rfl

/-- `f` with its last setting as `a`. -/
def withLast (f : Iface) (a : AltIface) : Iface :=
  { f with alt := Function.update f.alt (f.numAlt - 1) a }

theorem setEp_withLast (f : Iface) (infos : List EpInfo) (x : EpInfo) :
    setEp infos.length x (withLast f (altOf ifd infos)) =
      withLast f (altOf ifd (infos ++ [x])) := by
  have hep : Function.update (altOf ifd infos).ep infos.length x = (altOf ifd (infos ++ [x])).ep := by
    funext j
    show Function.update (fun i => infos.getD i ⟨0, 0, 0, 0⟩) infos.length x j =
      (infos ++ [x]).getD j ⟨0, 0, 0, 0⟩
    rcases Nat.lt_trichotomy j infos.length with hj | hj | hj
    · rw [Function.update_of_ne (by omega), List.getD_eq_getElem?_getD,
        List.getD_eq_getElem?_getD, List.getElem?_append_left hj]
    · subst hj
      rw [Function.update_self, List.getD_eq_getElem?_getD, List.getElem?_concat_length]
      rfl
    · have hlen : (infos ++ [x]).length ≤ j := by
        rw [List.length_append]
        exact hj
      rw [Function.update_of_ne (by omega), List.getD_eq_getElem?_getD,
        List.getD_eq_getElem?_getD, List.getElem?_eq_none (by omega), List.getElem?_eq_none hlen]
  unfold setEp withLast
  dsimp only
  rw [Function.update_self, Function.update_idem, hep]
  rfl

/-- The loop over the endpoints of a setting fills `ep` in their order. -/
theorem parseEndpoints_parses {es : List Endpoint} (infos : List EpInfo) {f : Iface}
    {p : IfaceParse} (hs : Stands b p.cur (es.flatMap Endpoint.bytes ++ m))
    (hf : p.iface = withLast f (altOf ifd infos)) :
    ∃ q, parseEndpoints b ifd es.length infos.length p = .ok (.next, q) ∧
      Past (es.flatMap Endpoint.bytes).length p.cur q.cur ∧
      q.iface = withLast f (altOf ifd (infos ++ es.map Endpoint.info)) := by
  induction es generalizing p infos with
  | nil =>
    refine ⟨p, rfl, Past.here _, ?_⟩
    rw [hf, List.map_nil, List.append_nil]
  | cons e es ih =>
    rw [List.flatMap_cons, List.append_assoc] at hs
    have hstart : Stands b ⟨p.cur.off, p.cur.len, 0, .alt (p.iface.numAlt - 1) :: p.cur.log⟩
        (e.bytes ++ (es.flatMap Endpoint.bytes ++ m)) := ⟨hs.bytes, hs.len⟩
    obtain ⟨log, hone⟩ := usbhParseEndpoint_parses ifd infos.length hstart
    let q : IfaceParse := ⟨({ p.cur with log := log } : Cursor).skip e.bytes.length,
      setEp infos.length e.info p.iface, p.hdr⟩
    have hp : Past e.bytes.length p.cur q.cur := by
      have h : Past (0 + e.bytes.length) p.cur q.cur :=
        (⟨(Past.here p.cur).off, (Past.here p.cur).len, (Past.here p.cur).parsedLen⟩ :
          Past 0 p.cur { p.cur with log := log }).skip e.bytes.length
      rwa [Nat.zero_add] at h
    have hq : q.iface = withLast f (altOf ifd (infos ++ [e.info])) := by
      rw [← setEp_withLast, ← hf]
    obtain ⟨r, hrun, hpast, hiface⟩ := ih (infos ++ [e.info]) (p := q) (hs.past hp) hq
    refine ⟨r, ?_, ?_, ?_⟩
    · rw [List.length_append] at hrun
      rw [List.length_cons, parseEndpoints, hone]
      exact hrun
    · rw [List.flatMap_cons, List.length_append]
      exact hp.trans hpast
    · rw [hiface, List.append_assoc]
      rfl

end Endpoints

/-! ## Settings -/

section Settings

variable {b : Buf} {c : Cursor} {n off : Nat} {num : BitVec 8} {m : List (BitVec 8)}
  {os : List Other} {p : IfaceParse}

/-- Behind the other descriptors come an interface or endpoint descriptor, or nothing. -/
def HeaderNext (m : List (BitVec 8)) : Prop :=
  m = [] ∨ ∃ type body m', m = descBytes type body ++ m' ∧ body.length ≤ 253 ∧
    (type = usbDtInterface ∨ type = usbDtEndpoint)

/-- What is left of a block that stepped over `k` bytes and found no interface. -/
structure Stepped (k : Nat) (p q : IfaceParse) : Prop where
  past : Past k p.cur q.cur
  iface : q.iface = p.iface

theorem seekHeader_others (hs : Stands b p.cur (othersBytes os ++ m)) (hm : HeaderNext m)
    (hn : p.cur.len.toNat ≤ n) :
    ∃ q, seekHeader b n p = (.next, q) ∧ Stepped (othersBytes os).length p q ∧
      (m ≠ [] → q.hdr = some q.cur.off) := by
  induction os generalizing p n with
  | nil =>
    rcases hm with rfl | ⟨type, body, m', rfl, hb, ht⟩
    · refine ⟨p, ?_, ⟨Past.here _, rfl⟩, fun h => absurd rfl h⟩
      have h0 : p.cur.len ≤ 0 := le_of_eq hs.end
      cases n with
      | zero => rfl
      | succ n => rw [seekHeader, if_pos h0]
    · have h := hs.desc hb
      obtain ⟨n, rfl⟩ : ∃ k, n = k + 1 := ⟨n - 1, by have := h.pos; omega⟩
      refine ⟨⟨p.cur.readHdr, p.iface, some p.cur.off⟩, ?_, ⟨(Past.here _).readHdr, rfl⟩,
        fun _ => rfl⟩
      have hc : bDescriptorType b p.cur.off ≠ usbDtConfiguration := by
        rw [h.type]
        rcases ht with rfl | rfl <;> decide
      rw [seekHeader, if_neg (Int.not_le.mpr h.pos)]
      dsimp only
      rw [h.good, if_neg Bool.false_ne_true, if_neg hc, if_pos (by rw [h.type]; exact ht)]
  | cons o os ih =>
    have h := hs.stepsOver (Past.here p.cur).readHdr
    have hshort := h.shorter
    obtain ⟨n, rfl⟩ : ∃ k, n = k + 1 := ⟨n - 1, by omega⟩
    obtain ⟨q, hrun, hq, hhdr⟩ :=
      ih (p := ⟨p.cur.readHdr.skip (bLength b p.cur.off), p.iface, some p.cur.off⟩) (n := n)
        h.stands (Nat.le_of_lt_succ (hshort.trans_le hn))
    refine ⟨q, ?_, ⟨h.past.others hq.past, hq.iface⟩, hhdr⟩
    rw [seekHeader, if_neg (Int.not_le.mpr h.sees.pos)]
    dsimp only
    rw [h.sees.good, if_neg Bool.false_ne_true, if_neg (by rw [h.sees.type]; exact o.other.1),
      if_neg (by rw [h.sees.type]; exact not_or.mpr o.other.2)]
    exact hrun

/-- The outer loop steps over the descriptors behind the last endpoint. -/
theorem parseAlts_others (hs : Stands b p.cur (othersBytes os ++ m)) (hn : p.cur.len.toNat < n) :
    ∃ k q, parseAlts b n p = parseAlts b k q ∧ q.cur.len.toNat < k ∧
      Stepped (othersBytes os).length p q := by
  induction os generalizing p n with
  | nil => exact ⟨n, p, rfl, hn, Past.here _, rfl⟩
  | cons o os ih =>
    have h := hs.stepsOver (Past.here p.cur).readHdr
    obtain ⟨n, rfl⟩ : ∃ k, n = k + 1 := ⟨n - 1, by omega⟩
    obtain ⟨k, q, hrun, hk, hq⟩ :=
      ih (p := ⟨p.cur.readHdr.skip (bLength b p.cur.off), p.iface, p.hdr⟩) (n := n) h.stands
        (h.shorter.trans_le (Nat.le_of_lt_succ hn))
    refine ⟨k, q, ?_, hk, h.past.others hq.past, hq.iface⟩
    rw [parseAlts_skip h.sees.pos (by rw [h.sees.type]; exact o.other.2.1)]
    exact hrun

theorem altsOf_behind {ss : List Setting} {k : Nat} (hk : ss.length ≤ k) :
    altsOf num ss off k = ⟨none, fun _ => ⟨0, 0, 0, 0⟩⟩ := by
  induction ss generalizing off k with
  | nil => rfl
  | cons s ss ih =>
    obtain ⟨k, rfl⟩ : ∃ j, k = j + 1 := ⟨k - 1, by simp only [List.length_cons] at hk; omega⟩
    exact ih (by simpa using hk)

/-- One more setting fills the next element of `alt`. -/
theorem altsOf_append (done : List Setting) (s : Setting) :
    altsOf num (done ++ [s]) off = Function.update (altsOf num done off) done.length
      (altOf (off + (settingsBytes num done).length) (s.endpoints.map Endpoint.info)) := by
  induction done generalizing off with
  | nil =>
    funext k
    cases k with
    | zero => rw [List.length_nil, Function.update_self]; rfl
    | succ k => rw [List.length_nil, Function.update_of_ne (Nat.succ_ne_zero k)]; rfl
  | cons t done ih =>
    funext k
    have hlen : off + (settingsBytes num (t :: done)).length =
        off + (t.bytes num).length + (settingsBytes num done).length := by
      rw [settingsBytes, List.flatMap_cons, List.length_append, Nat.add_assoc]
      rfl
    rw [hlen]
    cases k with
    | zero =>
      rw [Function.update_of_ne (by simp)]
      rfl
    | succ k =>
      have h : altsOf num (done ++ [s]) (off + (t.bytes num).length) k = _ := congrFun ih k
      rw [List.cons_append, altsOf, h, List.length_cons]
      by_cases hk : k = done.length
      · subst hk
        rw [Function.update_self, Function.update_self]
      · rw [Function.update_of_ne hk, Function.update_of_ne (by omega)]
        rfl

theorem ifaceOf_append (done : List Setting) (s : Setting) :
    ifaceOf num (done ++ [s]) off =
      withLast ⟨num, done.length + 1, altsOf num done off, none⟩
        (altOf (off + (settingsBytes num done).length) (s.endpoints.map Endpoint.info)) := by
  rw [ifaceOf, altsOf_append, List.length_append]
  rfl

/-- `addAlt` makes room for the endpoints of the next setting. -/
theorem addAlt_iface {done : List Setting} {d : Nat} (hf : p.iface = ifaceOf num done off) :
    (addAlt d p).iface =
      withLast ⟨num, done.length + 1, altsOf num done off, none⟩ (altOf d []) := by
  have halt : ({ p.iface.alt p.iface.numAlt with ifd := some d } : AltIface) = altOf d [] := by
    rw [hf]
    show ({ altsOf num done off done.length with ifd := some d } : AltIface) = altOf d []
    rw [altsOf_behind le_rfl]
    rfl
  rw [addAlt]
  dsimp only
  rw [halt, hf]
  rfl

theorem header_fields {s : Setting} {d : Nat} (h : LiesAt b d (s.header num ++ m)) :
    bInterfaceNumber b d = num ∧ bNumEndpoints b d = s.endpoints.length := by
  have h2 := h.tail.tail
  have hnum : b (d + 4) = BitVec.ofNat 8 s.endpoints.length := h2.tail.tail.head
  have hfits : s.endpoints.length ≤ 6 := s.fits
  refine ⟨h2.head, ?_⟩
  unfold bNumEndpoints
  rw [hnum]
  exact (BitVec.toNat_ofNat ..).trans (Nat.mod_eq_of_lt (by omega))

/-- The state behind the interface descriptor in front of the cursor. -/
def entered (b : Buf) (p : IfaceParse) : IfaceParse :=
  ⟨(((readIf p.cur).note (.read (p.cur.off + 4))).note (.read p.cur.off)).skip
    (bLength b p.cur.off), p.iface, p.hdr⟩

theorem parseAlts_enter {s : Setting} {done : List Setting}
    (hs : Stands b p.cur (s.header num ++ m)) (hf : p.iface = ifaceOf num done off)
    (hlim : done.length < maxAltPerIface) :
    parseAlts b (n + 1) p =
      andThen (.ok (seekHeader b (entered b p).cur.len.toNat (entered b p)))
        (takeAlt b p.cur.off (parseAlts b n)) := by
  have h := hs.desc s.body_short
  obtain ⟨hnum, heps⟩ := header_fields hs.bytes
  have hfits : ¬ maxEpPerIface < s.endpoints.length := Nat.not_lt.mpr s.fits
  have hnumAlt : ¬ maxAltPerIface ≤ p.iface.numAlt := by
    rw [hf]
    exact Nat.not_le.mpr hlim
  have hsame : ¬ bInterfaceNumber b p.cur.off ≠ p.iface.ifNum := by
    rw [hnum, hf]
    exact not_not_intro rfl
  rw [parseAlts_iface h.pos h.type, if_neg hsame]
  dsimp only
  rw [heps, if_neg hfits, if_neg hnumAlt]
  rfl

theorem entered_past {s : Setting} (hs : Stands b p.cur (s.header num ++ m)) :
    Past (s.header num).length p.cur (entered b p).cur := by
  have hp := ((((Past.here p.cur).note (.read (p.cur.off + 1))).note (.read (p.cur.off + 2))).note
    (.read (p.cur.off + 4))).note (.read p.cur.off)
  have hl : bLength b p.cur.off = (s.header num).length := (hs.desc s.body_short).length
  have h := hp.skip (s.header num).length
  rw [Nat.zero_add] at h
  rw [entered, hl]
  exact h

/-- Behind a setting come another interface descriptor or nothing. -/
def IfaceNext (m : List (BitVec 8)) : Prop :=
  m = [] ∨ ∃ num, ∃ s : Setting, ∃ m', m = s.header num ++ m'

theorem IfaceNext.header (h : IfaceNext m) : HeaderNext m := by
  rcases h with h | ⟨num, s, m', rfl⟩
  · exact .inl h
  · exact .inr ⟨_, _, _, rfl, s.body_short, .inl rfl⟩

/-- `n` rounds from `p` lead to fewer from `q`, `size` bytes on, with `f` as the interface. -/
def Leads (b : Buf) (n : Nat) (p : IfaceParse) (size : Nat) (f : Iface) : Prop :=
  ∃ k q, parseAlts b n p = parseAlts b k q ∧ q.cur.len.toNat < k ∧ Past size p.cur q.cur ∧
    q.iface = f

/-- A setting without endpoints: the loop goes on at the next interface descriptor. -/
theorem parseAlts_bare {s : Setting} {done : List Setting} (he : s.endpoints = [])
    (hs : Stands b p.cur (s.bytes num ++ m)) (hm : IfaceNext m) (hn : p.cur.len.toNat < n)
    (hf : p.iface = ifaceOf num done off)
    (hoff : p.cur.off = off + (settingsBytes num done).length)
    (hlim : done.length < maxAltPerIface) :
    Leads b n p (s.bytes num).length (ifaceOf num (done ++ [s]) off) := by
  obtain ⟨n, rfl⟩ : ∃ k, n = k + 1 := ⟨n - 1, by omega⟩
  have hbytes : s.bytes num = s.header num ++ othersBytes s.behind := by
    rw [Setting.bytes, he]
    rfl
  rw [hbytes, List.append_assoc] at hs
  have hpast := entered_past hs
  obtain ⟨q, hseek, hq, hhdr⟩ := seekHeader_others (hs.past hpast) hm.header le_rfl
  have hq0 : Past (s.bytes num).length p.cur q.cur := by
    rw [hbytes, List.length_append]
    exact hpast.trans hq.past
  have hlen := (hs.past hpast).past hq.past
  have hiface : (addAlt p.cur.off q).iface = ifaceOf num (done ++ [s]) off := by
    rw [addAlt_iface (hq.iface.trans hf), ifaceOf_append, he, hoff]
    rfl
  rw [Leads, parseAlts_enter hs hf hlim, hseek]
  show ∃ k r, takeAlt b p.cur.off (parseAlts b n) q = parseAlts b k r ∧ _
  rcases hm with rfl | ⟨num', s', m', rfl⟩
  · refine ⟨1, addAlt p.cur.off q, ?_, ?_, hq0.note _, hiface⟩
    · rw [takeAlt_end hlen.end]
      exact (parseAlts_end (p := addAlt p.cur.off q) (le_of_eq hlen.end)).symm
    · show q.cur.len.toNat < 1
      rw [hlen.end]
      decide
  · have h := hlen.desc s'.body_short
    have hlt : q.cur.len.toNat < n := by
      have := hq0.len
      have hp : 9 ≤ (s.bytes num).length := by
        rw [hbytes, List.length_append]
        exact Nat.le_add_right ..
      have := h.pos
      omega
    refine ⟨n, ⟨(addAlt p.cur.off q).cur.note (.read (q.cur.off + 1)),
      (addAlt p.cur.off q).iface, some q.cur.off⟩, ?_, hlt, (hq0.note _).note _, hiface⟩
    rw [takeAlt_header h.pos.ne' (hhdr (List.cons_ne_nil _ _)), if_pos h.type]

/-- A setting with endpoints: they are parsed, and what stands behind them is stepped over. -/
theorem parseAlts_endpoints {s : Setting} {done : List Setting} {e : Endpoint} {es : List Endpoint}
    (he : s.endpoints = e :: es) (hs : Stands b p.cur (s.bytes num ++ m))
    (hn : p.cur.len.toNat < n) (hf : p.iface = ifaceOf num done off)
    (hoff : p.cur.off = off + (settingsBytes num done).length)
    (hlim : done.length < maxAltPerIface) :
    Leads b n p (s.bytes num).length (ifaceOf num (done ++ [s]) off) := by
  obtain ⟨n, rfl⟩ : ∃ k, n = k + 1 := ⟨n - 1, by omega⟩
  have hbytes : s.bytes num = s.header num ++ (othersBytes e.before ++
      ((e.bare :: es).flatMap Endpoint.bytes ++ othersBytes s.behind)) := by
    rw [Setting.bytes, he, List.flatMap_cons, List.flatMap_cons, Endpoint.bytes, List.append_assoc,
      List.append_assoc, List.append_assoc]
    rfl
  rw [hbytes, List.append_assoc, List.append_assoc, List.append_assoc] at hs
  have hpast := entered_past hs
  have hcons : (e.bare :: es).flatMap Endpoint.bytes ++ (othersBytes s.behind ++ m) =
      descBytes usbDtEndpoint e.body ++
        (es.flatMap Endpoint.bytes ++ (othersBytes s.behind ++ m)) := by
    rw [List.flatMap_cons, List.append_assoc]
    rfl
  obtain ⟨q, hseek, hq, hhdr⟩ := seekHeader_others (hs.past hpast)
    (.inr ⟨_, _, _, hcons, e.body_short, .inr rfl⟩) le_rfl
  have hat := (hs.past hpast).past hq.past
  have h : Sees b q.cur usbDtEndpoint (descBytes usbDtEndpoint e.body).length := by
    rw [hcons] at hat
    exact hat.desc e.body_short
  have hiface : (addAlt p.cur.off q).iface =
      withLast ⟨num, done.length + 1, altsOf num done off, none⟩ (altOf p.cur.off []) :=
    addAlt_iface (hq.iface.trans hf)
  let r : IfaceParse := ⟨(addAlt p.cur.off q).cur.note (.read (q.cur.off + 1)),
    (addAlt p.cur.off q).iface, some q.cur.off⟩
  have hr : Past 0 q.cur r.cur := ((Past.here q.cur).note _).note _
  obtain ⟨t, heps, ht, htf⟩ := parseEndpoints_parses [] (p := r)
    (hat.same hr) hiface
  have hlast := (hat.same hr).past ht
  have hpq := (hpast.trans hq.past).trans (hr.trans ht)
  obtain ⟨k, u, hrun, hk, hu⟩ := parseAlts_others (n := n) hlast (by
    have htlen := hpq.len
    have hqlen := (hpast.trans hq.past).len
    have hpos := h.pos
    have hhead : (s.header num).length = 9 := rfl
    omega)
  refine ⟨k, u, ?_, hk, ?_, ?_⟩
  · rw [parseAlts_enter hs hf hlim, hseek]
    show takeAlt b p.cur.off (parseAlts b n) q = _
    have hne : bDescriptorType b q.cur.off ≠ usbDtInterface := by
      rw [h.type]
      decide
    have hnum : bNumEndpoints b p.cur.off = (e.bare :: es).length := by
      rw [(header_fields hs.bytes).2, he]
      rfl
    rw [takeAlt_header h.pos.ne' (hhdr (by rw [hcons]; exact List.cons_ne_nil _ _)), if_neg hne, hnum]
    exact (congrArg (andThen · (parseAlts b n)) heps).trans hrun
  · have hall := hpq.trans hu.past
    rw [hbytes]
    simp only [List.length_append, Nat.zero_add, Nat.add_assoc] at hall ⊢
    exact hall
  · rw [hu.iface, htf, ifaceOf_append, he, hoff]
    rfl

/-- Behind an interface come nothing or an interface descriptor of another number. -/
def OtherNext (num : BitVec 8) (m : List (BitVec 8)) : Prop :=
  m = [] ∨ ∃ num', ∃ s : Setting, ∃ m', num' ≠ num ∧ m = s.header num' ++ m'

theorem OtherNext.iface (h : OtherNext num m) : IfaceNext m :=
  h.imp_right fun ⟨num', s, m', _, hm⟩ => ⟨num', s, m', hm⟩

theorem settingsBytes_cons (s : Setting) (ss : List Setting) (m : List (BitVec 8)) :
    settingsBytes num (s :: ss) ++ m = s.bytes num ++ (settingsBytes num ss ++ m) := by
  rw [settingsBytes, List.flatMap_cons, List.append_assoc]
  rfl

theorem settingsBytes_next (ss : List Setting) (h : IfaceNext m) :
    IfaceNext (settingsBytes num ss ++ m) := by
  cases ss with
  | nil => exact h
  | cons s ss =>
    have hm : settingsBytes num (s :: ss) ++ m = s.header num ++
        ((s.endpoints.flatMap Endpoint.bytes ++ othersBytes s.behind) ++
          (settingsBytes num ss ++ m)) := by
      rw [settingsBytes_cons, Setting.bytes, List.append_assoc]
    exact .inr ⟨num, s, _, hm⟩

theorem parseAlts_setting {s : Setting} {done : List Setting}
    (hs : Stands b p.cur (s.bytes num ++ m)) (hm : IfaceNext m) (hn : p.cur.len.toNat < n)
    (hf : p.iface = ifaceOf num done off)
    (hoff : p.cur.off = off + (settingsBytes num done).length)
    (hlim : done.length < maxAltPerIface) :
    Leads b n p (s.bytes num).length (ifaceOf num (done ++ [s]) off) := by
  cases he : s.endpoints with
  | nil => exact parseAlts_bare he hs hm hn hf hoff hlim
  | cons e es => exact parseAlts_endpoints he hs hn hf hoff hlim

/-- The outer loop takes the settings in their order and stops behind the last. -/
theorem parseAlts_parses {ss : List Setting} (done : List Setting) (off : Nat)
    (hs : Stands b p.cur (settingsBytes num ss ++ m)) (hm : OtherNext num m)
    (hn : p.cur.len.toNat < n) (hf : p.iface = ifaceOf num done off)
    (hoff : p.cur.off = off + (settingsBytes num done).length)
    (hlim : done.length + ss.length ≤ maxAltPerIface) :
    ∃ q, parseAlts b n p = .ok (.done, q) ∧ Past (settingsBytes num ss).length p.cur q.cur ∧
      q.iface = ifaceOf num (done ++ ss) off := by
  induction ss generalizing p n done with
  | nil =>
    obtain ⟨n, rfl⟩ : ∃ k, n = k + 1 := ⟨n - 1, by omega⟩
    rw [List.append_nil]
    rcases hm with rfl | ⟨num', s, m', hne, rfl⟩
    · exact ⟨p, parseAlts_end (le_of_eq hs.end), Past.here _, hf⟩
    · have hs' : Stands b p.cur (s.header num' ++ m') := hs
      have h := hs'.desc s.body_short
      refine ⟨⟨readIf p.cur, p.iface, p.hdr⟩, ?_, ((Past.here _).note _).note _, hf⟩
      have hother : bInterfaceNumber b p.cur.off ≠ p.iface.ifNum := by
        rw [(header_fields hs'.bytes).1, hf]
        exact hne
      rw [parseAlts_iface h.pos h.type, if_pos hother]
  | cons s ss ih =>
    rw [settingsBytes_cons] at hs
    rw [List.length_cons] at hlim
    obtain ⟨k, q, hrun, hk, hpast, hq⟩ :=
      parseAlts_setting hs (settingsBytes_next ss hm.iface) hn hf hoff (by omega)
    have hlen : (settingsBytes num (done ++ [s])).length =
        (settingsBytes num done).length + (s.bytes num).length := by
      rw [settingsBytes, List.flatMap_append, List.length_append, List.flatMap_singleton]
      rfl
    obtain ⟨r, hrest, hpast', hr⟩ := ih (done ++ [s]) (hs.past hpast) hk hq
      (by have := hpast.off; omega)
      (by rw [List.length_append, List.length_singleton]; omega)
    refine ⟨r, hrun.trans hrest, ?_, ?_⟩
    · have hall := hpast.trans hpast'
      rwa [← List.length_append] at hall
    · rw [hr, List.append_assoc]
      rfl

end Settings

/-! ## What the drivers are offered -/

section Offers

variable {δ : Type}

/-- The interfaces of the device, and the memory. -/
structure Attached (δ : Type) where
  ifaces : List (Addr × Iface)
  host : Host δ

/-- A new interface takes a DMA unit and the drivers are asked for it in the order of their
slots. It joins the list with the first that takes it, and is freed where none does. -/
def offer (drivers : Drivers δ) (u : Attached δ) (f : Iface) : Attached δ :=
  match u.host.dma.usbhAllocMem sizeofIface with
  | none => u
  | some (x, dma) =>
    let r := probeDrivers drivers x f maxUdevDriver 0 { u.host with dma := dma }
    match r.1 with
    | some i => ⟨(x, { f with driver := some i }) :: u.ifaces, r.2⟩
    | none => ⟨u.ifaces, { r.2 with dma := r.2.dma.usbhFreeMem x sizeofIface }⟩

def UnitFree (p : DmaPool) : Prop := ∃ j < dmaMemUnitNum, p.used j = false

/-- A unit is free whenever the next of the interfaces needs one. -/
def EnoughFree (drivers : Drivers δ) : Attached δ → List Iface → Prop
  | _, [] => True
  | u, f :: fs => UnitFree u.host.dma ∧ EnoughFree drivers (offer drivers u f) fs

variable {b : Buf} {c : Cursor} {drivers : Drivers δ} {u : Attached δ} {i : Interface}
  {m : List (BitVec 8)} {rounds n : Nat}

theorem sizeofIface_wanted : DmaPool.wanted sizeofIface = 1 := by decide

theorem parseDone_offer {x : Addr} {dma : DmaPool} {len : Int} {p : IfaceParse}
    (h : u.host.dma.usbhAllocMem sizeofIface = some (x, dma)) :
    parseDone drivers x len u.ifaces { u.host with dma := dma } p =
      ⟨p.cur.parsedLen, (offer drivers u p.iface).ifaces, (offer drivers u p.iface).host,
        .report len p.cur.parsedLen :: p.cur.log⟩ := by
  unfold parseDone offer
  rw [h]
  dsimp only
  cases (probeDrivers drivers x p.iface maxUdevDriver 0 { u.host with dma := dma }).1 <;> rfl

variable (drivers rounds) in
/-- `usbh_parse_interface` offers the interface that is described. -/
theorem usbhParseInterface_offers (hs : Stands b c (i.bytes ++ m))
    (hm : OtherNext i.bInterfaceNumber m) (hr : c.len.toNat < rounds)
    (hfree : UnitFree u.host.dma) :
    ∃ log, usbhParseInterface drivers b rounds c.off c.len u.ifaces u.host c.log =
      .ok ⟨i.bytes.length,
        (offer drivers u (ifaceOf i.bInterfaceNumber i.settings c.off)).ifaces,
        (offer drivers u (ifaceOf i.bInterfaceNumber i.settings c.off)).host, log⟩ := by
  obtain ⟨j, hj, hu⟩ := hfree
  obtain ⟨x, dma, halloc⟩ := DmaPool.usbhAllocMem_one_of_free sizeofIface_wanted hj hu
  have hnum : bInterfaceNumber b c.off = i.bInterfaceNumber := by
    obtain ⟨s, ss, hss⟩ := List.exists_cons_of_ne_nil i.nonempty
    have hb := hs.bytes
    rw [Interface.bytes, hss, settingsBytes_cons, Setting.bytes, List.append_assoc] at hb
    exact (header_fields hb).1
  obtain ⟨q, hrun, hpast, hq⟩ := parseAlts_parses [] c.off (n := rounds)
    (p := ⟨⟨c.off, c.len, 0, .read (c.off + 2) :: c.log⟩, .zero (bInterfaceNumber b c.off), none⟩)
    ⟨hs.bytes, hs.len⟩ hm hr (by rw [hnum]; rfl) rfl (by simpa using i.fits)
  have hlen : q.cur.parsedLen = i.bytes.length := by
    rw [hpast.parsedLen]
    exact Int.zero_add _
  refine ⟨.report c.len q.cur.parsedLen :: q.cur.log, ?_⟩
  unfold usbhParseInterface
  simp only [halloc, hrun]
  rw [parseDone_offer halloc, hq, hlen]
  rfl

/-! ## The configuration -/

theorem interface_bytes (i : Interface) (m : List (BitVec 8)) :
    ∃ s : Setting, ∃ m', i.bytes ++ m = s.header i.bInterfaceNumber ++ m' := by
  obtain ⟨s, ss, hss⟩ := List.exists_cons_of_ne_nil i.nonempty
  refine ⟨s, (s.endpoints.flatMap Endpoint.bytes ++ othersBytes s.behind) ++
    (settingsBytes i.bInterfaceNumber ss ++ m), ?_⟩
  rw [Interface.bytes, hss, settingsBytes_cons, Setting.bytes, List.append_assoc]

theorem interfacesBytes_next {num : BitVec 8} {is : List Interface}
    (h : num ∉ is.map Interface.bInterfaceNumber) : OtherNext num (interfacesBytes is) := by
  cases is with
  | nil => exact .inl rfl
  | cons i is =>
    obtain ⟨s, m', hm⟩ := interface_bytes i (interfacesBytes is)
    exact .inr ⟨_, s, m', fun he => h (by rw [← he]; exact List.mem_cons_self ..), hm⟩

/-- The search for the next interface steps over the other descriptors. -/
theorem seekInterface_others {os : List Other} {body : List (BitVec 8)}
    (hs : Stands b c (othersBytes os ++ (descBytes usbDtInterface body ++ m)))
    (hb : body.length ≤ 253) (hn : c.len.toNat ≤ n) :
    ∃ c', seekInterface b n c = some c' ∧ Past (othersBytes os).length c c' := by
  induction os generalizing c n with
  | nil =>
    have h := hs.desc hb
    have hlen : 2 ≤ c.len := by
      rw [hs.len, othersBytes, List.flatMap_nil, List.nil_append, List.length_append,
        descBytes_length]
      omega
    obtain ⟨n, rfl⟩ : ∃ k, n = k + 1 := ⟨n - 1, by omega⟩
    refine ⟨c, ?_, Past.here c⟩
    rw [seekInterface, if_neg (by omega), h.good, if_neg Bool.false_ne_true, if_pos h.type]
  | cons o os ih =>
    have h := hs.stepsOver (Past.here c)
    have hlen : 2 ≤ c.len := by
      rw [hs.len, othersBytes_cons, List.length_append, descBytes_length]
      omega
    have hshort := h.shorter
    obtain ⟨n, rfl⟩ : ∃ k, n = k + 1 := ⟨n - 1, by omega⟩
    obtain ⟨c', hrun, hpast⟩ := ih (n := n) h.stands (by omega)
    refine ⟨c', ?_, h.past.others hpast⟩
    rw [seekInterface, if_neg (by omega), h.sees.good, if_neg Bool.false_ne_true,
      if_neg (by rw [h.sees.type]; exact o.other.2.1)]
    exact hrun

theorem parseInterfaces_offers {is : List Interface} {os : List Other}
    (hs : Stands b c (othersBytes os ++ interfacesBytes is)) (hos : is = [] → os = [])
    (hd : (is.map Interface.bInterfaceNumber).Nodup) (hr : c.len.toNat < rounds)
    (hfree : EnoughFree drivers u (ifacesOf is (c.off + (othersBytes os).length))) :
    ∃ log, parseInterfaces drivers b rounds is.length c u.ifaces u.host =
      .ok ⟨0, ((ifacesOf is (c.off + (othersBytes os).length)).foldl (offer drivers) u).ifaces,
        ((ifacesOf is (c.off + (othersBytes os).length)).foldl (offer drivers) u).host, log⟩ := by
  induction is generalizing c u os with
  | nil =>
    rw [hos rfl] at hs
    have h0 : c.len = 0 := hs.end
    refine ⟨c.log, ?_⟩
    rw [List.length_nil, parseInterfaces, h0]
    rfl
  | cons i is ih =>
    obtain ⟨hnot, hd⟩ := List.nodup_cons.mp hd
    obtain ⟨s, m', hm⟩ := interface_bytes i (interfacesBytes is)
    have hsplit : interfacesBytes (i :: is) = i.bytes ++ interfacesBytes is := List.flatMap_cons
    have hseek : Stands b c (othersBytes os ++ (s.header i.bInterfaceNumber ++ m')) := by
      rw [← hm, ← hsplit]
      exact hs
    obtain ⟨c', hfind, hpast⟩ := seekInterface_others hseek s.body_short le_rfl
    rw [hsplit] at hs
    have hat := hs.past hpast
    have hoff := hpast.off
    obtain ⟨hunit, hrest⟩ := hfree
    obtain ⟨log, hone⟩ := usbhParseInterface_offers drivers rounds hat
      (interfacesBytes_next hnot) (by have := hpast.len; omega) hunit
    have hp : Past (0 + i.bytes.length) c' (({ c' with log := log } : Cursor).skip i.bytes.length) :=
      (⟨(Past.here c').off, (Past.here c').len, (Past.here c').parsedLen⟩ :
        Past 0 c' { c' with log := log }).skip _
    rw [Nat.zero_add] at hp
    rw [← hoff] at hrest
    have hbehind : Stands b (({ c' with log := log } : Cursor).skip i.bytes.length)
        (othersBytes [] ++ interfacesBytes is) := hat.past hp
    obtain ⟨log', hrun⟩ := ih hbehind (fun _ => rfl) hd
      (by have := hpast.len; have := hp.len; omega)
      (by rw [hp.off]; exact hrest)
    refine ⟨log', ?_⟩
    rw [List.length_cons, parseInterfaces, hfind]
    dsimp only
    rw [hone]
    dsimp only
    rw [if_neg (by omega), hrun, hp.off, hoff]
    rfl

theorem wTotalLength_total {d : Configuration} (hb : LiesAt b 0 d.bytes) :
    wTotalLength b = d.total := by
  have hlow : b 2 = BitVec.ofNat 8 d.total := hb.tail.tail.head
  have hhigh : b 3 = BitVec.ofNat 8 (d.total / 256) := hb.tail.tail.tail.head
  have hfits : d.total ≤ 4096 := d.fits
  rw [wTotalLength, hlow, hhigh, BitVec.toNat_ofNat, BitVec.toNat_ofNat]
  omega

theorem bNumInterfaces_length {d : Configuration} (hb : LiesAt b 0 d.bytes) :
    bNumInterfaces b = d.interfaces.length := by
  have hnum : b 4 = BitVec.ofNat 8 d.interfaces.length := hb.tail.tail.tail.tail.head
  have hcount := d.counted
  rw [bNumInterfaces, hnum]
  exact (BitVec.toNat_ofNat ..).trans (Nat.mod_eq_of_lt (by omega))

/-- The parser returns 0 for a configuration that lies in the buffer, and offers to the drivers
one interface for each number, with the settings and endpoints described. -/
theorem usbhParseConfiguration_roundTrip (drivers : Drivers δ) (d : Configuration) (b : Buf)
    (u : Attached δ) (rounds : Nat) (hb : LiesAt b 0 d.bytes) (hr : maxDescBuffSize < rounds)
    (hfree : EnoughFree drivers u d.ifaces) :
    (∃ log, usbhParseConfiguration drivers b rounds u.ifaces u.host =
      .ok ⟨0, (d.ifaces.foldl (offer drivers) u).ifaces,
        (d.ifaces.foldl (offer drivers) u).host, log⟩) ∧
      (d.ifaces.map Iface.ifNum).Nodup ∧ List.Forall₂ (Describes b) d.interfaces d.ifaces := by
  refine ⟨?_, d.ifaces_nodup, Configuration.describes hb⟩
  have hlen : bLength b 0 = 9 := by
    have h0 : b 0 = 9#8 := hb.head
    rw [bLength, h0]
    rfl
  have hs : Stands b (Cursor.skip ⟨0, wTotalLength b, 0, []⟩ (bLength b 0))
      (othersBytes d.before ++ interfacesBytes d.interfaces) := by
    rw [hlen]
    refine ⟨hb.right, ?_⟩
    show (wTotalLength b : Int) - 9 = _
    rw [wTotalLength_total hb, Configuration.total, configBody]
    omega
  have hlt : ((wTotalLength b : Int) - (bLength b 0 : Int)).toNat < rounds := by
    have hfits : d.total ≤ maxDescBuffSize := d.fits
    rw [wTotalLength_total hb]
    omega
  have hoff : (Cursor.skip ⟨0, wTotalLength b, 0, []⟩ (bLength b 0)).off = 9 := by
    rw [hlen]
    rfl
  have hstart : d.ifaces = ifacesOf d.interfaces
      ((Cursor.skip ⟨0, wTotalLength b, 0, []⟩ (bLength b 0)).off + (othersBytes d.before).length) := by
    rw [hoff]
    rfl
  rw [hstart] at hfree ⊢
  rw [usbhParseConfiguration, bNumInterfaces_length hb]
  exact parseInterfaces_offers hs (fun h => absurd h d.nonempty) d.distinct hlt hfree

end Offers

/-- An association of two interfaces. -/
def association : Other := ⟨0x0B#8, [0#8, 2#8, 1#8, 1#8, 0#8, 0#8], by decide, by decide⟩

def classSpecific : Other := ⟨0x24#8, [1#8], by decide, by decide⟩

/-- A speaker: one interface for control, and one with an idle and a streaming setting. -/
def speaker : Configuration where
  bConfigurationValue := 1#8
  iConfiguration := 0#8
  bmAttributes := 0x80#8
  bMaxPower := 50#8
  before := [association]
  interfaces :=
    [⟨0#8, [⟨0#8, 1#8, 1#8, 0#8, 0#8, [], [classSpecific], by decide⟩], by decide, by decide⟩,
      ⟨1#8, [⟨0#8, 1#8, 2#8, 0#8, 0#8, [], [], by decide⟩,
        ⟨1#8, 1#8, 2#8, 0#8, 0#8,
          [⟨[classSpecific], 0x01#8, 0x09#8, 0x0A00#16, 1#8, [0#8, 0#8], by decide⟩],
          [classSpecific], by decide⟩], by decide, by decide⟩]
  nonempty := by decide
  distinct := by decide
  counted := by decide
  fits := by decide

/-- One driver, which takes whatever it is offered and keeps the numbers of settings. -/
def taker : Drivers (List Nat) := fun i =>
  if i = 0 then some fun _ f h => (0, { h with drv := f.numAlt :: h.drv }) else none

theorem speaker_roundTrip :
    ∃ r, usbhParseConfiguration taker (fun i => speaker.bytes.getD i 0) 4097 [] ⟨.init, []⟩ = .ok r ∧
      r.ret = 0 ∧ r.host.drv = [2, 1] := by
  have hfree : EnoughFree taker ⟨[], ⟨.init, []⟩⟩ speaker.ifaces :=
    ⟨⟨0, by decide, rfl⟩, ⟨1, by decide, rfl⟩, trivial⟩
  obtain ⟨⟨log, h⟩, -⟩ := usbhParseConfiguration_roundTrip taker speaker _ ⟨[], ⟨.init, []⟩⟩ 4097
    (liesAt_getD speaker.bytes 0) (by decide) hfree
  exact ⟨_, h, rfl, rfl⟩

end Ma35d1.UsbHost.Core

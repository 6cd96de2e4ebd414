import Mathlib.Data.List.Nodup
import Mathlib.Tactic.SplitIfs
import Ma35d1.UsbHost.Uac.Streams

/-!
# Who owns the audio transfers

A stream that no call is in progress on either has nothing, or all of its UTRs on the controller. A
call that frees them first sees the endpoint removed.
-/

namespace Ma35d1.UsbHost.Uac.Streams

open Ma35d1.Machine.Trace

variable {s t : Dev} {e : Event} {d : Dir} {x : AsIf} {hc : Hc} {u : Nat} {ok : Bool}

/-! ## What is allocated -/

/-- The streams own different things, which are not freed; all else that was allocated is, once. -/
structure Ledger (next : Nat) (freed : List Nat) (own : Dir → List Nat) : Prop where
  fresh : ∀ d, ∀ id ∈ own d, id < next
  old : ∀ id ∈ freed, id < next
  nodup : ∀ d, (own d).Nodup
  apart : ∀ d, ∀ id ∈ own d, id ∉ own d.other
  live : ∀ d, ∀ id ∈ own d, freed.count id = 0
  gone : ∀ id < next, (∀ d, id ∉ own d) → freed.count id = 1

section Ledger

variable {next : Nat} {freed l : List Nat} {own : Dir → List Nat}

theorem eq_other_of_ne {d d' : Dir} (h : d' ≠ d) : d' = d.other := by
  cases d <;> cases d' <;> first | rfl | exact absurd rfl h

theorem other_ne (d : Dir) : d.other ≠ d := by
  cases d <;> exact Dir.noConfusion

theorem other_other (d : Dir) : d.other.other = d := by
  cases d <;> rfl

/-- A stream gets something new. -/
theorem Ledger.alloc (h : Ledger next freed own) (hl : l.Nodup)
    (hmem : ∀ id, id ∈ l ↔ id = next ∨ id ∈ own d) :
    Ledger (next + 1) freed (Function.update own d l) := by
  have hnew : freed.count next = 0 :=
    List.count_eq_zero.mpr fun hin => Nat.lt_irrefl _ (h.old _ hin)
  have hold : ∀ d', next ∉ own d' := fun d' hin => Nat.lt_irrefl _ (h.fresh d' _ hin)
  refine ⟨?_, fun id hid => Nat.lt_succ_of_lt (h.old id hid), ?_, ?_, ?_, ?_⟩
  · intro d' id hid
    by_cases hd : d' = d
    · rw [hd, Function.update_self] at hid
      obtain rfl | hin := (hmem id).mp hid
      · exact Nat.lt_succ_self _
      · exact Nat.lt_succ_of_lt (h.fresh d id hin)
    · rw [Function.update_of_ne hd] at hid
      exact Nat.lt_succ_of_lt (h.fresh d' id hid)
  · intro d'
    by_cases hd : d' = d
    · rw [hd, Function.update_self]
      exact hl
    · rw [Function.update_of_ne hd]
      exact h.nodup d'
  · intro d' id hid
    by_cases hd : d' = d
    · subst hd
      rw [Function.update_self] at hid
      rw [Function.update_of_ne (other_ne d')]
      obtain rfl | hin := (hmem id).mp hid
      · exact hold _
      · exact h.apart d' id hin
    · obtain rfl := eq_other_of_ne hd
      rw [Function.update_of_ne hd] at hid
      rw [other_other, Function.update_self, hmem, not_or]
      have hnot := h.apart d.other id hid
      rw [other_other] at hnot
      exact ⟨fun heq => hold d.other (heq ▸ hid), hnot⟩
  · intro d' id hid
    by_cases hd : d' = d
    · rw [hd, Function.update_self] at hid
      obtain rfl | hin := (hmem id).mp hid
      · exact hnew
      · exact h.live d id hin
    · rw [Function.update_of_ne hd] at hid
      exact h.live d' id hid
  · intro id hlt hnone
    have hd := hnone d
    rw [Function.update_self, hmem, not_or] at hd
    refine h.gone id (Nat.lt_of_le_of_ne (Nat.le_of_lt_succ hlt) hd.1) fun d' => ?_
    by_cases hd' : d' = d
    · rw [hd']
      exact hd.2
    · have hother := hnone d'
      rw [Function.update_of_ne hd'] at hother
      exact hother

/-- A stream frees all it has. -/
theorem Ledger.release (h : Ledger next freed own) (d : Dir) :
    Ledger next (own d ++ freed) (Function.update own d []) := by
  refine ⟨?_, ?_, ?_, ?_, ?_, ?_⟩
  · intro d' id hid
    by_cases hd : d' = d
    · rw [hd, Function.update_self] at hid
      cases hid
    · rw [Function.update_of_ne hd] at hid
      exact h.fresh d' id hid
  · intro id hid
    obtain hown | hfreed := List.mem_append.mp hid
    · exact h.fresh d id hown
    · exact h.old id hfreed
  · intro d'
    by_cases hd : d' = d
    · rw [hd, Function.update_self]
      exact List.nodup_nil
    · rw [Function.update_of_ne hd]
      exact h.nodup d'
  · intro d' id hid
    by_cases hd : d' = d
    · rw [hd, Function.update_self] at hid
      cases hid
    · obtain rfl := eq_other_of_ne hd
      rw [other_other, Function.update_self]
      exact List.not_mem_nil
  · intro d' id hid
    by_cases hd : d' = d
    · rw [hd, Function.update_self] at hid
      cases hid
    · obtain rfl := eq_other_of_ne hd
      rw [Function.update_of_ne hd] at hid
      have hnot := h.apart d.other id hid
      rw [other_other] at hnot
      rw [List.count_append, List.count_eq_zero.mpr hnot, h.live d.other id hid]
  · intro id hlt hnone
    have hother := hnone d.other
    rw [Function.update_of_ne (other_ne d)] at hother
    rw [List.count_append]
    by_cases hin : id ∈ own d
    · rw [List.count_eq_one_of_mem (h.nodup d) hin, h.live d id hin]
    · rw [List.count_eq_zero.mpr hin, Nat.zero_add]
      refine h.gone id hlt fun d' => ?_
      by_cases hd : d' = d
      · rw [hd]
        exact hin
      · rw [eq_other_of_ne hd]
        exact hother

end Ledger

/-! ## The invariant -/

/-- The controller has nothing of the stream. -/
def AsIf.Clear (x : AsIf) : Prop := x.queue = [] ∧ x.linked = false ∧ x.removing = false

/-- What holds of a stream whatever is going on -/
structure AsIfInv (hc : Hc) (x : AsIf) : Prop where
  orphans : x.orphans = []
  queued : ∀ u ∈ x.queue, u ∈ x.utr
  buff : x.queue ≠ [] → x.buff.isSome = true
  linked : x.queue ≠ [] → x.linked = true
  hwPipe : x.hwPipe = true → x.linked = true
  pipe : hc = .ehci → x.linked = true → x.hwPipe = true
  removing : x.removing = true → hc = .ehci

/-- A stream with no call in progress -/
def Resting (refused : List Nat) (x : AsIf) : Prop :=
  (x.flagStreaming = false ∧ x.Clear ∧ x.utr = [] ∧ x.buff = none) ∨
  (x.flagStreaming = true ∧ x.removing = false ∧ x.utr.length = numUtr ∧ x.buff.isSome = true ∧
    ∀ u ∈ x.utr, u ∈ x.queue ∨ u ∈ refused)

/-- A stream that has its UTRs and its buffer -/
structure Ready (flag : Bool) (x : AsIf) : Prop where
  flag : x.flagStreaming = flag
  utr : x.utr.length = numUtr
  buff : x.buff.isSome = true
  removing : x.removing = false

/-- What a call in progress has made of its stream -/
def Stage (x : AsIf) : Pc → Prop
  | .idle => False
  | .alloc _ i =>
    x.flagStreaming = false ∧ x.Clear ∧ x.buff = none ∧ x.utr.length = i ∧ i < numUtr
  | .buffer _ => x.flagStreaming = false ∧ x.Clear ∧ x.buff = none ∧ x.utr.length = numUtr
  | .submit _ _ | .streaming _ => Ready false x
  | .running _ => Ready true x
  | .quit _ _ i =>
    (i = 0 → x.removing = false) ∧ (i ≠ 0 → x.removing = true ∨ x.Clear) ∧ (x.utr = [] → x.Clear)
  | .release _ _ => x.removing = true ∨ x.Clear

structure DevInv (s : Dev) : Prop where
  asif : ∀ d, AsIfInv s.hc (s.asif d)
  rest : ∀ d, s.pc.dir ≠ some d → Resting s.refused (s.asif d)
  stage : ∀ d, s.pc.dir = some d → Stage (s.asif d) s.pc
  ledger : Ledger s.next s.freed fun d => (s.asif d).owned

/-- The controller has no transfer of a clear stream. -/
theorem AsIf.Clear.held (h : x.Clear) (hinv : AsIfInv hc x) : x.held = [] := by
  rw [AsIf.held, h.1, hinv.orphans]
  rfl

theorem DevInv.law (h : DevInv s) : StreamLaw s where
  freed := by
    intro id hlt
    split_ifs with hin
    · obtain hin | hin := List.mem_append.mp hin
      · exact h.ledger.live .input id hin
      · exact h.ledger.live .output id hin
    · refine h.ledger.gone id hlt fun d hd => hin (List.mem_append.mpr ?_)
      cases d with
      | input => exact .inl hd
      | output => exact .inr hd
  held := by
    intro d u hu
    have hx := h.asif d
    rw [AsIf.held, hx.orphans, List.append_nil] at hu
    have hlive : ∀ id ∈ (s.asif d).owned, id ∉ s.freed := fun id hid =>
      List.count_eq_zero.mp (h.ledger.live d id hid)
    have hutr := hx.queued u hu
    obtain ⟨b, hb⟩ := Option.isSome_iff_exists.mp (hx.buff (List.ne_nil_of_mem hu))
    have hbuff : b ∈ (s.asif d).owned :=
      List.mem_append_left _ (Option.mem_toList.mpr hb)
    exact ⟨hutr, hlive u (List.mem_append_right _ hutr), b, hb, hlive b hbuff⟩
  streaming := by
    intro d hd hflag
    obtain ⟨hnot, _⟩ | ⟨_, _, hlen, _, hall⟩ := h.rest d hd
    · exact absurd (hflag.symm.trans hnot) Bool.noConfusion
    · exact ⟨hlen, hall⟩
  stopped := by
    intro d hd hflag
    obtain ⟨_, hclear⟩ | ⟨hyes, _⟩ := h.rest d hd
    · exact hclear.1.held (h.asif d)
    · exact absurd (hflag.symm.trans hyes) Bool.noConfusion

theorem init_devInv (hc : Hc) (acif asifIn asifOut : Bool) :
    DevInv (init hc acif asifIn asifOut) where
  asif _ := ⟨rfl, fun _ hu => (nomatch hu), fun hne => absurd rfl hne, fun hne => absurd rfl hne,
    fun hp => (nomatch hp), fun _ hl => (nomatch hl), fun hr => (nomatch hr)⟩
  rest _ _ := .inl ⟨rfl, ⟨rfl, rfl, rfl⟩, rfl, rfl⟩
  stage _ hd := nomatch hd
  ledger := ⟨fun _ _ hid => (nomatch hid), fun _ hid => (nomatch hid), fun _ => List.nodup_nil,
    fun _ _ hid => (nomatch hid), fun _ _ hid => (nomatch hid), fun _ hlt => (nomatch hlt)⟩

theorem set_asif (s : Dev) (d : Dir) (x : AsIf) : (s.set d x).asif d = x := Function.update_self ..

theorem set_asif_of_ne {d' : Dir} (h : d' ≠ d) : (s.set d x).asif d' = s.asif d' :=
  Function.update_of_ne h ..

theorem owned_set (s : Dev) (d : Dir) (x : AsIf) :
    (fun d' => ((s.set d x).asif d').owned) =
      Function.update (fun d' => (s.asif d').owned) d x.owned := by
  funext d'
  by_cases hd : d' = d
  · rw [hd, set_asif, Function.update_self]
  · rw [set_asif_of_ne hd, Function.update_of_ne hd]

/-- A step that changes one stream, and the call if it is in progress on that -/
theorem DevInv.setStream (h : DevInv s) (ht : t.asif = (s.set d x).asif) (hhc : t.hc = s.hc)
    (hother : t.pc = s.pc ∨ t.pc.dir ≠ some d.other ∧ s.pc.dir ≠ some d.other)
    (hrefused : s.refused ⊆ t.refused) (hx : AsIfInv s.hc x)
    (hrest : t.pc.dir ≠ some d → Resting t.refused x) (hstage : t.pc.dir = some d → Stage x t.pc)
    (hledger : Ledger t.next t.freed (Function.update (fun d' => (s.asif d').owned) d x.owned)) :
    DevInv t := by
  have hself : t.asif d = x := by rw [ht, set_asif]
  have hne : ∀ d', d' ≠ d → t.asif d' = s.asif d' := fun d' hd => by rw [ht, set_asif_of_ne hd]
  refine ⟨?_, ?_, ?_, ?_⟩
  · intro d'
    rw [hhc]
    by_cases hd : d' = d
    · rw [hd, hself]
      exact hx
    · rw [hne d' hd]
      exact h.asif d'
  · intro d' hd'
    by_cases hd : d' = d
    · rw [hd, hself]
      exact hrest (hd ▸ hd')
    · rw [hne d' hd]
      have hold : s.pc.dir ≠ some d' := by
        obtain hpc | ⟨_, hs⟩ := hother
        · rw [← hpc]
          exact hd'
        · rw [eq_other_of_ne hd]
          exact hs
      obtain hclear | ⟨hflag, hrem, hlen, hbuff, hall⟩ := h.rest d' hold
      · exact .inl hclear
      · exact .inr ⟨hflag, hrem, hlen, hbuff, fun u hu => (hall u hu).imp_right (@hrefused u)⟩
  · intro d' hd'
    by_cases hd : d' = d
    · rw [hd, hself]
      exact hstage (hd ▸ hd')
    · rw [hne d' hd]
      obtain hpc | ⟨hnot, _⟩ := hother
      · rw [hpc] at hd' ⊢
        exact h.stage d' hd'
      · rw [eq_other_of_ne hd] at hd'
        exact absurd hd' hnot
  · rw [show (fun d' => (t.asif d').owned) = fun d' => ((s.set d x).asif d').owned by rw [ht],
      owned_set]
    exact hledger

/-- Where nothing is allocated or freed -/
theorem DevInv.sameLedger (h : DevInv s) (howned : x.owned = (s.asif d).owned) :
    Ledger s.next s.freed (Function.update (fun d' => (s.asif d').owned) d x.owned) := by
  rw [howned, Function.update_eq_self_iff.mpr rfl]
  exact h.ledger

/-- What is not about the streams and the call may change. -/
theorem DevInv.congr (h : DevInv s) (hasif : t.asif = s.asif) (hhc : t.hc = s.hc)
    (hpc : t.pc = s.pc) (hrefused : t.refused = s.refused) (hnext : t.next = s.next)
    (hfreed : t.freed = s.freed) : DevInv t := by
  obtain ⟨hx, hrest, hstage, hledger⟩ := h
  constructor
  · rw [hasif, hhc]
    exact hx
  · rw [hasif, hpc, hrefused]
    exact hrest
  · rw [hasif, hpc]
    exact hstage
  · rw [hasif, hnext, hfreed]
    exact hledger

/-! ## The calls -/

/-- A stream that the controller has nothing of -/
theorem AsIf.Clear.inv (h : x.Clear) (horph : x.orphans = []) (hpipe : x.hwPipe = false) :
    AsIfInv hc x := by
  obtain ⟨hqueue, hlinked, hremoving⟩ := h
  refine ⟨horph, fun u hu => ?_, fun hne => absurd hqueue hne, fun hne => absurd hqueue hne,
    fun hp => ?_, fun _ hl => ?_, fun hr => ?_⟩
  · rw [hqueue] at hu
    cases hu
  · rw [hpipe] at hp
    cases hp
  · rw [hlinked] at hl
    cases hl
  · rw [hremoving] at hr
    cases hr

theorem AsIfInv.hwPipe_false (h : AsIfInv hc x) (hl : x.linked = false) : x.hwPipe = false :=
  Bool.eq_false_iff.mpr fun hp => Bool.false_ne_true (hl.symm.trans (h.hwPipe hp))

theorem DevInv.start (h : DevInv s) (hidle : s.pc = .idle) (d : Dir) (found : Bool) :
    DevInv (s.start d found) := by
  unfold Dev.start
  dsimp only
  split_ifs with hout
  · exact h
  · rw [not_or, not_or, Bool.not_eq_true] at hout
    have hx := h.asif d
    obtain ⟨_, hclear, hutr, hbuff⟩ | ⟨hflag, _⟩ := h.rest d (by rw [hidle]; exact nofun)
    · refine h.setStream (x := { s.asif d with utr := [], buff := none, flagStreaming := false })
        rfl rfl (.inr ⟨?_, ?_⟩) (fun _ hu => hu) ?_ (fun hd => absurd rfl hd)
        (fun _ => ⟨rfl, hclear, rfl, rfl, by decide⟩) (h.sameLedger ?_)
      · exact fun heq => other_ne d (Option.some.inj heq).symm
      · rw [hidle]
        exact nofun
      · exact AsIf.Clear.inv hclear hx.orphans (hx.hwPipe_false hclear.2.1)
      · show [] = (s.asif d).owned
        rw [AsIf.owned, hutr, hbuff]
        rfl
    · rw [hout.2.1] at hflag
      cases hflag

/-- The flag of a stream says nothing of what it owns. -/
theorem AsIfInv.flag (h : AsIfInv hc x) (flag : Bool) :
    AsIfInv hc { x with flagStreaming := flag } :=
  { h with }

theorem DevInv.stop (h : DevInv s) (hidle : s.pc = .idle) (why : Why) (d : Dir) :
    DevInv (s.stop why d) := by
  have hx := h.asif d
  refine h.setStream rfl rfl (.inr ⟨?_, ?_⟩) (fun _ hu => hu) (hx.flag _) (fun hd => absurd rfl hd)
    (fun _ => ?_) (h.sameLedger rfl)
  · exact fun heq => other_ne d (Option.some.inj heq).symm
  · rw [hidle]
    exact nofun
  · obtain ⟨_, hclear, _⟩ | ⟨_, hrem, hlen, _⟩ := h.rest d (by rw [hidle]; exact nofun)
    · exact ⟨fun _ => hclear.2.2, fun hi => absurd rfl hi, fun _ => hclear⟩
    · refine ⟨fun _ => hrem, fun hi => absurd rfl hi, fun hnil => ?_⟩
      have hnil : (s.asif d).utr = [] := hnil
      rw [hnil] at hlen
      cases hlen

/-- The end of a call, when the endpoint is gone -/
theorem DevInv.release (h : DevInv s) {why : Why} (hpc : s.pc = .release why d)
    (hgo : ¬ (s.hc = .ehci ∧ (s.asif d).removing = true)) : DevInv (s.release why d) := by
  have hx := h.asif d
  have hstage := h.stage d (by rw [hpc]; rfl)
  rw [hpc] at hstage
  have hclear : (s.asif d).Clear := by
    obtain hrem | hclear := hstage
    · exact absurd ⟨hx.removing hrem, hrem⟩ hgo
    · exact hclear
  have hledger := h.ledger.release d
  -- whatever else is set, the stream has nothing left
  have hkey : ∀ iface state alive, DevInv
      { s.set d
          { s.asif d with utr := [], buff := none, flagStreaming := false, iface := iface } with
        freed := (s.asif d).buff.toList ++ (s.asif d).utr ++ s.freed, pc := .idle
        state := state, alive := alive } := by
    intro iface state alive
    refine h.setStream rfl rfl (.inr ⟨nofun, ?_⟩) (fun _ hu => hu) ?_
      (fun _ => .inl ⟨rfl, hclear, rfl, rfl⟩) (fun hd => nomatch hd) hledger
    · rw [hpc]
      exact fun heq => other_ne d (Option.some.inj heq).symm
    · exact AsIf.Clear.inv hclear hx.orphans (hx.hwPipe_false hclear.2.1)
  have hidem : ∀ iface, Function.update (Function.update s.asif d
      { s.asif d with utr := [], buff := none }) d { Function.update s.asif d
      { s.asif d with utr := [], buff := none } d with flagStreaming := false, iface := iface } =
      Function.update s.asif d
        { s.asif d with utr := [], buff := none, flagStreaming := false, iface := iface } := by
    intro iface
    rw [Function.update_idem, Function.update_self]
  unfold Dev.release
  cases why with
  | start => exact (hkey _ s.state s.alive).congr (hidem _) rfl rfl rfl rfl rfl
  | stop => exact (hkey _ s.state s.alive).congr (hidem _) rfl rfl rfl rfl rfl
  | disconnect => exact (hkey false s.state s.alive).congr (hidem _) rfl rfl rfl rfl rfl

/-- A UTR of the stream is submitted. -/
theorem AsIfInv.isoXfer (h : AsIfInv hc x) (hu : u ∈ x.utr) (hbuff : x.buff.isSome = true) :
    AsIfInv hc (x.isoXfer hc u) := by
  refine ⟨h.orphans, ?_, fun _ => hbuff, fun _ => rfl, fun _ => rfl, fun he _ => ?_, h.removing⟩
  · intro v hv
    obtain hv | hv := List.mem_append.mp hv
    · exact h.queued v hv
    · rw [List.mem_singleton.mp hv]
      exact hu
  · show (x.hwPipe || x.linked || hc == .ehci) = true
    rw [he]
    exact Bool.or_true _

/-- A call that stays on its stream, or ends -/
theorem dir_ne_other {pc : Pc} (h : pc.dir = none ∨ pc.dir = some d) : pc.dir ≠ some d.other := by
  intro heq
  obtain h | h := h
  · exact nomatch h.symm.trans heq
  · exact other_ne d (Option.some.inj (h.symm.trans heq)).symm

/-- An allocation or a submission has failed, and the UTRs are quit. -/
theorem DevInv.failed (h : DevInv s) (hd : s.pc.dir = some d) (hrem : (s.asif d).removing = false)
    (hnil : (s.asif d).utr = [] → (s.asif d).Clear) : DevInv { s with pc := .quit .start d 0 } := by
  have hset : (s.set d (s.asif d)).asif = s.asif := Function.update_eq_self ..
  exact h.setStream hset.symm rfl
    (.inr ⟨dir_ne_other (.inr rfl), dir_ne_other (.inr hd)⟩) (fun _ hu => hu) (h.asif d)
    (fun hne => absurd rfl hne) (fun _ => ⟨fun _ => hrem, fun hi => absurd rfl hi, hnil⟩)
    (h.sameLedger rfl)

theorem DevInv.goAlloc (h : DevInv s) {i : Nat} (hpc : s.pc = .alloc d i) (ht : s.go ok = some t) :
    DevInv t := by
  have hd : s.pc.dir = some d := by rw [hpc]; rfl
  have hx := h.asif d
  have hstage := h.stage d hd
  rw [hpc] at hstage
  obtain ⟨hflag, hclear, hbuff, hlen, hi⟩ := hstage
  rw [Dev.go, hpc] at ht
  cases ok with
  | false =>
    obtain rfl := Option.some.inj ht
    exact h.failed hd hclear.2.2 fun _ => hclear
  | true =>
    obtain rfl := Option.some.inj ht
    have howned : ({ s.asif d with utr := (s.asif d).utr ++ [s.next] } : AsIf).owned =
        (s.asif d).owned ++ [s.next] := (List.append_assoc _ _ _).symm
    have hlen' : ((s.asif d).utr ++ [s.next]).length = i + 1 := by
      rw [List.length_append, hlen]
      rfl
    refine h.setStream rfl rfl (.inr ⟨?_, dir_ne_other (.inr hd)⟩) (fun _ hu => hu)
      (AsIf.Clear.inv hclear hx.orphans (hx.hwPipe_false hclear.2.1)) ?_ ?_ ?_
    · dsimp only
      split_ifs <;> exact dir_ne_other (.inr rfl)
    · dsimp only
      split_ifs <;> exact fun hne => absurd rfl hne
    · intro _
      dsimp only
      split_ifs with hlt
      · exact ⟨hflag, hclear, hbuff, hlen', hlt⟩
      · exact ⟨hflag, hclear, hbuff, hlen'.trans (by omega)⟩
    · rw [howned]
      refine h.ledger.alloc ?_ fun id => ?_
      · rw [← List.concat_eq_append]
        exact (h.ledger.nodup d).concat fun hin => Nat.lt_irrefl _ (h.ledger.fresh d _ hin)
      · rw [List.mem_append, List.mem_singleton]
        exact Or.comm

theorem DevInv.goBuffer (h : DevInv s) (hpc : s.pc = .buffer d) (ht : s.go ok = some t) :
    DevInv t := by
  have hd : s.pc.dir = some d := by rw [hpc]; rfl
  have hx := h.asif d
  have hstage := h.stage d hd
  rw [hpc] at hstage
  obtain ⟨hflag, hclear, hbuff, hlen⟩ := hstage
  rw [Dev.go, hpc] at ht
  cases ok with
  | false =>
    obtain rfl := Option.some.inj ht
    exact h.failed hd hclear.2.2 fun _ => hclear
  | true =>
    obtain rfl := Option.some.inj ht
    have howned : (s.asif d).owned = (s.asif d).utr := by
      rw [AsIf.owned, hbuff]
      rfl
    refine h.setStream rfl rfl (.inr ⟨dir_ne_other (.inr rfl), dir_ne_other (.inr hd)⟩)
      (fun _ hu => hu) (AsIf.Clear.inv hclear hx.orphans (hx.hwPipe_false hclear.2.1))
      (fun hne => absurd rfl hne) (fun _ => ⟨hflag, hlen, rfl, hclear.2.2⟩) ?_
    show Ledger _ _ (Function.update _ d (s.next :: (s.asif d).utr))
    rw [← howned]
    exact h.ledger.alloc
      (List.nodup_cons.mpr ⟨fun hin => Nat.lt_irrefl _ (h.ledger.fresh d _ hin), h.ledger.nodup d⟩)
      fun _ => List.mem_cons

theorem DevInv.goSubmit (h : DevInv s) {i : Nat} (hpc : s.pc = .submit d i)
    (ht : s.go ok = some t) : DevInv t := by
  have hd : s.pc.dir = some d := by rw [hpc]; rfl
  have hready := h.stage d hd
  rw [hpc] at hready
  obtain ⟨hflag, hlen, hbuff, hrem⟩ := hready
  rw [Dev.go, hpc] at ht
  dsimp only at ht
  split at ht
  case h_1 => cases ht
  case h_2 u hu =>
  cases ok with
  | false =>
    obtain rfl := Option.some.inj ht
    refine h.failed hd hrem fun hnil => ?_
    rw [hnil] at hlen
    cases hlen
  | true =>
    obtain rfl := Option.some.inj ht
    refine h.setStream rfl rfl (.inr ⟨?_, dir_ne_other (.inr hd)⟩) (fun _ hu => hu)
      ((h.asif d).isoXfer (List.mem_of_getElem? hu) hbuff) ?_ ?_ (h.sameLedger rfl)
    · dsimp only
      split_ifs <;> exact dir_ne_other (.inr rfl)
    · dsimp only
      split_ifs <;> exact fun hne => absurd rfl hne
    · intro _
      dsimp only
      split_ifs <;> exact ⟨hflag, hlen, hbuff, hrem⟩

/-- The first quit sees the endpoint removed, and the others find none. -/
theorem DevInv.goQuit (h : DevInv s) {why : Why} {i : Nat} (hpc : s.pc = .quit why d i)
    (hk : s.hc = .ehci ∨ (s.asif d).linked = false) (ht : s.go ok = some t) : DevInv t := by
  have hd : s.pc.dir = some d := by rw [hpc]; rfl
  have hx := h.asif d
  have hstage := h.stage d hd
  rw [hpc] at hstage
  obtain ⟨hfirst, hlater, hnil⟩ := hstage
  rw [Dev.go, hpc] at ht
  dsimp only at ht
  split at ht
  case isTrue => cases ht
  case isFalse hgo =>
  have hrem : (s.asif d).removing = false :=
    Bool.eq_false_iff.mpr fun hrem => hgo ⟨hx.removing hrem, hrem⟩
  -- the next place is as good as this one
  generalize hnext : (if i + 1 < numUtr then Pc.quit why d (i + 1) else Pc.release why d) = pc at ht
  have hdir : pc.dir = some d := by
    rw [← hnext]
    split_ifs <;> rfl
  have hstage : ∀ x : AsIf, x.removing = true ∨ x.Clear → (x.utr = [] → x.Clear) → Stage x pc := by
    intro x hdone hempty
    rw [← hnext]
    split_ifs
    · exact ⟨fun hi => (nomatch hi), fun _ => hdone, hempty⟩
    · exact hdone
  have hpcs : pc = s.pc ∨ pc.dir ≠ some d.other ∧ s.pc.dir ≠ some d.other :=
    .inr ⟨dir_ne_other (.inr hdir), dir_ne_other (.inr hd)⟩
  have hset : (s.set d (s.asif d)).asif = s.asif := Function.update_eq_self ..
  split at ht
  case isTrue hnone =>
    obtain rfl := Option.some.inj ht
    have hclear : (s.asif d).Clear := by
      by_cases hi : i = 0
      · rw [hi, List.getElem?_eq_none_iff] at hnone
        exact hnil (List.length_eq_zero_iff.mp (Nat.le_zero.mp hnone))
      · obtain hyes | hclear := hlater hi
        · exact absurd (hrem.symm.trans hyes) Bool.noConfusion
        · exact hclear
    exact h.setStream hset.symm rfl hpcs (fun _ hu => hu) hx (fun hne => absurd hdir hne)
      (fun _ => hstage _ (.inr hclear) fun _ => hclear) (h.sameLedger rfl)
  case isFalse hsome =>
    obtain rfl := Option.some.inj ht
    by_cases hpipe : (s.asif d).hwPipe = true
    · -- the endpoint is in the list of the controller, which is EHCI
      have hehci : s.hc = .ehci := hk.resolve_right fun hl =>
        Bool.false_ne_true (hl.symm.trans (hx.hwPipe hpipe))
      have hquit : (s.asif d).quitUtr s.hc =
          { s.asif d with removing := true, hwPipe := s.hc == .ehci } := if_pos hpipe
      have hpipe' : (s.hc == .ehci) = true := by
        rw [hehci]
        rfl
      rw [hquit]
      refine h.setStream rfl rfl hpcs (fun _ hu => hu) ⟨hx.orphans, hx.queued, hx.buff, hx.linked,
        fun _ => hx.hwPipe hpipe, fun _ _ => hpipe', fun _ => hehci⟩ (fun hne => absurd hdir hne)
        (fun _ => hstage _ (.inl rfl) fun hn => ?_) (h.sameLedger rfl)
      exact absurd ((hnil hn).2.1.symm.trans (hx.hwPipe hpipe)) Bool.noConfusion
    · have hl : (s.asif d).linked = false := by
        obtain hehci | hl := hk
        · exact Bool.eq_false_iff.mpr fun hl => hpipe (hx.pipe hehci hl)
        · exact hl
      have hclear : (s.asif d).Clear :=
        ⟨by_contra fun hq => Bool.false_ne_true (hl.symm.trans (hx.linked hq)), hl, hrem⟩
      have hquit : (s.asif d).quitUtr s.hc = s.asif d := if_neg hpipe
      rw [hquit]
      exact h.setStream rfl rfl hpcs (fun _ hu => hu) hx (fun hne => absurd hdir hne)
        (fun _ => hstage _ (.inr hclear) fun _ => hclear) (h.sameLedger rfl)

theorem DevInv.go (h : DevInv s) (hk : s.GoKept s.pc) (ht : s.go ok = some t) : DevInv t := by
  cases hpc : s.pc with
  | idle =>
    rw [Dev.go, hpc] at ht
    cases ht
  | alloc d i => exact h.goAlloc hpc ht
  | buffer d => exact h.goBuffer hpc ht
  | submit d i => exact h.goSubmit hpc ht
  | streaming d =>
    have hd : s.pc.dir = some d := by rw [hpc]; rfl
    have hready := h.stage d hd
    rw [hpc] at hready
    obtain ⟨_, hlen, hbuff, hrem⟩ := hready
    rw [Dev.go, hpc] at ht
    obtain rfl := Option.some.inj ht
    exact h.setStream rfl rfl (.inr ⟨dir_ne_other (.inr rfl), dir_ne_other (.inr hd)⟩)
      (fun _ hu => hu) ((h.asif d).flag true) (fun hne => absurd rfl hne)
      (fun _ => ⟨rfl, hlen, hbuff, hrem⟩) (h.sameLedger rfl)
  | running d =>
    have hd : s.pc.dir = some d := by rw [hpc]; rfl
    have hready := h.stage d hd
    rw [hpc] at hready hk
    obtain ⟨hflag, hlen, hbuff, hrem⟩ := hready
    rw [Dev.go, hpc] at ht
    obtain rfl := Option.some.inj ht
    have hset : (s.set d (s.asif d)).asif = s.asif := Function.update_eq_self ..
    exact h.setStream hset.symm rfl (.inr ⟨nofun, dir_ne_other (.inr hd)⟩) (fun _ hu => hu)
      (h.asif d) (fun _ => .inr ⟨hflag, hrem, hlen, hbuff, hk⟩) (fun hd' => nomatch hd')
      (h.sameLedger rfl)
  | quit why d i =>
    rw [hpc] at hk
    exact h.goQuit hpc hk ht
  | release why d =>
    rw [Dev.go, hpc] at ht
    dsimp only at ht
    split_ifs at ht with hgo
    obtain rfl := Option.some.inj ht
    exact h.release hpc hgo

/-! ## The callbacks -/

/-- A callback leaves its UTR alone, submits it, or is refused. -/
theorem irq_cases (s : Dev) (d : Dir) (x : AsIf) (u : Nat) (ok : Bool) :
    ((s.set d x).irq d u ok = s.set d x ∧ (x.flagStreaming = false ∨ s.state ≠ .running)) ∨
    ((s.set d x).irq d u ok = s.set d (x.isoXfer s.hc u) ∧
      x.flagStreaming = true ∧ s.state = .running ∧ ok = true) ∨
    ((s.set d x).irq d u ok = { s.set d x with refused := u :: s.refused } ∧
      x.flagStreaming = true ∧ s.state = .running) := by
  have hidem : ∀ y, (s.set d x).set d y = s.set d y := by
    intro y
    rw [Dev.set, Dev.set, Function.update_idem]
    rfl
  unfold Dev.irq
  rw [set_asif]
  by_cases hflag : x.flagStreaming = false
  · exact .inl ⟨if_pos hflag, .inl hflag⟩
  · rw [if_neg hflag]
    rw [Bool.not_eq_false] at hflag
    by_cases hstate : s.state = .running
    · have hrunning : ¬ (s.set d x).state ≠ .running := not_not_intro hstate
      rw [if_neg hrunning]
      cases ok with
      | true => exact .inr (.inl ⟨hidem _, hflag, hstate, rfl⟩)
      | false => exact .inr (.inr ⟨rfl, hflag, hstate⟩)
    · exact .inl ⟨if_pos hstate, .inr hstate⟩

/-- Fewer transfers on the controller -/
theorem AsIfInv.dequeue (h : AsIfInv hc x) {q : List Nat} (hq : q ⊆ x.queue) :
    AsIfInv hc { x with queue := q } := by
  have hne : q ≠ [] → x.queue ≠ [] := fun hne hnil => hne (List.subset_nil.mp (hnil ▸ hq))
  exact ⟨h.orphans, fun u hu => h.queued u (hq hu), fun hq' => h.buff (hne hq'),
    fun hq' => h.linked (hne hq'), h.hwPipe, h.pipe, h.removing⟩

/-- A transfer is done, and its callback runs. -/
theorem DevInv.callback (h : DevInv s) {q : List Nat} (hu : u ∈ (s.asif d).queue)
    (hq : q ⊆ (s.asif d).queue) (hrest : ∀ v ∈ (s.asif d).queue, v = u ∨ v ∈ q)
    (hstate : s.pc.dir ≠ some d → (s.asif d).flagStreaming = true → s.state = .running)
    (hstage : ∀ x : AsIf, x.flagStreaming = (s.asif d).flagStreaming → x.utr = (s.asif d).utr →
      x.buff = (s.asif d).buff → x.removing = (s.asif d).removing →
      s.pc.dir = some d → Stage x s.pc) :
    DevInv ((s.set d { s.asif d with queue := q }).irq d u ok) := by
  have hx := h.asif d
  have hx' := hx.dequeue hq
  have hmem := hx.queued u hu
  have hbuff := hx.buff (List.ne_nil_of_mem hu)
  -- a stream at rest that has a transfer is streaming
  have hstreams : s.pc.dir ≠ some d → (s.asif d).flagStreaming = true ∧
      (s.asif d).removing = false ∧ (s.asif d).utr.length = numUtr ∧
      ∀ v ∈ (s.asif d).utr, v ∈ (s.asif d).queue ∨ v ∈ s.refused := by
    intro hd
    obtain ⟨_, hclear, _⟩ | ⟨hflag, hrem, hlen, _, hall⟩ := h.rest d hd
    · rw [hclear.1] at hu
      cases hu
    · exact ⟨hflag, hrem, hlen, hall⟩
  obtain ⟨heq, hout⟩ | ⟨heq, _, _, _⟩ | ⟨heq, _, _⟩ :=
    irq_cases s d { s.asif d with queue := q } u ok
  · rw [heq]
    refine h.setStream rfl rfl (.inl rfl) (fun _ hv => hv) hx' (fun hd => ?_)
      (hstage _ rfl rfl rfl rfl) (h.sameLedger rfl)
    obtain ⟨hflag, _⟩ := hstreams hd
    obtain hnot | hnot := hout
    · exact absurd (hflag.symm.trans hnot) Bool.noConfusion
    · exact absurd (hstate hd hflag) hnot
  · rw [heq]
    refine h.setStream rfl rfl (.inl rfl) (fun _ hv => hv) (hx'.isoXfer hmem hbuff) (fun hd => ?_)
      (hstage _ rfl rfl rfl rfl) (h.sameLedger rfl)
    obtain ⟨hflag, hrem, hlen, hall⟩ := hstreams hd
    refine .inr ⟨hflag, hrem, hlen, hbuff, fun v hv => ?_⟩
    show v ∈ q ++ [u] ∨ v ∈ s.refused
    rw [List.mem_append, List.mem_singleton, or_comm (a := v ∈ q)]
    exact (hall v hv).imp_left (hrest v)
  · rw [heq]
    refine h.setStream (x := { s.asif d with queue := q }) rfl rfl (.inl rfl)
      (fun _ hv => List.mem_cons_of_mem _ hv) hx' (fun hd => ?_)
      (hstage _ rfl rfl rfl rfl) (h.sameLedger rfl)
    obtain ⟨hflag, hrem, hlen, hall⟩ := hstreams hd
    refine .inr ⟨hflag, hrem, hlen, hbuff, fun v hv => ?_⟩
    show v ∈ q ∨ v ∈ u :: s.refused
    obtain hin | hold := hall v hv
    · obtain rfl | hin := hrest v hin
      · exact .inr List.mem_cons_self
      · exact .inl hin
    · exact .inr (List.mem_cons_of_mem _ hold)

/-- What the places of a call say of a stream that has a transfer -/
theorem Stage.congr {x y : AsIf} {pc : Pc} (h : Stage x pc) (hx : AsIfInv hc x)
    (hu : u ∈ x.queue) (hflag : y.flagStreaming = x.flagStreaming) (hutr : y.utr = x.utr)
    (hbuff : y.buff = x.buff) (hrem : y.removing = x.removing) : Stage y pc := by
  have hnot : ¬ x.Clear := by
    intro hclear
    rw [hclear.1] at hu
    cases hu
  have hready : ∀ flag, Ready flag x → Ready flag y := fun flag hr =>
    ⟨hflag.trans hr.flag, (congrArg List.length hutr).trans hr.utr,
      (congrArg _ hbuff).trans hr.buff, hrem.trans hr.removing⟩
  cases pc with
  | idle => exact h
  | alloc d i => exact absurd h.2.1 hnot
  | buffer d => exact absurd h.2.1 hnot
  | submit d i => exact hready _ h
  | streaming d => exact hready _ h
  | running d => exact hready _ h
  | quit why d i =>
    obtain ⟨hfirst, hlater, _⟩ := h
    refine ⟨fun hi => hrem.trans (hfirst hi), fun hi => ?_, fun hn => ?_⟩
    · exact .inl (hrem.trans ((hlater hi).resolve_right hnot))
    · have hin := hx.queued u hu
      rw [← hutr, hn] at hin
      cases hin
  | release why d => exact .inl (hrem.trans (h.resolve_right hnot))

theorem DevInv.complete (h : DevInv s) (hu : u ∈ (s.asif d).queue)
    (hk : s.pc.dir ≠ some d → (s.asif d).flagStreaming = true → s.state = .running) :
    DevInv ((s.set d { s.asif d with queue := (s.asif d).queue.erase u }).irq d u ok) := by
  refine h.callback hu List.erase_subset (fun v hv => ?_) hk fun y hflag hutr hbuff hrem hd =>
    (h.stage d hd).congr (h.asif d) hu hflag hutr hbuff hrem
  by_cases hvu : v = u
  · exact .inl hvu
  · exact .inr ((List.mem_erase_of_ne hvu).mpr hv)

theorem Resting.removing {refused : List Nat} (h : Resting refused x) : x.removing = false := by
  obtain ⟨_, hclear, _⟩ | ⟨_, hrem, _⟩ := h
  · exact hclear.2.2
  · exact hrem

/-- An endpoint is only removed by a call that quits it, which goes on without it. -/
theorem Stage.clear {y : AsIf} {pc : Pc} (h : Stage x pc) (hrem : x.removing = true)
    (hy : y.Clear) : Stage y pc := by
  have hnot : x.removing ≠ false := fun hf => Bool.false_ne_true (hf.symm.trans hrem)
  cases pc with
  | idle => exact h
  | alloc d i => exact absurd h.2.1.2.2 hnot
  | buffer d => exact absurd h.2.1.2.2 hnot
  | submit d i => exact absurd (Ready.removing h) hnot
  | streaming d => exact absurd (Ready.removing h) hnot
  | running d => exact absurd (Ready.removing h) hnot
  | quit why d i => exact ⟨fun _ => hy.2.2, fun _ => .inr hy, fun _ => hy⟩
  | release why d => exact .inr hy

/-- The endpoint goes with nothing on it. -/
theorem DevInv.removed (h : DevInv s) (hqueue : (s.asif d).queue = [])
    (hrem : (s.asif d).removing = true) : DevInv (s.set d (s.asif d).removed) := by
  have hclear : (s.asif d).removed.Clear := ⟨rfl, rfl, rfl⟩
  have hinv : AsIfInv s.hc (s.asif d).removed := by
    refine hclear.inv ?_ rfl
    show (s.asif d).orphans ++ (s.asif d).queue = []
    rw [hqueue, (h.asif d).orphans]
    rfl
  refine h.setStream rfl rfl (.inl rfl) (fun _ hv => hv) hinv (fun hd => ?_)
    (fun hd => (h.stage d hd).clear hrem hclear) (h.sameLedger rfl)
  have hrest := (h.rest d hd).removing
  exact absurd (hrem.symm.trans hrest) Bool.noConfusion

/-- The first transfer of an endpoint that is being removed is aborted. -/
theorem DevInv.abort (h : DevInv s) (hrem : (s.asif d).removing = true) {rest : List Nat}
    (hqueue : (s.asif d).queue = u :: rest)
    (hk : rest = [] → (s.asif d).flagStreaming = true → s.state = .running → ok = false) :
    let s' := (s.set d { s.asif d with queue := rest }).irq d u ok
    DevInv (if rest = [] then s'.set d (s'.asif d).removed else s') := by
  have hbusy : s.pc.dir = some d := by
    by_contra hd
    have hrest := (h.rest d hd).removing
    exact absurd (hrem.symm.trans hrest) Bool.noConfusion
  have hu : u ∈ (s.asif d).queue := by
    rw [hqueue]
    exact List.mem_cons_self
  have hq : rest ⊆ (s.asif d).queue := by
    rw [hqueue]
    exact List.subset_cons_self ..
  have hall : ∀ v ∈ (s.asif d).queue, v = u ∨ v ∈ rest := by
    rw [hqueue]
    exact fun v hv => List.mem_cons.mp hv
  have hcall : DevInv ((s.set d { s.asif d with queue := rest }).irq d u ok) :=
    h.callback hu hq hall (fun hd => absurd hbusy hd) fun y hflag hutr hbuff hr hd =>
      (h.stage d hd).congr (h.asif d) hu hflag hutr hbuff hr
  intro s'
  split_ifs with hrest
  · -- the last one is not submitted again
    have hlast : s'.asif d = { s.asif d with queue := rest } := by
      obtain ⟨heq, _⟩ | ⟨_, hflag, hstate, hok⟩ | ⟨heq, _⟩ :=
        irq_cases s d { s.asif d with queue := rest } u ok
      · exact (congrArg (fun t : Dev => t.asif d) heq).trans (set_asif ..)
      · exact absurd (hok.symm.trans (hk hrest hflag hstate)) Bool.noConfusion
      · exact (congrArg (fun t : Dev => t.asif d) heq).trans (set_asif ..)
    refine hcall.removed ?_ ?_
    · exact (congrArg AsIf.queue hlast).trans hrest
    · exact (congrArg AsIf.removing hlast).trans hrem
  · exact hcall

/-! ## Every run -/

theorem step_devInv (h : DevInv s) (hk : StreamKept s e) (ht : step s e = some t) : DevInv t := by
  cases e with
  | start d found =>
    obtain ⟨⟨hidle, _⟩, ht⟩ := Option.ite_none_right_eq_some.mp ht
    obtain rfl := Option.some.inj ht
    exact h.start hidle d found
  | stop d =>
    obtain ⟨⟨hidle, _⟩, ht⟩ := Option.ite_none_right_eq_some.mp ht
    obtain rfl := Option.some.inj ht
    exact h.stop hidle .stop d
  | disconnect iface =>
    cases iface with
    | none =>
      obtain ⟨_, ht⟩ := Option.ite_none_right_eq_some.mp ht
      obtain rfl := Option.some.inj ht
      exact h.congr rfl rfl rfl rfl rfl rfl
    | some d =>
      obtain ⟨⟨hidle, _⟩, ht⟩ := Option.ite_none_right_eq_some.mp ht
      obtain rfl := Option.some.inj ht
      have hleaves : DevInv { s with state := .disconnecting } := h.congr rfl rfl rfl rfl rfl rfl
      exact hleaves.stop hidle .disconnect d
  | go ok => exact h.go hk ht
  | complete d u ok =>
    obtain ⟨⟨hu, _⟩, ht⟩ := Option.ite_none_right_eq_some.mp ht
    obtain rfl := Option.some.inj ht
    exact h.complete hu hk
  | abort d ok =>
    obtain ⟨⟨_, hrem⟩, ht⟩ := Option.ite_none_right_eq_some.mp ht
    cases hqueue : (s.asif d).queue with
    | nil =>
      rw [hqueue] at ht
      obtain rfl := Option.some.inj ht
      exact h.removed hqueue hrem
    | cons u rest =>
      rw [hqueue] at ht
      obtain rfl := Option.some.inj ht
      exact h.abort hrem hqueue fun hrest => hk (by rw [hqueue, hrest]; rfl)
  | remove d oks =>
    -- no endpoint of OHCI is ever quit
    obtain ⟨⟨hohci, hrem, _⟩, _⟩ := Option.ite_none_right_eq_some.mp ht
    exact absurd (hohci.symm.trans ((h.asif d).removing hrem)) Hc.noConfusion

/-- Recording starts, `n` submissions at once. -/
def startsIn (n : Nat) : List Event :=
  .start .input true :: List.replicate (numUtr + 1 + n) (.go true)

/-- A transfer is recorded, and recording stops. -/
def recordAndStop : List Event :=
  startsIn numUtr ++ [.go true, .go true, .complete .input 0 true, .stop .input, .go true] ++
    List.replicate numUtr (.abort .input true) ++ List.replicate numUtr (.go true)

end Ma35d1.UsbHost.Uac.Streams

import Mathlib.Data.List.Nodup
import Mathlib.Logic.Function.Basic

/-!
# Linked paths over a map of successor words

A linked list in memory is a map `f` from a node to the word stored in its link
field, and a map `w` from a node to the word that points at it. `Path w f p l q`
says that the nodes met from the word `p` are exactly `l`, and that the word in
the last of them is `q`. Several paths may share a tail. Nothing here depends on
what a node or a word is: plain pointers are `w = some`, tagged link words are
any injective `w`.
-/

namespace Ma35d1.Heap.LinkedPath

variable {α W : Type*}

/-- The nodes from the word `p` are `l`, and the word after them is `q`. -/
def Path (w f : α → W) : W → List α → W → Prop
  | p, [], q => p = q
  | p, a :: l, q => p = w a ∧ Path w f (f a) l q

@[simp] theorem path_nil {w f : α → W} {p q : W} : Path w f p [] q ↔ p = q := Iff.rfl

@[simp] theorem path_cons {w f : α → W} {p q : W} {a : α} {l : List α} :
    Path w f p (a :: l) q ↔ p = w a ∧ Path w f (f a) l q := Iff.rfl

instance decidablePath [DecidableEq W] (w f : α → W) :
    (p : W) → (l : List α) → (q : W) → Decidable (Path w f p l q)
  | p, [], q => inferInstanceAs (Decidable (p = q))
  | p, a :: l, q =>
    have := decidablePath w f (f a) l q
    inferInstanceAs (Decidable (p = w a ∧ Path w f (f a) l q))

theorem path_append {w f : α → W} {p q : W} {l m : List α} :
    Path w f p (l ++ m) q ↔ ∃ r, Path w f p l r ∧ Path w f r m q := by
  induction l generalizing p with
  | nil => simp
  | cons a l ih =>
    simp only [List.cons_append, path_cons, ih]
    constructor
    · rintro ⟨hp, r, hl, hm⟩
      exact ⟨r, ⟨hp, hl⟩, hm⟩
    · rintro ⟨r, ⟨hp, hl⟩, hm⟩
      exact ⟨hp, r, hl, hm⟩

/-- A path depends on the words of its own nodes only. -/
theorem Path.congr {w f w' f' : α → W} {p q : W} {l : List α} (h : Path w f p l q)
    (hw : ∀ a ∈ l, w a = w' a) (hf : ∀ a ∈ l, f a = f' a) : Path w' f' p l q := by
  induction l generalizing p with
  | nil => exact h
  | cons a l ih =>
    obtain ⟨hp, hl⟩ := h
    refine ⟨hp.trans (hw a List.mem_cons_self), ?_⟩
    rw [← hf a List.mem_cons_self]
    exact ih hl (fun b hb => hw b (List.mem_cons_of_mem _ hb))
      (fun b hb => hf b (List.mem_cons_of_mem _ hb))

/-- Following a path through a coarser reading of its words. -/
theorem Path.map {V : Type*} {w f : α → W} (g : W → V) {p q : W} {l : List α}
    (h : Path w f p l q) : Path (fun a => g (w a)) (fun a => g (f a)) (g p) l (g q) := by
  induction l generalizing p with
  | nil => exact congrArg g h
  | cons a l ih => exact ⟨congrArg g h.1, ih h.2⟩

theorem Path.start_eq {w f : α → W} {p q : W} {a : α} {l m : List α}
    (h : Path w f p (l ++ a :: m) q) : Path w f p l (w a) ∧ Path w f (f a) m q := by
  obtain ⟨r, hl, hr, hm⟩ := path_append.mp h
  exact ⟨hr ▸ hl, hm⟩

/-! ## The list of a path is determined by its ends -/

section Unique

variable {w f : α → W}

theorem Path.unique (hw : Function.Injective w) {p q : W} {l m : List α}
    (hl : Path w f p l q) (hm : Path w f p m q)
    (hql : ∀ a ∈ l, q ≠ w a) (hqm : ∀ a ∈ m, q ≠ w a) : l = m := by
  induction l generalizing p m with
  | nil =>
    cases m with
    | nil => rfl
    | cons b m => exact absurd (hl.symm.trans hm.1) (hqm b List.mem_cons_self)
  | cons a l ih =>
    cases m with
    | nil => exact absurd (hm.symm.trans hl.1) (hql a List.mem_cons_self)
    | cons b m =>
      obtain rfl := hw (hl.1.symm.trans hm.1)
      exact congrArg (a :: ·) (ih hl.2 hm.2 (fun c hc => hql c (List.mem_cons_of_mem _ hc))
        (fun c hc => hqm c (List.mem_cons_of_mem _ hc)))

/-- A path that ends does not meet a node twice. -/
theorem Path.nodup (hw : Function.Injective w) {p q : W} {l : List α}
    (h : Path w f p l q) (hq : ∀ a ∈ l, q ≠ w a) : l.Nodup := by
  induction l generalizing p with
  | nil => exact List.nodup_nil
  | cons a l ih =>
    have hq' : ∀ b ∈ l, q ≠ w b := fun b hb => hq b (List.mem_cons_of_mem _ hb)
    refine List.nodup_cons.mpr ⟨fun ha => ?_, ih h.2 hq'⟩
    obtain ⟨l₁, l₂, rfl⟩ := List.append_of_mem ha
    have hs := Path.start_eq h.2
    have he : l₁ ++ a :: l₂ = l₂ := Path.unique hw h.2 hs.2 hq'
      (fun b hb => hq' b (by simp [hb]))
    have hlen := congrArg List.length he
    simp only [List.length_append, List.length_cons] at hlen
    omega

end Unique

theorem Path.nodup_none {f : α → Option α} {p : Option α} {l : List α}
    (h : Path some f p l none) : l.Nodup :=
  Path.nodup (fun _ _ => Option.some.inj) h (fun _ _ => by simp)

/-! ## Editing one link field -/

section Edit

variable {w f : α → W}

theorem Path.update_of_not_mem [DecidableEq α] {p q : W} {l : List α} {a : α} {x : W}
    (h : Path w f p l q) (ha : a ∉ l) : Path w (Function.update f a x) p l q :=
  h.congr (fun _ _ => rfl) (fun b hb => by
    have hba : b ≠ a := fun he => ha (he ▸ hb)
    rw [Function.update_of_ne hba])

/-- Linking a fresh node after `a`. -/
theorem Path.insert_after {p q : W} {l m : List α} {a n : α}
    (h : Path w f p (l ++ a :: m) q) (hn : n ∉ l ++ a :: m) (hd : (l ++ a :: m).Nodup)
    {g : α → W} (hga : g a = w n) (hgn : g n = f a)
    (hg : ∀ b, b ≠ a → b ≠ n → g b = f b) :
    Path w g p (l ++ a :: n :: m) q := by
  obtain ⟨hl, hm⟩ := h.start_eq
  have hal : a ∉ l ∧ a ∉ m := by
    rw [List.nodup_middle, List.nodup_cons, List.mem_append, not_or] at hd
    exact hd.1
  simp only [List.mem_append, List.mem_cons, not_or] at hn
  refine path_append.mpr ⟨w a, hl.congr (fun _ _ => rfl) (fun b hb => ?_), rfl, hga, ?_⟩
  · exact (hg b (fun hba => hal.1 (hba ▸ hb)) (fun hbn => hn.1 (hbn ▸ hb))).symm
  · rw [hgn]
    exact hm.congr (fun _ _ => rfl) (fun b hb =>
      (hg b (fun hba => hal.2 (hba ▸ hb)) (fun hbn => hn.2.2 (hbn ▸ hb))).symm)

/-- Unlinking the node after `a`. -/
theorem Path.remove_after [DecidableEq α] {p q : W} {l m : List α} {a b : α}
    (h : Path w f p (l ++ a :: b :: m) q) (hd : (l ++ a :: b :: m).Nodup) :
    Path w (Function.update f a (f b)) p (l ++ a :: m) q := by
  obtain ⟨hl, hb, hm⟩ := h.start_eq
  have hal : a ∉ l ∧ a ∉ b :: m := by
    rw [List.nodup_middle, List.nodup_cons, List.mem_append, not_or] at hd
    exact hd.1
  refine path_append.mpr ⟨w a, hl.update_of_not_mem hal.1, rfl, ?_⟩
  rw [Function.update_self]
  exact hm.update_of_not_mem (fun hc => hal.2 (List.mem_cons_of_mem _ hc))

/-- Unlinking a node behind another one. -/
theorem Path.erase_after [DecidableEq α] {p q : W} {l l₁ l₂ : List α} {a b : α}
    (h : Path w f p l q) (hd : l.Nodup) (hl : l = l₁ ++ a :: b :: l₂) :
    Path w (Function.update f a (f b)) p (l.erase b) q := by
  subst hl
  have hb : b ∉ l₁ ++ [a] := by
    have hd' : (b :: (l₁ ++ [a] ++ l₂)).Nodup := by
      rw [← List.nodup_middle]; simpa using hd
    intro hm
    exact (List.nodup_cons.mp hd').1 (List.mem_append_left _ hm)
  have he : (l₁ ++ a :: b :: l₂).erase b = l₁ ++ a :: l₂ := by
    have hs : l₁ ++ a :: b :: l₂ = (l₁ ++ [a]) ++ b :: l₂ := by simp
    rw [hs, List.erase_append_right _ hb]
    simp
  rw [he]
  exact h.remove_after hd

/-- Unlinking the first node. -/
theorem Path.erase_head [DecidableEq α] {p q : W} {l : List α} {b : α}
    (h : Path w f p (b :: l) q) : Path w f (f b) ((b :: l).erase b) q := by
  rw [List.erase_cons_head]
  exact h.2

/-- Linking a fresh node behind the last one. -/
theorem Path.snoc [DecidableEq α] {p q : W} {l : List α} {a n : α}
    (h : Path w f p (l ++ [a]) q) (ha : a ∉ l) (hna : n ≠ a) (hfn : f n = q) :
    Path w (Function.update f a (w n)) p (l ++ [a, n]) q := by
  obtain ⟨hl, _⟩ := h.start_eq
  refine path_append.mpr ⟨w a, hl.update_of_not_mem ha, rfl, ?_⟩
  rw [Function.update_self]
  exact ⟨rfl, by rw [Function.update_of_ne hna]; exact hfn⟩

end Edit

/-- A node of a list other than its first has a predecessor. -/
theorem exists_pred {l : List α} {a b : α} (hb : b ∈ l) :
    ∃ l₁ c l₂, a :: l = l₁ ++ c :: b :: l₂ := by
  obtain ⟨s, t, rfl⟩ := List.append_of_mem hb
  rcases List.eq_nil_or_concat s with rfl | ⟨s, c, rfl⟩
  · exact ⟨[], a, t, rfl⟩
  · exact ⟨a :: s, c, t, by simp⟩

/-- A node of a path leads to the node behind it, the last one out of the path. -/
theorem Path.next_eq {w f : α → W} {p q : W} {l : List α} {a : α} (h : Path w f p l q)
    (ha : a ∈ l) : (∃ b ∈ l.tail, f a = w b) ∨ f a = q := by
  obtain ⟨l₁, l₂, rfl⟩ := List.append_of_mem ha
  have hs := h.start_eq.2
  cases l₂ with
  | nil => exact .inr (path_nil.mp hs)
  | cons b l₂ =>
    refine .inl ⟨b, ?_, hs.1⟩
    cases l₁ <;> simp

/-! ## Reachability -/

/-- `a` is met when following the pointers of `f` from `p`. -/
inductive Reach (f : α → Option α) : Option α → α → Prop
  | here (a : α) : Reach f (some a) a
  | next {a b : α} : Reach f (f a) b → Reach f (some a) b

theorem Path.reach_of_mem {f : α → Option α} {p q : Option α} {l : List α}
    (h : Path some f p l q) {a : α} (ha : a ∈ l) : Reach f p a := by
  induction l generalizing p with
  | nil => simp at ha
  | cons b l ih =>
    obtain ⟨rfl, hl⟩ := h
    rcases List.mem_cons.mp ha with rfl | ha
    · exact .here _
    · exact .next (ih hl ha)

/-- What is reachable from a set closed under the pointers stays in the set. -/
theorem Reach.mem_of_closed {f : α → Option α} {p : Option α} {a : α} (S : α → Prop)
    (h : Reach f p a) (hp : ∀ b, p = some b → S b)
    (hS : ∀ b c, S b → f b = some c → S c) : S a := by
  induction h with
  | here a => exact hp a rfl
  | next _ ih => exact ih (fun b hb => hS _ b (hp _ rfl) hb)

theorem Path.mem_of_reach {f : α → Option α} {p : Option α} {l : List α}
    (h : Path some f p l none) {a : α} (ha : Reach f p a) : a ∈ l := by
  induction l generalizing p with
  | nil => rw [path_nil.mp h] at ha; cases ha
  | cons b l ih =>
    obtain ⟨rfl, hl⟩ := h
    cases ha with
    | here => exact List.mem_cons_self
    | next hr => exact List.mem_cons_of_mem _ (ih hl hr)

theorem Path.reach_iff {f : α → Option α} {p : Option α} {l : List α}
    (h : Path some f p l none) {a : α} : Reach f p a ↔ a ∈ l :=
  ⟨h.mem_of_reach, h.reach_of_mem⟩

/-- On a ring the reachable nodes are the entry and the nodes behind it. -/
theorem Path.reach_ring {f : α → Option α} {h : α} {l : List α}
    (hr : Path some f (f h) l (some h)) {a : α} : Reach f (some h) a ↔ a = h ∨ a ∈ l := by
  have hp : Path some f (some h) (h :: l) (some h) := ⟨rfl, hr⟩
  constructor
  · intro ha
    refine List.mem_cons.mp (ha.mem_of_closed (· ∈ h :: l) (fun b hb => ?_) (fun b c hb hc => ?_))
    · rw [← Option.some.inj hb]; exact List.mem_cons_self
    · obtain ⟨l₁, l₂, he⟩ := List.append_of_mem hb
      rw [he] at hp
      have hs := hp.start_eq.2
      rw [hc] at hs
      cases l₂ with
      | nil => rw [Option.some.inj hs]; exact List.mem_cons_self
      | cons d l₂ =>
        rw [he, Option.some.inj hs.1]
        simp
  · rintro (rfl | ha)
    · exact .here _
    · exact .next (hr.reach_of_mem ha)

/-! ## Walking a list

The walks are the loops a C program writes over such a list. They take a bound on
the number of nodes; `none` is a walk that has not ended within the bound, or
that reads through a null pointer. -/

/-- `while (p->next) p = p->next;` -/
def lastFrom (next : α → Option α) : Nat → α → Option α
  | 0, _ => none
  | n + 1, a =>
    match next a with
    | none => some a
    | some b => lastFrom next n b

theorem lastFrom_eq {next : α → Option α} {p : Option α} {l : List α} {a b : α} {n : Nat}
    (h : Path some next p (l ++ [b]) none) (hp : p = some a) (hn : l.length < n) :
    lastFrom next n a = some b := by
  induction l generalizing p a n with
  | nil =>
    obtain ⟨hb, hq⟩ := h
    obtain rfl := Option.some.inj (hp.symm.trans hb)
    cases n with
    | zero => simp at hn
    | succ n => rw [lastFrom, path_nil.mp hq]
  | cons c l ih =>
    obtain ⟨hb, hq⟩ := h
    obtain rfl := Option.some.inj (hp.symm.trans hb)
    cases n with
    | zero => simp at hn
    | succ n =>
      have hn' : l.length < n := by simpa using hn
      cases hnext : next a with
      | none =>
        rw [List.append_eq, hnext] at hq
        cases l <;> simp at hq
      | some d =>
        rw [lastFrom, hnext]
        exact ih hq hnext hn'

/-- `while (p) { if (p == x) return 1; p = p->next; } return 0;` -/
def findNode [DecidableEq α] (next : α → Option α) (x : α) : Nat → Option α → Option Bool
  | 0, _ => none
  | _ + 1, none => some false
  | n + 1, some a => if a = x then some true else findNode next x n (next a)

theorem findNode_eq [DecidableEq α] {next : α → Option α} {p : Option α} {l : List α} {x : α}
    {n : Nat} (h : Path some next p l none) (hn : l.length < n) :
    findNode next x n p = some (decide (x ∈ l)) := by
  induction l generalizing p n with
  | nil =>
    cases n with
    | zero => simp at hn
    | succ n => rw [path_nil.mp h]; simp [findNode]
  | cons c l ih =>
    obtain ⟨rfl, hq⟩ := h
    cases n with
    | zero => simp at hn
    | succ n =>
      by_cases hc : c = x
      · simp [findNode, hc]
      · rw [findNode, if_neg hc, ih hq (by simpa using hn)]
        simp [Ne.symm hc]

/-- `while (!stop(q)) { if (q->next == x) return q; q = q->next; } return NULL;` -/
def predFrom [DecidableEq α] (next : α → Option α) (stop : α → Bool) (x : α) :
    Nat → α → Option (Option α)
  | 0, _ => none
  | n + 1, a =>
    if stop a then some none
    else if next a = some x then some (some a)
    else match next a with
      | none => none
      | some b => predFrom next stop x n b

/-- Walking along a path whose nodes neither stop the search nor point at `x`. -/
private theorem predFrom_skip [DecidableEq α] {next : α → Option α} {stop : α → Bool} {x a b : α}
    {l : List α} {p q : Option α} {n : Nat} (h : Path some next p (l ++ [b]) q)
    (hp : p = some a) (hx : x ∉ (l ++ [b]).tail) (hs : ∀ c ∈ l, stop c = false)
    (hn : l.length < n) : ∃ k, predFrom next stop x n a = predFrom next stop x (k + 1) b := by
  induction l generalizing p a n with
  | nil =>
    obtain rfl := Option.some.inj (hp.symm.trans h.1)
    cases n with
    | zero => simp at hn
    | succ n => exact ⟨n, rfl⟩
  | cons c l ih =>
    obtain ⟨hb, hr⟩ := h
    obtain rfl := Option.some.inj (hp.symm.trans hb)
    cases n with
    | zero => simp at hn
    | succ n =>
      have hx' : x ∉ l ++ [b] := by simpa using hx
      obtain ⟨d, hd, hdm⟩ : ∃ d, next a = some d ∧ d ∈ l ++ [b] := by
        rw [List.append_eq] at hr
        cases hlb : l ++ [b] with
        | nil => simp at hlb
        | cons d m => rw [hlb] at hr; exact ⟨d, hr.1, List.mem_cons_self⟩
      have hdx : d ≠ x := fun he => hx' (he ▸ hdm)
      rw [predFrom, hd, hs a List.mem_cons_self]
      simp only [Bool.false_eq_true, ↓reduceIte, Option.some.injEq, if_neg hdx]
      exact ih hr hd (fun hm => hx' (List.mem_of_mem_tail hm))
        (fun e he => hs e (List.mem_cons_of_mem _ he)) (by simpa using hn)

/-- The walk stops in front of the first occurrence of `x`. -/
theorem predFrom_found [DecidableEq α] {next : α → Option α} {stop : α → Bool} {x a b : α}
    {l : List α} {p q : Option α} {n : Nat} (h : Path some next p (l ++ [b]) q)
    (hp : p = some a) (hq : q = some x) (hx : x ∉ (l ++ [b]).tail)
    (hs : ∀ c ∈ l ++ [b], stop c = false) (hn : l.length < n) :
    predFrom next stop x n a = some (some b) := by
  obtain ⟨k, hk⟩ := predFrom_skip h hp hx (fun c hc => hs c (by simp [hc])) hn
  have hb : next b = some x := by
    have hs := h.start_eq.2
    exact (path_nil.mp hs).trans hq
  rw [hk, predFrom, hs b (by simp), hb]
  simp

/-- The walk ends without a match when `x` is not on the list. -/
theorem predFrom_absent [DecidableEq α] {next : α → Option α} {stop : α → Bool} {x a b : α}
    {l : List α} {p q : Option α} {n : Nat} (h : Path some next p (l ++ [b]) q)
    (hp : p = some a) (hx : x ∉ (l ++ [b]).tail) (hs : ∀ c ∈ l, stop c = false)
    (hb : stop b = true) (hn : l.length < n) : predFrom next stop x n a = some none := by
  obtain ⟨k, hk⟩ := predFrom_skip h hp hx hs hn
  rw [hk, predFrom, hb]
  simp

/-- A node of a path before its last one leads to a later node. -/
theorem Path.next_mem_tail {w f : α → W} {p q : W} {l m : List α} {a c : α}
    (h : Path w f p (l ++ a :: m) q) (hc : c ∈ l) : ∃ b ∈ (l ++ a :: m).tail, f c = w b := by
  have hl : l ≠ [] := List.ne_nil_of_mem hc
  rcases h.start_eq.1.next_eq hc with ⟨b, hb, he⟩ | he
  · exact ⟨b, by rw [List.tail_append_of_ne_nil hl]; exact List.mem_append_left _ hb, he⟩
  · exact ⟨a, by rw [List.tail_append_of_ne_nil hl]; simp, he⟩

/-- On a path without repetition the walk finds the node in front of `x`. -/
theorem Path.predFrom_eq [DecidableEq α] {next : α → Option α} {stop : α → Bool} {x a b : α}
    {l l₁ l₂ : List α} {q : Option α} {n : Nat} (h : Path some next (some a) l q) (hd : l.Nodup)
    (hl : l = l₁ ++ b :: x :: l₂) (hs : ∀ c ∈ l₁ ++ [b], stop c = false) (hn : l.length < n) :
    predFrom next stop x n a = some (some b) := by
  have hl' : l = (l₁ ++ [b]) ++ x :: l₂ := by rw [hl]; simp
  rw [hl'] at h hd
  refine predFrom_found h.start_eq.1 rfl rfl (fun hx => ?_) hs ?_
  · exact (List.nodup_append.mp hd).2.2 x (List.mem_of_mem_tail hx) x List.mem_cons_self rfl
  · have hlen := congrArg List.length hl
    simp only [List.length_append, List.length_cons] at hlen
    omega

end Ma35d1.Heap.LinkedPath

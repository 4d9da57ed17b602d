import Mathlib.Data.List.Forall2

/-!
# Computations that may fail

Inversion rules for `Except`: what a successful sequence of steps, a successful loop and a
successful traversal of a list consist of, and rules for lists that correspond to each other.
`FailsOnly` says with which errors a computation may fail, and has a rule for each way to build
one.
-/

namespace DatafusionDistributed.Library

variable {ε α β σ : Type}

variable {x : Except ε α} {f : α → Except ε β} {step : σ → α → Except ε σ} {xs : List α} {s s' : σ}
  {ys : List β} {R : α → β → Prop} {y : β}

/-- A sequence succeeds iff its first step does and the rest does on its result. -/
theorem bind_ok_iff {b : β} :
    (x >>= f) = .ok b ↔ ∃ a, x = .ok a ∧ f a = .ok b := by
  cases x with
  | error e =>
    constructor
    · intro h
      cases h
    · rintro ⟨a, ha, -⟩
      cases ha
  | ok a =>
    constructor
    · intro h
      exact ⟨a, rfl, h⟩
    · rintro ⟨a, ha, h⟩
      cases ha
      exact h

theorem ok_bind (a : α) (f : α → Except ε β) : (Except.ok a >>= f) = f a := rfl

/-- A mapped computation succeeds iff the computation does. -/
theorem map_ok_iff {f : α → β} {b : β} :
    x.map f = .ok b ↔ ∃ a, x = .ok a ∧ f a = b := by
  cases x with
  | error e | ok a => simp [Except.map]

theorem exists_ok_of_decide {P : α → Prop} [DecidablePred P]
    (h : x.map (fun a => decide (P a)) = .ok true) : ∃ a, x = .ok a ∧ P a := by
  simpa [map_ok_iff] using h

theorem ite_error_ok_iff {c : Prop} [Decidable c] {e : ε} {a : α} :
    (if c then .error e else x) = .ok a ↔ ¬ c ∧ x = .ok a := by
  split <;> simp [*]

theorem eq_ok_of_toOption {a : α} (h : x.toOption = some a) : x = .ok a := by
  cases x with
  | error e => cases h
  | ok b => rw [Option.some.inj h]

/-- What every step of a loop preserves, the whole loop preserves. -/
@[elab_as_elim]
theorem foldlM_invariant {inv : σ → Prop}
    (hstep : ∀ s, ∀ x ∈ xs, ∀ s', inv s → step s x = .ok s' → inv s') (h : inv s)
    (hrun : xs.foldlM step s = .ok s') : inv s' := by
  induction xs generalizing s with
  | nil =>
    cases hrun
    exact h
  | cons x xs ih =>
    rw [List.foldlM_cons, bind_ok_iff] at hrun
    obtain ⟨next, hnext, hrest⟩ := hrun
    exact ih (fun s y hy => hstep s y (List.mem_cons_of_mem _ hy))
      (hstep s x List.mem_cons_self next h hnext) hrest

/-- A loop whose successful steps are given by a function is given by a fold. -/
theorem foldlM_eq_foldl {next : σ → α → σ}
    (hstep : ∀ s, ∀ x ∈ xs, ∀ s', step s x = .ok s' → s' = next s x)
    (hrun : xs.foldlM step s = .ok s') : s' = xs.foldl next s := by
  induction xs generalizing s with
  | nil =>
    cases hrun
    rfl
  | cons x xs ih =>
    rw [List.foldlM_cons, bind_ok_iff] at hrun
    obtain ⟨middle, hmiddle, hrest⟩ := hrun
    rw [List.foldl_cons, ← hstep s x List.mem_cons_self middle hmiddle]
    exact ih (fun s y hy => hstep s y (List.mem_cons_of_mem _ hy)) hrest

/-- A loop succeeds if every step does. -/
theorem exists_foldlM_ok (h : ∀ s, ∀ x ∈ xs, ∃ s', step s x = .ok s') (s : σ) :
    ∃ s', xs.foldlM step s = .ok s' := by
  induction xs generalizing s with
  | nil => exact ⟨s, rfl⟩
  | cons x xs ih =>
    obtain ⟨middle, hmiddle⟩ := h s x List.mem_cons_self
    obtain ⟨s', hrest⟩ := ih (fun s y hy => h s y (List.mem_cons_of_mem _ hy)) middle
    refine ⟨s', ?_⟩
    rw [List.foldlM_cons, bind_ok_iff]
    exact ⟨middle, hmiddle, hrest⟩

/-- In a successful loop the step of every element succeeded. -/
theorem exists_step_of_foldlM_ok (hrun : xs.foldlM step s = .ok s') {x : α} (hx : x ∈ xs) :
    ∃ before after, step before x = .ok after := by
  induction xs generalizing s with
  | nil => cases hx
  | cons y xs ih =>
    rw [List.foldlM_cons, bind_ok_iff] at hrun
    obtain ⟨middle, hmiddle, hrest⟩ := hrun
    rcases List.mem_cons.mp hx with rfl | hx
    · exact ⟨s, middle, hmiddle⟩
    · exact ih hrest hx

/-- A traversal succeeds iff it does on every element, in order. -/
theorem mapM_ok_iff :
    xs.mapM f = .ok ys ↔ List.Forall₂ (fun x y => f x = .ok y) xs ys := by
  induction xs generalizing ys with
  | nil =>
    rw [List.forall₂_nil_left_iff]
    exact ⟨fun h => by cases h; rfl, fun h => by rw [h]; rfl⟩
  | cons x xs ih =>
    rw [List.mapM_cons, bind_ok_iff, List.forall₂_cons_left_iff]
    constructor
    · rintro ⟨y, hy, h⟩
      obtain ⟨rest, hrest, h⟩ := bind_ok_iff.mp h
      cases h
      exact ⟨y, rest, hy, ih.mp hrest, rfl⟩
    · rintro ⟨y, rest, hy, hrest, rfl⟩
      refine ⟨y, hy, bind_ok_iff.mpr ⟨rest, ih.mpr hrest, rfl⟩⟩

/-- What `encode` sends for `a` is read back as `a`. -/
def RoundTrip (encode : α → Except ε β) (decode : β → Except ε α) (a : α) : Prop :=
  ∃ b, encode a = .ok b ∧ decode b = .ok a

/-- A list comes back when each of its elements does. -/
theorem RoundTrip.mapM {encode : α → Except ε β} {decode : β → Except ε α}
    (h : ∀ x ∈ xs, RoundTrip encode decode x) :
    RoundTrip (List.mapM encode) (List.mapM decode) xs := by
  induction xs with
  | nil => exact ⟨[], rfl, rfl⟩
  | cons x xs ih =>
    rw [List.forall_mem_cons] at h
    obtain ⟨y, hencode, hdecode⟩ := h.1
    obtain ⟨ys, hencodes, hdecodes⟩ := ih h.2
    refine ⟨y :: ys, ?_, ?_⟩
    · rw [List.mapM_cons, hencode, hencodes]
      rfl
    · rw [List.mapM_cons, hdecode, hdecodes]
      rfl

theorem forM_ok_iff {f : α → Except ε Unit} :
    xs.forM f = .ok () ↔ ∀ x ∈ xs, f x = .ok () := by
  induction xs with
  | nil =>
    refine ⟨fun _ x hx => ?_, fun _ => rfl⟩
    cases hx
  | cons x xs ih =>
    change (f x >>= fun _ => xs.forM f) = .ok () ↔ _
    rw [bind_ok_iff, List.forall_mem_cons]
    constructor
    · rintro ⟨_, hx, hrest⟩
      exact ⟨hx, ih.mp hrest⟩
    · rintro ⟨hx, hrest⟩
      exact ⟨(), hx, ih.mpr hrest⟩

/-- A traversal depends only on what it does at the elements. -/
theorem mapM_congr {g : α → Except ε β} (h : ∀ x ∈ xs, f x = g x) :
    xs.mapM f = xs.mapM g := by
  induction xs with
  | nil => rfl
  | cons x xs ih =>
    rw [List.mapM_cons, List.mapM_cons, h x List.mem_cons_self,
      ih fun y hy => h y (List.mem_cons_of_mem _ hy)]

/-- Of two related lists, every element of the second is related to one of the first. -/
theorem exists_of_forall₂ (h : List.Forall₂ R xs ys) (hy : y ∈ ys) : ∃ x ∈ xs, R x y := by
  induction h with
  | nil => cases hy
  | @cons x _ xs _ hxy _ ih =>
    rcases List.mem_cons.mp hy with rfl | hy
    · exact ⟨x, List.mem_cons_self, hxy⟩
    · obtain ⟨other, hother, hrel⟩ := ih hy
      exact ⟨other, List.mem_cons_of_mem _ hother, hrel⟩

/-- The results of a traversal are those of its elements. -/
theorem mem_of_mapM_ok (h : xs.mapM f = .ok ys) : y ∈ ys ↔ ∃ x ∈ xs, f x = .ok y := by
  have h := mapM_ok_iff.mp h
  refine ⟨exists_of_forall₂ h, ?_⟩
  rintro ⟨x, hx, hy⟩
  obtain ⟨z, hz, hxz⟩ := exists_of_forall₂ h.flip hx
  rwa [Except.ok.inj (hy.symm.trans hxz)]

/-- A property of the results, as one of the elements. -/
theorem exists_mem_mapM_iff {P : β → Prop} {Q : α → Prop} (h : xs.mapM f = .ok ys)
    (hiff : ∀ x ∈ xs, ∀ y, f x = .ok y → (P y ↔ Q x)) : (∃ y ∈ ys, P y) ↔ ∃ x ∈ xs, Q x := by
  constructor
  · rintro ⟨y, hy, hP⟩
    obtain ⟨x, hx, hxy⟩ := (mem_of_mapM_ok h).mp hy
    exact ⟨x, hx, (hiff x hx y hxy).mp hP⟩
  · rintro ⟨x, hx, hQ⟩
    obtain ⟨y, hy, hxy⟩ := exists_of_forall₂ (mapM_ok_iff.mp h).flip hx
    exact ⟨y, hy, (hiff x hx y hxy).mpr hQ⟩

theorem exists_mapM_ok (h : ∀ x ∈ xs, ∃ y, f x = .ok y) :
    ∃ ys, xs.mapM f = .ok ys := by
  induction xs with
  | nil => exact ⟨[], rfl⟩
  | cons x xs ih =>
    rw [List.forall_mem_cons] at h
    obtain ⟨⟨y, hy⟩, hrest⟩ := h
    obtain ⟨ys, hys⟩ := ih hrest
    exact ⟨y :: ys, mapM_ok_iff.mpr (.cons hy (mapM_ok_iff.mp hys))⟩

theorem forall₂_singleton_left {x : α} :
    List.Forall₂ R [x] ys ↔ ∃ y, ys = [y] ∧ R x y := by
  constructor
  · intro h
    obtain ⟨y, rfl⟩ := List.length_eq_one_iff.mp h.length_eq.symm
    exact ⟨y, rfl, (List.forall₂_cons.mp h).1⟩
  · rintro ⟨y, rfl, hxy⟩
    exact .cons hxy .nil

theorem forall₂_imp_of_mem {S : α → β → Prop} (h : List.Forall₂ R xs ys)
    (himp : ∀ x ∈ xs, ∀ y, R x y → S x y) : List.Forall₂ S xs ys := by
  induction h with
  | nil => exact .nil
  | cons hxy _ ih =>
    rw [List.forall_mem_cons] at himp
    exact .cons (himp.1 _ hxy) (ih himp.2)

theorem exists_getElem? (hlength : ys.length = xs.length) {i : ℕ} (h : ys[i]? = some y) :
    ∃ x, xs[i]? = some x := by
  obtain ⟨hlt, -⟩ := List.getElem?_eq_some_iff.mp h
  exact ⟨_, List.getElem?_eq_getElem (hlength ▸ hlt)⟩

/-- If two lists of one length are related position by position, every element of the second is
related to one of the first. -/
theorem exists_aligned (hlength : ys.length = xs.length)
    (h : ∀ (i : ℕ) (x : α) (y : β), xs[i]? = some x → ys[i]? = some y → R x y) (hy : y ∈ ys) :
    ∃ x ∈ xs, R x y := by
  obtain ⟨i, hlt, rfl⟩ := List.mem_iff_getElem.mp hy
  have hlt' : i < xs.length := hlength ▸ hlt
  exact ⟨xs[i], List.getElem_mem hlt', h i _ _ (List.getElem?_eq_getElem hlt')
    (List.getElem?_eq_getElem hlt)⟩

/-! ## Failures -/

/-- A computation that fails with errors of `E` only. -/
def FailsOnly (E : ε → Prop) (x : Except ε α) : Prop :=
  ∀ e, x = .error e → E e

section FailsOnly

variable {E : ε → Prop}

theorem failsOnly_ok (a : α) : FailsOnly E (.ok a) := by
  intro e h
  cases h

theorem failsOnly_error {e : ε} (h : E e) : FailsOnly E (.error e : Except ε α) := by
  intro e' h'
  cases h'
  exact h

theorem FailsOnly.bind {x : Except ε α} {f : α → Except ε β} (hx : FailsOnly E x)
    (hf : ∀ a, x = .ok a → FailsOnly E (f a)) : FailsOnly E (x >>= f) := by
  cases x with
  | error e =>
    intro e' h
    cases h
    exact hx e rfl
  | ok a => exact hf a rfl

theorem failsOnly_mapM {f : α → Except ε β} {xs : List α} (h : ∀ x ∈ xs, FailsOnly E (f x)) :
    FailsOnly E (xs.mapM f) := by
  induction xs with
  | nil => exact failsOnly_ok []
  | cons x xs ih =>
    rw [List.forall_mem_cons] at h
    rw [List.mapM_cons]
    refine h.1.bind fun _ _ => (ih h.2).bind fun _ _ => failsOnly_ok _

theorem failsOnly_forM {f : α → Except ε Unit} {xs : List α} (h : ∀ x ∈ xs, FailsOnly E (f x)) :
    FailsOnly E (xs.forM f) := by
  induction xs with
  | nil => exact failsOnly_ok ()
  | cons x xs ih =>
    rw [List.forall_mem_cons] at h
    exact h.1.bind fun _ _ => ih h.2

theorem failsOnly_foldlM {step : σ → α → Except ε σ} {xs : List α}
    (h : ∀ x ∈ xs, ∀ s, FailsOnly E (step s x)) (s : σ) : FailsOnly E (xs.foldlM step s) := by
  induction xs generalizing s with
  | nil => exact failsOnly_ok s
  | cons x xs ih =>
    rw [List.forall_mem_cons] at h
    exact (h.1 s).bind fun next _ => ih h.2 next

end FailsOnly

end DatafusionDistributed.Library

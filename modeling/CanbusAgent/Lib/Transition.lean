import Mathlib.Data.List.Basic

/-!
# Runs of a partial step function

A machine whose next input depends on where it stands is a step function that
refuses the inputs that do not fit: `step s i` is `none` when the input `i`
cannot come in the state `s`.  `exec` runs it on a list of inputs and refuses
the list when one of them is refused, so a statement about every `is` and `s'`
with `exec step s is = some s'` is a statement about every run.

`exec_inv` is the invariant rule: what holds at the start and is kept by every
step holds after every run.
-/

namespace Transition

universe u v

variable {σ : Type u} {ι : Type v}

/-- The state after the inputs, if none of them is refused. -/
def exec (step : σ → ι → Option σ) (s : σ) : List ι → Option σ
  | [] => some s
  | i :: is => (step s i).bind fun s' => exec step s' is

variable {step : σ → ι → Option σ}

@[simp] theorem exec_nil (s : σ) : exec step s [] = some s := rfl

theorem exec_cons {s t : σ} {i : ι} {is : List ι} :
    exec step s (i :: is) = some t ↔ ∃ s', step s i = some s' ∧ exec step s' is = some t := by
  rw [exec, Option.bind_eq_some_iff]

theorem exec_append {s t : σ} {is js : List ι} :
    exec step s (is ++ js) = some t ↔
      ∃ s', exec step s is = some s' ∧ exec step s' js = some t := by
  induction is generalizing s with
  | nil => simp
  | cons i is ih =>
    rw [List.cons_append, exec_cons]
    simp only [ih, exec_cons]
    constructor
    · intro ⟨s₁, hi, s', his, hjs⟩
      exact ⟨s', ⟨s₁, hi, his⟩, hjs⟩
    · intro ⟨s', ⟨s₁, hi, his⟩, hjs⟩
      exact ⟨s₁, hi, s', his, hjs⟩

/-! ## Places in a run -/

/-- An input is the first one or it comes later. -/
theorem exists_split_cons {i : ι} {is : List ι} {R : ι → List ι → Prop} :
    (∃ pre j post, i :: is = pre ++ j :: post ∧ R j post) ↔
      R i is ∨ ∃ pre j post, is = pre ++ j :: post ∧ R j post := by
  constructor
  · rintro ⟨pre, j, post, heq, hR⟩
    cases pre with
    | nil =>
      obtain ⟨rfl, rfl⟩ := List.cons.inj heq
      exact .inl hR
    | cons i' pre => exact .inr ⟨pre, j, post, (List.cons.inj heq).2, hR⟩
  · rintro (hR | ⟨pre, j, post, rfl, hR⟩)
    · exact ⟨[], i, is, rfl, hR⟩
    · exact ⟨i :: pre, j, post, rfl, hR⟩

/-- The last input with a property, if there is one. -/
theorem exists_last (P : ι → Prop) (is : List ι) :
    (∀ i ∈ is, ¬ P i) ∨ ∃ pre i post, is = pre ++ i :: post ∧ P i ∧ ∀ j ∈ post, ¬ P j := by
  induction is with
  | nil => exact .inl fun i hi => absurd hi List.not_mem_nil
  | cons i is ih =>
    rcases ih with hnone | ⟨pre, j, post, rfl, hj, hpost⟩
    · by_cases hi : P i
      · exact .inr ⟨[], i, is, rfl, hi, hnone⟩
      · exact .inl (List.forall_mem_cons.mpr ⟨hi, hnone⟩)
    · exact .inr ⟨i :: pre, j, post, rfl, hj, hpost⟩

/-! ## Rules -/

/-- The simulation rule.  An input of the first machine is the run `g i` of the second one. -/
theorem exec_flatMap {σ' : Type*} {κ : Type*} {step' : σ' → κ → Option σ'} (f : σ → σ')
    (g : ι → List κ)
    (hstep : ∀ s i s', step s i = some s' → exec step' (f s) (g i) = some (f s'))
    {s t : σ} {is : List ι} (hrun : exec step s is = some t) :
    exec step' (f s) (is.flatMap g) = some (f t) := by
  induction is generalizing s with
  | nil =>
    rw [exec_nil, Option.some.injEq] at hrun
    rw [hrun, List.flatMap_nil, exec_nil]
  | cons i is ih =>
    obtain ⟨s', hi, hrest⟩ := exec_cons.mp hrun
    rw [List.flatMap_cons]
    exact exec_append.mpr ⟨f s', hstep s i s' hi, ih hrest⟩

/-- The refinement rule.  A machine that refuses nothing keeps up with every step of one that
does. -/
theorem exec_refines {τ : Type*} {f : τ → ι → τ} (R : τ → σ → Prop)
    (hstep : ∀ x s i s', R x s → step s i = some s' → R (f x i) s') {x : τ} {s t : σ}
    {is : List ι} (hrun : exec step s is = some t) (hs : R x s) : R (is.foldl f x) t := by
  induction is generalizing x s with
  | nil =>
    rw [exec_nil, Option.some.injEq] at hrun
    exact hrun ▸ hs
  | cons i is ih =>
    obtain ⟨s', hi, hrest⟩ := exec_cons.mp hrun
    exact ih hrest (hstep x s i s' hs hi)

/-- The invariant rule.  Only inputs that satisfy `P` have to be considered. -/
theorem exec_inv {P : ι → Prop} (Inv : σ → Prop)
    (hstep : ∀ s i s', P i → Inv s → step s i = some s' → Inv s') {s t : σ} {is : List ι}
    (hrun : exec step s is = some t) (hs : Inv s) (his : ∀ i ∈ is, P i) : Inv t := by
  induction is generalizing s with
  | nil =>
    rw [exec_nil, Option.some.injEq] at hrun
    exact hrun ▸ hs
  | cons i is ih =>
    obtain ⟨s', hi, hrest⟩ := exec_cons.mp hrun
    exact ih hrest (hstep s i s' (his i List.mem_cons_self) hs hi)
      fun j hj => his j (List.mem_cons_of_mem i hj)

end Transition

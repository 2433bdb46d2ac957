import Mathlib.Data.List.Basic

/-!
# Loops driven by the answers of their environment

A loop that calls into its environment takes one answer for each pass through
its body.  `Step` is what one pass leads to: another pass, or the end of the
loop with a result.  `run` feeds a finite list of answers to the loop.  It
returns the last `Step` together with the answers that were not asked for, so
a run that used up its answers without ending is the state of a loop that is
still running.  A property of every run over every finite list of answers is
therefore a property of every state that the loop reaches, whether or not the
loop ends.

`run_sat` is the invariant rule.  The invariant may speak about the answers
taken so far.

An endless sequence of answers is a function on `Nat`, and `answers` are the first
ones of it.  A loop returns on an endless sequence when it returns on some of these.
-/

namespace DrivenLoop

universe u v w

variable {σ : Type u} {ι : Type v} {ρ : Type w}

/-- What one pass through the body of a loop leads to. -/
inductive Step (σ : Type u) (ρ : Type w) where
  | again (s : σ)
  | done (r : ρ)

namespace Step

/-- `P` holds of the state of the next pass, or `Q` holds of the result. -/
def Sat (P : σ → Prop) (Q : ρ → Prop) : Step σ ρ → Prop
  | again s => P s
  | done r => Q r

@[simp] theorem sat_again (P : σ → Prop) (Q : ρ → Prop) (s : σ) :
    (again s : Step σ ρ).Sat P Q ↔ P s := Iff.rfl

@[simp] theorem sat_done (P : σ → Prop) (Q : ρ → Prop) (r : ρ) :
    (done r : Step σ ρ).Sat P Q ↔ Q r := Iff.rfl

theorem Sat.imp {P P' : σ → Prop} {Q Q' : ρ → Prop} {x : Step σ ρ} (h : x.Sat P Q)
    (hP : ∀ s, P s → P' s) (hQ : ∀ r, Q r → Q' r) : x.Sat P' Q' := by
  cases x with
  | again s => exact hP s h
  | done r => exact hQ r h

instance (P : σ → Prop) (Q : ρ → Prop) [DecidablePred P] [DecidablePred Q] :
    (x : Step σ ρ) → Decidable (x.Sat P Q)
  | again s => inferInstanceAs (Decidable (P s))
  | done r => inferInstanceAs (Decidable (Q r))

end Step

/-- Feed the answers to the loop until it ends or the answers are used up. -/
def run (step : σ → ι → Step σ ρ) (s : σ) : List ι → Step σ ρ × List ι
  | [] => (.again s, [])
  | i :: is =>
    match step s i with
    | .again s' => run step s' is
    | .done r => (.done r, is)

variable {step : σ → ι → Step σ ρ}

theorem run_cons_again {s s' : σ} {i : ι} (h : step s i = .again s') (is : List ι) :
    run step s (i :: is) = run step s' is := by
  simp only [run, h]

theorem run_cons_done {s : σ} {r : ρ} {i : ι} (h : step s i = .done r) (is : List ι) :
    run step s (i :: is) = (.done r, is) := by
  simp only [run, h]

/-- A loop that is still running has asked for every answer. -/
theorem run_again_rest {s s' : σ} {is rest : List ι} (h : run step s is = (.again s', rest)) :
    rest = [] := by
  induction is generalizing s with
  | nil => exact (Prod.mk.inj h).2.symm
  | cons i is ih =>
    cases hi : step s i with
    | again s₁ => exact ih (run_cons_again hi is ▸ h)
    | done r =>
      rw [run_cons_done hi] at h
      exact absurd (Prod.mk.inj h).1 (by simp)

/-- A loop that ended has taken at least the answer of its last pass. -/
theorem run_done_rest {s : σ} {r : ρ} {is rest : List ι} (h : run step s is = (.done r, rest)) :
    rest.length < is.length := by
  induction is generalizing s with
  | nil => exact absurd (Prod.mk.inj h).1 (by simp)
  | cons i is ih =>
    cases hi : step s i with
    | again s₁ => exact Nat.lt_succ_of_lt (ih (run_cons_again hi is ▸ h))
    | done r₁ =>
      rw [run_cons_done hi] at h
      rw [(Prod.mk.inj h).2, List.length_cons]
      exact Nat.lt_succ_self _

/-- A loop that is still running goes on with the answers that come later. -/
theorem run_append {s s' : σ} {is : List ι} (h : (run step s is).1 = .again s') (js : List ι) :
    run step s (is ++ js) = run step s' js := by
  induction is generalizing s with
  | nil =>
    cases h
    rfl
  | cons i is ih =>
    rw [List.cons_append]
    cases hi : step s i with
    | again s₁ =>
      rw [run_cons_again hi] at h ⊢
      exact ih h
    | done r =>
      rw [run_cons_done hi] at h
      cases h

/-- The answer that ended a loop, among those that were there. -/
theorem getElem?_last (us : List ι) (i : ι) (rest : List ι) :
    (us ++ [i] ++ rest)[us.length]? = some i := by
  rw [List.append_assoc, List.getElem?_append_right (Nat.le_refl _), Nat.sub_self]
  rfl

/-- The first `n` answers of an endless sequence. -/
def answers (stream : Nat → ι) (n : Nat) : List ι := (List.range n).map stream

theorem answers_add (stream : Nat → ι) (n k : Nat) :
    answers stream (n + k) = answers stream n ++ answers (fun i => stream (n + i)) k := by
  unfold answers
  rw [List.range_add, List.map_append, List.map_map]
  rfl

theorem answers_ne_nil {stream : Nat → ι} {n : Nat} : answers stream n ≠ [] ↔ 0 < n := by
  rw [answers, Ne, List.map_eq_nil_iff, List.range_eq_nil]
  exact Nat.pos_iff_ne_zero.symm

theorem mem_answers {stream : Nat → ι} {n : Nat} {i : ι} :
    i ∈ answers stream n ↔ ∃ k < n, stream k = i := by
  simp [answers]

/-- The simulation rule.  An answer that `g` drops is a pass that leaves the state
alone, and on any other answer both loops do the same.  Only the answers that the
first loop takes have to be considered. -/
theorem run_filterMap {κ : Type*} {stepA : σ → ι → Step σ ρ} {stepB : σ → κ → Step σ ρ}
    (g : ι → Option κ) {P : ι → Prop} (Inv : σ → Prop)
    (hinv : ∀ s i s', Inv s → stepA s i = .again s' → Inv s')
    (hskip : ∀ s i, Inv s → P i → g i = none → stepA s i = .again s)
    (hsame : ∀ s i k, Inv s → P i → g i = some k → stepA s i = stepB s k)
    {s : σ} (hs : Inv s) {used rest : List ι} (hused : ∀ i ∈ used, P i) {r : ρ}
    (h : run stepA s (used ++ rest) = (.done r, rest)) :
    run stepB s ((used ++ rest).filterMap g) = (.done r, rest.filterMap g) := by
  induction used generalizing s with
  | nil => exact absurd (run_done_rest h) (Nat.lt_irrefl _)
  | cons i is ih =>
    have hi : P i := hused i List.mem_cons_self
    have his : ∀ j ∈ is, P j := fun j hj => hused j (List.mem_cons_of_mem i hj)
    rw [List.cons_append] at h ⊢
    cases hg : g i with
    | none =>
      have hstep := hskip s i hs hi hg
      rw [List.filterMap_cons_none hg]
      exact ih hs his (run_cons_again hstep _ ▸ h)
    | some k =>
      have hstep := hsame s i k hs hi hg
      rw [List.filterMap_cons_some hg]
      cases hA : stepA s i with
      | again s' =>
        rw [run_cons_again (hstep ▸ hA)]
        exact ih (hinv s i s' hs hA) his (run_cons_again hA _ ▸ h)
      | done r' =>
        rw [run_cons_done hA] at h
        obtain ⟨hr, hrest⟩ := Prod.mk.inj h
        rw [run_cons_done (hstep ▸ hA), hrest, hr]

/-- The rule for a loop in the body of another one.  While the inner loop runs, the
outer one is in a state `embed s`, and the result of the inner loop decides how the
outer one goes on. -/
theorem run_nested {σ' : Type*} {ρ' : Type*} {outer : σ' → ι → Step σ' ρ'} (embed : σ → σ')
    (next : ρ → Step σ' ρ')
    (hagain : ∀ s i s', step s i = .again s' → outer (embed s) i = .again (embed s'))
    (hdone : ∀ s i r, step s i = .done r → outer (embed s) i = next r) {s : σ} {r : ρ} {t : σ'}
    {is rest : List ι} (h : run step s is = (.done r, rest)) (hnext : next r = .again t) :
    run outer (embed s) is = run outer t rest := by
  induction is generalizing s with
  | nil => exact absurd (Prod.mk.inj h).1 (by simp)
  | cons i is ih =>
    cases hi : step s i with
    | again s' =>
      rw [run_cons_again (hagain s i s' hi)]
      exact ih (run_cons_again hi is ▸ h)
    | done r' =>
      rw [run_cons_done hi] at h
      obtain ⟨hr, hrest⟩ := Prod.mk.inj h
      rw [← Step.done.inj hr] at hnext
      rw [run_cons_again ((hdone s i r' hi).trans hnext), hrest]

/-- The invariant rule.  `Inv h s` is the invariant of the state `s` after the
answers `h`, and `Post h r` is what a loop that ends after the answers `h`
guarantees of its result.  A loop that is still running has taken every
answer.  Only answers that satisfy `P` have to be considered. -/
theorem run_sat (step : σ → ι → Step σ ρ) {P : ι → Prop} (Inv : List ι → σ → Prop)
    (Post : List ι → ρ → Prop)
    (hstep : ∀ h s i, P i → Inv h s →
      (step s i).Sat (Inv (h ++ [i])) (Post (h ++ [i])))
    {h : List ι} {s : σ} (hs : Inv h s) (is : List ι) (his : ∀ i ∈ is, P i) :
    ∃ used, is = used ++ (run step s is).2 ∧
      (run step s is).1.Sat (fun s' => (run step s is).2 = [] ∧ Inv (h ++ used) s')
        (Post (h ++ used)) := by
  induction is generalizing h s with
  | nil => exact ⟨[], rfl, rfl, by simpa using hs⟩
  | cons i is ih =>
    have hi := hstep h s i (his i List.mem_cons_self) hs
    cases hsi : step s i with
    | again s₁ =>
      rw [hsi, Step.sat_again] at hi
      obtain ⟨used, hused, hsat⟩ := ih hi fun j hj => his j (List.mem_cons_of_mem i hj)
      refine ⟨i :: used, ?_, ?_⟩
      · rw [run_cons_again hsi, List.cons_append, ← hused]
      · rw [run_cons_again hsi]
        simpa using hsat
    | done r =>
      rw [hsi, Step.sat_done] at hi
      refine ⟨[i], ?_, ?_⟩
      · rw [run_cons_done hsi]
        rfl
      · rw [run_cons_done hsi]
        exact hi

end DrivenLoop

import CanbusAgent.Lib.Transition
import Mathlib.Data.Finset.Erase
import Mathlib.Data.Finset.Insert
import Mathlib.Logic.Function.Basic

/-!
# Handles in variables with a sentinel

A program keeps the handles of its open objects in variables, and a variable that holds
the sentinel `null` is taken for empty.  Closing an empty variable does nothing, and
closing one that does not hold a valid handle has no effect.  Nothing stops the program
from assigning a variable whose object is still open, or from closing it twice.

`Op.close` leaves the variable as it is, and `Op.clear` sets it to the sentinel.  When no
variable is closed again after an `Op.close`, `mem_exec` says what is open after a run:
what was open before and what the run opened, without what its closes were meant for.
-/

namespace HandleTable

open Transition

universe u v

variable {κ : Type u} {η : Type v}

/-- The handles of the open objects, and what the variables hold. -/
structure Table (κ : Type u) (η : Type v) where
  isOpen : Finset η
  slot : κ → η

inductive Op (κ : Type u) (η : Type v) where
  /-- An object is opened, or the call fails.  The variable holds what it returned. -/
  | assign (k : κ) (h : η)
  | close (k : κ)
  | clear (k : κ)
  /-- An object is opened whose handle is in none of the variables. -/
  | stray (h : η)

/-- The next operation on the variable closes it. -/
def closedNext [DecidableEq κ] (k : κ) : List (Op κ η) → Bool
  | [] => false
  | .assign j _ :: ops => j ≠ k && closedNext k ops
  | .close j :: ops => j = k || closedNext k ops
  | .clear j :: ops => j = k || closedNext k ops
  | .stray _ :: ops => closedNext k ops

/-- A variable that is closed and not cleared is assigned before it is closed again. -/
def Proper [DecidableEq κ] : List (Op κ η) → Prop
  | [] => True
  | .close k :: ops => closedNext k ops = false ∧ Proper ops
  | .assign _ _ :: ops => Proper ops
  | .clear _ :: ops => Proper ops
  | .stray _ :: ops => Proper ops

section

variable (null : η) (Valid : η → Prop)

/-- The variable holds the handle, and the operations close it. -/
structure Kept [DecidableEq κ] (t : Table κ η) (ops : List (Op κ η)) (k : κ) (h : η) : Prop where
  next : closedNext k ops = true
  slot : t.slot k = h
  ne_null : h ≠ null
  valid : Valid h

/-- What the operations close is open, and it is closed once. -/
structure Sound [DecidableEq κ] (t : Table κ η) (ops : List (Op κ η)) : Prop where
  live : ∀ {k h}, Kept null Valid t ops k h → h ∈ t.isOpen
  uniq : ∀ {j k h}, Kept null Valid t ops j h → Kept null Valid t ops k h → j = k

variable [DecidablePred Valid] [DecidableEq η]

/-- What is open after the variable was closed. -/
def Table.closed (t : Table κ η) (k : κ) : Finset η :=
  if t.slot k ≠ null ∧ Valid (t.slot k) then t.isOpen.erase (t.slot k) else t.isOpen

variable [DecidableEq κ]

/-- A call that opens an object never returns the handle of an open one. -/
def step (t : Table κ η) : Op κ η → Option (Table κ η)
  | .assign k h =>
    if Valid h then
      if h ∈ t.isOpen then none
      else some { isOpen := insert h t.isOpen, slot := Function.update t.slot k h }
    else some { t with slot := Function.update t.slot k h }
  | .close k => some { t with isOpen := t.closed null Valid k }
  | .clear k => some { isOpen := t.closed null Valid k, slot := Function.update t.slot k null }
  | .stray h => if h ∈ t.isOpen then none else some { t with isOpen := insert h t.isOpen }

/-- The handles that a run opens and does not close. -/
def leftOpen : List (Op κ η) → List η
  | [] => []
  | .assign k h :: ops =>
    (if Valid h ∧ (h = null ∨ closedNext k ops = false) then [h] else []) ++ leftOpen ops
  | .close _ :: ops => leftOpen ops
  | .clear _ :: ops => leftOpen ops
  | .stray h :: ops => h :: leftOpen ops

end

variable {null : η} {Valid : η → Prop} {t t' : Table κ η} {ops : List (Op κ η)} {k : κ} {h : η}

theorem mem_closed [DecidablePred Valid] [DecidableEq η] :
    h ∈ t.closed null Valid k ↔ h ∈ t.isOpen ∧ ¬ (t.slot k = h ∧ h ≠ null ∧ Valid h) := by
  unfold Table.closed
  split_ifs with hc
  · rw [Finset.mem_erase, and_comm]
    refine and_congr_right fun _ => ⟨fun hne hk => hne hk.1.symm, fun hk heq => hk ?_⟩
    rw [heq]
    exact ⟨rfl, hc⟩
  · refine (and_iff_left_of_imp fun _ hk => hc ?_).symm
    rw [hk.1]
    exact hk.2

variable [DecidableEq κ]

/-! ## What an operation does to the variables -/

/-- An assignment keeps the variables other than its own. -/
theorem kept_assign (hslot : t'.slot = Function.update t.slot k h) {j : κ} {g : η} :
    Kept null Valid t' ops j g ↔ Kept null Valid t (.assign k h :: ops) j g ∨
      j = k ∧ g = h ∧ closedNext k ops = true ∧ h ≠ null ∧ Valid h := by
  by_cases hj : j = k
  · subst hj
    have hold : ¬ Kept null Valid t (.assign j h :: ops) j g := fun hk => by
      simpa [closedNext] using hk.next
    have hnew : t'.slot j = h := by rw [hslot, Function.update_self]
    rw [or_iff_right hold]
    constructor
    · intro ⟨hnext, hg, hne, hvalid⟩
      obtain rfl : h = g := hnew.symm.trans hg
      exact ⟨rfl, rfl, hnext, hne, hvalid⟩
    · rintro ⟨-, rfl, hnext, hne, hvalid⟩
      exact ⟨hnext, hnew, hne, hvalid⟩
  · have hsame : t'.slot j = t.slot j := by rw [hslot, Function.update_of_ne hj]
    have hnext : closedNext j (.assign k h :: ops) = closedNext j ops := by
      simp [closedNext, Ne.symm hj]
    rw [or_iff_left fun hk => hj hk.1]
    exact ⟨fun ⟨h1, h2, h3, h4⟩ => ⟨hnext ▸ h1, hsame ▸ h2, h3, h4⟩,
      fun ⟨h1, h2, h3, h4⟩ => ⟨hnext ▸ h1, hsame ▸ h2, h3, h4⟩⟩

/-- What `Op.close` and `Op.clear` have in common: the other variables stay as they are, and
what this one holds is not closed again. -/
structure Closes (null : η) (Valid : η → Prop) (t t' : Table κ η) (op : Op κ η)
    (ops : List (Op κ η)) (k : κ) : Prop where
  next : ∀ j, closedNext j (op :: ops) = (k = j || closedNext j ops)
  slot : ∀ j, j ≠ k → t'.slot j = t.slot j
  gone : ∀ g, ¬ Kept null Valid t' ops k g

theorem Closes.kept {op : Op κ η} (hc : Closes null Valid t t' op ops k) {j : κ} {g : η} :
    Kept null Valid t (op :: ops) j g ↔ Kept null Valid t' ops j g ∨
      j = k ∧ t.slot k = g ∧ g ≠ null ∧ Valid g := by
  by_cases hj : j = k
  · subst hj
    rw [or_iff_right (hc.gone g)]
    exact ⟨fun ⟨_, h2, h3, h4⟩ => ⟨rfl, h2, h3, h4⟩,
      fun ⟨_, h2, h3, h4⟩ => ⟨by rw [hc.next]; simp, h2, h3, h4⟩⟩
  · have hnext : closedNext j (op :: ops) = closedNext j ops := by
      rw [hc.next]
      simp [Ne.symm hj]
    rw [or_iff_left fun hk => hj hk.1]
    exact ⟨fun ⟨h1, h2, h3, h4⟩ => ⟨hnext ▸ h1, (hc.slot j hj).trans h2, h3, h4⟩,
      fun ⟨h1, h2, h3, h4⟩ => ⟨hnext ▸ h1, (hc.slot j hj).symm.trans h2, h3, h4⟩⟩

theorem kept_stray {s : Finset η} {j : κ} {g : η} :
    Kept null Valid { t with isOpen := s } ops j g ↔ Kept null Valid t (.stray h :: ops) j g :=
  ⟨fun ⟨h1, h2, h3, h4⟩ => ⟨h1, h2, h3, h4⟩, fun ⟨h1, h2, h3, h4⟩ => ⟨h1, h2, h3, h4⟩⟩

theorem Proper.tail {op : Op κ η} (h : Proper (op :: ops)) : Proper ops := by
  cases op with
  | close => exact h.2
  | assign => exact h
  | clear => exact h
  | stray => exact h

/-! ## One operation -/

variable [DecidablePred Valid] [DecidableEq η]

/-- The inversion of `step`. -/
theorem step_cases {op : Op κ η} (hproper : Proper (op :: ops))
    (hstep : step null Valid t op = some t') :
    (∃ k h, op = .assign k h ∧ (Valid h → h ∉ t.isOpen) ∧ t'.slot = Function.update t.slot k h ∧
      ∀ g, g ∈ t'.isOpen ↔ g ∈ t.isOpen ∨ g = h ∧ Valid h) ∨
    (∃ k, Closes null Valid t t' op ops k ∧ t'.isOpen = t.closed null Valid k ∧
      leftOpen null Valid (op :: ops) = leftOpen null Valid ops) ∨
    ∃ h, op = .stray h ∧ h ∉ t.isOpen ∧ t' = { t with isOpen := insert h t.isOpen } := by
  cases op with
  | assign k h =>
    refine .inl ⟨k, h, rfl, ?_⟩
    simp only [step] at hstep
    split_ifs at hstep with hvalid hopen
    · cases hstep
      refine ⟨fun _ => hopen, rfl, fun g => ?_⟩
      rw [Finset.mem_insert, or_comm, and_iff_left hvalid]
    · cases hstep
      exact ⟨fun h => absurd h hvalid, rfl, fun g => (or_iff_left fun h => hvalid h.2).symm⟩
  | close k =>
    cases hstep
    exact .inr (.inl ⟨k, ⟨fun _ => rfl, fun _ _ => rfl,
      fun g hk => by simpa [hproper.1] using hk.next⟩, rfl, rfl⟩)
  | clear k =>
    cases hstep
    refine .inr (.inl ⟨k, ⟨fun _ => rfl, fun j hj => Function.update_of_ne hj _ _,
      fun g hk => ?_⟩, rfl, rfl⟩)
    exact hk.ne_null (hk.slot.symm.trans (Function.update_self k null t.slot))
  | stray h =>
    simp only [step] at hstep
    split_ifs at hstep with hopen
    cases hstep
    exact .inr (.inr ⟨h, rfl, hopen, rfl⟩)

theorem Sound.step {op : Op κ η} (hs : Sound null Valid t (op :: ops))
    (hproper : Proper (op :: ops)) (hstep : step null Valid t op = some t') :
    Sound null Valid t' ops := by
  rcases step_cases hproper hstep with
    ⟨k, h, rfl, hfresh, hslot, hopen⟩ | ⟨k, hc, hopen, -⟩ | ⟨h, rfl, -, rfl⟩
  · refine ⟨fun hj => (hopen _).mpr ?_, fun hi hj => ?_⟩
    · rcases (kept_assign hslot).mp hj with hold | ⟨-, rfl, -, -, hvalid⟩
      · exact .inl (hs.live hold)
      · exact .inr ⟨rfl, hvalid⟩
    · -- what another variable holds was open before the call that opened `h`
      rcases (kept_assign hslot).mp hi with hiold | ⟨rfl, rfl, -, -, hvalid⟩
      · rcases (kept_assign hslot).mp hj with hjold | ⟨-, rfl, -, -, hvalid⟩
        · exact hs.uniq hiold hjold
        · exact absurd (hs.live hiold) (hfresh hvalid)
      · rcases (kept_assign hslot).mp hj with hjold | ⟨rfl, -⟩
        · exact absurd (hs.live hjold) (hfresh hvalid)
        · rfl
  · refine ⟨fun {j g} hj => ?_,
      fun hi hj => hs.uniq (hc.kept.mpr (.inl hi)) (hc.kept.mpr (.inl hj))⟩
    have hold := hc.kept.mpr (.inl hj)
    rw [hopen, mem_closed]
    refine ⟨hs.live hold, fun hk => ?_⟩
    obtain rfl := hs.uniq hold (hc.kept.mpr (.inr ⟨rfl, hk⟩))
    exact hc.gone g hj
  · exact ⟨fun hj => Finset.mem_insert_of_mem (hs.live (kept_stray.mp hj)),
      fun hi hj => hs.uniq (kept_stray.mp hi) (kept_stray.mp hj)⟩

theorem mem_leftOpen_assign {g : η} : g ∈ leftOpen null Valid (.assign k h :: ops) ↔
    h = g ∧ Valid g ∧ (g = null ∨ closedNext k ops = false) ∨ g ∈ leftOpen null Valid ops := by
  rw [leftOpen, List.mem_append]
  refine or_congr_left ?_
  split_ifs with hif
  · rw [List.mem_singleton]
    exact ⟨fun hg => ⟨hg.symm, hg ▸ hif⟩, fun hg => hg.1.symm⟩
  · refine iff_of_false List.not_mem_nil fun hg => hif ?_
    rw [hg.1]
    exact hg.2

/-- What is open and not closed later, with what is opened later and left open. -/
def Remains (null : η) (Valid : η → Prop) [DecidablePred Valid] (t : Table κ η)
    (ops : List (Op κ η)) (h : η) : Prop :=
  h ∈ t.isOpen ∧ (∀ k, ¬ Kept null Valid t ops k h) ∨ h ∈ leftOpen null Valid ops

theorem remains_step {op : Op κ η} (hs : Sound null Valid t (op :: ops))
    (hproper : Proper (op :: ops)) (hstep : step null Valid t op = some t') (g : η) :
    Remains null Valid t' ops g ↔ Remains null Valid t (op :: ops) g := by
  unfold Remains
  rcases step_cases hproper hstep with
    ⟨k, h, rfl, hfresh, hslot, hopen⟩ | ⟨k, hc, hopen, hleft⟩ | ⟨h, rfl, hfresh, rfl⟩
  · rw [hopen, leftOpen, List.mem_append, ← or_assoc]
    refine or_congr_left ?_
    simp only [kept_assign hslot]
    by_cases hg : g = h ∧ Valid h
    · -- the new handle was in no variable, and its own variable may be closed next
      obtain ⟨rfl, hvalid⟩ := hg
      have hold : ∀ j, ¬ Kept null Valid t (.assign k g :: ops) j g :=
        fun j hj => hfresh hvalid (hs.live hj)
      have hown : (∀ j, ¬ (j = k ∧ g = g ∧ closedNext k ops = true ∧ g ≠ null ∧ Valid g)) ↔
          g = null ∨ closedNext k ops = false := by
        constructor
        · intro hno
          by_cases hnull : g = null
          · exact .inl hnull
          · exact .inr (Bool.eq_false_iff.mpr fun hnext => hno k ⟨rfl, rfl, hnext, hnull, hvalid⟩)
        · rintro hleft j ⟨-, -, hnext, hne, -⟩
          rcases hleft with hnull | hnext'
          · exact hne hnull
          · exact absurd hnext (by simp [hnext'])
      have hmem : g ∈ (if Valid g ∧ (g = null ∨ closedNext k ops = false) then [g] else []) ↔
          g = null ∨ closedNext k ops = false := by
        split_ifs with hif
        · exact iff_of_true List.mem_cons_self hif.2
        · exact iff_of_false List.not_mem_nil fun hleft => hif ⟨hvalid, hleft⟩
      have hnew : ¬ (g ∈ t.isOpen ∧ ∀ j, ¬ Kept null Valid t (.assign k g :: ops) j g) :=
        fun h => hfresh hvalid h.1
      rw [hmem, or_iff_right hnew, ← hown]
      exact ⟨fun hno j hj => hno.2 j (.inr hj),
        fun hno => ⟨.inr ⟨rfl, hvalid⟩, fun j hj => hj.elim (hold j) (hno j)⟩⟩
    · have hmem : g ∉ (if Valid h ∧ (h = null ∨ closedNext k ops = false) then [h] else []) := by
        split_ifs with hif
        · exact fun hmem => hg ⟨List.mem_singleton.mp hmem, hif.1⟩
        · exact List.not_mem_nil
      have hown : ∀ j, ¬ (j = k ∧ g = h ∧ closedNext k ops = true ∧ h ≠ null ∧ Valid h) :=
        fun j hj => hg ⟨hj.2.1, hj.2.2.2.2⟩
      rw [or_iff_left hmem, or_iff_left hg]
      simp only [hown, or_false]
  · rw [hleft, hopen, mem_closed]
    refine or_congr_left ?_
    simp only [hc.kept]
    constructor
    · intro ⟨⟨hg, hk⟩, hno⟩
      exact ⟨hg, fun j hj => hj.elim (hno j) fun h => hk h.2⟩
    · intro ⟨hg, hno⟩
      exact ⟨⟨hg, fun hk => hno k (.inr ⟨rfl, hk⟩)⟩, fun j hj => hno j (.inl hj)⟩
  · rw [leftOpen, List.mem_cons, Finset.mem_insert]
    by_cases hg : g = h
    · subst hg
      have hold : ∀ j, ¬ Kept null Valid { t with isOpen := insert g t.isOpen } ops j g :=
        fun j hj => hfresh (hs.live (kept_stray.mp hj))
      exact iff_of_true (.inl ⟨.inl rfl, hold⟩) (.inr (.inl rfl))
    · refine or_congr (and_congr (or_iff_right hg) ?_) (or_iff_right hg).symm
      exact forall_congr' fun j => not_congr kept_stray

/-! ## A run -/

/-- What is open after a run: what was open before and is not closed in it, and what it
opens and does not close. -/
theorem mem_exec (hproper : Proper ops) (hs : Sound null Valid t ops)
    (hrun : exec (step null Valid) t ops = some t') (g : η) :
    g ∈ t'.isOpen ↔ Remains null Valid t ops g := by
  induction ops generalizing t with
  | nil =>
    rw [exec_nil, Option.some.injEq] at hrun
    subst hrun
    refine ⟨fun hg => .inl ⟨hg, fun k hk => ?_⟩, fun hg => hg.elim And.left fun h => ?_⟩
    · exact absurd hk.next (by simp [closedNext])
    · exact absurd h List.not_mem_nil
  | cons op ops ih =>
    obtain ⟨t₁, hstep, hrest⟩ := exec_cons.mp hrun
    rw [ih hproper.tail (hs.step hproper hstep) hrest, remains_step hs hproper hstep]

/-- What the rest of a run closes is open, after any first part of it. -/
theorem live_exec {pre : List (Op κ η)} (hproper : Proper (pre ++ ops))
    (hs : Sound null Valid t (pre ++ ops)) (hrun : exec (step null Valid) t pre = some t') :
    Sound null Valid t' ops := by
  induction pre generalizing t with
  | nil =>
    rw [exec_nil, Option.some.injEq] at hrun
    exact hrun ▸ hs
  | cons op pre ih =>
    obtain ⟨t₁, hstep, hrest⟩ := exec_cons.mp hrun
    exact ih hproper.tail (hs.step hproper hstep) hrest

end HandleTable

import CanbusAgent.Lib.Region
import Mathlib.Tactic.SplitIfs

/-!
# Lexicographic order on the first cells of two memories

Two memories are compared on their first `len` cells.  Either they agree there
or there is a first cell where they differ, and this cell decides
(`compareCells_of_firstDiff`).  `sgn` turns the result into -1, 0 or 1.  That
the order is antisymmetric and transitive is a fact about lists of one length.
-/

universe u v

namespace Lexicographic

open Region

/-- Cell `k` is the first one of `len` cells where the memories differ. -/
structure FirstDiff {α : Type u} (a b : Nat → α) (len k : Nat) : Prop where
  lt : k < len
  before : ∀ i < k, a i = b i
  ne : a k ≠ b k

theorem firstDiff_map {α : Type u} {β : Type v} {f : α → β} (hf : ∀ x y, f x = f y → x = y)
    {a b : Nat → α} {len k : Nat} (h : FirstDiff a b len k) :
    FirstDiff (fun i => f (a i)) (fun i => f (b i)) len k where
  lt := h.lt
  before i hi := congrArg f (h.before i hi)
  ne heq := h.ne (hf _ _ heq)

/-- Memories that do not agree have a first difference. -/
theorem exists_firstDiff {α : Type u} {a b : Nat → α} {len : Nat}
    (h : ¬ ∀ i < len, a i = b i) : ∃ k, FirstDiff a b len k := by
  induction len with
  | zero => exact absurd (fun i hi => absurd hi (Nat.not_lt_zero i)) h
  | succ len ih =>
    by_cases hlen : ∀ i < len, a i = b i
    · refine ⟨len, Nat.lt_succ_self len, hlen, fun heq => h fun i hi => ?_⟩
      rcases Nat.lt_succ_iff_lt_or_eq.mp hi with hlt | rfl
      · exact hlen i hlt
      · exact heq
    · obtain ⟨k, hk⟩ := ih hlen
      exact ⟨k, Nat.lt_succ_of_lt hk.lt, hk.before, hk.ne⟩

/-! ## The sign of an order -/

/-- -1, 0 or 1. -/
def sgn : Ordering → Int
  | .lt => -1
  | .eq => 0
  | .gt => 1

theorem sgn_eq_zero {o : Ordering} : sgn o = 0 ↔ o = .eq := by
  cases o <;> simp [sgn]

theorem sgn_le_zero {o : Ordering} : sgn o ≤ 0 ↔ o.isLE = true := by
  cases o <;> simp [sgn]

theorem sgn_swap (o : Ordering) : sgn o.swap = -sgn o := by
  cases o <;> rfl

theorem sgn_compare {x y : Int} (h : x ≠ y) : sgn (compare x y) = if y < x then 1 else -1 := by
  split_ifs with hgt
  · rw [Int.compare_eq_gt.mpr hgt]
    rfl
  · rw [Int.compare_eq_lt.mpr (by omega)]
    rfl

/-! ## Comparison -/

section Compare

variable {β : Type v} [Ord β]

/-- The lexicographic order of the first `len` cells. -/
def compareCells (a b : Nat → β) (len : Nat) : Ordering :=
  compare (slice a 0 len) (slice b 0 len)

theorem compareCells_swap [Std.OrientedOrd β] (a b : Nat → β) (len : Nat) :
    compareCells b a len = (compareCells a b len).swap :=
  Std.OrientedCmp.eq_swap

theorem compareCells_trans [Std.TransOrd β] {a b c : Nat → β} {len : Nat}
    (hab : (compareCells a b len).isLE) (hbc : (compareCells b c len).isLE) :
    (compareCells a c len).isLE :=
  Std.TransCmp.isLE_trans hab hbc

theorem compareCells_eq [Std.LawfulEqOrd β] {a b : Nat → β} {len : Nat} :
    compareCells a b len = .eq ↔ ∀ i < len, a i = b i := by
  rw [compareCells, Std.LawfulEqCmp.compare_eq_iff_eq, slice_eq_iff]
  simp

/-- A common start does not matter. -/
theorem compare_append [Std.ReflOrd β] (xs ys zs : List β) :
    compare (xs ++ ys) (xs ++ zs) = compare ys zs := by
  induction xs with
  | nil => rfl
  | cons x xs ih =>
    have hself : compare x x = .eq := Std.ReflCmp.compare_self
    rw [List.cons_append, List.cons_append, List.compare_cons_cons, hself, ih]
    rfl

/-- The first difference decides. -/
theorem compareCells_of_firstDiff [Std.LawfulEqOrd β] {a b : Nat → β} {len k : Nat}
    (h : FirstDiff a b len k) : compareCells a b len = compare (a k) (b k) := by
  have hcut (m : Nat → β) : slice m 0 len =
      slice m 0 k ++ m k :: slice m (k + 1) (len - k - 1) := by
    have hlen : len = k + (len - k - 1 + 1) := by
      have := h.lt
      omega
    rw [hlen, slice_add, Nat.zero_add, slice_succ, ← hlen]
  have hne : compare (a k) (b k) ≠ .eq := fun heq => h.ne (Std.LawfulEqCmp.eq_of_compare heq)
  have hbefore : slice a 0 k = slice b 0 k :=
    slice_congr fun i hi => by simpa using h.before i hi
  rw [compareCells, hcut a, hcut b, hbefore, compare_append, List.compare_cons_cons]
  cases hc : compare (a k) (b k) with
  | lt => rfl
  | eq => exact absurd hc hne
  | gt => rfl

end Compare

end Lexicographic

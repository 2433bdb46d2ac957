import Mathlib.Tactic.IntervalCases

/-!
# Hexadecimal digits

`digitValue` is the value of a digit in either case.  `readNat` reads a number
from its digits, and `padded` writes one with lower-case digits and leading
zeros, as `%0<width>x` of `printf` does.  What was written is read back
(`readNat_padded`).  `upper` writes the digits in upper case and without zeros.
-/

namespace Hex

/-! ## Digits -/

/-- The lower-case digits in the order of their values. -/
def digits : List Char :=
  ['0', '1', '2', '3', '4', '5', '6', '7', '8', '9', 'a', 'b', 'c', 'd', 'e', 'f']

/-- The value of a digit in either case. -/
def digitValue (c : Char) : Option Nat := digits.idxOf? c.toLower

theorem digitValue_digitChar {v : Nat} (h : v < 16) : digitValue v.digitChar = some v := by
  interval_cases v <;> rfl

theorem digitValue_lt {c : Char} {v : Nat} (h : digitValue c = some v) : v < 16 := by
  obtain ⟨hlt, _⟩ := List.idxOf?_eq_some_iff.mp h
  exact hlt

theorem digitChar_ne_space {v : Nat} (h : v < 16) : v.digitChar ≠ ' ' := by
  interval_cases v <;> decide

theorem digitChar_ne_newline {v : Nat} (h : v < 16) : v.digitChar ≠ '\n' := by
  interval_cases v <;> decide

/-! ## Numbers -/

/-- The number with these digits, the most significant one first. -/
def readNat (cs : List Char) : Option Nat :=
  cs.foldlM (fun n c => (digitValue c).map (16 * n + ·)) 0

theorem readNat_concat (cs : List Char) {v : Nat} (h : v < 16) :
    readNat (cs ++ [v.digitChar]) = (readNat cs).map (16 * · + v) := by
  unfold readNat
  rw [List.foldlM_append]
  cases hcs : cs.foldlM (fun n c => (digitValue c).map (16 * n + ·)) 0 with
  | none => rfl
  | some n => simp [digitValue_digitChar h]

theorem readNat_toDigits (n : Nat) : readNat (Nat.toDigits 16 n) = some n := by
  induction n using Nat.strongRecOn with
  | ind n ih =>
    rw [Nat.toDigits_eq_if (by omega)]
    split_ifs with hlt
    · rw [← List.nil_append [n.digitChar], readNat_concat [] hlt]
      simp [readNat]
    · rw [readNat_concat _ (Nat.mod_lt n (by omega)), ih (n / 16) (by omega), Option.map_some]
      congr 1
      omega

/-- The digits of `n`, at least `width` of them. -/
def padded (width n : Nat) : List Char :=
  List.replicate (width - (Nat.toDigits 16 n).length) '0' ++ Nat.toDigits 16 n

/-- Leading zeros do not count. -/
theorem readNat_zero_cons (cs : List Char) : readNat ('0' :: cs) = readNat cs := rfl

theorem readNat_padded (width n : Nat) : readNat (padded width n) = some n := by
  unfold padded
  induction width - (Nat.toDigits 16 n).length with
  | zero => exact readNat_toDigits n
  | succ k ih =>
    rw [List.replicate_succ, List.cons_append, readNat_zero_cons]
    exact ih

theorem length_padded_le {width n k : Nat} (hk : 0 < k) (hwidth : width ≤ k) (hn : n < 16 ^ k) :
    (padded width n).length ≤ k := by
  have hdigits := (Nat.length_toDigits_le_iff (by omega) hk).mpr hn
  unfold padded
  rw [List.length_append, List.length_replicate]
  omega

/-- A byte has two digits. -/
theorem padded_two {n : Nat} (h : n < 256) :
    padded 2 n = [(n / 16).digitChar, (n % 16).digitChar] := by
  unfold padded
  rw [Nat.toDigits_eq_if (by omega)]
  split_ifs with hlt
  · rw [Nat.div_eq_of_lt hlt, Nat.mod_eq_of_lt hlt]
    rfl
  · rw [Nat.toDigits_of_lt_base (by omega)]
    rfl

/-- A character that is no digit does not occur in the digits. -/
theorem not_mem_padded {c : Char} (hc : ∀ v < 16, Nat.digitChar v ≠ c) (hzero : c ≠ '0')
    (width n : Nat) : c ∉ padded width n := by
  have hdigits : c ∉ Nat.toDigits 16 n := by
    induction n using Nat.strongRecOn with
    | ind n ih =>
      rw [Nat.toDigits_eq_if (by omega)]
      split_ifs with hlt
      · exact fun hmem => hc n hlt (List.mem_singleton.mp hmem).symm
      · intro hmem
        rcases List.mem_append.mp hmem with hmem | hmem
        · exact ih (n / 16) (by omega) hmem
        · exact hc (n % 16) (Nat.mod_lt n (by omega)) (List.mem_singleton.mp hmem).symm
  intro hmem
  rcases List.mem_append.mp hmem with hmem | hmem
  · exact hzero (List.eq_of_mem_replicate hmem)
  · exact hdigits hmem

theorem space_not_mem_padded (width n : Nat) : ' ' ∉ padded width n :=
  not_mem_padded (fun _ hv => digitChar_ne_space hv) (by decide) width n

/-! ## Upper case -/

/-- The digits of `n` as `%X` writes them. -/
def upper (n : Nat) : List Char := (Nat.toDigits 16 n).map Char.toUpper

/-- The last digit comes off the end. -/
theorem upper_eq (n : Nat) :
    upper n = (if n < 16 then [] else upper (n / 16)) ++ [(n % 16).digitChar.toUpper] := by
  unfold upper
  rw [Nat.toDigits_eq_if (by omega)]
  split_ifs with hlt
  · rw [Nat.mod_eq_of_lt hlt]
    rfl
  · rw [List.map_append]
    rfl

theorem digitValue_toUpper {v : Nat} (h : v < 16) : digitValue v.digitChar.toUpper = some v := by
  interval_cases v <;> rfl

theorem toUpper_ne_space {v : Nat} (h : v < 16) : v.digitChar.toUpper ≠ ' ' := by
  interval_cases v <;> decide

theorem toUpper_ne_newline {v : Nat} (h : v < 16) : v.digitChar.toUpper ≠ '\n' := by
  interval_cases v <;> decide

theorem readNat_upper (n : Nat) : readNat (upper n) = some n := by
  induction n using Nat.strongRecOn with
  | ind n ih =>
    have hdigit := digitValue_toUpper (Nat.mod_lt n (by omega : 0 < 16))
    rw [upper_eq, readNat, List.foldlM_append]
    split_ifs with hlt
    · rw [Nat.mod_eq_of_lt hlt] at hdigit ⊢
      simp [hdigit]
    · have hrest := ih (n / 16) (by omega)
      rw [readNat] at hrest
      simp only [hrest, Option.bind_eq_bind, Option.bind_some, List.foldlM_cons, List.foldlM_nil,
        hdigit, Option.map_some, Option.pure_def]
      congr 1
      omega

theorem not_mem_upper {c : Char} (hc : ∀ v < 16, (Nat.digitChar v).toUpper ≠ c) (n : Nat) :
    c ∉ upper n := by
  induction n using Nat.strongRecOn with
  | ind n ih =>
    rw [upper_eq]
    intro hmem
    rcases List.mem_append.mp hmem with hmem | hmem
    · split_ifs at hmem with hlt
      · exact absurd hmem List.not_mem_nil
      · exact ih (n / 16) (by omega) hmem
    · exact hc (n % 16) (Nat.mod_lt n (by omega)) (List.mem_singleton.mp hmem).symm

end Hex

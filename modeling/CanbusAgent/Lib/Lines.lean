import Mathlib.Data.List.Basic

/-!
# Texts of lines

A program prints whole lines, and a reader takes its output apart again.  `text`
puts a line feed behind every line, and `lines` cuts a text at the line feeds
(`lines_text`).  Within a line, `field` reads the value behind a name up to the
next blank, and `decimal` is a number as `%zu` of `printf` writes it.
-/

namespace Lines

/-- The lines, each with its line feed. -/
def text (ls : List (List Char)) : List Char := ls.flatMap (· ++ ['\n'])

/-- The lines of a text, without their line feeds. -/
def lines (cs : List Char) : List (List Char) := (cs.splitOn '\n').dropLast

theorem text_append (ls ks : List (List Char)) : text (ls ++ ks) = text ls ++ text ks :=
  List.flatMap_append

theorem text_cons (l : List Char) (ls : List (List Char)) :
    text (l :: ls) = l ++ '\n' :: text ls := by
  rw [text, List.flatMap_cons, List.append_assoc, List.singleton_append]
  rfl

/-- A text ends with an empty piece behind its last line feed. -/
theorem text_eq_intercalate (ls : List (List Char)) :
    text ls = ['\n'].intercalate (ls ++ [[]]) := by
  induction ls with
  | nil => rfl
  | cons l ls ih =>
    obtain ⟨k, ks, hks⟩ : ∃ k ks, ls ++ [[]] = k :: ks := by
      cases ls with
      | nil => exact ⟨[], [], rfl⟩
      | cons k ks => exact ⟨k, ks ++ [[]], rfl⟩
    rw [text_cons, ih, List.cons_append, hks, List.intercalate_cons_cons]
    simp

/-- The lines of a text are the lines that it was put together from. -/
theorem lines_text {ls : List (List Char)} (h : ∀ l ∈ ls, '\n' ∉ l) : lines (text ls) = ls := by
  have hpieces : ∀ l ∈ ls ++ [[]], '\n' ∉ l :=
    List.forall_mem_append.mpr ⟨h, List.forall_mem_singleton.mpr List.not_mem_nil⟩
  rw [lines, text_eq_intercalate, List.splitOn_intercalate '\n' hpieces (by simp),
    List.dropLast_concat]

/-! ## Fields -/

/-- The value behind a name up to the next blank, and what follows the blank. -/
def field (name cs : List Char) : Option (List Char × List Char) :=
  if name.isPrefixOf cs then
    some ((cs.drop name.length).takeWhile (· ≠ ' '),
      ((cs.drop name.length).dropWhile (· ≠ ' ')).drop 1)
  else none

theorem field_append (name : List Char) {value : List Char} (h : ' ' ∉ value)
    (rest : List Char) : field name (name ++ (value ++ ' ' :: rest)) = some (value, rest) := by
  have hvalue : ∀ c ∈ value, (decide (c ≠ ' ')) = true := by
    intro c hc
    refine decide_eq_true fun heq => ?_
    rw [heq] at hc
    exact h hc
  have hname : name.isPrefixOf (name ++ (value ++ ' ' :: rest)) = true := by
    rw [List.isPrefixOf_iff_prefix]
    exact List.prefix_append name _
  rw [field, if_pos hname, List.drop_left, List.takeWhile_append_of_pos hvalue,
    List.takeWhile_cons_of_neg (by decide), List.append_nil, List.dropWhile_append_of_pos hvalue,
    List.dropWhile_cons_of_neg (by decide)]
  rfl

/-! ## Decimal numbers -/

/-- The decimal digits of a number. -/
def decimal (n : Nat) : List Char := Nat.toDigits 10 n

/-- The number with these decimal digits. -/
def readDecimal (cs : List Char) : Option Nat :=
  if cs ≠ [] ∧ cs.all Char.isDigit then some (Nat.ofDigitChars 10 cs 0) else none

theorem isDigit_of_mem_decimal {n : Nat} {c : Char} (h : c ∈ decimal n) : c.isDigit :=
  Nat.isDigit_of_mem_toDigits (by omega) (by omega) h

theorem readDecimal_decimal (n : Nat) : readDecimal (decimal n) = some n := by
  have hdigits : decimal n ≠ [] ∧ (decimal n).all Char.isDigit :=
    ⟨Nat.toDigits_ne_nil, List.all_eq_true.mpr fun c hc => isDigit_of_mem_decimal hc⟩
  rw [readDecimal, if_pos hdigits, decimal, Nat.ofDigitChars_ten_toDigits]

/-- A character that is no digit does not occur in a decimal number. -/
theorem not_mem_decimal {c : Char} (hc : c.isDigit = false) (n : Nat) : c ∉ decimal n := by
  intro hmem
  rw [isDigit_of_mem_decimal hmem] at hc
  exact absurd hc (by decide)

end Lines

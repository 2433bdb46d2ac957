import CanbusAgent.Lib.Lines
import CanbusAgent.Utils.Dump
import Mathlib.Data.List.TakeDrop

/-!
# `utils_print_array` and `utils_print_rcv_frame`

Both functions print a title with the length and a dump of the bytes.  The title
has the length as a `size_t`, and `bio_dump` gets it as an `int`.  So the title
names every length, and the dump stops short of the lengths that an `int` does
not hold.
-/

namespace CanbusAgent.Utils

open Chunks Lines

/-- The value of a `size_t` that is passed for an `int`: its low 32 bits. -/
def intOfSize (n : Nat) : Int := (UInt32.ofNat n).toInt32.toInt

/-- `"%s: the len is %zu"`. -/
def titleLine (msg : List Char) (len : Nat) : List Char :=
  msg ++ ": the len is ".toList ++ decimal len

/-- `utils_print_array`, with what it prints. -/
def utilsPrintArray (buffer : List UInt8) (len : Nat) (msg : List Char) : Option (List Char) := do
  let rows ← bioDump buffer (intOfSize len)
  some (['\n'] ++ (titleLine msg len ++ ['\n']) ++ rows.flatten ++ ['\n'])

/-- `"ID=%X DLC=%zu "`.  The `int32_t` is printed as an `unsigned`. -/
def frameHeader (id : Int32) (len : Nat) : List Char :=
  "ID=".toList ++ Hex.upper id.toUInt32.toNat ++ " DLC=".toList ++ decimal len ++ [' ']

def utilsPrintRcvFrame (buffer : List UInt8) (len : Nat) (id : Int32) : Option (List Char) := do
  let array ← utilsPrintArray buffer len "payload".toList
  some (frameHeader id len ++ array ++ ['\n'])

/-! ## Dumps of a part of the buffer -/

theorem intOfSize_eq (n : Nat) : intOfSize n =
    if n % 2 ^ 32 ≤ INT_MAX then ((n % 2 ^ 32 : Nat) : Int)
    else ((n % 2 ^ 32 : Nat) : Int) - 2 ^ 32 := by
  have hmax : INT_MAX = 2147483647 := rfl
  rw [intOfSize, UInt32.toInt32_ofNat', Int32.toInt_ofNat', Int.bmod_def, hmax]
  simp only [Int32.size]
  split_ifs <;> omega

theorem intOfSize_le (n : Nat) : intOfSize n ≤ INT_MAX := by
  have hmax : INT_MAX = 2147483647 := rfl
  rw [intOfSize_eq, hmax]
  split_ifs <;> omega

theorem le_intOfSize (n : Nat) : -(INT_MAX : Int) - 1 ≤ intOfSize n := by
  have hmax : INT_MAX = 2147483647 := rfl
  rw [intOfSize_eq, hmax]
  split_ifs <;> omega

theorem intOfSize_of_le {n : Nat} (h : n ≤ INT_MAX) : intOfSize n = n := by
  have hmax : INT_MAX = 2147483647 := rfl
  rw [intOfSize_eq]
  split_ifs <;> omega

theorem intOfSize_toNat_le (n : Nat) : (intOfSize n).toNat ≤ n := by
  have hmax : INT_MAX = 2147483647 := rfl
  rw [intOfSize_eq]
  split_ifs <;> omega

/-- A length that no `int` holds is passed as a smaller one. -/
theorem intOfSize_toNat_lt {n : Nat} (h : INT_MAX < n) : (intOfSize n).toNat < n := by
  have hle := intOfSize_le n
  omega

section

variable {s s' : List UInt8} {len : Int}

/-- The first inner loop reads below the length only. -/
theorem cellsLoop_congr (h : ∀ k < len, charAt s k = charAt s' k) (i : Int) (todo : Nat) (j : Int)
    (buf : List Char) : cellsLoop s len i todo j buf = cellsLoop s' len i todo j buf := by
  induction todo generalizing j buf with
  | zero => rfl
  | succ todo ih =>
    simp only [cellsLoop]
    congr 1
    funext start
    congr 1
    funext k
    split_ifs with hk
    · simp only [ih]
    · simp only [h k (by omega), ih]

theorem textLoop_congr (h : ∀ k < len, charAt s k = charAt s' k) (i : Int) (todo : Nat) (j : Int)
    (buf : List Char) : textLoop s len i todo j buf = textLoop s' len i todo j buf := by
  induction todo generalizing j buf with
  | zero => rfl
  | succ todo ih =>
    simp only [textLoop]
    congr 1
    funext start
    congr 1
    funext k
    split_ifs with hk
    · rfl
    · simp only [h k (by omega), ih]

theorem rowsLoop_congr (h : ∀ k < len, charAt s k = charAt s' k) (todo : Nat) (i : Int) :
    rowsLoop s len todo i = rowsLoop s' len todo i := by
  induction todo generalizing i with
  | zero => rfl
  | succ todo ih => simp only [rowsLoop, dumpRow, cellsLoop_congr h, textLoop_congr h, ih]

end

/-- A dump of a part of the buffer is the dump of this part. -/
theorem bioDump_take (s : List UInt8) {k : Nat} (hk : k ≤ s.length) :
    bioDump s k = bioDump (s.take k) (s.take k).length := by
  have hlen : (s.take k).length = k := List.length_take_of_le hk
  have hread : ∀ i < (k : Int), charAt s i = charAt (s.take k) i := by
    intro i hi
    unfold charAt
    split_ifs with hneg
    · rfl
    · rw [List.getElem?_take_of_lt (by omega)]
  rw [hlen]
  simp only [bioDump, rowsLoop_congr hread]

/-- A negative length prints no rows. -/
theorem bioDump_neg (s : List UInt8) {len : Int} (hneg : len < 0)
    (hmin : -(INT_MAX : Int) - 1 ≤ len) : bioDump s len = some [] := by
  have hmax : INT_MAX = 2147483647 := rfl
  have hwidth : DUMP_WIDTH = 16 := rfl
  have hdiv := Int.tmod_add_mul_tdiv len DUMP_WIDTH
  have hlow := Int.lt_tmod_of_pos len (show 0 < DUMP_WIDTH by decide)
  have hsign : len.tmod DUMP_WIDTH ≤ 0 := by
    have := Int.tmod_nonneg DUMP_WIDTH (show 0 ≤ -len by omega)
    rw [Int.neg_tmod] at this
    omega
  rw [Int.mul_comm] at hdiv
  have hcovered : intValue (len.tdiv DUMP_WIDTH * DUMP_WIDTH) =
      some (len.tdiv DUMP_WIDTH * DUMP_WIDTH) := by
    unfold intValue
    rw [if_pos]
    omega
  have hrows : (len.tdiv DUMP_WIDTH).toNat = 0 := by
    rw [hwidth] at hdiv hlow hsign ⊢
    omega
  simp only [bioDump, hcovered, Option.bind_eq_bind, Option.bind_some]
  rw [if_neg (by omega), hrows]
  rfl

/-! ## The lines -/

/-- A row of a dump without its line feed. -/
def rowLine (off : Nat) (c : List UInt8) : List Char :=
  Hex.padded 4 off ++ [' ', '-', ' '] ++ (cellsOf 16 0 c).flatten ++ [' ', ' '] ++ c.map shown

/-- The lines of a dump of the bytes `s`. -/
def dumpLines (s : List UInt8) : List (List Char) :=
  (List.range (chunkCount 16 s.length)).map fun k => rowLine (16 * k) (chunk 16 s k)

/-- The bytes that are read from a line of a dump. -/
def readRow (line : List Char) : List UInt8 := readCells (line ++ ['\n'])

@[simp] theorem dumpLines_length (s : List UInt8) :
    (dumpLines s).length = chunkCount 16 s.length := by
  simp [dumpLines]

/-- The lines of a dump hold the bytes. -/
theorem readRow_dumpLines (s : List UInt8) : (dumpLines s).flatMap readRow = s := by
  have hread (k : Nat) : readRow (rowLine (16 * k) (chunk 16 s k)) = chunk 16 s k := by
    refine readCells_rowOf (16 * k) _ ?_
    rw [chunk_length]
    omega
  rw [dumpLines, List.flatMap_map, List.flatMap_def]
  simp only [hread]
  exact flatten_all_chunks (by omega) s

theorem shown_ne_newline (b : UInt8) : shown b ≠ '\n' := by
  unfold shown
  split_ifs with h
  · intro heq
    have hval : b.toUInt32 = 10 := congrArg Char.val heq
    have hb : b.toNat = 10 := congrArg UInt32.toNat hval
    have hle : 32 ≤ b.toNat := h.1
    omega
  · decide

theorem newline_not_mem_padded (width n : Nat) : '\n' ∉ Hex.padded width n :=
  Hex.not_mem_padded (fun _ hv => Hex.digitChar_ne_newline hv) (by decide) width n

theorem newline_not_mem_cellText (b : UInt8) (j : Int) : '\n' ∉ cellText b j := by
  rw [cellText, List.mem_append, not_or]
  refine ⟨newline_not_mem_padded 2 b.toNat, ?_⟩
  split_ifs <;> decide

theorem newline_not_mem_cellsOf {todo j : Nat} {c : List UInt8} :
    ∀ cell ∈ cellsOf todo j c, '\n' ∉ cell := by
  induction todo generalizing j c with
  | zero => simp [cellsOf]
  | succ todo ih =>
    cases c with
    | nil =>
      rw [cellsOf, List.forall_mem_cons]
      exact ⟨by decide, ih⟩
    | cons b bs =>
      rw [cellsOf, List.forall_mem_cons]
      exact ⟨newline_not_mem_cellText b j, ih⟩

/-- Every row is one line. -/
theorem newline_not_mem_rowLine (off : Nat) (c : List UInt8) : '\n' ∉ rowLine off c := by
  have hoff := newline_not_mem_padded 4 off
  have hcells : '\n' ∉ (cellsOf 16 0 c).flatten := by
    rw [List.mem_flatten]
    rintro ⟨cell, hcell, hmem⟩
    exact newline_not_mem_cellsOf cell hcell hmem
  have htext : '\n' ∉ c.map shown := by
    rw [List.mem_map]
    rintro ⟨b, -, hb⟩
    exact shown_ne_newline b hb
  simp [rowLine, hoff, hcells, htext]

theorem newline_not_mem_dumpLines (s : List UInt8) : ∀ line ∈ dumpLines s, '\n' ∉ line := by
  intro line hline
  obtain ⟨k, -, rfl⟩ := List.mem_map.mp hline
  exact newline_not_mem_rowLine _ _

/-- What `bio_dump` prints for a length that was passed as a `size_t`. -/
theorem bioDump_size (s : List UInt8) :
    ∃ rows, bioDump s (intOfSize s.length) = some rows ∧
      rows.flatten = text (dumpLines (s.take (intOfSize s.length).toNat)) := by
  rcases Int.lt_or_le (intOfSize s.length) 0 with hneg | hpos
  · refine ⟨[], bioDump_neg s hneg (le_intOfSize _), ?_⟩
    rw [Int.toNat_of_nonpos (by omega), List.take_zero]
    rfl
  · obtain ⟨k, hk⟩ := Int.eq_ofNat_of_zero_le hpos
    have hle := intOfSize_toNat_le s.length
    have hmax := intOfSize_le s.length
    rw [hk, Int.toNat_natCast] at hle ⊢
    rw [hk] at hmax
    rw [bioDump_take s hle, bioDump_eq (by rw [List.length_take]; omega)]
    refine ⟨_, rfl, ?_⟩
    rw [text, dumpLines, List.flatMap_map, List.flatMap_def]
    rfl

/-- `utils_print_array` names every length in its title.  Its dump has the bytes up to
the value that the length has as an `int`, and none when that is negative, so the
dump is complete for the lengths up to `INT_MAX` and for no others. -/
theorem utilsPrintArray_dumps (s : List UInt8) (msg : List Char) :
    ∃ rows : List (List Char), utilsPrintArray s s.length msg =
        some (text ([] :: titleLine msg s.length :: (rows ++ [[]]))) ∧
      rows.flatMap readRow = s.take (intOfSize s.length).toNat ∧
      (rows.flatMap readRow = s ↔ s.length ≤ INT_MAX) := by
  obtain ⟨rows, hrows, hflat⟩ := bioDump_size s
  refine ⟨dumpLines (s.take (intOfSize s.length).toNat), ?_, readRow_dumpLines _, ?_⟩
  · rw [utilsPrintArray, hrows, Option.bind_eq_bind, Option.bind_some, hflat]
    simp [text]
  · rw [readRow_dumpLines, List.take_eq_self_iff]
    constructor
    · intro hle
      by_contra hgt
      have := intOfSize_toNat_lt (Nat.lt_of_not_le hgt)
      omega
    · intro hle
      rw [intOfSize_of_le hle, Int.toNat_natCast]

end CanbusAgent.Utils

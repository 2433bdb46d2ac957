import CanbusAgent.Lib.Chunks
import CanbusAgent.Lib.Hex
import CanbusAgent.Platform

/-!
# `bio_dump`

The dump builds each row in a character array with `strcat`.  The model gives
`none` where the C code would leave what it may do: an `int` expression that
overflows, a string that does not fit its array with the terminator, a read
outside the buffer.  `bioDump_eq` says that none of this happens and what the
rows are.  Offset, hex cells and text are then read back from a row.

A string is the list of its characters without the terminator.
-/

namespace CanbusAgent.Utils

open Chunks

/-! ## Integers and strings -/

def INT_MAX : Nat := 2 ^ 31 - 1

/-- The value of an `int` expression. -/
def intValue (x : Int) : Option Int :=
  if -(INT_MAX : Int) - 1 ≤ x ∧ x ≤ INT_MAX then some x else none

/-- A string that is put into an array of `size` characters. -/
def fits (size : Nat) (cs : List Char) : Option (List Char) :=
  if cs.length + 1 ≤ size then some cs else none

/-- `sprintf` to `tmp[20]`. -/
def toTmp (cs : List Char) : Option (List Char) := fits 20 cs

/-- `strcat` to `buf[160 + 1]`. -/
def strcatBuf (buf cs : List Char) : Option (List Char) := fits 161 (buf ++ cs)

/-- The character at index `k` of the buffer. -/
def charAt (s : List UInt8) (k : Int) : Option UInt8 := if k < 0 then none else s[k.toNat]?

theorem intValue_of_nat {n : Nat} (h : n ≤ INT_MAX) : intValue n = some (n : Int) := by
  unfold intValue
  rw [if_pos]
  omega

theorem fits_of_le {size : Nat} {cs : List Char} (h : cs.length + 1 ≤ size) :
    fits size cs = some cs := if_pos h

/-! ## The dump -/

def DUMP_WIDTH : Int := 16

/-- `"%04x - "`. -/
def offsetText (x : Int) : List Char := Hex.padded 4 (x % 2 ^ 32).toNat ++ [' ', '-', ' ']

/-- `"%02x%c"` with the separator of column `j`. -/
def cellText (ch : UInt8) (j : Int) : List Char :=
  Hex.padded 2 ch.toNat ++ [if j = 7 then '-' else ' ']

/-- The character that the text column shows for a byte. -/
def shown (ch : UInt8) : Char :=
  if ' '.toUInt8 ≤ ch ∧ ch ≤ '~'.toUInt8 then Char.ofUInt8 ch else '.'

/-- The first inner loop, with `todo` passes left. -/
def cellsLoop (s : List UInt8) (len i : Int) :
    (todo : Nat) → (j : Int) → (buf : List Char) → Option (List Char)
  | 0, _, buf => some buf
  | todo + 1, j, buf => do
    let start ← intValue (i * DUMP_WIDTH)
    let k ← intValue (start + j)
    let buf ←
      if len ≤ k then strcatBuf buf [' ', ' ', ' ']
      else do
        let ch ← charAt s k
        let tmp ← toTmp (cellText ch j)
        strcatBuf buf tmp
    let j ← intValue (j + 1)
    cellsLoop s len i todo j buf

/-- The second inner loop, with `todo` passes left.  It breaks at the end of the
buffer. -/
def textLoop (s : List UInt8) (len i : Int) :
    (todo : Nat) → (j : Int) → (buf : List Char) → Option (List Char)
  | 0, _, buf => some buf
  | todo + 1, j, buf => do
    let start ← intValue (i * DUMP_WIDTH)
    let k ← intValue (start + j)
    if len ≤ k then some buf
    else do
      let ch ← charAt s k
      let tmp ← toTmp [shown ch]
      let buf ← strcatBuf buf tmp
      let j ← intValue (j + 1)
      textLoop s len i todo j buf

/-- One pass of the outer loop. -/
def dumpRow (s : List UInt8) (len i : Int) : Option (List Char) := do
  let start ← intValue (i * DUMP_WIDTH)
  let tmp ← toTmp (offsetText start)
  let buf ← strcatBuf [] tmp
  let buf ← cellsLoop s len i 16 0 buf
  let buf ← strcatBuf buf [' ', ' ']
  let buf ← textLoop s len i 16 0 buf
  strcatBuf buf ['\n']

/-- The outer loop, with `todo` passes left.  The result is what is printed. -/
def rowsLoop (s : List UInt8) (len : Int) : (todo : Nat) → (i : Int) → Option (List (List Char))
  | 0, _ => some []
  | todo + 1, i => do
    let row ← dumpRow s len i
    let i ← intValue (i + 1)
    let rows ← rowsLoop s len todo i
    some (row :: rows)

/-- `bio_dump`, with the rows that it prints. -/
def bioDump (s : List UInt8) (len : Int) : Option (List (List Char)) := do
  let rows := len.tdiv DUMP_WIDTH
  let covered ← intValue (rows * DUMP_WIDTH)
  let rows ← if covered < len then intValue (rows + 1) else some rows
  rowsLoop s len rows.toNat 0

/-! ## The rows -/

/-- The hex cells from column `j` on, `todo` of them, for the bytes that are left. -/
def cellsOf : (todo j : Nat) → List UInt8 → List (List Char)
  | 0, _, _ => []
  | todo + 1, j, [] => [' ', ' ', ' '] :: cellsOf todo (j + 1) []
  | todo + 1, j, b :: bs => cellText b j :: cellsOf todo (j + 1) bs

/-- The row with the offset `off` for the bytes `c`. -/
def rowOf (off : Nat) (c : List UInt8) : List Char :=
  Hex.padded 4 off ++ [' ', '-', ' '] ++ (cellsOf 16 0 c).flatten ++ [' ', ' '] ++ c.map shown ++
    ['\n']

theorem length_cellText (ch : UInt8) (j : Int) : (cellText ch j).length = 3 := by
  rw [cellText, Hex.padded_two ch.toNat_lt]
  rfl

theorem cellsOf_length (todo j : Nat) (c : List UInt8) : (cellsOf todo j c).length = todo := by
  induction todo generalizing j c with
  | zero => rfl
  | succ todo ih => cases c <;> simp [cellsOf, ih]

theorem mem_cellsOf {todo j : Nat} {c : List UInt8} :
    ∀ cell ∈ cellsOf todo j c, cell.length = 3 := by
  induction todo generalizing j c with
  | zero => simp [cellsOf]
  | succ todo ih =>
    cases c with
    | nil =>
      rw [cellsOf, List.forall_mem_cons]
      exact ⟨rfl, ih⟩
    | cons b bs =>
      rw [cellsOf, List.forall_mem_cons]
      exact ⟨length_cellText b j, ih⟩

/-- What is left of the buffer at index `k`, cut after `todo + 1` bytes. -/
theorem take_drop_cases (s : List UInt8) (k todo : Nat) :
    (s.length ≤ k ∧ (s.drop k).take (todo + 1) = [] ∧ (s.drop (k + 1)).take todo = []) ∨
      ∃ b, k < s.length ∧ s[k]? = some b ∧
        (s.drop k).take (todo + 1) = b :: (s.drop (k + 1)).take todo := by
  rcases Nat.lt_or_ge k s.length with hlt | hge
  · refine Or.inr ⟨s[k], hlt, List.getElem?_eq_getElem hlt, ?_⟩
    rw [List.drop_eq_getElem_cons hlt, List.take_succ_cons]
  · refine Or.inl ⟨hge, ?_, ?_⟩
    · rw [List.drop_of_length_le hge, List.take_nil]
    · rw [List.drop_of_length_le (by omega), List.take_nil]

section

variable {s : List UInt8} {i todo j : Nat} {buf : List Char}

theorem strcatBuf_of_le {cs : List Char} (h : buf.length + cs.length ≤ 160) :
    strcatBuf buf cs = some (buf ++ cs) :=
  fits_of_le (by rw [List.length_append]; omega)

theorem intValue_start (h : 16 * i ≤ INT_MAX) :
    intValue ((i : Int) * DUMP_WIDTH) = some ((16 * i : Nat) : Int) := by
  rw [← intValue_of_nat h]
  congr 1
  show (i : Int) * 16 = _
  omega

theorem charAt_nat (k : Nat) : charAt s (k : Int) = s[k]? := by
  rw [charAt, if_neg (by omega), Int.toNat_natCast]

theorem intValue_index (hi : 16 * i + 15 ≤ INT_MAX) (hj : j ≤ 15) :
    intValue (((16 * i : Nat) : Int) + j) = some ((16 * i + j : Nat) : Int) := by
  rw [← intValue_of_nat (by omega)]
  rfl

theorem intValue_succ (h : i + 1 ≤ INT_MAX) :
    intValue ((i : Int) + 1) = some ((i + 1 : Nat) : Int) :=
  intValue_of_nat h

/-- The run lemma of the first inner loop. -/
theorem cellsLoop_eq (hi : 16 * i + 15 ≤ INT_MAX) (hj : j + todo = 16)
    (hbuf : buf.length + 3 * todo ≤ 160) :
    cellsLoop s s.length i todo j buf =
      some (buf ++ (cellsOf todo j ((s.drop (16 * i + j)).take todo)).flatten) := by
  induction todo generalizing j buf with
  | zero => simp [cellsLoop, cellsOf]
  | succ todo ih =>
    have hmax : 16 ≤ INT_MAX := by decide
    simp only [cellsLoop, Option.bind_eq_bind, intValue_start (Nat.le_of_add_right_le hi),
      Option.bind_some, intValue_index hi (by omega : j ≤ 15)]
    rcases take_drop_cases s (16 * i + j) todo with ⟨hge, hnow, hrest⟩ | ⟨b, hlt, hb, hnow⟩
    · rw [if_pos (by omega), strcatBuf_of_le (by simp; omega), Option.bind_some,
        intValue_succ (by omega), Option.bind_some, ih (by omega) (by simp; omega), ← Nat.add_assoc,
        hrest, hnow]
      simp [cellsOf]
    · have htmp : toTmp (cellText b j) = some (cellText b j) :=
        fits_of_le (by rw [length_cellText]; omega)
      rw [if_neg (by omega), charAt_nat, hb, Option.bind_some, htmp, Option.bind_some,
        strcatBuf_of_le (by rw [length_cellText]; omega), Option.bind_some,
        intValue_succ (by omega), Option.bind_some,
        ih (by omega) (by rw [List.length_append, length_cellText]; omega), ← Nat.add_assoc, hnow]
      simp [cellsOf]

/-- The run lemma of the second inner loop. -/
theorem textLoop_eq (hi : 16 * i + 15 ≤ INT_MAX) (hj : j + todo = 16)
    (hbuf : buf.length + todo ≤ 160) :
    textLoop s s.length i todo j buf =
      some (buf ++ ((s.drop (16 * i + j)).take todo).map shown) := by
  induction todo generalizing j buf with
  | zero => simp [textLoop]
  | succ todo ih =>
    have hmax : 16 ≤ INT_MAX := by decide
    simp only [textLoop, Option.bind_eq_bind, intValue_start (Nat.le_of_add_right_le hi),
      Option.bind_some, intValue_index hi (by omega : j ≤ 15)]
    rcases take_drop_cases s (16 * i + j) todo with ⟨hge, hnow, _⟩ | ⟨b, hlt, hb, hnow⟩
    · rw [if_pos (by omega), hnow]
      simp
    · have htmp : toTmp [shown b] = some [shown b] := fits_of_le (by simp)
      rw [if_neg (by omega), charAt_nat, hb, Option.bind_some, htmp, Option.bind_some,
        strcatBuf_of_le (by simp; omega), Option.bind_some, intValue_succ (by omega),
        Option.bind_some, ih (by omega) (by simp; omega), ← Nat.add_assoc, hnow]
      simp

end

/-- The step lemma of the outer loop: a row fits its array. -/
theorem dumpRow_eq {s : List UInt8} {i : Nat} (hi : 16 * i + 15 ≤ INT_MAX) :
    dumpRow s s.length i = some (rowOf (16 * i) (chunk 16 s i)) := by
  have hoff : offsetText ((16 * i : Nat) : Int) = Hex.padded 4 (16 * i) ++ [' ', '-', ' '] := by
    have hmax : INT_MAX < 2 ^ 32 := by decide
    have hmod : (((16 * i : Nat) : Int) % 2 ^ 32).toNat = 16 * i := by omega
    rw [offsetText, hmod]
  have hdigits : (Hex.padded 4 (16 * i)).length ≤ 8 := by
    have hmax : INT_MAX < 16 ^ 8 := by decide
    exact Hex.length_padded_le (by omega) (by omega) (by omega)
  set off := Hex.padded 4 (16 * i) ++ [' ', '-', ' '] with hoffDef
  set cells := (cellsOf 16 0 (chunk 16 s i)).flatten with hcellsDef
  have hofflen : off.length ≤ 11 := by
    rw [hoffDef, List.length_append]
    exact Nat.add_le_add_right hdigits 3
  have hcells : cells.length = 48 := by
    rw [hcellsDef, List.length_flatten, List.map_congr_left mem_cellsOf]
    simp [cellsOf_length]
  have htext : (chunk 16 s i).length ≤ 16 := by
    rw [chunk_length]
    omega
  have htmp : toTmp off = some off := fits_of_le (by omega)
  have hcellsLoop : cellsLoop s s.length i 16 0 off = some (off ++ cells) :=
    cellsLoop_eq hi rfl (by omega)
  have htextLoop : textLoop s s.length i 16 0 (off ++ cells ++ [' ', ' ']) =
      some (off ++ cells ++ [' ', ' '] ++ (chunk 16 s i).map shown) := by
    refine textLoop_eq hi rfl ?_
    rw [List.length_append, List.length_append, hcells]
    show off.length + 48 + 2 + 16 ≤ 160
    omega
  unfold dumpRow
  simp only [Option.bind_eq_bind, intValue_start (Nat.le_of_add_right_le hi), Option.bind_some,
    hoff, htmp]
  rw [strcatBuf_of_le (by rw [List.length_nil]; omega), Option.bind_some, List.nil_append,
    hcellsLoop, Option.bind_some, strcatBuf_of_le (by simp [hcells]; omega), Option.bind_some,
    htextLoop, Option.bind_some, strcatBuf_of_le (by simp [hcells]; omega)]
  rfl

/-- The run lemma of the outer loop. -/
theorem rowsLoop_eq {s : List UInt8} {todo i : Nat}
    (h : ∀ k < i + todo, 16 * k + 15 ≤ INT_MAX) :
    rowsLoop s s.length todo i =
      some ((List.range' i todo).map fun k => rowOf (16 * k) (chunk 16 s k)) := by
  induction todo generalizing i with
  | zero => rfl
  | succ todo ih =>
    have hi : 16 * i + 15 ≤ INT_MAX := h i (by omega)
    have hrest : ∀ k < i + 1 + todo, 16 * k + 15 ≤ INT_MAX := fun k hk => h k (by omega)
    rw [rowsLoop, dumpRow_eq hi, Option.bind_eq_bind, Option.bind_some, intValue_succ (by omega),
      Option.bind_eq_bind, Option.bind_some, ih hrest, Option.bind_eq_bind, Option.bind_some,
      List.range'_succ, List.map_cons]

/-- `bio_dump` runs into none of the failures, and these are its rows. -/
theorem bioDump_eq {s : List UInt8} (hlen : s.length ≤ INT_MAX) :
    bioDump s s.length =
      some ((List.range (chunkCount 16 s.length)).map fun k => rowOf (16 * k) (chunk 16 s k)) := by
  have hmax : INT_MAX = 2147483647 := rfl
  have hdiv : (s.length : Int).tdiv DUMP_WIDTH = ((s.length / 16 : Nat) : Int) := rfl
  have hcovered : intValue (((s.length / 16 : Nat) : Int) * DUMP_WIDTH) =
      some ((16 * (s.length / 16) : Nat) : Int) := intValue_start (by omega)
  have hrows : rowsLoop s s.length (chunkCount 16 s.length) 0 =
      some ((List.range (chunkCount 16 s.length)).map fun k => rowOf (16 * k) (chunk 16 s k)) := by
    rw [List.range_eq_range']
    refine rowsLoop_eq fun k hk => ?_
    rw [Nat.zero_add, lt_chunkCount (by omega)] at hk
    omega
  unfold bioDump
  simp only [Option.bind_eq_bind, hdiv, hcovered, Option.bind_some]
  split_ifs with hrest
  · have hcount : s.length / 16 + 1 = chunkCount 16 s.length := by
      unfold chunkCount
      omega
    rw [intValue_succ (by omega), Option.bind_some, Int.toNat_natCast, hcount, hrows]
  · have hcount : s.length / 16 = chunkCount 16 s.length := by
      unfold chunkCount
      omega
    rw [Int.toNat_natCast, hcount, hrows]

example : bioDump [0x48, 0x69] 2 =
    some ["0000 - 48 69                                             Hi\n".toList] := by rfl

/-! ## Reading a row -/

/-- The number in front of the first blank. -/
def readOffset (row : List Char) : Option Nat := Hex.readNat (row.takeWhile (· ≠ ' '))

/-- What follows `" - "`. -/
def rowBody (row : List Char) : List Char := (row.dropWhile (· ≠ ' ')).drop 3

/-- The byte whose two digits a cell starts with. -/
def readCell (cell : List Char) : Option UInt8 := (Hex.readNat (cell.take 2)).map UInt8.ofNat

/-- The bytes of the sixteen cells. -/
def readCells (row : List Char) : List UInt8 :=
  ((List.range 16).map (chunk 3 (rowBody row))).filterMap readCell

/-- The text column, without the line feed. -/
def readText (row : List Char) : List Char := ((rowBody row).drop 50).dropLast

theorem readCell_cellText (b : UInt8) (j : Int) : readCell (cellText b j) = some b := by
  have htake : (cellText b j).take 2 = Hex.padded 2 b.toNat := by
    rw [cellText]
    exact List.take_left' (by rw [Hex.padded_two b.toNat_lt]; rfl)
  rw [readCell, htake, Hex.readNat_padded, Option.map_some, UInt8.ofNat_toNat]

theorem filterMap_cellsOf {todo j : Nat} {c : List UInt8} (h : c.length ≤ todo) :
    (cellsOf todo j c).filterMap readCell = c := by
  induction todo generalizing j c with
  | zero =>
    rw [List.eq_nil_of_length_eq_zero (Nat.le_zero.mp h)]
    rfl
  | succ todo ih =>
    cases c with
    | nil =>
      rw [cellsOf, List.filterMap_cons_none (by rfl)]
      exact ih (Nat.zero_le todo)
    | cons b bs =>
      rw [cellsOf, List.filterMap_cons_some (readCell_cellText b j)]
      congr 1
      exact ih (Nat.le_of_succ_le_succ h)

section

variable (off : Nat) (c : List UInt8)

theorem rowOf_split : rowOf off c = Hex.padded 4 off ++ ' ' ::
    ('-' :: ' ' :: ((cellsOf 16 0 c).flatten ++ (' ' :: ' ' :: (c.map shown ++ ['\n'])))) := by
  simp [rowOf]

/-- The digits of an offset have no blank. -/
theorem padded_all (x : Char) (hx : x ∈ Hex.padded 4 off) : (decide (x ≠ ' ')) = true := by
  refine decide_eq_true fun heq => ?_
  rw [heq] at hx
  exact Hex.space_not_mem_padded 4 off hx

theorem readOffset_rowOf : readOffset (rowOf off c) = some off := by
  rw [readOffset, rowOf_split, List.takeWhile_append_of_pos (padded_all off),
    List.takeWhile_cons_of_neg (by decide), List.append_nil]
  exact Hex.readNat_padded 4 off

theorem rowBody_rowOf : rowBody (rowOf off c) =
    (cellsOf 16 0 c).flatten ++ (' ' :: ' ' :: (c.map shown ++ ['\n'])) := by
  rw [rowBody, rowOf_split, List.dropWhile_append_of_pos (padded_all off),
    List.dropWhile_cons_of_neg (by decide)]
  rfl

theorem readCells_rowOf (h : c.length ≤ 16) : readCells (rowOf off c) = c := by
  have hlen : ∀ cell ∈ cellsOf 16 0 c, cell.length = 3 := mem_cellsOf
  have hcells := map_chunk_flatten hlen (' ' :: ' ' :: (c.map shown ++ ['\n']))
  rw [cellsOf_length] at hcells
  rw [readCells, rowBody_rowOf, hcells]
  exact filterMap_cellsOf h

theorem readText_rowOf : readText (rowOf off c) = c.map shown := by
  have hcells : (cellsOf 16 0 c).flatten.length = 48 := by
    rw [List.length_flatten, List.map_congr_left mem_cellsOf]
    simp [cellsOf_length]
  rw [readText, rowBody_rowOf, List.drop_append, hcells, List.drop_of_length_le (by omega)]
  exact List.dropLast_concat

end

/-- The rows of a dump of the bytes `s`. -/
structure IsDump (s : List UInt8) (rows : List (List Char)) : Prop where
  count : rows.length = chunkCount 16 s.length
  offset : ∀ i (hi : i < rows.length), readOffset rows[i] = some (16 * i)
  cells : rows.flatMap readCells = s
  text : ∀ i (hi : i < rows.length), readText rows[i] = (chunk 16 s i).map shown

/-- `bio_dump` prints a faithful dump of every buffer whose length is an `int`.  No
expression overflows, no string is longer than its array, and nothing outside the
buffer is read. -/
theorem bioDump_faithful {s : List UInt8} (hlen : s.length ≤ INT_MAX) :
    ∃ rows, bioDump s s.length = some rows ∧ IsDump s rows := by
  refine ⟨_, bioDump_eq hlen, ?_, ?_, ?_, ?_⟩
  · rw [List.length_map, List.length_range]
  · intro i hi
    rw [List.getElem_map, List.getElem_range, readOffset_rowOf]
  · have hread (k : Nat) : readCells (rowOf (16 * k) (chunk 16 s k)) = chunk 16 s k := by
      apply readCells_rowOf
      rw [chunk_length]
      omega
    rw [List.flatMap_map, List.flatMap_def]
    simp only [hread]
    exact flatten_all_chunks (by omega) s
  · intro i hi
    rw [List.getElem_map, List.getElem_range, readText_rowOf]

/-- Seventeen bytes have a second row with one cell. -/
theorem bioDump_faithful_seventeen :
    ∃ rows, bioDump (List.replicate 17 0x41) 17 = some rows ∧ rows.length = 2 ∧
      rows.flatMap readCells = List.replicate 17 0x41 := by
  obtain ⟨rows, hrows, hdump⟩ := bioDump_faithful (s := List.replicate 17 0x41) (by decide)
  exact ⟨rows, hrows, hdump.count, hdump.cells⟩

end CanbusAgent.Utils

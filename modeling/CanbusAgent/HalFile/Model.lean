import CanbusAgent.Lib.DrivenLoop
import CanbusAgent.Lib.Region
import CanbusAgent.Platform
import Mathlib.Logic.Function.Basic

/-!
# `hal_file.c`

`hal_file_write` writes a buffer to a file through a stream of the C library.
The stream may buffer: a byte that `fwrite` accepted is either in the file or
pending in the stream, and it is the stream that decides when pending bytes go
to the file.  `fclose` writes what is still pending, and it can fail.

`halFileWriteStep` is one pass through the block loop.  `writeBytes_toSsize` and
`halFileWriteStep_eq` say what it computes when `left` is the cast of a length,
which is all that later proofs use.
-/

namespace CanbusAgent.HalFile

open DrivenLoop Region

def HAL_FILE_BLOCK_SIZE : Nat := 128

/-! ## Files and streams -/

/-- The contents of the file at every path, `none` where there is none.  A path stands for
its file: different paths name different files, so there are no links and no two spellings
of one path. -/
abbrev Files := String → Option (List UInt8)

/-- An open stream. -/
structure Stream where
  /-- What the file holds. -/
  file : List UInt8
  /-- What was accepted and is not in the file yet. -/
  pending : List UInt8

/-- What one call of `fwrite` does. -/
structure FwriteAnswer where
  /-- The most bytes that it accepts. -/
  count : Nat
  /-- The number of pending bytes that go to the file. -/
  flushed : Nat
deriving DecidableEq, Repr

/-- The result of a call that asks for `n` bytes.  It is never larger than `n`. -/
def FwriteAnswer.accepted (a : FwriteAnswer) (n : Nat) : Nat := min a.count n

/-- What `fclose` does with the bytes that are still pending. -/
inductive FcloseAnswer where
  /-- All of them go to the file, and the result is 0. -/
  | ok
  /-- Only the first `flushed` ones do, and the result is `EOF`. -/
  | failed (flushed : Nat)
deriving DecidableEq, Repr

namespace Stream

/-- The stream that `fopen` gives in the mode `"wb+"`, which truncates the file. -/
def opened : Stream := ⟨[], []⟩

/-- What was accepted so far. -/
def accepted (fp : Stream) : List UInt8 := fp.file ++ fp.pending

/-- `fwrite` with elements of one byte. -/
def fwrite (fp : Stream) (block : List UInt8) (a : FwriteAnswer) : Nat × Stream :=
  let n := a.accepted block.length
  let pending := fp.pending ++ block.take n
  (n, { file := fp.file ++ pending.take a.flushed, pending := pending.drop a.flushed })

/-- What the file holds after `fclose`. -/
def fclose (fp : Stream) : FcloseAnswer → List UInt8
  | .ok => fp.file ++ fp.pending
  | .failed flushed => fp.file ++ fp.pending.take flushed

@[simp] theorem fwrite_fst (fp : Stream) (block : List UInt8) (a : FwriteAnswer) :
    (fp.fwrite block a).1 = a.accepted block.length := rfl

/-- `fwrite` accepts a prefix of its block, wherever the bytes are then. -/
theorem accepted_fwrite (fp : Stream) (block : List UInt8) (a : FwriteAnswer) :
    (fp.fwrite block a).2.accepted = fp.accepted ++ block.take (a.accepted block.length) := by
  simp [fwrite, accepted]

end Stream

/-! ## The block loop -/

/-- The local variables of the loop.  `offset` is how far `buffer` was moved, and
`passed` are the blocks that were passed to `fwrite`. -/
structure FileState where
  left : Int
  offset : Nat
  fp : Stream
  passed : List (List UInt8)

/-- The return value, with the files after the call. -/
structure FileResult where
  ret : Int
  files : Files
  passed : List (List UInt8)

/-- `(left <= HAL_FILE_BLOCK_SIZE) ? left : HAL_FILE_BLOCK_SIZE`.  The constant is
an `unsigned int`, so a `ssize_t` of four bytes is converted to unsigned for the
comparison.  A wider one is not. -/
def writeBytes (dm : DataModel) (left : Int) : Int :=
  match dm with
  | .ilp32 => if dm.ofSsize left ≤ HAL_FILE_BLOCK_SIZE then left else HAL_FILE_BLOCK_SIZE
  | .lp64 => if left ≤ HAL_FILE_BLOCK_SIZE then left else HAL_FILE_BLOCK_SIZE

/-- The code at `finish`.  The result of `fclose` is not looked at. -/
def finish (files : Files) (path : String) (close : FcloseAnswer) (ret : Int) (fp : Stream)
    (passed : List (List UInt8)) : FileResult :=
  { ret, files := Function.update files path (some (fp.fclose close)), passed }

def halFileWriteStep (dm : DataModel) (files : Files) (path : String) (buffer : Nat → UInt8)
    (close : FcloseAnswer) (s : FileState) (a : FwriteAnswer) : Step FileState FileResult :=
  let writeBytes := writeBytes dm s.left
  let block := slice buffer s.offset (dm.ofSsize writeBytes)
  let (count, fp) := s.fp.fwrite block a
  let writtenBytes := dm.toSsize count
  let passed := s.passed ++ [block]
  if writeBytes ≠ writtenBytes then
    .done (finish files path close HAL_ERR_SEND_ERROR fp passed)
  else
    let left := dm.wrapSsize (s.left - writtenBytes)
    if left ≠ 0 then
      .again { left, offset := s.offset + dm.ofSsize writtenBytes, fp, passed }
    else .done (finish files path close HAL_SUCCESS fp passed)

/-- `hal_file_write`.  `fopened` says that `fopen` succeeded, `writes` are the
answers of `fwrite`, and `close` is the one of `fclose`. -/
def halFileWrite (dm : DataModel) (files : Files) (path : String) (buffer : Nat → UInt8)
    (len : Nat) (fopened : Bool) (writes : List FwriteAnswer) (close : FcloseAnswer) :
    Step FileState FileResult × List FwriteAnswer :=
  if dm.toSsize len = 0 then (.done { ret := HAL_SUCCESS, files, passed := [] }, writes)
  else if !fopened then (.done { ret := HAL_ERR_FILE_ACCESS, files, passed := [] }, writes)
  else
    run (halFileWriteStep dm files path buffer close)
      { left := dm.toSsize len, offset := 0, fp := .opened, passed := [] } writes

section

variable {dm : DataModel} {files : Files} {path : String} {buffer : Nat → UInt8} {len : Nat}
  {writes : List FwriteAnswer} {close : FcloseAnswer}

theorem halFileWrite_notOpened (hpos : 0 < len) (hlen : len < dm.sizeMod) :
    halFileWrite dm files path buffer len false writes close =
      (.done { ret := HAL_ERR_FILE_ACCESS, files, passed := [] }, writes) := by
  have hne : dm.toSsize len ≠ 0 := DataModel.toSsize_ne_zero hpos hlen
  unfold halFileWrite
  rw [if_neg hne, if_pos (by rfl)]

theorem halFileWrite_opened (hpos : 0 < len) (hlen : len < dm.sizeMod) :
    halFileWrite dm files path buffer len true writes close =
      run (halFileWriteStep dm files path buffer close)
        { left := dm.toSsize len, offset := 0, fp := .opened, passed := [] } writes := by
  have hne : dm.toSsize len ≠ 0 := DataModel.toSsize_ne_zero hpos hlen
  unfold halFileWrite
  rw [if_neg hne, if_neg (by simp)]

end

/-- The blocks that a call passed to `fwrite` so far. -/
def passedBy : Step FileState FileResult → List (List UInt8)
  | .again s => s.passed
  | .done r => r.passed

/-! ## What one pass computes -/

/-- The number of bytes of the next block when `rest` bytes are left.  On a 64-bit
host a length that is no positive `ssize_t` is written as one block. -/
def blockBytes (dm : DataModel) (rest : Nat) : Nat :=
  if rest ≤ HAL_FILE_BLOCK_SIZE ∨ dm = .lp64 ∧ dm.SSIZE_MAX < rest then rest
  else HAL_FILE_BLOCK_SIZE

theorem blockBytes_le (dm : DataModel) (rest : Nat) : blockBytes dm rest ≤ rest := by
  unfold blockBytes
  split_ifs <;> omega

theorem blockBytes_of_le {dm : DataModel} {rest : Nat} (h : rest ≤ dm.SSIZE_MAX) :
    blockBytes dm rest = min HAL_FILE_BLOCK_SIZE rest := by
  unfold blockBytes
  split_ifs <;> omega

theorem writeBytes_toSsize {dm : DataModel} {rest : Nat} (h : rest < dm.sizeMod) :
    writeBytes dm (dm.toSsize rest) = dm.toSsize (blockBytes dm rest) := by
  have h128 : dm.toSsize HAL_FILE_BLOCK_SIZE = HAL_FILE_BLOCK_SIZE := by
    apply DataModel.toSsize_of_le
    cases dm <;> decide
  unfold writeBytes blockBytes
  cases dm with
  | ilp32 =>
    simp only [DataModel.ofSsize_toSsize h, reduceCtorEq, false_and, or_false]
    split_ifs
    · rfl
    · exact h128.symm
  | lp64 =>
    by_cases hmax : rest ≤ DataModel.SSIZE_MAX .lp64
    · simp only [DataModel.toSsize_of_le hmax, Int.ofNat_le, Nat.not_lt.mpr hmax, and_false,
        or_false]
      split_ifs
      · exact (DataModel.toSsize_of_le hmax).symm
      · exact h128.symm
    · have hneg := DataModel.toSsize_neg (Nat.not_le.mp hmax) h
      have hle : DataModel.toSsize .lp64 rest ≤ HAL_FILE_BLOCK_SIZE := by omega
      simp only [if_pos hle, Nat.not_le.mp hmax, and_self, or_true, if_true]

/-- The step lemma of `hal_file_write`, with `left` as the cast of a length. -/
theorem halFileWriteStep_eq {dm : DataModel} {rest : Nat} {s : FileState} (files : Files)
    (path : String) (buffer : Nat → UInt8) (close : FcloseAnswer) (a : FwriteAnswer)
    (hleft : s.left = dm.toSsize rest) (hrest : rest < dm.sizeMod) :
    halFileWriteStep dm files path buffer close s a =
      let n := blockBytes dm rest
      let block := slice buffer s.offset n
      let fp := (s.fp.fwrite block a).2
      if a.accepted n ≠ n then
        .done (finish files path close HAL_ERR_SEND_ERROR fp (s.passed ++ [block]))
      else if rest - n ≠ 0 then
        .again { left := dm.toSsize (rest - n), offset := s.offset + n, fp,
                 passed := s.passed ++ [block] }
      else .done (finish files path close HAL_SUCCESS fp (s.passed ++ [block])) := by
  have hn : blockBytes dm rest < dm.sizeMod := Nat.lt_of_le_of_lt (blockBytes_le dm rest) hrest
  have haccepted : a.accepted (blockBytes dm rest) < dm.sizeMod :=
    Nat.lt_of_le_of_lt (Nat.min_le_right _ _) hn
  have hle := blockBytes_le dm rest
  unfold halFileWriteStep
  simp only [hleft, writeBytes_toSsize hrest, DataModel.ofSsize_toSsize hn, Stream.fwrite_fst,
    slice_length, ne_eq, DataModel.toSsize_inj hn haccepted]
  by_cases hfull : a.accepted (blockBytes dm rest) = blockBytes dm rest
  · have hzero : dm.toSsize (rest - blockBytes dm rest) = 0 ↔ rest - blockBytes dm rest = 0 :=
      DataModel.toSsize_eq_zero (by omega)
    simp only [hfull, not_true_eq_false, if_false, DataModel.wrapSsize_sub hle,
      DataModel.ofSsize_toSsize hn, hzero]
  · rw [if_pos (fun h => hfull h.symm), if_pos hfull]

end CanbusAgent.HalFile

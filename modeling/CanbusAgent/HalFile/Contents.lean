import CanbusAgent.HalFile.Model

/-!
# What the file holds after a success

`hal_file_write` returns 0 when the stream accepted the whole buffer, and for an
empty buffer without opening the file.  `StreamInv` is the invariant of the
block loop: the bytes in the file and the bytes that are pending in the stream
are together the start of the buffer.  It holds for every length, also for one
that is no positive `ssize_t`, and wherever the stream moves its pending bytes.
-/

namespace CanbusAgent.HalFile

open DrivenLoop Region

/-! ## The loop invariant -/

/-- The block loop has handed the first `offset` bytes to the stream. -/
structure StreamInv (dm : DataModel) (buffer : Nat → UInt8) (len : Nat) (s : FileState) : Prop where
  more : s.offset < len
  left : s.left = dm.toSsize (len - s.offset)
  accepted : s.fp.accepted = slice buffer 0 s.offset
  passed : s.passed.flatten = slice buffer 0 s.offset

/-- What a success means: the stream accepted the buffer, and then it was closed. -/
def StreamPost (files : Files) (path : String) (buffer : Nat → UInt8) (len : Nat)
    (close : FcloseAnswer) (r : FileResult) : Prop :=
  r.ret = HAL_SUCCESS → r.passed.flatten = slice buffer 0 len ∧
    ∃ fp : Stream, fp.accepted = slice buffer 0 len ∧
      r.files = Function.update files path (some (fp.fclose close))

/-- The step lemma: the stream accepts the next block, or the call fails. -/
theorem halFileWriteStep_stream {dm : DataModel} {buffer : Nat → UInt8} {len : Nat}
    {s : FileState} (files : Files) (path : String) (close : FcloseAnswer)
    (hlen : len < dm.sizeMod) (a : FwriteAnswer) (hs : StreamInv dm buffer len s) :
    (halFileWriteStep dm files path buffer close s a).Sat (StreamInv dm buffer len)
      (StreamPost files path buffer len close) := by
  have hmore := hs.more
  have hle := blockBytes_le dm (len - s.offset)
  rw [halFileWriteStep_eq files path buffer close a hs.left (by omega)]
  dsimp only
  set n := blockBytes dm (len - s.offset)
  have hslice : slice buffer 0 s.offset ++ slice buffer s.offset n =
      slice buffer 0 (s.offset + n) := by
    rw [slice_add, Nat.zero_add]
  have hpassed : (s.passed ++ [slice buffer s.offset n]).flatten =
      slice buffer 0 (s.offset + n) := by
    rw [List.flatten_concat, hs.passed, hslice]
  have haccepted : a.accepted n = n →
      (s.fp.fwrite (slice buffer s.offset n) a).2.accepted = slice buffer 0 (s.offset + n) := by
    intro hfull
    rw [Stream.accepted_fwrite, hs.accepted, slice_length, hfull,
      List.take_of_length_le (by simp), hslice]
  split_ifs with hshort hagain
  · -- a short count: the call does not return 0
    exact fun hret => absurd hret (show HAL_ERR_SEND_ERROR ≠ HAL_SUCCESS by decide)
  · refine ⟨?_, ?_, haccepted (Decidable.of_not_not hshort), hpassed⟩
    · show s.offset + n < len
      omega
    · show dm.toSsize (len - s.offset - n) = dm.toSsize (len - (s.offset + n))
      rw [Nat.sub_add_eq]
  · have hend : s.offset + n = len := by omega
    rw [hend] at hpassed haccepted
    exact fun _ => ⟨hpassed, _, haccepted (Decidable.of_not_not hshort), rfl⟩

/-- The run lemma. -/
theorem halFileWrite_stream (dm : DataModel) (files : Files) (path : String)
    (buffer : Nat → UInt8) {len : Nat} (hpos : 0 < len) (hlen : len < dm.sizeMod)
    (writes : List FwriteAnswer) (close : FcloseAnswer) :
    (halFileWrite dm files path buffer len true writes close).1.Sat (StreamInv dm buffer len)
      (StreamPost files path buffer len close) := by
  rw [halFileWrite_opened hpos hlen]
  have hstart : StreamInv dm buffer len
      { left := dm.toSsize len, offset := 0, fp := .opened, passed := [] } :=
    ⟨hpos, rfl, rfl, rfl⟩
  obtain ⟨_, _, hsat⟩ := run_sat (halFileWriteStep dm files path buffer close)
    (P := fun _ => True) (h := []) (fun _ => StreamInv dm buffer len)
    (fun _ => StreamPost files path buffer len close)
    (fun _ s a _ hinv => halFileWriteStep_stream files path close hlen a hinv) hstart writes
    fun _ _ => trivial
  exact hsat.imp (fun _ hinv => hinv.2) fun _ hpost => hpost

/-! ## The result of a call -/

/-- A success with a non-empty buffer means that the stream was given exactly the
buffer, and when `fclose` returns 0, that the file contains exactly the buffer and
no other file was touched.  An empty buffer is a success that touches no file. -/
theorem halFileWrite_contents (dm : DataModel) (files : Files) (path : String)
    (buffer : Nat → UInt8) {len : Nat} (hlen : len < dm.sizeMod) (fopened : Bool)
    (writes : List FwriteAnswer) (close : FcloseAnswer) :
    (len = 0 → halFileWrite dm files path buffer len fopened writes close =
      (.done { ret := HAL_SUCCESS, files, passed := [] }, writes)) ∧
    ∀ r, (halFileWrite dm files path buffer len fopened writes close).1 = .done r →
      r.ret = HAL_SUCCESS → 0 < len → r.passed.flatten = slice buffer 0 len ∧
        (close = .ok → r.files = Function.update files path (some (slice buffer 0 len))) := by
  constructor
  · intro h0
    unfold halFileWrite
    rw [if_pos ((DataModel.toSsize_eq_zero hlen).mpr h0)]
  · intro r hr hret hpos
    cases fopened with
    | false =>
      rw [halFileWrite_notOpened hpos hlen] at hr
      cases hr
      exact absurd hret (show HAL_ERR_FILE_ACCESS ≠ HAL_SUCCESS by decide)
    | true =>
      have hsat := halFileWrite_stream dm files path buffer hpos hlen writes close
      rw [hr, Step.sat_done] at hsat
      obtain ⟨hpassed, fp, haccepted, hfiles⟩ := hsat hret
      refine ⟨hpassed, fun hclose => ?_⟩
      rw [hfiles, hclose, ← haccepted]
      rfl

/-- Three bytes over an older file. -/
theorem halFileWrite_contents_three :
    ∃ r, (halFileWrite .ilp32 (fun _ => some [9, 9, 9, 9]) "f" (fun i => UInt8.ofNat i) 3 true
        [⟨3, 1⟩] .ok).1 = .done r ∧ r.files "f" = some [0, 1, 2] := by
  refine ⟨_, rfl, ?_⟩
  have hcontents := (halFileWrite_contents .ilp32 (fun _ => some [9, 9, 9, 9]) "f"
    (fun i => UInt8.ofNat i) (by decide : 3 < DataModel.sizeMod .ilp32) true [⟨3, 1⟩] .ok).2
      _ rfl rfl (by omega)
  rw [hcontents.2 rfl]
  rfl

/-- A success does not always mean that the file holds the buffer.  With an empty
buffer an older file stays as it was, and when `fclose` fails the byte that `fwrite`
accepted is not in the file. -/
theorem success_without_contents :
    (∃ r, halFileWrite .ilp32 (fun _ => some [1]) "f" (fun _ => 0) 0 true [] .ok =
        (.done r, []) ∧ r.ret = HAL_SUCCESS ∧ r.files "f" ≠ some (slice (fun _ => 0) 0 0)) ∧
      ∃ r, halFileWrite .ilp32 (fun _ => none) "f" (fun _ => 0) 1 true [⟨1, 0⟩] (.failed 0) =
        (.done r, []) ∧ r.ret = HAL_SUCCESS ∧ r.files "f" ≠ some (slice (fun _ => 0) 0 1) :=
  ⟨⟨_, rfl, rfl, by decide⟩, ⟨_, rfl, rfl, by decide⟩⟩

end CanbusAgent.HalFile

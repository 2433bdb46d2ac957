import CanbusAgent.HalFile.Contents
import CanbusAgent.Lib.Transition

/-!
# Files that are written again and again

A program calls `hal_file_write` on any paths in any order.  A call may fail in any of its
calls of the C library, and the program may die in the middle of one: then what was pending
in the stream is lost, and another run of the program goes on with the files as they are.

`files_hold_last` says what a file holds after all that: the start of one buffer, the one of
the last call that truncated the file, and all of it when this call and its `fclose` were
successful.  No file holds bytes of two calls.
-/

namespace CanbusAgent.HalFile

open DrivenLoop Region Transition

/-- The arguments of a call, with the answers of the C library. -/
structure FileCall where
  path : String
  buffer : Nat → UInt8
  len : Nat
  fopened : Bool
  writes : List FwriteAnswer
  close : FcloseAnswer

namespace FileCall

/-- The call on the given files. -/
def result (dm : DataModel) (files : Files) (x : FileCall) : Step FileState FileResult :=
  (halFileWrite dm files x.path x.buffer x.len x.fopened x.writes x.close).1

/-- The files after the call.  The program died in one that has not returned. -/
def perform (dm : DataModel) (files : Files) (x : FileCall) : Files :=
  match x.result dm files with
  | .again s => Function.update files x.path (some s.fp.file)
  | .done r => r.files

/-- The call opens the file at the path, which truncates it. -/
def Truncates (path : String) (x : FileCall) : Prop :=
  x.path = path ∧ 0 < x.len ∧ x.fopened = true

/-- The call returns 0, and its `fclose` too. -/
def Succeeds (dm : DataModel) (files : Files) (x : FileCall) : Prop :=
  ∃ r, x.result dm files = .done r ∧ r.ret = HAL_SUCCESS ∧ x.close = .ok

end FileCall

/-- The files after the calls. -/
def writeAll (dm : DataModel) (files : Files) (calls : List FileCall) : Files :=
  calls.foldl (FileCall.perform dm) files

/-! ## One call -/

namespace Stream

/-- What the file holds is the start of what was accepted. -/
theorem file_prefix (fp : Stream) : fp.file <+: fp.accepted := List.prefix_append _ _

theorem fclose_prefix (fp : Stream) (close : FcloseAnswer) : fp.fclose close <+: fp.accepted := by
  cases close with
  | ok => exact List.prefix_refl _
  | failed flushed => exact (List.prefix_append_right_inj fp.file).mpr (List.take_prefix _ _)

end Stream

/-- The start of a slice. -/
theorem prefix_slice {m : Nat → UInt8} {n : Nat} {bs : List UInt8} (h : bs <+: slice m 0 n) :
    bs.length ≤ n ∧ bs = slice m 0 bs.length := by
  have hle := h.length_le
  rw [slice_length] at hle
  refine ⟨hle, ?_⟩
  conv_lhs => rw [List.prefix_iff_eq_take.mp h, slice_take m 0 hle]

/-- What a call that opened its file leaves, whether or not it was successful. -/
def ClosedPost (files : Files) (path : String) (buffer : Nat → UInt8) (len : Nat)
    (close : FcloseAnswer) (r : FileResult) : Prop :=
  ∃ (fp : Stream) (n : Nat), n ≤ len ∧ fp.accepted = slice buffer 0 n ∧
    r.files = Function.update files path (some (fp.fclose close)) ∧
      (r.ret = HAL_SUCCESS → n = len)

/-- The step lemma: a block that was taken in part is still the start of the buffer. -/
theorem halFileWriteStep_closed {dm : DataModel} {buffer : Nat → UInt8} {len : Nat}
    {s : FileState} (files : Files) (path : String) (close : FcloseAnswer)
    (hlen : len < dm.sizeMod) (a : FwriteAnswer) (hs : StreamInv dm buffer len s) :
    (halFileWriteStep dm files path buffer close s a).Sat (StreamInv dm buffer len)
      (ClosedPost files path buffer len close) := by
  have hstream := halFileWriteStep_stream files path close hlen a hs
  have hmore := hs.more
  have hle := blockBytes_le dm (len - s.offset)
  rw [halFileWriteStep_eq files path buffer close a hs.left (by omega)] at hstream ⊢
  dsimp only at hstream ⊢
  set n := blockBytes dm (len - s.offset)
  have hcount : a.accepted n ≤ n := Nat.min_le_right _ _
  have haccepted : (s.fp.fwrite (slice buffer s.offset n) a).2.accepted =
      slice buffer 0 (s.offset + a.accepted n) := by
    rw [Stream.accepted_fwrite, hs.accepted, slice_length, slice_take buffer s.offset hcount,
      slice_add, Nat.zero_add]
  split_ifs at hstream ⊢ with hshort hagain
  · exact ⟨_, _, by omega, haccepted, rfl, fun hret =>
      absurd hret (show HAL_ERR_SEND_ERROR ≠ HAL_SUCCESS by decide)⟩
  · exact hstream
  · refine ⟨_, _, by omega, haccepted, rfl, fun _ => ?_⟩
    have hfull := Decidable.of_not_not hshort
    omega

/-- What one call does to the files. -/
theorem perform_truncates (dm : DataModel) (files : Files) {x : FileCall}
    (hlen : x.len < dm.sizeMod) (hx : x.Truncates x.path) :
    ∃ n ≤ x.len, x.perform dm files =
      Function.update files x.path (some (slice x.buffer 0 n)) ∧
        (x.Succeeds dm files → n = x.len) := by
  obtain ⟨-, hpos, hopened⟩ := hx
  have hstart : StreamInv dm x.buffer x.len
      { left := dm.toSsize x.len, offset := 0, fp := .opened, passed := [] } :=
    ⟨hpos, rfl, rfl, rfl⟩
  obtain ⟨_, _, hsat⟩ := run_sat (halFileWriteStep dm files x.path x.buffer x.close)
    (P := fun _ => True) (h := []) (fun _ => StreamInv dm x.buffer x.len)
    (fun _ => ClosedPost files x.path x.buffer x.len x.close)
    (fun _ s a _ hinv => halFileWriteStep_closed files x.path x.close hlen a hinv) hstart x.writes
    fun _ _ => trivial
  rw [← halFileWrite_opened hpos hlen, ← hopened] at hsat
  change (x.result dm files).Sat _ _ at hsat
  unfold FileCall.perform FileCall.Succeeds
  cases hresult : x.result dm files with
  | again s =>
    rw [hresult] at hsat
    have hprefix := s.fp.file_prefix
    rw [hsat.2.accepted] at hprefix
    obtain ⟨hle, heq⟩ := prefix_slice hprefix
    have hmore := hsat.2.more
    refine ⟨s.fp.file.length, by omega, by rw [← heq], ?_⟩
    rintro ⟨r, hr, -⟩
    exact absurd hr (by simp)
  | done r =>
    rw [hresult] at hsat
    obtain ⟨fp, n, hn, haccepted, hfiles, hret⟩ := hsat
    have hprefix := fp.fclose_prefix x.close
    rw [haccepted] at hprefix
    obtain ⟨hle, heq⟩ := prefix_slice hprefix
    refine ⟨(fp.fclose x.close).length, by omega, by rw [← heq]; exact hfiles, ?_⟩
    rintro ⟨r', hr', hsuccess, hclose⟩
    have hall : (fp.fclose x.close).length = n := by
      rw [hclose]
      show fp.accepted.length = n
      rw [haccepted, slice_length]
    cases hr'
    rw [hall, hret hsuccess]

/-- A call that does not open its file leaves all files alone. -/
theorem perform_same (dm : DataModel) (files : Files) {x : FileCall} (hlen : x.len < dm.sizeMod)
    (hx : ¬ x.Truncates x.path) : x.perform dm files = files := by
  unfold FileCall.perform FileCall.result
  rcases Nat.eq_zero_or_pos x.len with h0 | hpos
  · rw [halFileWrite, if_pos ((DataModel.toSsize_eq_zero hlen).mpr h0)]
  · have hopened : x.fopened = false := Bool.eq_false_iff.mpr fun h => hx ⟨rfl, hpos, h⟩
    rw [hopened, halFileWrite_notOpened hpos hlen]

/-- A call that does not truncate the file at a path leaves it alone. -/
theorem perform_other (dm : DataModel) (files : Files) {x : FileCall} (hlen : x.len < dm.sizeMod)
    {path : String} (hx : ¬ x.Truncates path) : x.perform dm files path = files path := by
  by_cases hself : x.Truncates x.path
  · obtain ⟨n, -, hperform, -⟩ := perform_truncates dm files hlen hself
    have hne : path ≠ x.path := fun h => hx (h ▸ hself)
    rw [hperform, Function.update_of_ne hne]
  · rw [perform_same dm files hlen hself]

/-! ## All calls -/

/-- Calls that do not truncate the file at a path leave it alone. -/
theorem writeAll_other (dm : DataModel) (files : Files) {calls : List FileCall} {path : String}
    (hlen : ∀ x ∈ calls, x.len < dm.sizeMod) (hcalls : ∀ x ∈ calls, ¬ x.Truncates path) :
    writeAll dm files calls path = files path := by
  induction calls generalizing files with
  | nil => rfl
  | cons x calls ih =>
    obtain ⟨hx, hrest⟩ := List.forall_mem_cons.mp hcalls
    obtain ⟨hxlen, hlen⟩ := List.forall_mem_cons.mp hlen
    show writeAll dm (x.perform dm files) calls path = files path
    rw [ih _ hlen hrest, perform_other dm files hxlen hx]

/-- The file at a path holds what it held before when no call truncated it.  Otherwise it holds
the start of the buffer of the last call that did, whatever happened to this call and to
those before it, and all of the buffer when the call was successful. -/
theorem files_hold_last (dm : DataModel) (files : Files) (calls : List FileCall)
    (hlen : ∀ x ∈ calls, x.len < dm.sizeMod) (path : String) :
    (∀ x ∈ calls, ¬ x.Truncates path) ∧ writeAll dm files calls path = files path ∨
      ∃ (pre : List FileCall) (x : FileCall) (post : List FileCall),
        calls = pre ++ x :: post ∧ x.Truncates path ∧
        (∀ y ∈ post, ¬ y.Truncates path) ∧
          ∃ n ≤ x.len, writeAll dm files calls path = some (slice x.buffer 0 n) ∧
            (x.Succeeds dm (writeAll dm files pre) → n = x.len) := by
  rcases exists_last (FileCall.Truncates path) calls with hnone | ⟨pre, x, post, rfl, hx, hpost⟩
  · exact .inl ⟨hnone, writeAll_other dm files hlen hnone⟩
  · have hself : x.Truncates x.path := ⟨rfl, hx.2⟩
    obtain ⟨n, hn, hperform, hsucceeds⟩ :=
      perform_truncates dm (writeAll dm files pre) (hlen x (by simp)) hself
    refine .inr ⟨pre, x, post, rfl, hx, hpost, n, hn, ?_, hsucceeds⟩
    have hsplit : writeAll dm files (pre ++ x :: post) =
        writeAll dm (x.perform dm (writeAll dm files pre)) post := List.foldl_append ..
    rw [hsplit, writeAll_other dm _ (fun y hy => hlen y (by simp [hy])) hpost, hperform, ← hx.1,
      Function.update_self]

/-- Two calls on one file.  The program dies in the second one. -/
def twoFileCalls : List FileCall :=
  [⟨"f", fun _ => 9, 4, true, [⟨4, 4⟩], .ok⟩, ⟨"f", fun i => UInt8.ofNat i, 3, true, [], .ok⟩]

theorem files_hold_last_two :
    ∃ n ≤ 3, writeAll .ilp32 (fun _ => none) twoFileCalls "f" =
      some (slice (fun i => UInt8.ofNat i) 0 n) := by
  have hlen : ∀ x ∈ twoFileCalls, x.len < DataModel.sizeMod .ilp32 := by
    intro x hx
    rcases List.mem_cons.mp hx with rfl | hx
    · decide
    · rw [List.mem_singleton.mp hx]
      decide
  rcases files_hold_last .ilp32 (fun _ => none) twoFileCalls hlen "f" with
    ⟨hnone, -⟩ | ⟨pre, x, post, hcalls, -, hpost, n, hn, hfile, -⟩
  · exact absurd ⟨rfl, by decide, rfl⟩ (hnone _ List.mem_cons_self)
  · rcases pre with _ | ⟨a, _ | ⟨b, pre⟩⟩
    · cases hcalls
      exact absurd ⟨rfl, by decide, rfl⟩ (hpost _ List.mem_cons_self)
    · cases hcalls
      exact ⟨n, hn, hfile⟩
    · exact absurd (congrArg List.length hcalls) (by simp [twoFileCalls])

end CanbusAgent.HalFile

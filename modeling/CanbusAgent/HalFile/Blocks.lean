import CanbusAgent.HalFile.Model
import CanbusAgent.Lib.Chunks

/-!
# The blocks that are passed to `fwrite`

`hal_file_write` cuts the buffer into blocks of 128 bytes with a shorter last
one.  `BlockInv` is the invariant of its loop: after `k` answers the first `k`
blocks were passed and every one of them was taken in full.
`halFileWrite_exact` is the result of a call on any finite list of answers.
-/

namespace CanbusAgent.HalFile

open Chunks DrivenLoop Region

/-! ## The blocks of a buffer -/

def blockCount (len : Nat) : Nat := chunkCount HAL_FILE_BLOCK_SIZE len

def blockLen (len i : Nat) : Nat := min HAL_FILE_BLOCK_SIZE (len - HAL_FILE_BLOCK_SIZE * i)

/-- The slice of the buffer that is the block with index `i`. -/
def blockAt (buffer : Nat → UInt8) (len i : Nat) : List UInt8 :=
  slice buffer (HAL_FILE_BLOCK_SIZE * i) (blockLen len i)

theorem lt_blockCount {len i : Nat} : i < blockCount len ↔ 128 * i < len :=
  lt_chunkCount (Nat.zero_lt_succ 127)

/-- The blocks together are the buffer. -/
theorem flatten_blockAt (buffer : Nat → UInt8) (len : Nat) :
    ((List.range (blockCount len)).map (blockAt buffer len)).flatten = slice buffer 0 len := by
  have hall := flatten_all_chunks (Nat.zero_lt_succ 127) (slice buffer 0 len)
  rw [slice_length] at hall
  rw [← hall]
  congr 2
  funext i
  exact (chunk_slice _ _ _ _).symm

/-- Only the last block is shorter than 128 bytes, and none is empty. -/
theorem blockLen_bounds {len i : Nat} (h : i < blockCount len) :
    0 < blockLen len i ∧ blockLen len i ≤ HAL_FILE_BLOCK_SIZE ∧
      (i + 1 < blockCount len → blockLen len i = HAL_FILE_BLOCK_SIZE) := by
  rw [lt_blockCount] at *
  show 0 < min 128 (len - 128 * i) ∧ min 128 (len - 128 * i) ≤ 128 ∧
    (128 * (i + 1) < len → min 128 (len - 128 * i) = 128)
  omega

/-! ## The loop invariant -/

/-- `fwrite` answers the block with index `i` with its whole length. -/
def TakenInFull (len i : Nat) (a : FwriteAnswer) : Prop :=
  a.accepted (blockLen len i) = blockLen len i

instance (len i : Nat) (a : FwriteAnswer) : Decidable (TakenInFull len i a) :=
  inferInstanceAs (Decidable (_ = _))

/-- Each answer takes its block in full. -/
def AllTaken (len : Nat) (h : List FwriteAnswer) : Prop :=
  ∀ i a, h[i]? = some a → TakenInFull len i a

theorem AllTaken.snoc {len : Nat} {h : List FwriteAnswer} {a : FwriteAnswer}
    (hall : AllTaken len h) (ha : TakenInFull len h.length a) : AllTaken len (h ++ [a]) := by
  intro i b hb
  rcases Nat.lt_trichotomy i h.length with hlt | heq | hgt
  · rw [List.getElem?_append_left hlt] at hb
    exact hall i b hb
  · rw [heq, List.getElem?_concat_length] at hb
    rw [heq, ← Option.some_inj.mp hb]
    exact ha
  · rw [List.getElem?_eq_none (by rw [List.length_append, List.length_singleton]; omega)] at hb
    cases hb

/-- The loop of `hal_file_write` after the answers `h`. -/
structure BlockInv (dm : DataModel) (buffer : Nat → UInt8) (len : Nat) (h : List FwriteAnswer)
    (s : FileState) : Prop where
  passed : s.passed = (List.range h.length).map (blockAt buffer len)
  more : h.length < blockCount len
  left : s.left = dm.toSsize (len - HAL_FILE_BLOCK_SIZE * h.length)
  offset : s.offset = HAL_FILE_BLOCK_SIZE * h.length
  taken : AllTaken len h

/-- What a call of `hal_file_write` guarantees when it returns after some answers:
every block was taken in full, or the last answer is the first short one. -/
inductive BlockPost (buffer : Nat → UInt8) (len : Nat) : List FwriteAnswer → FileResult → Prop where
  | written {h : List FwriteAnswer} {r : FileResult} (hret : r.ret = HAL_SUCCESS)
      (hpassed : r.passed = (List.range h.length).map (blockAt buffer len))
      (hcount : h.length = blockCount len) (htaken : AllTaken len h) : BlockPost buffer len h r
  | short {us : List FwriteAnswer} {w : FwriteAnswer} {r : FileResult}
      (hret : r.ret = HAL_ERR_SEND_ERROR)
      (hpassed : r.passed = (List.range (us ++ [w]).length).map (blockAt buffer len))
      (hmore : us.length < blockCount len) (htaken : AllTaken len us)
      (hw : ¬ TakenInFull len us.length w) : BlockPost buffer len (us ++ [w]) r

/-- The step lemma: the block with the next index. -/
theorem halFileWriteStep_blocks {dm : DataModel} {buffer : Nat → UInt8} {len : Nat}
    {h : List FwriteAnswer} {s : FileState} (files : Files) (path : String)
    (close : FcloseAnswer) (hmax : len ≤ dm.SSIZE_MAX) (a : FwriteAnswer)
    (hs : BlockInv dm buffer len h s) :
    (halFileWriteStep dm files path buffer close s a).Sat (BlockInv dm buffer len (h ++ [a]))
      (BlockPost buffer len (h ++ [a])) := by
  have hmore := lt_blockCount.mp hs.more
  have hrest : len - HAL_FILE_BLOCK_SIZE * h.length < dm.sizeMod := by
    have := dm.SSIZE_MAX_lt
    omega
  have hbytes : blockBytes dm (len - HAL_FILE_BLOCK_SIZE * h.length) = blockLen len h.length :=
    blockBytes_of_le (by omega)
  have hpassed : s.passed ++ [blockAt buffer len h.length] =
      (List.range (h ++ [a]).length).map (blockAt buffer len) := by
    rw [hs.passed, List.length_append, List.length_singleton, List.range_succ, List.map_append,
      List.map_singleton]
  have hnext : h.length + 1 < blockCount len ↔
      len - HAL_FILE_BLOCK_SIZE * h.length - blockLen len h.length ≠ 0 := by
    rw [lt_blockCount]
    show _ ↔ len - 128 * h.length - min 128 (len - 128 * h.length) ≠ 0
    omega
  rw [halFileWriteStep_eq files path buffer close a hs.left hrest, hbytes, hs.offset]
  dsimp only
  split_ifs with hshort hagain
  · exact .short rfl hpassed hs.more hs.taken hshort
  · -- the loop goes on, so this block had 128 bytes
    have hfull := (blockLen_bounds hs.more).2.2 (hnext.mpr hagain)
    have hlen : HAL_FILE_BLOCK_SIZE * (h ++ [a]).length =
        HAL_FILE_BLOCK_SIZE * h.length + blockLen len h.length := by
      rw [hfull, List.length_append, List.length_singleton, Nat.mul_add, Nat.mul_one]
    refine ⟨hpassed, ?_, ?_, hlen.symm, hs.taken.snoc (Decidable.of_not_not hshort)⟩
    · rw [List.length_append, List.length_singleton]
      exact hnext.mpr hagain
    · rw [hlen, Nat.sub_add_eq]
  · refine .written rfl hpassed ?_ (hs.taken.snoc (Decidable.of_not_not hshort))
    have hlast := hs.more
    rw [List.length_append, List.length_singleton]
    omega

/-- What a call of `hal_file_write` does after `fopen` succeeded. -/
theorem halFileWrite_blocks (dm : DataModel) (files : Files) (path : String)
    (buffer : Nat → UInt8) {len : Nat} (hpos : 0 < len) (hmax : len ≤ dm.SSIZE_MAX)
    (writes : List FwriteAnswer) (close : FcloseAnswer) :
    ∃ used, writes = used ++ (halFileWrite dm files path buffer len true writes close).2 ∧
      (halFileWrite dm files path buffer len true writes close).1.Sat
        (fun s => (halFileWrite dm files path buffer len true writes close).2 = [] ∧
          BlockInv dm buffer len used s)
        (BlockPost buffer len used) := by
  rw [halFileWrite_opened hpos (Nat.lt_of_le_of_lt hmax dm.SSIZE_MAX_lt)]
  have hstart : BlockInv dm buffer len []
      { left := dm.toSsize len, offset := 0, fp := .opened, passed := [] } :=
    ⟨rfl, lt_blockCount.mpr hpos, rfl, rfl, by simp [AllTaken]⟩
  have hrun := run_sat (halFileWriteStep dm files path buffer close) (P := fun _ => True)
    (BlockInv dm buffer len) (BlockPost buffer len)
    (fun h s a _ hinv => halFileWriteStep_blocks files path close hmax a hinv) hstart writes
    fun _ _ => trivial
  simpa using hrun

/-! ## The result of a call -/

/-- `hal_file_write` passes the buffer to `fwrite` exactly once, or an exact prefix
of it with an error.  `used` are the answers that it asked for, one for each
block. -/
theorem halFileWrite_exact (dm : DataModel) (files : Files) (path : String)
    (buffer : Nat → UInt8) {len : Nat} (hpos : 0 < len) (hmax : len ≤ dm.SSIZE_MAX)
    (writes : List FwriteAnswer) (close : FcloseAnswer) :
    ∃ used, writes = used ++ (halFileWrite dm files path buffer len true writes close).2 ∧
      passedBy (halFileWrite dm files path buffer len true writes close).1 =
        (List.range used.length).map (blockAt buffer len) ∧
      used.length ≤ blockCount len ∧
      (∀ i < used.length, 0 < blockLen len i ∧ blockLen len i ≤ HAL_FILE_BLOCK_SIZE ∧
        (i + 1 < blockCount len → blockLen len i = HAL_FILE_BLOCK_SIZE)) ∧
      (blockCount len ≤ writes.length →
        ∃ r, (halFileWrite dm files path buffer len true writes close).1 = .done r) ∧
      ∀ r, (halFileWrite dm files path buffer len true writes close).1 = .done r →
        (r.ret = HAL_SUCCESS ↔
          ∀ i < blockCount len, ∃ a, writes[i]? = some a ∧ TakenInFull len i a) ∧
        (r.ret = HAL_SUCCESS → used.length = blockCount len ∧
          r.passed.flatten = slice buffer 0 len) ∧
        (r.ret ≠ HAL_SUCCESS → r.ret = HAL_ERR_SEND_ERROR ∧ ∃ us w, used = us ++ [w] ∧
          AllTaken len us ∧ ¬ TakenInFull len us.length w) := by
  obtain ⟨used, hused, hsat⟩ := halFileWrite_blocks dm files path buffer hpos hmax writes close
  refine ⟨used, hused, ?_⟩
  generalize halFileWrite dm files path buffer len true writes close = call at hused hsat ⊢
  obtain ⟨call, rest⟩ := call
  dsimp only at hused hsat ⊢
  have hbounds : used.length ≤ blockCount len → ∀ i < used.length,
      0 < blockLen len i ∧ blockLen len i ≤ HAL_FILE_BLOCK_SIZE ∧
        (i + 1 < blockCount len → blockLen len i = HAL_FILE_BLOCK_SIZE) :=
    fun hle i hi => blockLen_bounds (Nat.lt_of_lt_of_le hi hle)
  cases call with
  | again s =>
    rw [Step.sat_again] at hsat
    obtain ⟨hrest, hinv⟩ := hsat
    have hmore := hinv.more
    rw [hrest, List.append_nil] at hused
    refine ⟨hinv.passed, Nat.le_of_lt hmore, hbounds (Nat.le_of_lt hmore), ?_, by simp⟩
    intro henough
    rw [hused] at henough
    omega
  | done r =>
    rw [Step.sat_done] at hsat
    cases hsat with
    | written hret hpassed hcount htaken =>
      refine ⟨hpassed, Nat.le_of_eq hcount, hbounds (Nat.le_of_eq hcount),
        fun _ => ⟨r, rfl⟩, ?_⟩
      intro r' hr'
      cases hr'
      refine ⟨iff_of_true hret ?_, fun _ => ⟨hcount, ?_⟩, fun h => absurd hret h⟩
      · intro i hi
        have hi' : i < used.length := by omega
        refine ⟨used[i], ?_, htaken i used[i] (List.getElem?_eq_getElem hi')⟩
        rw [hused, List.getElem?_append_left hi', List.getElem?_eq_getElem hi']
      · rw [hpassed, hcount, flatten_blockAt]
    | @short us w _ hret hpassed hmore htaken hw =>
      have hlen : (us ++ [w]).length = us.length + 1 := by simp
      have hne : r.ret ≠ HAL_SUCCESS := by
        rw [hret]
        decide
      refine ⟨hpassed, by omega, hbounds (by omega), fun _ => ⟨r, rfl⟩, ?_⟩
      intro r' hr'
      cases hr'
      refine ⟨iff_of_false hne ?_, fun h => absurd h hne, fun _ => ⟨hret, us, w, rfl, htaken, hw⟩⟩
      -- the answer that ended the call is one of those wanted
      intro hall
      obtain ⟨a, ha, htake⟩ := hall us.length hmore
      rw [hused, getElem?_last] at ha
      rw [← Option.some_inj.mp ha] at htake
      exact hw htake

/-- Three hundred bytes, and the second `fwrite` takes one byte less than it was
given. -/
theorem halFileWrite_exact_short :
    ∃ r, (halFileWrite .ilp32 (fun _ => none) "f" (fun i => UInt8.ofNat i) 300 true
        [⟨128, 0⟩, ⟨127, 0⟩, ⟨44, 0⟩] .ok).1 = .done r ∧ r.ret = HAL_ERR_SEND_ERROR := by
  obtain ⟨_, _, _, _, _, hdone, hresult⟩ := halFileWrite_exact .ilp32 (fun _ => none) "f"
    (fun i => UInt8.ofNat i) (by decide : 0 < 300) (by decide) [⟨128, 0⟩, ⟨127, 0⟩, ⟨44, 0⟩] .ok
  obtain ⟨r, hr⟩ := hdone (by decide)
  obtain ⟨hiff, _, hfail⟩ := hresult r hr
  have hne : r.ret ≠ HAL_SUCCESS := by
    rw [Ne, hiff]
    intro hall
    obtain ⟨a, ha, htake⟩ := hall 1 (by decide)
    cases ha
    exact absurd htake (by decide)
  exact ⟨r, hr, (hfail hne).1⟩

end CanbusAgent.HalFile

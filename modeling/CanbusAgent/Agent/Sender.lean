import CanbusAgent.HalCom.Emission
import CanbusAgent.HalCom.Lifecycle
import CanbusAgent.HalCom.Transfer
import Mathlib.Data.List.TakeWhile

/-!
# The sender

`test_hal_com_write` sends the same 1021 bytes over and over, each time under the
next id, until a `write` fails.  A call of `hal_com_write` is a loop of its own, so
the model is a loop in the body of another one: a pass of `senderStep` is one answer
of `write`, and the next message begins when the frames of the last one are out.

`testHalComWrite_emits` says which frames leave, over any number of messages.
-/

namespace CanbusAgent.Agent

open Chunks DrivenLoop HalCom Region

/-- `HAL_COM_CAN_ID (i)`, which is passed for an `int32_t`. -/
def HAL_COM_CAN_ID (i : Nat) : Int32 := (UInt32.ofNat i).toInt32

/-- `tx_buffer`. -/
def txBuffer (i : Nat) : UInt8 := UInt8.ofNat (i &&& 0xff)

def txLen : Nat := 1021

/-- The local variables of `test_hal_com_write` while `hal_com_write` runs with the
variables `call`.  `passed` are the frames of the calls that have returned. -/
structure SenderState where
  i : Nat
  call : WriteState
  passed : List CanFrame

/-- The return value, the descriptors that were closed, the context and all frames that
were passed to `write`. -/
structure SenderResult where
  ret : Int
  closed : List Int
  ctx : HalComCtx
  passed : List CanFrame

/-- The code behind the label `finish`. -/
def senderFinish (ret : Int) (ctx : HalComCtx) (passed : List CanFrame) : SenderResult :=
  let (closed, ctx) := halComFree ctx
  { ret, closed, ctx, passed }

/-- The variables of `hal_com_write` before its first `write`. -/
def writeStart (ctx : HalComCtx) (stack : CanFrame) (len : Nat) : WriteState where
  ctx := ctx
  frame := { stack with canId := ctx.currentCanId }
  left := len
  sendTotalBytes := 0
  sent := []

/-- The loop body up to the first `write`.  `stack` is what the memory of the local
`frame` holds when that many frames were passed. -/
def senderNext (stack : Nat → CanFrame) (ctx : HalComCtx) (i : Nat) (passed : List CanFrame) :
    Step SenderState SenderResult :=
  let (ret, ctx) := halComSetPortnum ctx (HAL_COM_CAN_ID i)
  if ret ≠ 0 then .done (senderFinish ret ctx passed)
  else .again { i, call := writeStart ctx (stack passed.length) txLen, passed }

/-- The body between two answers of `write`. -/
def senderStep (dm : DataModel) (stack : Nat → CanFrame) (s : SenderState) (writeBytes : Int) :
    Step SenderState SenderResult :=
  match halComWriteStep txBuffer s.call writeBytes with
  | .again call => .again { s with call }
  | .done r =>
    if r.ret ≠ 0 then .done (senderFinish r.ret r.ctx (s.passed ++ r.sent))
    else senderNext stack r.ctx (dm.toSize (s.i + 1)) (s.passed ++ r.sent)

/-- `test_hal_com_write`.  `answers` are those to `hal_com_init`, and `writes` are the
results of `write`. -/
def testHalComWrite (dm : DataModel) (stack : Nat → CanFrame) (answers : ComAnswers)
    (writes : List Int) : Step SenderState SenderResult × List Int :=
  let (ret, ctx) := halComInit answers
  if ret ≠ 0 then (.done (senderFinish ret ctx []), writes)
  else
    match senderNext stack ctx 0 [] with
    | .again s => run (senderStep dm stack) s writes
    | .done r => (.done r, writes)

/-- The frames that were passed to `write` so far. -/
def framesOut : Step SenderState SenderResult → List CanFrame
  | .again s => s.passed ++ s.call.sent
  | .done r => r.passed

/-! ## The frames -/

/-- The bytes that are sent under each id. -/
def txMessage : List UInt8 := slice txBuffer 0 txLen

/-- The number of frames of a message. -/
def txFrames : Nat := chunkCount CAN_MAX_DLEN txLen

/-- The id and the data bytes of the frame with index `k`. -/
def txFrame (k : Nat) : UInt32 × List UInt8 :=
  (UInt32.ofNat (k / txFrames), chunk CAN_MAX_DLEN txMessage (k % txFrames))

/-- The frames are the first ones of the endless sequence `txFrame`. -/
def Emits (fs : List CanFrame) : Prop :=
  fs.map (fun f => (f.canId, f.payload)) = (List.range fs.length).map txFrame ∧
    ∀ f ∈ fs, f.canDlc.toNat ≤ CAN_MAX_DLEN

theorem txLen_pos : 0 < txLen := Nat.zero_lt_succ 1020

theorem txLen_le (dm : DataModel) : txLen ≤ dm.SSIZE_MAX := by cases dm <;> decide

theorem txMessage_length : txMessage.length = txLen := slice_length _ _ _

theorem senderNext_eq (stack : Nat → CanFrame) (ctx : HalComCtx) (i : Nat)
    (passed : List CanFrame) :
    senderNext stack ctx i passed = .again {
      i
      call := writeStart (halComSetPortnum ctx (HAL_COM_CAN_ID i)).2 (stack passed.length) txLen
      passed } := rfl

/-- The frames of a message continue those of the messages before. -/
theorem Emits.append {n : Nat} {fs gs : List CanFrame} (h : Emits fs)
    (hlen : fs.length = txFrames * n) (hgs : Carries (UInt32.ofNat n) txMessage gs)
    (hle : gs.length ≤ txFrames) : Emits (fs ++ gs) := by
  have hindex : ∀ j < gs.length, txFrame (fs.length + j) =
      (UInt32.ofNat n, chunk CAN_MAX_DLEN txMessage j) := by
    intro j hj
    have hpos : 0 < txFrames := by decide
    rw [txFrame, hlen, Nat.mul_add_div hpos, Nat.div_eq_of_lt (by omega), Nat.add_zero,
      Nat.mul_add_mod, Nat.mod_eq_of_lt (by omega)]
  refine ⟨?_, List.forall_mem_append.mpr ⟨h.2, hgs.dlc_le⟩⟩
  rw [List.map_append, h.1, List.length_append, List.range_add, List.map_append]
  congr 1
  apply List.ext_getElem
  · simp
  · intro j hj _
    rw [List.length_map] at hj
    have hpayload := congrArg (fun l : List (List UInt8) => l[j]?) hgs.payloads
    have hid := hgs.canId gs[j] (List.getElem_mem hj)
    simp [hj] at hpayload
    simp [hindex j hj, hid, hpayload]

/-! ## The loop -/

theorem ofNat_toSize (dm : DataModel) (n : Nat) : UInt32.ofNat (dm.toSize n) = UInt32.ofNat n := by
  apply UInt32.toNat_inj.mp
  have hdvd : 2 ^ 32 ∣ dm.sizeMod := by cases dm <;> decide
  rw [UInt32.toNat_ofNat', UInt32.toNat_ofNat', DataModel.toSize, Nat.mod_mod_of_dvd _ hdvd]

theorem toSize_succ (dm : DataModel) (n : Nat) : dm.toSize (dm.toSize n + 1) = dm.toSize (n + 1) :=
  Nat.mod_add_mod n dm.sizeMod 1

/-- The loop after the answers `h`, all of which took a whole frame.  `n` messages are
out, and the call for the next one has had the answers `hc`. -/
structure SenderInv (dm : DataModel) (fd : Int) (h : List Int) (s : SenderState) (n : Nat)
    (hc : List Int) : Prop where
  whole : ∀ w ∈ h, w = canFrameSize
  count : s.passed.length + hc.length = h.length
  messages : s.passed.length = txFrames * n
  i : s.i = dm.toSize n
  emits : Emits s.passed
  fd : s.call.ctx.sockFd = fd
  call : WriteInv (UInt32.ofNat n) txMessage hc s.call

/-- What `test_hal_com_write` guarantees when it returns after some answers. -/
structure SenderPost (fd : Int) (h : List Int) (r : SenderResult) : Prop where
  ret : r.ret = HAL_ERR_SEND_ERROR
  closed : r.closed = if fd ≠ 0 then [fd] else []
  ctx : r.ctx = clearedCtx
  emits : Emits r.passed
  count : r.passed.length = h.length
  failed : ∃ us w, h = us ++ [w] ∧ (∀ v ∈ us, v = canFrameSize) ∧ w ≠ canFrameSize

/-- The frames of a call are never more than those of a message. -/
theorem SenderInv.call_le {dm : DataModel} {fd : Int} {h : List Int} {s : SenderState} {n : Nat}
    {hc : List Int} (hs : SenderInv dm fd h s n hc) : hc.length < txFrames := by
  have hleft := hs.call.left
  have hpos := hs.call.pos
  have hdlen : CAN_MAX_DLEN = 8 := rfl
  have hframes : txFrames = 128 := rfl
  have hlenOf : txLen = 1021 := rfl
  rw [txMessage_length, hdlen] at hleft
  omega

/-- The next message begins. -/
theorem senderNext_sat (dm : DataModel) (stack : Nat → CanFrame) {ctx : HalComCtx} {fd : Int}
    {h : List Int} {passed : List CanFrame} {n : Nat} (hwhole : ∀ w ∈ h, w = canFrameSize)
    (hcount : passed.length = h.length) (hmessages : passed.length = txFrames * n)
    (hemits : Emits passed) (hfd : ctx.sockFd = fd) :
    (senderNext stack ctx (dm.toSize n) passed).Sat (fun s => SenderInv dm fd h s n [])
      (SenderPost fd h) := by
  rw [senderNext_eq, Step.sat_again]
  have hid : (HAL_COM_CAN_ID (dm.toSize n)).toUInt32 = UInt32.ofNat n := by
    rw [HAL_COM_CAN_ID, UInt32.toUInt32_toInt32, ofNat_toSize]
  refine ⟨hwhole, hcount, hmessages, rfl, hemits, hfd, ?_⟩
  exact {
    carries := .nil _ _
    count := rfl
    canId := hid
    total := rfl
    left := txMessage_length.symm
    pos := txLen_pos
    whole := by simp }

/-- The step lemma of the loop. -/
theorem senderStep_sat {dm : DataModel} {stack : Nat → CanFrame} {fd : Int} {h : List Int}
    {s : SenderState} (w : Int) (hs : ∃ n hc, SenderInv dm fd h s n hc) :
    (senderStep dm stack s w).Sat (fun s => ∃ n hc, SenderInv dm fd (h ++ [w]) s n hc)
      (SenderPost fd (h ++ [w])) := by
  obtain ⟨n, hc, hs⟩ := hs
  have hlt := hs.call_le
  have hcount := hs.count
  have hsat := halComWriteStep_sat w hs.call
  have hctx := halComWriteStep_ctx txBuffer s.call w
  unfold senderStep
  cases hcall : halComWriteStep txBuffer s.call w with
  | again call =>
    rw [hcall, Step.sat_again] at hsat hctx
    refine ⟨n, hc ++ [w], ?_⟩
    exact {
      whole := List.forall_mem_append.mpr
        ⟨hs.whole, List.forall_mem_singleton.mpr (hsat.whole w (by simp))⟩
      count := by simp only [List.length_append]; omega
      messages := hs.messages
      i := hs.i
      emits := hs.emits
      fd := by rw [hctx, hs.fd]
      call := hsat }
  | done r =>
    rw [hcall, Step.sat_done] at hsat hctx
    have hfd : r.ctx.sockFd = fd := by rw [hctx, hs.fd]
    dsimp only
    generalize hhc : hc ++ [w] = hc' at hsat
    have hlen : hc'.length = hc.length + 1 := by simp [← hhc]
    cases hsat with
    | sent hret hcarries hsent hall hlast hwhole =>
      have hframes : txFrames = 128 := rfl
      have hdlen : CAN_MAX_DLEN = 8 := rfl
      have hmsg : (slice txBuffer 0 txLen).length = 1021 := slice_length _ _ _
      have hzero : r.ret = 0 := hret
      rw [hmsg, hdlen] at hall hlast
      have hemits := hs.emits.append hs.messages hcarries (by omega)
      rw [if_neg (not_not_intro hzero), hs.i, toSize_succ]
      refine (senderNext_sat dm stack ?_ ?_ ?_ hemits hfd).imp
        (fun _ hnext => ⟨n + 1, [], hnext⟩) fun _ hpost => hpost
      · exact List.forall_mem_append.mpr
          ⟨hs.whole, List.forall_mem_singleton.mpr (hwhole w (by simp [← hhc]))⟩
      · simp only [List.length_append, List.length_singleton]
        omega
      · rw [List.length_append, hs.messages, Nat.mul_succ]
        omega
    | @failed us w' _ hret hcarries hsent hwhole hw =>
      obtain ⟨rfl, hww⟩ := List.append_inj' hhc rfl
      obtain rfl : w = w' := by simpa using hww
      rw [if_pos (by rw [hret]; decide)]
      exact {
        ret := hret
        closed := by rw [← hfd]; rfl
        ctx := rfl
        emits := hs.emits.append hs.messages hcarries (by omega)
        count := by
          show (s.passed ++ r.sent).length = _
          simp only [List.length_append, List.length_singleton]
          omega
        failed := ⟨h, w, rfl, hs.whole, hw⟩ }

/-! ## Runs -/

/-- A sender whose transport did not open. -/
theorem testHalComWrite_closed (dm : DataModel) (stack : Nat → CanFrame) {answers : ComAnswers}
    (h : ¬ answers.Opens) (writes : List Int) :
    testHalComWrite dm stack answers writes =
      (.done (senderFinish (halComInit answers).1 (halComInit answers).2 []), writes) := by
  have hret : (halComInit answers).1 ≠ 0 := mt (halComInit_ret_iff answers).mp h
  unfold testHalComWrite
  exact if_pos hret

/-- A run of a sender whose transport opened. -/
theorem testHalComWrite_run (dm : DataModel) (stack : Nat → CanFrame) {answers : ComAnswers}
    (h : answers.Opens) (writes : List Int) :
    testHalComWrite dm stack answers writes = run (senderStep dm stack) {
      i := 0
      call := writeStart (halComSetPortnum (halComInit answers).2 (HAL_COM_CAN_ID 0)).2 (stack 0)
        txLen
      passed := [] } writes := by
  have hret : (halComInit answers).1 = 0 := (halComInit_ret_iff answers).mpr h
  unfold testHalComWrite
  exact if_neg (not_not_intro hret)

/-- What a sender whose transport opened does on any finite list of answers. -/
theorem testHalComWrite_spec (dm : DataModel) (stack : Nat → CanFrame) {answers : ComAnswers}
    (h : answers.Opens) (writes : List Int) :
    ∃ used, writes = used ++ (testHalComWrite dm stack answers writes).2 ∧
      (testHalComWrite dm stack answers writes).1.Sat
        (fun s => (testHalComWrite dm stack answers writes).2 = [] ∧
          ∃ n hc, SenderInv dm answers.socket used s n hc)
        (SenderPost answers.socket used) := by
  have hfd : (halComInit answers).2.sockFd = answers.socket := by rw [halComInit_snd]
  have hzero : dm.toSize 0 = 0 := Nat.zero_mod _
  have hstart := senderNext_sat dm stack (h := []) (n := 0) (by simp) (rfl : [].length = 0) rfl
    ⟨rfl, by simp⟩ hfd
  rw [senderNext_eq, Step.sat_again, hzero] at hstart
  rw [testHalComWrite_run dm stack h]
  have hrun := run_sat (senderStep dm stack) (P := fun _ => True)
    (fun used s => ∃ n hc, SenderInv dm answers.socket used s n hc) (SenderPost answers.socket)
    (fun used s w _ hs => senderStep_sat w hs) ⟨0, [], hstart⟩ writes fun _ _ => trivial
  simpa using hrun

/-- The frames of a run are the first ones of `txFrame`. -/
theorem emits_framesOut (dm : DataModel) (stack : Nat → CanFrame) (answers : ComAnswers)
    (writes : List Int) : Emits (framesOut (testHalComWrite dm stack answers writes).1) := by
  by_cases hopens : answers.Opens
  · obtain ⟨used, -, hsat⟩ := testHalComWrite_spec dm stack hopens writes
    cases hout : (testHalComWrite dm stack answers writes).1 with
    | again s =>
      rw [hout, Step.sat_again] at hsat
      obtain ⟨-, n, hc, hinv⟩ := hsat
      have hcount : s.call.sent.length = hc.length := hinv.call.count
      have hlt := hinv.call_le
      exact hinv.emits.append hinv.messages hinv.call.carries (by omega)
    | done r =>
      rw [hout, Step.sat_done] at hsat
      exact hsat.emits
  · rw [testHalComWrite_closed dm stack hopens]
    exact ⟨rfl, by simp [framesOut, senderFinish]⟩

/-- When `hal_com_init` succeeds, `test_hal_com_write` passes on the frames `txFrame 0`,
`txFrame 1`, … in order, up to and including the first one that is not taken, and it
returns exactly when there is one.  Whether it succeeds or not, the function never returns
0, and its socket is closed when it returns unless the number of the socket is 0. -/
theorem testHalComWrite_emits (dm : DataModel) (stack : Nat → CanFrame) (answers : ComAnswers)
    (writes : List Int) :
    (answers.Opens →
      Emits (framesOut (testHalComWrite dm stack answers writes).1) ∧
      (framesOut (testHalComWrite dm stack answers writes).1).length =
        min writes.length ((writes.takeWhile (· = canFrameSize)).length + 1) ∧
      ((∃ r, (testHalComWrite dm stack answers writes).1 = .done r) ↔
        ∃ w ∈ writes, w ≠ canFrameSize)) ∧
    ∀ r, (testHalComWrite dm stack answers writes).1 = .done r →
      r.ret ≠ 0 ∧ r.ctx = clearedCtx ∧
        r.closed = if answers.socket ≠ 0 then [answers.socket] else [] := by
  by_cases hopens : answers.Opens
  swap
  · refine ⟨fun h => absurd h hopens, ?_⟩
    rw [testHalComWrite_closed dm stack hopens]
    rintro r hr
    cases hr
    refine ⟨mt (halComInit_ret_iff answers).mp hopens, rfl, ?_⟩
    rw [halComInit_snd]
    rfl
  have hemits := emits_framesOut dm stack answers writes
  obtain ⟨used, hused, hsat⟩ := testHalComWrite_spec dm stack hopens writes
  generalize testHalComWrite dm stack answers writes = outcome at hemits hused hsat ⊢
  obtain ⟨outcome, rest⟩ := outcome
  dsimp only at hemits hused hsat ⊢
  cases outcome with
  | again s =>
    obtain ⟨hrest, n, hc, hinv⟩ := hsat
    rw [hrest, List.append_nil] at hused
    subst hused
    have hall : writes.takeWhile (· = canFrameSize) = writes := by
      rw [List.takeWhile_eq_self_iff]
      exact fun w hw => decide_eq_true (hinv.whole w hw)
    have hcount : s.call.sent.length = hc.length := hinv.call.count
    have hlen := hinv.count
    refine ⟨fun _ => ⟨hemits, ?_, ?_⟩, by simp⟩
    · show (s.passed ++ s.call.sent).length = _
      rw [hall, List.length_append]
      omega
    · refine iff_of_false (by simp) ?_
      rintro ⟨w, hw, hne⟩
      exact hne (hinv.whole w hw)
  | done r =>
    rw [Step.sat_done] at hsat
    obtain ⟨us, w, rfl, hus, hw⟩ := hsat.failed
    rw [List.append_assoc, List.singleton_append] at hused
    subst hused
    have hfirst : (us ++ w :: rest).takeWhile (· = canFrameSize) = us := by
      rw [List.takeWhile_append_of_pos fun v hv => decide_eq_true (hus v hv),
        List.takeWhile_cons_of_neg (by simpa using hw), List.append_nil]
    refine ⟨fun _ => ⟨hemits, ?_, ?_⟩, ?_⟩
    · show r.passed.length = _
      rw [hfirst, hsat.count, List.length_append, List.length_append, List.length_singleton,
        List.length_cons]
      omega
    · exact iff_of_true ⟨r, rfl⟩ ⟨w, by simp, hw⟩
    · rintro r' hr'
      cases hr'
      exact ⟨by rw [hsat.ret]; decide, hsat.ctx, hsat.closed⟩

/-- The second `write` takes less than the frame. -/
theorem testHalComWrite_emits_two :
    ∃ r, (testHalComWrite .ilp32 (fun _ => (dataFrame 0 0 0).toCanFrame) ⟨3, 0, 0, 0⟩
        [canFrameSize, 12, canFrameSize]).1 = .done r ∧
      Emits r.passed ∧ r.passed.length = 2 ∧ r.ret ≠ 0 ∧ r.closed = [3] := by
  obtain ⟨hopened, hreturned⟩ := testHalComWrite_emits .ilp32
    (fun _ => (dataFrame 0 0 0).toCanFrame) ⟨3, 0, 0, 0⟩ [canFrameSize, 12, canFrameSize]
  obtain ⟨hemits, hlen, hreturns⟩ := hopened (by decide)
  obtain ⟨r, hr⟩ := hreturns.mpr ⟨12, by simp, by decide⟩
  obtain ⟨hret, -, hclosed⟩ := hreturned r hr
  rw [hr] at hemits hlen
  exact ⟨r, hr, hemits, hlen, hret, hclosed⟩

/-! ## A receiver of whole messages -/

/-- The message with index `i` of `n`, with a receiver that asks for its length.  The
sender finds the answers to all messages that are left. -/
def txExchange (stack : Nat → CanFrame) (target : Nat → Nat → UInt8) (sockopt : Nat → Int)
    (n i : Nat) : Exchange where
  port := HAL_COM_CAN_ID i
  message := txBuffer
  len := txLen
  stack := stack (txFrames * i)
  writes := List.replicate (txFrames * (n - i)) canFrameSize
  target := target i
  sockopt := sockopt i

/-- A call of `hal_com_write` that finds more answers than its `k` frames need leaves
the others. -/
theorem halComWrite_takes (ctx : HalComCtx) (stack : CanFrame) (buffer : Nat → UInt8) {len k : Nat}
    (hlen : 0 < len) (hall : len ≤ CAN_MAX_DLEN * k) (hlast : CAN_MAX_DLEN * k < len + CAN_MAX_DLEN)
    (m : Nat) :
    ∃ r, halComWrite ctx stack buffer len (List.replicate (k + m) canFrameSize) =
        (.done r, List.replicate m canFrameSize) ∧ r.ret = 0 ∧ r.ctx = ctx ∧
        r.sent.length = k := by
  have hdlen : CAN_MAX_DLEN = 8 := rfl
  rw [hdlen] at hall hlast
  obtain ⟨used, hused, hsat⟩ := halComWrite_spec ctx stack buffer hlen
    (List.replicate (k + m) canFrameSize)
  have hwhole : ∀ w ∈ used, w = canFrameSize := by
    intro w hw
    apply List.eq_of_mem_replicate
    rw [hused]
    exact List.mem_append_left _ hw
  have hcount := congrArg List.length hused
  rw [List.length_replicate, List.length_append] at hcount
  have hctx := halComWrite_ctx ctx stack buffer len (List.replicate (k + m) canFrameSize)
  generalize hcall : halComWrite ctx stack buffer len (List.replicate (k + m) canFrameSize) = call
    at hused hsat hcount hctx ⊢
  obtain ⟨call, rest⟩ := call
  dsimp only at hused hsat hcount
  cases call with
  | again s =>
    -- the call has taken every answer, and these are enough
    obtain ⟨hrest, hinv⟩ := hsat
    have hleft := hinv.left
    have hpos := hinv.pos
    rw [slice_length, hdlen] at hleft
    rw [hrest, List.length_nil] at hcount
    omega
  | done r =>
    cases hsat with
    | sent hret _ hsent hall' hlast' =>
      rw [slice_length, hdlen] at hall' hlast'
      have hrest : rest = List.replicate m canFrameSize := by
        refine List.eq_replicate_iff.mpr ⟨by omega, ?_⟩
        intro w hw
        apply List.eq_of_mem_replicate
        rw [hused]
        exact List.mem_append_right _ hw
      exact ⟨r, by rw [hrest], hret, hctx, by omega⟩
    | failed _ _ _ _ hw => exact absurd (hwhole _ (by simp)) hw

theorem transmit_cons (ctx : HalComCtx) (x : Exchange) (xs : List Exchange) :
    transmit ctx (x :: xs) =
      sentBy (halComWrite (halComSetPortnum ctx x.port).2 x.stack x.message x.len x.writes).1 ++
        transmit (halComSetPortnum ctx x.port).2 xs := rfl

/-- The frames of the messages from index `k` on. -/
theorem framesOut_run (dm : DataModel) (stack : Nat → CanFrame) (target : Nat → Nat → UInt8)
    (sockopt : Nat → Int) (n k : Nat) (ctx : HalComCtx) {passed : List CanFrame}
    (hpassed : passed.length = txFrames * k) :
    framesOut (run (senderStep dm stack) {
        i := dm.toSize k
        call := writeStart (halComSetPortnum ctx (HAL_COM_CAN_ID (dm.toSize k))).2
          (stack passed.length) txLen
        passed } (List.replicate (txFrames * n) canFrameSize)).1 =
      passed ++ transmit ctx ((List.range' k n).map (txExchange stack target sockopt (k + n))) := by
  induction n generalizing k ctx passed with
  | zero => rfl
  | succ n ih =>
    have hid : HAL_COM_CAN_ID (dm.toSize k) = HAL_COM_CAN_ID k := by
      rw [HAL_COM_CAN_ID, ofNat_toSize, HAL_COM_CAN_ID]
    set ctx' := (halComSetPortnum ctx (HAL_COM_CAN_ID k)).2 with hctx'
    obtain ⟨r, hr, hret, hkept, hsent⟩ := halComWrite_takes ctx' (stack passed.length) txBuffer
      txLen_pos (show txLen ≤ CAN_MAX_DLEN * txFrames by decide) (by decide) (txFrames * n)
    rw [Nat.add_comm, ← Nat.mul_succ] at hr
    have hrun : run (halComWriteStep txBuffer) (writeStart ctx' (stack passed.length) txLen)
        (List.replicate (txFrames * (n + 1)) canFrameSize) =
          (.done r, List.replicate (txFrames * n) canFrameSize) := hr
    have hnext := run_nested (fun call => { i := dm.toSize k, call, passed })
      (fun r => if r.ret ≠ 0 then .done (senderFinish r.ret r.ctx (passed ++ r.sent))
        else senderNext stack r.ctx (dm.toSize (dm.toSize k + 1)) (passed ++ r.sent))
      (fun s w s' hs => show senderStep dm stack _ w = _ by unfold senderStep; rw [hs])
      (fun s w r hs => show senderStep dm stack _ w = _ by unfold senderStep; rw [hs])
      hrun (by rw [if_neg (not_not_intro hret), hkept, senderNext_eq])
    have hlen : (passed ++ r.sent).length = txFrames * (k + 1) := by
      rw [List.length_append, hpassed, hsent, Nat.mul_succ]
    have hcount : k + 1 + n = k + (n + 1) := by omega
    have hleft : k + (n + 1) - k = n + 1 := by omega
    rw [hid, hnext, toSize_succ, ih (k + 1) ctx' hlen, hcount, List.range'_succ, List.map_cons,
      List.append_assoc]
    refine congrArg (passed ++ ·) ?_
    rw [transmit_cons]
    dsimp only [txExchange]
    rw [hleft, ← hpassed, ← hctx', hr]
    rfl

/-- A receiver that asks for 1021 bytes at a time gets the messages of
`test_hal_com_write` back one by one, the one with index `i` under the id `i`. -/
theorem testHalComWrite_received (dm : DataModel) (stack : Nat → CanFrame) {answers : ComAnswers}
    (hopens : answers.Opens) (n : Nat) (receiver : HalComCtx) (target : Nat → Nat → UInt8)
    (sockopt : Nat → Int) (hsockopt : ∀ i < n, 0 ≤ sockopt i) :
    (∀ reads : List ReadAnswer, (framesRead reads).map (·.toCanFrame) =
        framesOut (testHalComWrite dm stack answers
          (List.replicate (txFrames * n) canFrameSize)).1 →
      List.Forall₂ Received ((List.range n).map (txExchange stack target sockopt n))
        (receive (halComRead dm) receiver
          ((List.range n).map (txExchange stack target sockopt n)) reads)) ∧
    (∀ polls : List PollAnswer, (framesPolled (beforeStop polls)).map (·.toCanFrame) =
        framesOut (testHalComWrite dm stack answers
          (List.replicate (txFrames * n) canFrameSize)).1 →
      List.Forall₂ Received ((List.range n).map (txExchange stack target sockopt n))
        (receive (halComReadTimeout dm) receiver
          ((List.range n).map (txExchange stack target sockopt n)) polls)) := by
  have hframes : framesOut (testHalComWrite dm stack answers
      (List.replicate (txFrames * n) canFrameSize)).1 =
        transmit (halComInit answers).2
          ((List.range n).map (txExchange stack target sockopt n)) := by
    have hzero : dm.toSize 0 = 0 := Nat.zero_mod _
    have hrun := framesOut_run dm stack target sockopt n 0 (halComInit answers).2
      (rfl : ([] : List CanFrame).length = txFrames * 0)
    rw [hzero, Nat.zero_add, ← List.range_eq_range'] at hrun
    rw [testHalComWrite_run dm stack hopens]
    exact hrun
  have hfair : ∀ x ∈ (List.range n).map (txExchange stack target sockopt n), x.Fair dm := by
    intro x hx
    obtain ⟨i, hi, rfl⟩ := List.mem_map.mp hx
    rw [List.mem_range] at hi
    have hleft : CAN_MAX_DLEN * txFrames ≤ CAN_MAX_DLEN * (txFrames * (n - i)) :=
      Nat.mul_le_mul_left _ (Nat.le_mul_of_pos_right _ (by omega))
    refine ⟨txLen_pos, txLen_le dm, fun w hw => List.eq_of_mem_replicate hw, ?_, hsockopt i hi⟩
    have hfirst : txLen ≤ CAN_MAX_DLEN * txFrames := by decide
    dsimp only [txExchange]
    rw [List.length_replicate]
    exact hfirst.trans hleft
  rw [hframes]
  exact ⟨fun reads => receive_transmit (halComRead_delivers dm) hfair _ receiver reads,
    fun polls => receive_transmit (halComReadTimeout_delivers dm) hfair _ receiver polls⟩

/-- What the sender leaves on the bus when the frames of its first two messages were taken. -/
def twoMessages : List CanFrame :=
  framesOut (testHalComWrite .ilp32 (fun _ => (dataFrame 0 0 0).toCanFrame) ⟨3, 0, 0, 0⟩
    (List.replicate (txFrames * 2) canFrameSize)).1

/-- A `read` fails between the two messages. -/
def twoMessagesRead : List ReadAnswer :=
  ((twoMessages.take txFrames).filterMap busFrame?).map .frame ++
    .error :: ((twoMessages.drop txFrames).filterMap busFrame?).map .frame

theorem testHalComWrite_received_two :
    List.Forall₂ Received
      ((List.range 2).map (txExchange (fun _ => (dataFrame 0 0 0).toCanFrame) (fun _ _ => 0)
        (fun _ => 0) 2))
      (receive (halComRead .ilp32) (openCtx 9)
        ((List.range 2).map (txExchange (fun _ => (dataFrame 0 0 0).toCanFrame) (fun _ _ => 0)
          (fun _ => 0) 2)) twoMessagesRead) := by
  refine (testHalComWrite_received .ilp32 (fun _ => (dataFrame 0 0 0).toCanFrame)
    (show (⟨3, 0, 0, 0⟩ : ComAnswers).Opens by decide) 2 (openCtx 9) (fun _ _ => 0) (fun _ => 0)
    (fun _ _ => Int.le_refl 0)).1 _ ?_
  have hdlc : ∀ f ∈ twoMessages, f.canDlc.toNat ≤ CAN_MAX_DLEN :=
    (emits_framesOut .ilp32 _ ⟨3, 0, 0, 0⟩ _).2
  have herror : ∀ as, framesRead (.error :: as) = framesRead as := fun _ => rfl
  rw [twoMessagesRead, framesRead_append, herror, List.map_append,
    framesRead_busFrame? fun f hf => hdlc f (List.mem_of_mem_take hf),
    framesRead_busFrame? fun f hf => hdlc f (List.mem_of_mem_drop hf), List.take_append_drop]
  rfl

end CanbusAgent.Agent

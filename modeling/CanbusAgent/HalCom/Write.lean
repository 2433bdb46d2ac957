import CanbusAgent.HalCom.Model

/-!
# What the write loop does

`hal_com_write` cuts the buffer into chunks of eight bytes with a shorter last
one.  `WriteInv` is the invariant of its loop: after `k` frames these carry the
first `k` chunks under the id of the context.  `halComWrite_spec` is the result
of a call on any finite list of answers of `write`.
-/

namespace CanbusAgent.HalCom

open Chunks DrivenLoop Region

/-! ## The frame of one pass -/

/-- A frame whose first data bytes were overwritten holds these bytes. -/
theorem payload_copyData {f : CanFrame} {data : Vector UInt8 CAN_MAX_DLEN} {bs : List UInt8}
    (hdata : f.data = copyData data bs) (hdlc : f.canDlc.toNat = bs.length)
    (hle : bs.length ≤ CAN_MAX_DLEN) : f.payload = bs := by
  apply List.ext_getElem
  · simp [CanFrame.payload, hdlc, hle]
  · intro i _ hi
    simp [CanFrame.payload, hdata, copyData, hi]

/-- The number of bytes of the next chunk. -/
theorem sendBytes_eq (left : Nat) :
    (if left ≤ CAN_MAX_DLEN then left else CAN_MAX_DLEN) = min CAN_MAX_DLEN left := by
  split_ifs <;> omega

/-! ## The loop invariant -/

/-- The frames `fs` carry the first chunks of `msg` under the id `id`. -/
structure Carries (id : UInt32) (msg : List UInt8) (fs : List CanFrame) : Prop where
  payloads : fs.map (·.payload) = (List.range fs.length).map (chunk CAN_MAX_DLEN msg)
  canId : ∀ f ∈ fs, f.canId = id
  dlc_le : ∀ f ∈ fs, f.canDlc.toNat ≤ CAN_MAX_DLEN

theorem Carries.nil (id : UInt32) (msg : List UInt8) : Carries id msg [] :=
  ⟨rfl, by simp, by simp⟩

/-- The step lemma: the frame with the next chunk. -/
theorem Carries.snoc {id : UInt32} {msg : List UInt8} {fs : List CanFrame} {f : CanFrame}
    (h : Carries id msg fs) (hpayload : f.payload = chunk CAN_MAX_DLEN msg fs.length)
    (hid : f.canId = id) (hdlc : f.canDlc.toNat ≤ CAN_MAX_DLEN) :
    Carries id msg (fs ++ [f]) where
  payloads := by
    rw [List.length_append, List.length_singleton, List.range_succ, List.map_append,
      List.map_append, h.payloads, List.map_singleton, List.map_singleton, hpayload]
  canId := List.forall_mem_append.mpr ⟨h.canId, List.forall_mem_singleton.mpr hid⟩
  dlc_le := List.forall_mem_append.mpr ⟨h.dlc_le, List.forall_mem_singleton.mpr hdlc⟩

/-- The data bytes of the frames are the start of the message. -/
theorem Carries.flatten {id : UInt32} {msg : List UInt8} {fs : List CanFrame}
    (h : Carries id msg fs) :
    (fs.map (·.payload)).flatten = msg.take (CAN_MAX_DLEN * fs.length) := by
  rw [h.payloads, flatten_chunks]

/-- The loop of `hal_com_write` on the bytes `msg` after the answers `h`. -/
structure WriteInv (id : UInt32) (msg : List UInt8) (h : List Int) (s : WriteState) : Prop where
  carries : Carries id msg s.sent
  count : s.sent.length = h.length
  canId : s.frame.canId = id
  total : s.sendTotalBytes = CAN_MAX_DLEN * h.length
  left : s.left + CAN_MAX_DLEN * h.length = msg.length
  pos : 0 < s.left
  whole : ∀ w ∈ h, w = canFrameSize

/-- What a call of `hal_com_write` guarantees when it returns after some
answers: all bytes were sent, or one `write` did not take a whole frame. -/
inductive WritePost (id : UInt32) (msg : List UInt8) : List Int → WriteResult → Prop where
  | sent {h : List Int} {r : WriteResult} (hret : r.ret = HAL_SUCCESS)
      (hcarries : Carries id msg r.sent) (hcount : r.sent.length = h.length)
      (hall : msg.length ≤ CAN_MAX_DLEN * h.length)
      (hlast : CAN_MAX_DLEN * h.length < msg.length + CAN_MAX_DLEN)
      (hwhole : ∀ w ∈ h, w = canFrameSize) : WritePost id msg h r
  | failed {us : List Int} {w : Int} {r : WriteResult} (hret : r.ret = HAL_ERR_SEND_ERROR)
      (hcarries : Carries id msg r.sent) (hcount : r.sent.length = us.length + 1)
      (hwhole : ∀ w ∈ us, w = canFrameSize) (hw : w ≠ canFrameSize) :
      WritePost id msg (us ++ [w]) r

/-- The step lemma of `hal_com_write`. -/
theorem halComWriteStep_sat {buffer : Nat → UInt8} {id : UInt32} {len : Nat} {h : List Int}
    {s : WriteState} (w : Int) (hs : WriteInv id (slice buffer 0 len) h s) :
    (halComWriteStep buffer s w).Sat (WriteInv id (slice buffer 0 len) (h ++ [w]))
      (WritePost id (slice buffer 0 len) (h ++ [w])) := by
  obtain ⟨hcarries, hcount, hid, htotal, hleft, hpos, hwhole⟩ := hs
  rw [slice_length] at hleft
  unfold halComWriteStep
  rw [sendBytes_eq]
  set sendBytes := min CAN_MAX_DLEN s.left with hsend
  set frame : CanFrame := { s.frame with
    data := copyData s.frame.data (slice buffer s.sendTotalBytes sendBytes)
    canDlc := UInt8.ofNat sendBytes } with hframe
  have hdlc : frame.canDlc.toNat = sendBytes := by
    apply UInt8.toNat_ofNat_of_lt'
    show sendBytes < 2 ^ 8
    have : sendBytes ≤ 8 := Nat.min_le_left _ _
    omega
  have hpayload : frame.payload = chunk CAN_MAX_DLEN (slice buffer 0 len) s.sent.length := by
    have hlen : len - CAN_MAX_DLEN * s.sent.length = s.left := by
      rw [hcount]
      omega
    rw [chunk_slice, hlen, hcount, ← htotal]
    exact payload_copyData rfl (by rw [hdlc, slice_length]) (by simp)
  have hnext := hcarries.snoc hpayload hid (by rw [hdlc]; exact Nat.min_le_left _ _)
  have hlen : (s.sent ++ [frame]).length = (h ++ [w]).length := by simp [hcount]
  have hstep : CAN_MAX_DLEN * (h ++ [w]).length = CAN_MAX_DLEN * h.length + CAN_MAX_DLEN := by
    rw [List.length_append, List.length_singleton, Nat.mul_add, Nat.mul_one]
  split_ifs with hw
  · exact .failed rfl hnext (by simp [hcount]) hwhole hw
  have hwhole' : ∀ v ∈ h ++ [w], v = canFrameSize :=
    List.forall_mem_append.mpr
      ⟨hwhole, List.forall_mem_singleton.mpr (Decidable.of_not_not hw)⟩
  show Step.Sat _ _ (if s.left - sendBytes ≠ 0 then _ else _)
  split_ifs with hrest
  · -- bytes are left, so this frame was full
    have hfull : sendBytes = CAN_MAX_DLEN := by omega
    refine ⟨hnext, hlen, hid, ?_, ?_, Nat.pos_of_ne_zero hrest, hwhole'⟩
    · show s.sendTotalBytes + sendBytes = _
      omega
    · show s.left - sendBytes + _ = _
      rw [slice_length]
      omega
  · have hle : s.left ≤ CAN_MAX_DLEN := by omega
    refine .sent rfl hnext hlen ?_ ?_ hwhole'
    · rw [slice_length]
      omega
    · rw [slice_length]
      omega

/-- What a call of `hal_com_write` with a non-empty buffer does. -/
theorem halComWrite_spec (ctx : HalComCtx) (stack : CanFrame) (buffer : Nat → UInt8) {len : Nat}
    (hlen : 0 < len) (writes : List Int) :
    ∃ used, writes = used ++ (halComWrite ctx stack buffer len writes).2 ∧
      (halComWrite ctx stack buffer len writes).1.Sat
        (fun s => (halComWrite ctx stack buffer len writes).2 = [] ∧
          WriteInv ctx.currentCanId (slice buffer 0 len) used s)
        (WritePost ctx.currentCanId (slice buffer 0 len) used) := by
  unfold halComWrite
  rw [if_neg (by omega)]
  have hstart : WriteInv ctx.currentCanId (slice buffer 0 len) []
      { ctx
        frame := { stack with canId := ctx.currentCanId }
        left := len
        sendTotalBytes := 0
        sent := [] } :=
    ⟨Carries.nil _ _, rfl, rfl, rfl, by simp, hlen, by simp⟩
  have hrun := run_sat (halComWriteStep buffer) (P := fun _ => True)
    (WriteInv ctx.currentCanId (slice buffer 0 len))
    (WritePost ctx.currentCanId (slice buffer 0 len))
    (fun h s w _ hinv => halComWriteStep_sat w hinv) hstart writes fun _ _ => trivial
  simpa using hrun

/-! ## Calls whose writes succeed -/

/-- The frames that a call of `hal_com_write` passed to `write` so far. -/
def sentBy : Step WriteState WriteResult → List CanFrame
  | .again s => s.sent
  | .done r => r.sent

/-- Whatever `write` answers, the frames carry the id that the context holds when
the call is made. -/
theorem canId_sentBy (ctx : HalComCtx) (stack : CanFrame) (buffer : Nat → UInt8) (len : Nat)
    (writes : List Int) :
    ∀ f ∈ sentBy (halComWrite ctx stack buffer len writes).1, f.canId = ctx.currentCanId := by
  rcases Nat.eq_zero_or_pos len with h0 | hlen
  · unfold halComWrite
    rw [if_pos h0]
    simp [sentBy]
  · obtain ⟨used, _, hsat⟩ := halComWrite_spec ctx stack buffer hlen writes
    cases hcall : (halComWrite ctx stack buffer len writes).1 with
    | again s =>
      rw [hcall, Step.sat_again] at hsat
      exact hsat.2.carries.canId
    | done r =>
      rw [hcall, Step.sat_done] at hsat
      cases hsat with
      | sent _ hcarries => exact hcarries.canId
      | failed _ hcarries => exact hcarries.canId

/-- A pass reads the context at most. -/
theorem halComWriteStep_ctx (buffer : Nat → UInt8) (s : WriteState) (w : Int) :
    (halComWriteStep buffer s w).Sat (fun s' => s'.ctx = s.ctx) fun r => r.ctx = s.ctx := by
  unfold halComWriteStep
  dsimp only
  split_ifs
  all_goals rfl

/-- The context after a call of `hal_com_write` is the one before, whatever `write` answers. -/
theorem halComWrite_ctx (ctx : HalComCtx) (stack : CanFrame) (buffer : Nat → UInt8) (len : Nat)
    (writes : List Int) :
    (halComWrite ctx stack buffer len writes).1.Sat (fun s => s.ctx = ctx)
      fun r => r.ctx = ctx := by
  unfold halComWrite
  split_ifs
  · rfl
  · obtain ⟨_, _, hsat⟩ := run_sat (halComWriteStep buffer) (P := fun _ => True)
      (fun _ s => s.ctx = ctx) (fun _ r => r.ctx = ctx)
      (fun _ s w _ hs => hs ▸ halComWriteStep_ctx buffer s w) (h := [])
      (s := { ctx, frame := { stack with canId := ctx.currentCanId }, left := len,
              sendTotalBytes := 0, sent := [] }) rfl writes fun _ _ => trivial
    exact hsat.imp (fun _ hs => hs.2) fun _ hr => hr

/-- The context that a call of `hal_com_write` has left so far. -/
def ctxAfterWrite : Step WriteState WriteResult → HalComCtx
  | .again s => s.ctx
  | .done r => r.ctx

theorem ctxAfterWrite_eq (ctx : HalComCtx) (stack : CanFrame) (buffer : Nat → UInt8) (len : Nat)
    (writes : List Int) : ctxAfterWrite (halComWrite ctx stack buffer len writes).1 = ctx := by
  have hctx := halComWrite_ctx ctx stack buffer len writes
  cases hout : (halComWrite ctx stack buffer len writes).1 with
  | again s =>
    rw [hout] at hctx
    exact hctx
  | done r =>
    rw [hout] at hctx
    exact hctx

/-- When every `write` takes a whole frame and there are enough of them, the call
returns 0 and its frames carry the whole message.  Only the last frame brings
the total to the length of the message. -/
theorem halComWrite_sends (ctx : HalComCtx) (stack : CanFrame) (buffer : Nat → UInt8) {len : Nat}
    (hlen : 0 < len) {writes : List Int} (hwhole : ∀ w ∈ writes, w = canFrameSize)
    (henough : len ≤ CAN_MAX_DLEN * writes.length) :
    ∃ r rest, halComWrite ctx stack buffer len writes = (.done r, rest) ∧ r.ret = HAL_SUCCESS ∧
      Carries ctx.currentCanId (slice buffer 0 len) r.sent ∧
      len ≤ CAN_MAX_DLEN * r.sent.length ∧
      CAN_MAX_DLEN * r.sent.length < len + CAN_MAX_DLEN := by
  obtain ⟨used, hused, hsat⟩ := halComWrite_spec ctx stack buffer hlen writes
  generalize halComWrite ctx stack buffer len writes = call at hused hsat ⊢
  obtain ⟨call, rest⟩ := call
  dsimp only at hused hsat
  cases call with
  | again s =>
    -- every answer was taken, and still bytes are left
    rw [Step.sat_again] at hsat
    obtain ⟨hrest, hinv⟩ := hsat
    have hleft := hinv.left
    have hpos := hinv.pos
    rw [slice_length] at hleft
    rw [hused, hrest, List.append_nil] at henough
    omega
  | done r =>
    rw [Step.sat_done] at hsat
    cases hsat with
    | sent hret hcarries hcount hall hlast =>
      rw [slice_length] at hall hlast
      exact ⟨r, rest, rfl, hret, hcarries, by rw [hcount]; exact hall, by rw [hcount]; exact hlast⟩
    | @failed us w _ _ _ _ _ hw =>
      apply absurd _ hw
      apply hwhole
      rw [hused]
      simp

end CanbusAgent.HalCom

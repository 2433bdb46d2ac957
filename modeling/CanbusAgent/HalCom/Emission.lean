import Mathlib.Data.List.GetD
import CanbusAgent.HalCom.TransmitId

/-!
# What leaves through `hal_com_write`

`write` gets a whole frame, and `hal_com_write` fills only a part of it.
`frameImage` is the frame of each pass down to its last byte: the padding and the
reserved bytes come from the stack, and so do the data bytes behind a short first
slice; behind a short last slice stand bytes of the slice before.

`halComWrite_exact` is the contract of a caller: the frames carry consecutive
slices of the payload, and the result tells whether all of them were taken.
`frames_closed_iff` says when nothing else leaves with them.
-/

namespace CanbusAgent.HalCom

open Chunks DrivenLoop Region

/-! ## Frame images -/

/-- The number of frames for `len` bytes. -/
def frameCount (len : Nat) : Nat := (len + 7) / 8

/-- The number of frames that are passed to `write` when `k` are wanted: up to the
first that is not taken whole. -/
def framesSent : Nat → List Int → Nat
  | 0, _ => 0
  | _ + 1, [] => 0
  | k + 1, w :: ws => 1 + if w = canFrameSize then framesSent k ws else 0

theorem framesSent_le (k : Nat) (writes : List Int) : framesSent k writes ≤ k := by
  induction k generalizing writes with
  | zero => exact Nat.le_refl 0
  | succ k ih =>
    cases writes with
    | nil => exact Nat.zero_le _
    | cons w ws =>
      have := ih ws
      unfold framesSent
      split <;> omega

/-- Frame `i` is passed on when it is wanted, and every frame before it was taken. -/
theorem lt_framesSent {i k : Nat} {writes : List Int} :
    i < framesSent k writes ↔
      i < k ∧ i < writes.length ∧ ∀ j < i, writes[j]? = some canFrameSize := by
  induction k generalizing i writes with
  | zero => simp [framesSent]
  | succ k ih =>
    cases writes with
    | nil => simp [framesSent]
    | cons w ws =>
      cases i with
      | zero => simp [framesSent]
      | succ i =>
        have hall : (∀ j < i + 1, (w :: ws)[j]? = some canFrameSize) ↔
            w = canFrameSize ∧ ∀ j < i, ws[j]? = some canFrameSize := by
          constructor
          · intro h
            exact ⟨by simpa using h 0 (by omega), fun j hj => by simpa using h (j + 1) (by omega)⟩
          · intro ⟨hw, hrest⟩ j hj
            cases j with
            | zero => simpa using hw
            | succ j => simpa using hrest j (by omega)
        rw [hall, framesSent]
        by_cases hw : w = canFrameSize
        · rw [if_pos hw, Nat.add_comm 1, Nat.add_lt_add_iff_right, ih]
          simp [hw]
        · rw [if_neg hw]
          simp [hw]

/-- Frame `k` of a call, with all its bytes. -/
def frameImage (ctx : HalComCtx) (stack : CanFrame) (buffer : Nat → UInt8) (len k : Nat) :
    CanFrame where
  canId := ctx.currentCanId
  canDlc := UInt8.ofNat (min CAN_MAX_DLEN (len - CAN_MAX_DLEN * k))
  pad := stack.pad
  res0 := stack.res0
  res1 := stack.res1
  data := Vector.ofFn fun j =>
    if j.val < len - CAN_MAX_DLEN * k then buffer (CAN_MAX_DLEN * k + j.val)
    else if k = 0 then stack.data.get j else buffer (CAN_MAX_DLEN * (k - 1) + j.val)

theorem frameImage_canDlc (ctx : HalComCtx) (stack : CanFrame) (buffer : Nat → UInt8)
    (len k : Nat) :
    (frameImage ctx stack buffer len k).canDlc.toNat =
      min CAN_MAX_DLEN (len - CAN_MAX_DLEN * k) := by
  apply UInt8.toNat_ofNat_of_lt'
  exact Nat.lt_of_le_of_lt (Nat.min_le_left _ _) (by decide)

/-- The data bytes behind the payload of a frame. -/
theorem frameImage_tail (ctx : HalComCtx) (stack : CanFrame) (buffer : Nat → UInt8) {len k : Nat}
    {j : Fin CAN_MAX_DLEN} (h : len - CAN_MAX_DLEN * k ≤ j.val) :
    (frameImage ctx stack buffer len k).data.get j =
      if k = 0 then stack.data.get j else buffer (CAN_MAX_DLEN * (k - 1) + j.val) := by
  unfold frameImage
  show (Vector.ofFn _)[j.val] = _
  rw [Vector.getElem_ofFn, if_neg (Nat.not_lt.mpr h)]

/-- The loop of `hal_com_write` after `k` frames.  The local frame holds what the
pass before left in it. -/
structure ImageInv (ctx : HalComCtx) (stack : CanFrame) (buffer : Nat → UInt8) (len k : Nat)
    (s : WriteState) : Prop where
  sent : s.sent = (List.range k).map (frameImage ctx stack buffer len)
  canId : s.frame.canId = ctx.currentCanId
  pad : s.frame.pad = stack.pad
  res0 : s.frame.res0 = stack.res0
  res1 : s.frame.res1 = stack.res1
  data : ∀ j : Fin CAN_MAX_DLEN, s.frame.data.get j =
    if k = 0 then stack.data.get j else buffer (CAN_MAX_DLEN * (k - 1) + j.val)
  total : s.sendTotalBytes = CAN_MAX_DLEN * k
  left : s.left + CAN_MAX_DLEN * k = len
  pos : 0 < s.left

/-- The frame of the next pass. -/
theorem ImageInv.frame {ctx : HalComCtx} {stack : CanFrame} {buffer : Nat → UInt8} {len k : Nat}
    {s : WriteState} (h : ImageInv ctx stack buffer len k s) :
    { s.frame with
      data := copyData s.frame.data (slice buffer s.sendTotalBytes (min CAN_MAX_DLEN s.left))
      canDlc := UInt8.ofNat (min CAN_MAX_DLEN s.left) } = frameImage ctx stack buffer len k := by
  have hleft : len - CAN_MAX_DLEN * k = s.left := by
    have := h.left
    omega
  have hdata : copyData s.frame.data (slice buffer s.sendTotalBytes (min CAN_MAX_DLEN s.left)) =
      (frameImage ctx stack buffer len k).data := by
    apply Vector.ext
    intro j hj
    have hold := h.data ⟨j, hj⟩
    unfold copyData frameImage
    rw [Vector.getElem_ofFn, Vector.getElem_ofFn, h.total, hleft]
    by_cases hjl : j < s.left
    · have hlt : j < (slice buffer (CAN_MAX_DLEN * k) (min CAN_MAX_DLEN s.left)).length := by
        rw [slice_length]
        exact Nat.lt_min.mpr ⟨hj, hjl⟩
      rw [if_pos hjl, List.getD_eq_getElem _ _ hlt, slice_getElem]
    · have hge : (slice buffer (CAN_MAX_DLEN * k) (min CAN_MAX_DLEN s.left)).length ≤ j := by
        rw [slice_length]
        exact Nat.le_trans (Nat.min_le_right _ _) (Nat.le_of_not_lt hjl)
      rw [if_neg hjl, List.getD_eq_default _ _ hge]
      exact hold
  show CanFrame.mk s.frame.canId _ s.frame.pad s.frame.res0 s.frame.res1 _ = _
  rw [hdata, h.canId, h.pad, h.res0, h.res1, ← hleft]
  rfl

/-- The step lemma: one more frame. -/
theorem ImageInv.next {ctx : HalComCtx} {stack : CanFrame} {buffer : Nat → UInt8} {len k : Nat}
    {s : WriteState} (h : ImageInv ctx stack buffer len k s) (hfull : CAN_MAX_DLEN < s.left) :
    ImageInv ctx stack buffer len (k + 1)
      { ctx := s.ctx
        frame := frameImage ctx stack buffer len k
        left := s.left - CAN_MAX_DLEN
        sendTotalBytes := s.sendTotalBytes + CAN_MAX_DLEN
        sent := s.sent ++ [frameImage ctx stack buffer len k] } where
  sent := by rw [h.sent, List.range_succ, List.map_append, List.map_singleton]
  canId := rfl
  pad := rfl
  res0 := rfl
  res1 := rfl
  data j := by
    have hleft := h.left
    have hj := j.isLt
    rw [if_neg (Nat.succ_ne_zero k), Nat.add_sub_cancel]
    unfold frameImage
    show (Vector.ofFn _)[j.val] = _
    rw [Vector.getElem_ofFn, if_pos (by omega)]
  total := by
    rw [h.total]
    exact (Nat.mul_succ _ _).symm
  left := by
    have hleft := h.left
    show s.left - CAN_MAX_DLEN + CAN_MAX_DLEN * (k + 1) = len
    rw [Nat.mul_succ]
    omega
  pos := Nat.sub_pos_of_lt hfull

/-- One pass in terms of the frame image. -/
theorem halComWriteStep_eq {ctx : HalComCtx} {stack : CanFrame} {buffer : Nat → UInt8}
    {len k : Nat} {s : WriteState} (h : ImageInv ctx stack buffer len k s) (w : Int) :
    halComWriteStep buffer s w =
      if w ≠ canFrameSize then
        .done { ret := HAL_ERR_SEND_ERROR
                ctx := s.ctx
                sent := s.sent ++ [frameImage ctx stack buffer len k] }
      else if CAN_MAX_DLEN < s.left then
        .again { ctx := s.ctx
                 frame := frameImage ctx stack buffer len k
                 left := s.left - CAN_MAX_DLEN
                 sendTotalBytes := s.sendTotalBytes + CAN_MAX_DLEN
                 sent := s.sent ++ [frameImage ctx stack buffer len k] }
      else
        .done { ret := HAL_SUCCESS
                ctx := s.ctx
                sent := s.sent ++ [frameImage ctx stack buffer len k] } := by
  unfold halComWriteStep
  rw [sendBytes_eq]
  dsimp only
  rw [h.frame]
  by_cases hw : w = canFrameSize
  · rw [if_neg (not_not_intro hw), if_neg (not_not_intro hw)]
    by_cases hfull : CAN_MAX_DLEN < s.left
    · have hmin : min CAN_MAX_DLEN s.left = CAN_MAX_DLEN := Nat.min_eq_left (by omega)
      rw [if_pos hfull, hmin, if_pos (by omega)]
    · have hmin : min CAN_MAX_DLEN s.left = s.left := Nat.min_eq_right (by omega)
      rw [if_neg hfull, hmin, if_neg (by omega)]
  · rw [if_pos hw, if_pos hw]

/-- The frames of a call are the images, up to the first that is not taken. -/
theorem sentBy_run {ctx : HalComCtx} {stack : CanFrame} {buffer : Nat → UInt8} {len k : Nat}
    {s : WriteState} (h : ImageInv ctx stack buffer len k s) (writes : List Int) :
    sentBy (run (halComWriteStep buffer) s writes).1 =
      (List.range (k + framesSent (frameCount s.left) writes)).map
        (frameImage ctx stack buffer len) := by
  induction writes generalizing k s with
  | nil =>
    have hnone : framesSent (frameCount s.left) [] = 0 := by cases frameCount s.left <;> rfl
    rw [hnone]
    exact h.sent
  | cons w ws ih =>
    have hmore : s.sent ++ [frameImage ctx stack buffer len k] =
        (List.range (k + 1)).map (frameImage ctx stack buffer len) := by
      rw [h.sent, List.range_succ, List.map_append, List.map_singleton]
    have hcount : frameCount s.left = frameCount (s.left - CAN_MAX_DLEN) + 1 := by
      have hpos := h.pos
      show (s.left + 7) / 8 = (s.left - 8 + 7) / 8 + 1
      omega
    have hstep := halComWriteStep_eq h w
    rw [hcount, framesSent]
    by_cases hw : w = canFrameSize
    · rw [if_neg (not_not_intro hw)] at hstep
      rw [if_pos hw]
      by_cases hfull : CAN_MAX_DLEN < s.left
      · rw [if_pos hfull] at hstep
        rw [run_cons_again hstep, ih (h.next hfull), Nat.add_assoc]
      · -- this was the last slice
        have hlast : s.left - CAN_MAX_DLEN = 0 := by omega
        rw [if_neg hfull] at hstep
        rw [run_cons_done hstep, hlast]
        exact hmore
    · rw [if_pos hw] at hstep
      rw [if_neg hw, run_cons_done hstep]
      exact hmore

theorem sentBy_halComWrite (ctx : HalComCtx) (stack : CanFrame) (buffer : Nat → UInt8)
    (len : Nat) (writes : List Int) :
    sentBy (halComWrite ctx stack buffer len writes).1 =
      (List.range (framesSent (frameCount len) writes)).map (frameImage ctx stack buffer len) := by
  unfold halComWrite
  split_ifs with h0
  · subst h0
    rfl
  · have hstart : ImageInv ctx stack buffer len 0
        { ctx
          frame := { stack with canId := ctx.currentCanId }
          left := len
          sendTotalBytes := 0
          sent := [] } := by
      refine ⟨rfl, rfl, rfl, rfl, rfl, fun j => ?_, rfl, rfl, Nat.pos_of_ne_zero h0⟩
      rw [if_pos rfl]
    rw [sentBy_run hstart, Nat.zero_add]

theorem sentBy_getElem? (ctx : HalComCtx) (stack : CanFrame) (buffer : Nat → UInt8) (len : Nat)
    (writes : List Int) (k : Nat) (f : CanFrame) :
    (sentBy (halComWrite ctx stack buffer len writes).1)[k]? = some f ↔
      k < framesSent (frameCount len) writes ∧ frameImage ctx stack buffer len k = f := by
  rw [sentBy_halComWrite, List.getElem?_map]
  by_cases hk : k < framesSent (frameCount len) writes
  · simp [hk]
  · simp [hk]

/-! ## The slices -/

/-- The frames `fs` carry the first slices of the payload under the id `id`. -/
structure SendsSlices (id : UInt32) (buffer : Nat → UInt8) (len : Nat) (fs : List CanFrame) :
    Prop where
  canId : ∀ f ∈ fs, f.canId = id
  canDlc : ∀ i (hi : i < fs.length),
    fs[i].canDlc.toNat = min CAN_MAX_DLEN (len - CAN_MAX_DLEN * i)
  payload : ∀ i (hi : i < fs.length), fs[i].payload =
    slice buffer (CAN_MAX_DLEN * i) (min CAN_MAX_DLEN (len - CAN_MAX_DLEN * i))

theorem Carries.sendsSlices {id : UInt32} {buffer : Nat → UInt8} {len : Nat} {fs : List CanFrame}
    (h : Carries id (slice buffer 0 len) fs) : SendsSlices id buffer len fs := by
  have hpayload : ∀ i (hi : i < fs.length), fs[i].payload =
      slice buffer (CAN_MAX_DLEN * i) (min CAN_MAX_DLEN (len - CAN_MAX_DLEN * i)) := by
    intro i hi
    rw [← chunk_slice]
    have hget := congrArg (fun l : List (List UInt8) => l[i]?) h.payloads
    simpa [hi] using hget
  refine ⟨h.canId, ?_, hpayload⟩
  intro i hi
  have hlen := congrArg List.length (hpayload i hi)
  have hdlc := h.dlc_le _ (List.getElem_mem hi)
  rw [slice_length] at hlen
  rw [← hlen]
  simp [CanFrame.payload, hdlc]

/-- `hal_com_write` sends exactly the payload, or an exact prefix of it with an
error.  `used` are the answers that it asked for, one for each frame. -/
theorem halComWrite_exact (dm : DataModel) (ctx : HalComCtx) (stack : CanFrame)
    (buffer : Nat → UInt8) {len : Nat} (hlen : 0 < len) (writes : List Int) :
    ∃ used, writes = used ++ (halComWrite ctx stack buffer len writes).2 ∧
      SendsSlices ctx.currentCanId buffer len
        (sentBy (halComWrite ctx stack buffer len writes).1) ∧
      (sentBy (halComWrite ctx stack buffer len writes).1).length = used.length ∧
      used.length ≤ frameCount len ∧
      (frameCount len ≤ writes.length →
        ∃ r, (halComWrite ctx stack buffer len writes).1 = .done r) ∧
      ∀ r, (halComWrite ctx stack buffer len writes).1 = .done r →
        (r.ret = HAL_SUCCESS ↔ ∀ i < frameCount len, writes[i]? = some canFrameSize) ∧
        (r.ret = HAL_SUCCESS → used.length = frameCount len) ∧
        (r.ret ≠ HAL_SUCCESS → r.ret = HAL_ERR_SEND_ERROR ∧ ∃ us w, used = us ++ [w] ∧
          (∀ v ∈ us, v = canFrameSize) ∧ w ≠ canFrameSize) ∧
        (perform dm ctx (.write stack buffer len writes)).2 = some ctx := by
  obtain ⟨used, hused, hsat⟩ := halComWrite_spec ctx stack buffer hlen writes
  have hbound : (sentBy (halComWrite ctx stack buffer len writes).1).length ≤ frameCount len := by
    rw [sentBy_halComWrite, List.length_map, List.length_range]
    exact framesSent_le _ _
  have hperform : ∀ r, (halComWrite ctx stack buffer len writes).1 = .done r →
      (perform dm ctx (.write stack buffer len writes)).2 = some ctx := by
    intro r hr
    have hctx : ctxAfterWrite (halComWrite ctx stack buffer len writes).1 = ctx :=
      ctxAfterWrite_eq ctx stack buffer len writes
    rw [hr] at hctx
    show ctxWritten (halComWrite ctx stack buffer len writes).1 = some ctx
    rw [hr]
    exact congrArg some hctx
  refine ⟨used, hused, ?_⟩
  generalize halComWrite ctx stack buffer len writes = call at hused hsat hperform hbound ⊢
  obtain ⟨call, rest⟩ := call
  dsimp only at hused hsat hperform hbound ⊢
  have hdlen : CAN_MAX_DLEN = 8 := rfl
  cases call with
  | again s =>
    rw [Step.sat_again] at hsat
    obtain ⟨hrest, hinv⟩ := hsat
    have hcount : s.sent.length = used.length := hinv.count
    have hpos := hinv.pos
    have hleft := hinv.left
    rw [slice_length, hdlen] at hleft
    rw [hrest, List.append_nil] at hused
    refine ⟨hinv.carries.sendsSlices, hcount, hcount ▸ hbound, ?_, by simp⟩
    intro henough
    unfold frameCount at henough
    rw [hused] at henough
    omega
  | done r =>
    rw [Step.sat_done] at hsat
    have hcount : r.sent.length = used.length := by
      cases hsat with
      | sent _ _ hlength => exact hlength
      | failed _ _ hlength => simpa using hlength
    have hcarries : Carries ctx.currentCanId (slice buffer 0 len) r.sent := by
      cases hsat with
      | sent _ hcarries => exact hcarries
      | failed _ hcarries => exact hcarries
    refine ⟨hcarries.sendsSlices, hcount, hcount ▸ hbound, fun _ => ⟨r, rfl⟩, ?_⟩
    intro r' hr'
    cases hr'
    cases hsat with
    | sent hret _ hlength hall hlast hwhole =>
      rw [slice_length, hdlen] at hall hlast
      have hfull : used.length = frameCount len := by
        unfold frameCount
        omega
      refine ⟨iff_of_true hret ?_, fun _ => hfull, fun h => absurd hret h, hperform r rfl⟩
      intro i hi
      rw [hused, List.getElem?_append_left (by omega), List.getElem?_eq_getElem (by omega)]
      exact congrArg some (hwhole _ (List.getElem_mem _))
    | @failed us w _ hret _ hlength hwhole hw =>
      have hne : r.ret ≠ HAL_SUCCESS := by
        rw [hret]
        decide
      refine ⟨iff_of_false hne ?_, fun h => absurd h hne, fun _ => ⟨hret, us, w, rfl, hwhole, hw⟩,
        hperform r rfl⟩
      -- the answer that ended the call is one of those wanted
      intro hall
      have hlt : us.length < frameCount len := by
        have hle : r.sent.length ≤ frameCount len := hbound
        omega
      have hlast := hall us.length hlt
      rw [hused, getElem?_last] at hlast
      exact hw (Option.some_inj.mp hlast)

/-- Nine bytes, and the second `write` fails: both slices were attempted, once. -/
theorem halComWrite_exact_nine :
    ∃ r, halComWrite (openCtx 5) (dataFrame 0 0 0xcc).toCanFrame (fun i => UInt8.ofNat i) 9
        [16, -1, 16] = (.done r, [16]) ∧ r.sent.length = 2 ∧ r.ret ≠ HAL_SUCCESS := by
  refine ⟨_, rfl, rfl, ?_⟩
  obtain ⟨_, _, _, _, _, _, hresult⟩ := halComWrite_exact .ilp32 (openCtx 5)
    (dataFrame 0 0 0xcc).toCanFrame (fun i => UInt8.ofNat i) (by decide : 0 < 9) [16, -1, 16]
  rw [Ne, (hresult _ rfl).1]
  decide

/-! ## What else leaves -/

/-- Two stacks agree where a frame shows them: in the padding and the reserved bytes,
and in the data bytes behind a payload of fewer than eight bytes. -/
structure SameResidue (len : Nat) (stack stack' : CanFrame) : Prop where
  pad : stack.pad = stack'.pad
  res0 : stack.res0 = stack'.res0
  res1 : stack.res1 = stack'.res1
  data : ∀ j : Fin CAN_MAX_DLEN, len ≤ j.val → stack.data.get j = stack'.data.get j

/-- A frame that is not full follows a full one, and it is passed to `write`. -/
def ShortLast (len : Nat) (writes : List Int) : Prop :=
  CAN_MAX_DLEN < len ∧ len % CAN_MAX_DLEN ≠ 0 ∧ len / CAN_MAX_DLEN < writes.length ∧
    ∀ i < len / CAN_MAX_DLEN, writes[i]? = some canFrameSize

/-- The data bytes behind `can_dlc` do not depend on the slices of other frames. -/
def TailsClosed (ctx : HalComCtx) (stack : CanFrame) (buffer : Nat → UInt8) (len : Nat)
    (writes : List Int) : Prop :=
  ∀ (buffer' : Nat → UInt8) (k : Nat) (f f' : CanFrame),
    (sentBy (halComWrite ctx stack buffer len writes).1)[k]? = some f →
    (sentBy (halComWrite ctx stack buffer' len writes).1)[k]? = some f' →
    (∀ i, CAN_MAX_DLEN * k ≤ i → i < CAN_MAX_DLEN * k + f.canDlc.toNat → buffer' i = buffer i) →
    ∀ j : Fin CAN_MAX_DLEN, f.canDlc.toNat ≤ j.val → f.data.get j = f'.data.get j

theorem frameImage_congr {stack stack' : CanFrame} {len : Nat} (h : SameResidue len stack stack')
    (ctx : HalComCtx) (buffer : Nat → UInt8) (k : Nat) :
    frameImage ctx stack buffer len k = frameImage ctx stack' buffer len k := by
  unfold frameImage
  rw [h.pad, h.res0, h.res1]
  congr 2
  funext j
  split_ifs with hlt h0
  · rfl
  · subst h0
    exact h.data j (by omega)
  · rfl

/-- Two runs pass on the same frames exactly when there are none, or the stacks agree
where the frames show them. -/
theorem sentBy_eq_iff (ctx : HalComCtx) (stack stack' : CanFrame) (buffer : Nat → UInt8)
    (len : Nat) (writes : List Int) :
    sentBy (halComWrite ctx stack buffer len writes).1 =
        sentBy (halComWrite ctx stack' buffer len writes).1 ↔
      len = 0 ∨ writes = [] ∨ SameResidue len stack stack' := by
  have hsome : 0 < framesSent (frameCount len) writes ↔ len ≠ 0 ∧ writes ≠ [] := by
    rw [lt_framesSent, List.length_pos_iff]
    unfold frameCount
    simp
    omega
  have hempty : ¬ (len ≠ 0 ∧ writes ≠ []) → framesSent (frameCount len) writes = 0 := by
    intro hnone
    exact Nat.eq_zero_of_not_pos (mt hsome.mp hnone)
  rw [sentBy_halComWrite, sentBy_halComWrite]
  constructor
  · intro h
    by_cases hpos : len ≠ 0 ∧ writes ≠ []
    swap
    · rw [not_and_or, not_not, not_not] at hpos
      exact hpos.elim .inl fun hwrites => .inr (.inl hwrites)
    rw [← hsome] at hpos
    have h0 : frameImage ctx stack buffer len 0 = frameImage ctx stack' buffer len 0 := by
      have hget := congrArg (fun l : List CanFrame => l[0]?) h
      simpa [hpos] using hget
    have hpad : (frameImage ctx stack buffer len 0).pad = _ := congrArg CanFrame.pad h0
    have hres0 : (frameImage ctx stack buffer len 0).res0 = _ := congrArg CanFrame.res0 h0
    have hres1 : (frameImage ctx stack buffer len 0).res1 = _ := congrArg CanFrame.res1 h0
    refine .inr (.inr ⟨hpad, hres0, hres1, ?_⟩)
    intro j hj
    have hdata := congrArg (fun f : CanFrame => f.data.get j) h0
    rwa [frameImage_tail ctx stack buffer (Nat.le_trans (Nat.sub_le _ _) hj), if_pos rfl,
      frameImage_tail ctx stack' buffer (Nat.le_trans (Nat.sub_le _ _) hj), if_pos rfl] at hdata
  · rintro (hlen | hwrites | hres)
    · rw [hempty fun h => h.1 hlen]
      rfl
    · rw [hempty fun h => h.2 hwrites]
      rfl
    · apply List.map_congr_left
      intro k _
      exact frameImage_congr hres ctx buffer k

/-- A frame behind the first one that is not full is a short last slice. -/
theorem shortLast_iff {len : Nat} {writes : List Int} :
    ShortLast len writes ↔ ∃ k, k ≠ 0 ∧ k < framesSent (frameCount len) writes ∧
      len - CAN_MAX_DLEN * k < CAN_MAX_DLEN := by
  have hdlen : CAN_MAX_DLEN = 8 := rfl
  unfold ShortLast frameCount
  rw [hdlen]
  constructor
  · intro ⟨hlong, hshort, hlast, hall⟩
    refine ⟨len / 8, by omega, ?_, by omega⟩
    rw [lt_framesSent]
    exact ⟨by omega, hlast, hall⟩
  · intro ⟨k, hk0, hsent, hrest⟩
    obtain ⟨hcount, hlt, hall⟩ := lt_framesSent.mp hsent
    have hk : len / 8 = k := by omega
    rw [hk]
    exact ⟨by omega, by omega, hlt, hall⟩

/-- The tails are closed exactly when no short slice follows a full one. -/
theorem tailsClosed_iff (ctx : HalComCtx) (stack : CanFrame) (buffer : Nat → UInt8) (len : Nat)
    (writes : List Int) :
    TailsClosed ctx stack buffer len writes ↔ ¬ ShortLast len writes := by
  have hdlen : CAN_MAX_DLEN = 8 := rfl
  rw [shortLast_iff]
  constructor
  · intro hclosed ⟨k, hk0, hsent, hrest⟩
    -- change the last byte of the slice before: it shows up behind the last slice
    obtain ⟨j, hj⟩ : ∃ j : Fin CAN_MAX_DLEN, j.val = 7 := ⟨⟨7, by omega⟩, rfl⟩
    obtain ⟨i₀, hi₀⟩ : ∃ i, i = CAN_MAX_DLEN * (k - 1) + j.val := ⟨_, rfl⟩
    obtain ⟨b, hb⟩ : ∃ b, b ≠ buffer i₀ := ⟨buffer i₀ + 1, by simp⟩
    have hbehind : ∀ m : Nat → UInt8, (frameImage ctx stack m len k).data.get j = m i₀ := by
      intro m
      have htail : len - CAN_MAX_DLEN * k ≤ j.val := by omega
      rw [frameImage_tail ctx stack m htail, if_neg hk0, hi₀]
    have hframe : ∀ m : Nat → UInt8, (sentBy (halComWrite ctx stack m len writes).1)[k]? =
        some (frameImage ctx stack m len k) := by
      intro m
      exact (sentBy_getElem? ctx stack m len writes k _).mpr ⟨hsent, rfl⟩
    have htail := hclosed (Function.update buffer i₀ b) k _ _ (hframe _) (hframe _) ?_ j ?_
    · rw [hbehind, hbehind, Function.update_self] at htail
      exact hb htail.symm
    · intro i hlo _
      rw [hj] at hi₀
      rw [hdlen] at hlo hi₀
      exact Function.update_of_ne (by omega) _ _
    · rw [frameImage_canDlc]
      omega
  · intro hno buffer' k f f' hf hf' hown j hj
    obtain ⟨hsent, hf⟩ := (sentBy_getElem? ctx stack buffer len writes k f).mp hf
    obtain ⟨_, hf'⟩ := (sentBy_getElem? ctx stack buffer' len writes k f').mp hf'
    subst hf hf'
    rw [frameImage_canDlc] at hj
    have hlt := j.isLt
    have htail : len - CAN_MAX_DLEN * k ≤ j.val := by omega
    have hk0 : k = 0 := by
      by_contra hk0
      exact hno ⟨k, hk0, hsent, by omega⟩
    rw [frameImage_tail ctx stack buffer htail, frameImage_tail ctx stack buffer' htail,
      if_pos hk0, if_pos hk0]

/-- When nothing but the message leaves: two runs with these stacks pass on the same
frames, and no frame shows a byte of another slice. -/
theorem frames_closed_iff (ctx : HalComCtx) (stack stack' : CanFrame) (buffer : Nat → UInt8)
    (len : Nat) (writes : List Int) :
    (sentBy (halComWrite ctx stack buffer len writes).1 =
        sentBy (halComWrite ctx stack' buffer len writes).1 ∧
      TailsClosed ctx stack buffer len writes) ↔
      (len = 0 ∨ writes = [] ∨ SameResidue len stack stack') ∧ ¬ ShortLast len writes := by
  rw [sentBy_eq_iff, tailsClosed_iff]

/-- Nine bytes from two stacks: the frames differ in their padding, and behind the
ninth byte stand the second to the eighth. -/
theorem frames_show_residue :
    sentBy (halComWrite (openCtx 5) (dataFrame 0 0 0xcc).toCanFrame (fun i => UInt8.ofNat i) 9
        [16, 16]).1 ≠
      sentBy (halComWrite (openCtx 5) { (dataFrame 0 0 0xcc).toCanFrame with pad := 1 }
        (fun i => UInt8.ofNat i) 9 [16, 16]).1 ∧
      (sentBy (halComWrite (openCtx 5) (dataFrame 0 0 0xcc).toCanFrame (fun i => UInt8.ofNat i) 9
        [16, 16]).1).map (·.data.toList) =
          [[0, 1, 2, 3, 4, 5, 6, 7], [8, 1, 2, 3, 4, 5, 6, 7]] := by
  decide

end CanbusAgent.HalCom

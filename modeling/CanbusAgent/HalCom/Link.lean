import CanbusAgent.HalCom.Transfer
import CanbusAgent.Lib.Transition

/-!
# Any writer, a bus and any reader

One node writes messages of any lengths under any ids, another one reads with requests of
any lengths, and each `read` or `write` of theirs may fail.  Between them is the bus with
the queue of the receiving socket, which keeps the order.  A step is one call of a function
of the transport or one answer of the kernel to a call that runs, so the steps of the two
nodes interleave in any way.

`link_conserves` is the law of the link as a queue of bytes.  What the reads left in their
buffers, in order, with what the last one has so far and what is on the bus, is what the
writes sent.  The caller of a read that fails is not told how many bytes these are.
`link_answers` says that no read waits for bytes that the bus carries.
-/

namespace CanbusAgent.HalCom

open DrivenLoop Region Transition

/-- A call of `hal_com_write` that has not returned. -/
structure WriteCall where
  buffer : Nat → UInt8
  len : Nat
  loop : WriteState

/-- A call of `hal_com_read`, or of `hal_com_read_timeout`, that has not returned, with what
it was asked for. -/
structure ReadCall where
  timed : Bool
  len : Nat
  loop : ReadState

/-- The return value of a call, and the bytes that it has sent or stored. -/
structure Moved where
  ret : Int
  bytes : List UInt8
deriving DecidableEq

/-- What a read leaves to its caller, with `*len` before and after the call. -/
structure Brought extends Moved where
  request : Nat
  len : Nat
deriving DecidableEq

structure LinkState where
  sender : HalComCtx
  writing : Option WriteCall
  /-- The calls of `hal_com_write` that have returned. -/
  written : List Moved
  bus : List BusFrame
  receiver : HalComCtx
  reading : Option ReadCall
  /-- The calls of the read functions that have returned. -/
  brought : List Brought

inductive LinkInput where
  | setPortnum (port : Int32)
  | callWrite (stack : CanFrame) (buffer : Nat → UInt8) (len : Nat)
  /-- What `write` returns. -/
  | write (writeBytes : Int)
  | callRead (timed : Bool) (target : Nat → UInt8) (len : Nat) (sockopt : Int)
  /-- What `read` gives to `hal_com_read`. -/
  | read (a : ReadAnswer)
  /-- What `poll` and `read` give to `hal_com_read_timeout`. -/
  | poll (a : PollAnswer)

/-- The bytes that a read has stored. -/
def ReadState.stored (s : ReadState) : List UInt8 := slice s.buffer.bytes 0 s.readTotalBytes

/-- A return value of 0 tells the caller that the call sent the whole message.  Otherwise it
sent what stands before the slice that `write` did not take. -/
def WriteCall.sends (c : WriteCall) (r : WriteResult) : Moved :=
  ⟨r.ret, slice c.buffer 0 (if r.ret = HAL_SUCCESS then c.len else c.loop.sendTotalBytes)⟩

/-- A return value of 0 tells the caller that there are `*len` bytes.  Otherwise the buffer
starts with the data bytes that the call took from the socket, but `*len` does not count
them. -/
def ReadCall.brings (c : ReadCall) (r : ReadResult) : Brought where
  ret := r.ret
  bytes := slice r.buffer.bytes 0 (if r.ret = 0 then r.len else c.loop.readTotalBytes)
  request := c.len
  len := r.len

/-- An answer of `write` to a call of `hal_com_write`. -/
def LinkState.afterWrite (s : LinkState) (c : WriteCall) (writeBytes : Int) : LinkState :=
  let out := halComWriteStep c.buffer c.loop writeBytes
  let frame := if writeBytes = canFrameSize then (sentBy out).getLast?.bind busFrame? else none
  let s := { s with bus := s.bus ++ frame.toList }
  match out with
  | .again loop => { s with writing := some { c with loop } }
  | .done r => { s with sender := r.ctx, writing := none, written := s.written ++ [c.sends r] }

/-- An answer to a call of a read function, with the frame that it takes from the queue. -/
def LinkState.afterRead (s : LinkState) (c : ReadCall) (frame : Option BusFrame)
    (out : Step ReadState ReadResult) : Option LinkState :=
  if frame.toList <+: s.bus then
    let s := { s with bus := s.bus.drop frame.toList.length }
    match out with
    | .again loop => some { s with reading := some { c with loop } }
    | .done r =>
      some { s with receiver := r.ctx, reading := none, brought := s.brought ++ [c.brings r] }
  else none

def linkStep (dm : DataModel) (s : LinkState) : LinkInput → Option LinkState
  | .setPortnum port =>
    match s.writing with
    | some _ => none
    | none => some { s with sender := (halComSetPortnum s.sender port).2 }
  | .callWrite stack buffer len =>
    match s.writing with
    | some _ => none
    | none =>
      if len = 0 then some { s with written := s.written ++ [⟨0, []⟩] }
      else
        let frame := { stack with canId := s.sender.currentCanId }
        let loop := { ctx := s.sender, frame, left := len, sendTotalBytes := 0, sent := [] }
        some { s with writing := some { buffer, len, loop } }
  | .write writeBytes => s.writing.map fun c => s.afterWrite c writeBytes
  | .callRead timed target len sockopt =>
    match s.reading with
    | some _ => none
    | none =>
      if len = 0 then some { s with brought := s.brought ++ [⟨⟨0, []⟩, len, len⟩] }
      else if sockopt < 0 then
        some { s with brought := s.brought ++ [⟨⟨HAL_ERR_FILE_IOCTL, []⟩, len, len⟩] }
      else
        some { s with reading := some ⟨timed, len, readStart dm s.receiver (fresh target) len⟩ }
  | .read a =>
    match s.reading with
    | some ⟨false, len, loop⟩ => s.afterRead ⟨false, len, loop⟩ a.frame? (halComReadStep dm loop a)
    | _ => none
  | .poll a =>
    match s.reading with
    | some ⟨true, len, loop⟩ =>
      s.afterRead ⟨true, len, loop⟩ a.frame? (halComReadTimeoutStep dm loop a)
    | _ => none

/-- Two nodes that have not called anything, and an empty bus. -/
def linkStart (sender receiver : HalComCtx) : LinkState where
  sender := sender
  writing := none
  written := []
  bus := []
  receiver := receiver
  reading := none
  brought := []

/-- What the running call of `hal_com_write` has sent so far. -/
def LinkState.sending (s : LinkState) : List UInt8 :=
  (s.writing.map fun c => slice c.buffer 0 c.loop.sendTotalBytes).getD []

/-- What the running call of a read function has stored so far. -/
def LinkState.storing (s : LinkState) : List UInt8 := (s.reading.map (·.loop.stored)).getD []

/-! ## The writer -/

/-- The counters of `hal_com_write`. -/
structure WriteCall.Counts (c : WriteCall) : Prop where
  total : c.loop.sendTotalBytes + c.loop.left = c.len
  pos : 0 < c.loop.left

/-- The slice of the next frame. -/
def WriteCall.next (c : WriteCall) : List UInt8 :=
  slice c.buffer c.loop.sendTotalBytes (min CAN_MAX_DLEN c.loop.left)

/-- The inversion of one pass of `hal_com_write`. -/
theorem halComWriteStep_cases {c : WriteCall} (hc : c.Counts) (w : Int) :
    ∃ f : CanFrame, f.payload = c.next ∧ f.canDlc.toNat ≤ CAN_MAX_DLEN ∧
      (sentBy (halComWriteStep c.buffer c.loop w)).getLast? = some f ∧
      ((∃ r, w ≠ canFrameSize ∧ halComWriteStep c.buffer c.loop w = .done r ∧
          (c.sends r).bytes = slice c.buffer 0 c.loop.sendTotalBytes) ∨
        (∃ loop, w = canFrameSize ∧ halComWriteStep c.buffer c.loop w = .again loop ∧
          WriteCall.Counts { c with loop } ∧
          slice c.buffer 0 loop.sendTotalBytes =
            slice c.buffer 0 c.loop.sendTotalBytes ++ c.next) ∨
        ∃ r, w = canFrameSize ∧ halComWriteStep c.buffer c.loop w = .done r ∧
          (c.sends r).bytes = slice c.buffer 0 c.loop.sendTotalBytes ++ c.next) := by
  obtain ⟨htotal, hpos⟩ := hc
  have hdlen : CAN_MAX_DLEN = 8 := rfl
  have hsuccess : HAL_ERR_SEND_ERROR ≠ HAL_SUCCESS := by decide
  have hnext : ∀ n, min CAN_MAX_DLEN c.loop.left = n →
      slice c.buffer 0 (c.loop.sendTotalBytes + n) =
        slice c.buffer 0 c.loop.sendTotalBytes ++ c.next := by
    rintro n rfl
    rw [slice_add, Nat.zero_add]
    rfl
  unfold halComWriteStep
  rw [sendBytes_eq]
  set n := min CAN_MAX_DLEN c.loop.left with hn
  set frame : CanFrame := { c.loop.frame with
    data := copyData c.loop.frame.data (slice c.buffer c.loop.sendTotalBytes n)
    canDlc := UInt8.ofNat n } with hframe
  have hdlc : frame.canDlc.toNat = n := UInt8.toNat_ofNat_of_lt' (show n < 2 ^ 8 by omega)
  have hpayload : frame.payload = c.next :=
    payload_copyData rfl (by rw [hdlc, WriteCall.next, slice_length])
      (by rw [WriteCall.next, slice_length]; omega)
  refine ⟨frame, hpayload, by omega, ?_, ?_⟩
  · dsimp only
    split_ifs <;> exact List.getLast?_concat
  dsimp only
  by_cases hw : w = canFrameSize
  · rw [if_neg (not_not_intro hw)]
    by_cases hleft : c.loop.left - n = 0
    · -- this was the last slice
      rw [if_neg (not_not_intro hleft)]
      have hlen : c.len = c.loop.sendTotalBytes + n := by omega
      refine .inr (.inr ⟨_, hw, rfl, ?_⟩)
      rw [WriteCall.sends, if_pos rfl, ← hnext n rfl, hlen]
    · rw [if_pos hleft]
      exact .inr (.inl ⟨_, hw, rfl, ⟨by dsimp only; omega, by dsimp only; omega⟩, hnext n rfl⟩)
  · rw [if_pos hw]
    exact .inl ⟨_, hw, rfl, by rw [WriteCall.sends, if_neg hsuccess]⟩

/-! ## The reader -/

/-- The counters of a read loop.  When it has read something it is short of its request. -/
structure ReadCall.Counts (dm : DataModel) (c : ReadCall) : Prop where
  len : c.loop.len = c.len
  left : c.loop.left = dm.wrapSsize (dm.toSsize c.len - c.loop.readTotalBytes)
  more : c.loop.readTotalBytes = 0 ∨
    c.loop.readTotalBytes < dm.toSize c.len ∧ dm.toSize c.len ≤ dm.SSIZE_MAX + CAN_MAX_DLEN

theorem ReadCall.Counts.le {dm : DataModel} {c : ReadCall} (h : c.Counts dm) :
    c.loop.readTotalBytes ≤ dm.SSIZE_MAX + CAN_MAX_DLEN := by
  have := h.more
  omega

/-- While the loop waits, `left` is what is missing of the request. -/
theorem ReadCall.Counts.request {dm : DataModel} {c : ReadCall} (h : c.Counts dm)
    (hpos : 0 < c.loop.left) :
    c.loop.left + c.loop.readTotalBytes = dm.toSize c.len ∧ c.loop.left ≤ dm.SSIZE_MAX := by
  have hle : c.loop.readTotalBytes ≤ dm.toSize c.len + 8 := by
    have := h.more
    omega
  rw [h.left] at hpos
  have hmax := ((DataModel.wrapSsize_pos_iff hle).mp hpos).2
  rw [h.left, DataModel.wrapSsize_toSsize_sub_of_le hle hmax]
  omega

/-- One more frame, after which the loop goes on. -/
theorem ReadCall.Counts.accept {dm : DataModel} {c : ReadCall} (h : c.Counts dm)
    (f : BusFrame) (hpos : 0 < (c.loop.accept dm f).left) :
    ReadCall.Counts dm { c with loop := c.loop.accept dm f } := by
  have hdlc : f.dlc ≤ CAN_MAX_DLEN := f.dlc_le
  have hmax : CAN_MAX_DLEN = 8 := rfl
  have hmore := h.more
  have hread : (c.loop.accept dm f).readTotalBytes = c.loop.readTotalBytes + f.dlc := rfl
  have hleft : (c.loop.accept dm f).left =
      dm.wrapSsize (dm.toSsize c.len - (c.loop.readTotalBytes + f.dlc : Nat)) := by
    rw [Int.natCast_add, ← dm.wrapSsize_sub_sub, ← h.left]
    rfl
  rw [hleft, DataModel.wrapSsize_pos_iff (by omega)] at hpos
  exact ⟨h.len, by rw [hleft, hread], .inr (by rw [hread]; dsimp only; omega)⟩

theorem stored_accept (dm : DataModel) (s : ReadState) (f : BusFrame) :
    (s.accept dm f).stored = s.stored ++ f.payload := by
  have hlen : f.payload.length = f.dlc := f.payload_length
  have hbytes : (s.accept dm f).buffer.bytes =
      overlay s.buffer.bytes s.readTotalBytes f.payload := store_bytes _ _ _
  have hold : slice (overlay s.buffer.bytes s.readTotalBytes f.payload) 0 s.readTotalBytes =
      s.stored :=
    slice_congr fun i hi => overlay_of_lt _ _ (by omega)
  unfold ReadState.stored
  rw [hbytes]
  show slice _ 0 (s.readTotalBytes + f.dlc) = _
  rw [slice_add, hold, Nat.zero_add, slice_overlay_of_length _ _ hlen]
  rfl

/-- A read that returns 0 tells its caller how many bytes are in the buffer.  Otherwise
`*len` is still what was asked for. -/
def Brought.Told (m : Brought) : Prop :=
  (m.ret = 0 → m.len = m.bytes.length) ∧ (m.ret ≠ 0 → m.len = m.request)

/-- A pass of a read loop stores the data bytes of its frame, and when the call returns, the
caller gets what is stored. -/
def Brings (dm : DataModel) (c : ReadCall) (frame : Option BusFrame)
    (out : Step ReadState ReadResult) : Prop :=
  out.Sat (fun loop => loop.stored = c.loop.stored ++ dataBytes frame.toList ∧
      ReadCall.Counts dm { c with loop })
    fun r => (c.brings r).bytes = c.loop.stored ++ dataBytes frame.toList ∧ (c.brings r).Told

/-- A return value of 0 brings what is stored. -/
theorem brings_finish {dm : DataModel} {s : ReadState} (c : ReadCall)
    (hle : s.readTotalBytes ≤ dm.SSIZE_MAX + CAN_MAX_DLEN + CAN_MAX_DLEN) :
    (c.brings (s.finish dm)).bytes = s.stored ∧ (c.brings (s.finish dm)).Told := by
  constructor
  · show slice s.buffer.bytes 0 (dm.toSize s.readTotalBytes) = s.stored
    rw [DataModel.toSize_of_le_add hle]
    rfl
  · exact ⟨fun _ => (slice_length _ _ _).symm, fun hret => absurd rfl hret⟩

theorem brings_next {dm : DataModel} {c : ReadCall} {frame : Option BusFrame} {s : ReadState}
    (hstored : s.stored = c.loop.stored ++ dataBytes frame.toList)
    (hcounts : 0 < s.left → ReadCall.Counts dm { c with loop := s })
    (hle : s.readTotalBytes ≤ dm.SSIZE_MAX + CAN_MAX_DLEN + CAN_MAX_DLEN) :
    Brings dm c frame (s.next dm) := by
  obtain ⟨hbytes, htold⟩ := brings_finish c hle
  unfold Brings ReadState.next
  split_ifs with hpos
  · exact ⟨hstored, hcounts hpos⟩
  · exact ⟨hbytes.trans hstored, htold⟩

/-- A pass that takes no frame. -/
theorem brings_idle {dm : DataModel} {c : ReadCall} (h : c.Counts dm) :
    Brings dm c none (c.loop.next dm) :=
  brings_next (List.append_nil _).symm (fun _ => h) (Nat.le_add_right_of_le h.le)

theorem brings_accept {dm : DataModel} {c : ReadCall} (h : c.Counts dm) (f : BusFrame) :
    Brings dm c (some f) ((c.loop.accept dm f).next dm) := by
  refine brings_next ?_ (h.accept f) (Nat.add_le_add h.le f.dlc_le)
  rw [stored_accept, Option.toList_some, dataBytes_singleton]

/-- A failing `poll` leaves the buffer as it is, and `*len` too. -/
theorem brings_abort {dm : DataModel} {c : ReadCall} (h : c.Counts dm) :
    Brings dm c none (.done (c.loop.abort HAL_ERR_FILE_IOCTL)) := by
  have hret : (c.loop.abort HAL_ERR_FILE_IOCTL).ret ≠ 0 := HAL_ERR_FILE_IOCTL_ne_zero
  refine ⟨?_, fun hzero => absurd hzero hret, fun _ => h.len⟩
  rw [ReadCall.brings, if_neg hret]
  exact (List.append_nil _).symm

theorem halComReadStep_brings {dm : DataModel} {c : ReadCall} (h : c.Counts dm)
    (a : ReadAnswer) : Brings dm c a.frame? (halComReadStep dm c.loop a) := by
  cases a with
  | error => exact brings_idle h
  | empty => exact brings_idle h
  | frame f => exact brings_accept h f

theorem halComReadTimeoutStep_brings {dm : DataModel} {c : ReadCall} (h : c.Counts dm)
    (a : PollAnswer) : Brings dm c a.frame? (halComReadTimeoutStep dm c.loop a) := by
  cases a with
  | fail => exact brings_abort h
  | timeout =>
    obtain ⟨hbytes, htold⟩ := brings_finish c (Nat.le_add_right_of_le h.le)
    exact ⟨hbytes.trans (List.append_nil _).symm, htold⟩
  | noInput => exact brings_idle h
  | input r =>
    cases r with
    | error => exact brings_idle h
    | empty => exact brings_idle h
    | frame f => exact brings_accept h f

/-! ## The link -/

/-- What was read and what is on the bus is what was sent. -/
structure LinkInv (dm : DataModel) (s : LinkState) : Prop where
  writing : ∀ c, s.writing = some c → c.Counts
  reading : ∀ c, s.reading = some c → c.Counts dm
  told : ∀ m ∈ s.brought, m.Told
  bytes : s.brought.flatMap (·.bytes) ++ s.storing ++ dataBytes s.bus =
    s.written.flatMap (·.bytes) ++ s.sending

theorem linkInv_start (dm : DataModel) (sender receiver : HalComCtx) :
    LinkInv dm (linkStart sender receiver) where
  writing := by simp [linkStart]
  reading := by simp [linkStart]
  told := by simp [linkStart]
  bytes := rfl

/-- An answer of `write` keeps the invariant. -/
theorem LinkInv.afterWrite {dm : DataModel} {s : LinkState} {c : WriteCall} (h : LinkInv dm s)
    (hc : s.writing = some c) (w : Int) : LinkInv dm (s.afterWrite c w) := by
  have hbytes := h.bytes
  rw [show s.sending = slice c.buffer 0 c.loop.sendTotalBytes by
    rw [LinkState.sending, hc]; rfl] at hbytes
  obtain ⟨f, hpayload, hdlc, hlast, hcases⟩ := halComWriteStep_cases (h.writing c hc) w
  have hframe : dataBytes (busFrame? f).toList = c.next := by
    rw [busFrame?_eq hdlc, Option.toList_some, dataBytes_singleton]
    exact hpayload
  unfold LinkState.afterWrite
  dsimp only
  rw [hlast, Option.bind_some]
  rcases hcases with ⟨r, hw, hout, hsent⟩ | ⟨loop, hw, hout, hcounts, hsent⟩ | ⟨r, hw, hout, hsent⟩
  · -- the frame was not taken
    rw [hout, if_neg hw]
    refine ⟨by simp, h.reading, h.told, ?_⟩
    show s.brought.flatMap (·.bytes) ++ s.storing ++ dataBytes (s.bus ++ []) =
      (s.written ++ [c.sends r]).flatMap (·.bytes) ++ []
    rw [List.append_nil, List.append_nil, List.flatMap_append, List.flatMap_singleton, hsent,
      hbytes]
  · rw [hout, if_pos hw]
    refine ⟨fun c' hc' => Option.some.inj hc' ▸ hcounts, h.reading, h.told, ?_⟩
    show s.brought.flatMap (·.bytes) ++ s.storing ++ dataBytes (s.bus ++ (busFrame? f).toList) =
      s.written.flatMap (·.bytes) ++ slice c.buffer 0 loop.sendTotalBytes
    rw [dataBytes_append, hframe, hsent, ← List.append_assoc, hbytes, List.append_assoc]
  · rw [hout, if_pos hw]
    refine ⟨by simp, h.reading, h.told, ?_⟩
    show s.brought.flatMap (·.bytes) ++ s.storing ++ dataBytes (s.bus ++ (busFrame? f).toList) =
      (s.written ++ [c.sends r]).flatMap (·.bytes) ++ []
    rw [dataBytes_append, hframe, List.append_nil, List.flatMap_append, List.flatMap_singleton,
      hsent, ← List.append_assoc, hbytes, List.append_assoc]

/-- An answer to a read function keeps the invariant. -/
theorem LinkInv.afterRead {dm : DataModel} {s s' : LinkState} {c : ReadCall}
    {frame : Option BusFrame} {out : Step ReadState ReadResult} (h : LinkInv dm s)
    (hc : s.reading = some c) (hbrings : Brings dm c frame out)
    (hs' : s.afterRead c frame out = some s') : LinkInv dm s' := by
  have hbytes := h.bytes
  rw [show s.storing = c.loop.stored by rw [LinkState.storing, hc]; rfl] at hbytes
  unfold LinkState.afterRead at hs'
  split_ifs at hs' with hbus
  have hsplit : dataBytes s.bus =
      dataBytes frame.toList ++ dataBytes (s.bus.drop frame.toList.length) := by
    obtain ⟨rest, hrest⟩ := hbus
    rw [← hrest, List.drop_left, dataBytes_append]
  rw [hsplit] at hbytes
  unfold Brings at hbrings
  cases out with
  | again loop =>
    cases hs'
    obtain ⟨hstored, hcounts⟩ := hbrings
    refine ⟨h.writing, fun c' hc' => Option.some.inj hc' ▸ hcounts, h.told, ?_⟩
    show s.brought.flatMap (·.bytes) ++ loop.stored ++ dataBytes (s.bus.drop _) =
      s.written.flatMap (·.bytes) ++ s.sending
    rw [hstored, ← hbytes, List.append_assoc, List.append_assoc, List.append_assoc]
  | done r =>
    cases hs'
    obtain ⟨hstored, htold⟩ := hbrings
    refine ⟨h.writing, by simp, List.forall_mem_append.mpr
      ⟨h.told, List.forall_mem_singleton.mpr htold⟩, ?_⟩
    show (s.brought ++ [c.brings r]).flatMap (·.bytes) ++ [] ++ dataBytes (s.bus.drop _) =
      s.written.flatMap (·.bytes) ++ s.sending
    rw [List.flatMap_append, List.flatMap_singleton, hstored, List.append_nil, ← hbytes,
      List.append_assoc, List.append_assoc, List.append_assoc]

theorem linkInv_step {dm : DataModel} {s s' : LinkState} {i : LinkInput} (h : LinkInv dm s)
    (hstep : linkStep dm s i = some s') : LinkInv dm s' := by
  cases i with
  | setPortnum port =>
    simp only [linkStep] at hstep
    split at hstep
    · cases hstep
    · cases hstep
      exact ⟨h.writing, h.reading, h.told, h.bytes⟩
  | callWrite stack buffer len =>
    have hbytes := h.bytes
    simp only [linkStep] at hstep
    split at hstep
    case h_1 => cases hstep
    case h_2 hnone =>
      rw [show s.sending = [] by rw [LinkState.sending, hnone]; rfl] at hbytes
      split_ifs at hstep with h0
      · cases hstep
        refine ⟨by simp [hnone], h.reading, h.told, ?_⟩
        show s.brought.flatMap (·.bytes) ++ s.storing ++ dataBytes s.bus =
          (s.written ++ [Moved.mk 0 []]).flatMap (·.bytes) ++ s.sending
        rw [List.flatMap_append, List.flatMap_singleton, List.append_nil, LinkState.sending, hnone]
        exact hbytes
      · cases hstep
        refine ⟨fun c hc => ?_, h.reading, h.told, hbytes⟩
        cases hc
        exact ⟨Nat.zero_add len, Nat.pos_of_ne_zero h0⟩
  | write w =>
    obtain ⟨c, hc, rfl⟩ := Option.map_eq_some_iff.mp hstep
    exact h.afterWrite hc w
  | callRead timed target len sockopt =>
    have hbytes := h.bytes
    have hreturned : ∀ ret, (s.brought ++ [Brought.mk ⟨ret, []⟩ len len]).flatMap (·.bytes) =
        s.brought.flatMap (·.bytes) := fun ret => by simp
    have htold : ∀ ret : Int, (ret = 0 → len = 0) →
        ∀ m ∈ s.brought ++ [Brought.mk ⟨ret, []⟩ len len], m.Told := fun ret hlen =>
      List.forall_mem_append.mpr ⟨h.told, List.forall_mem_singleton.mpr ⟨hlen, fun _ => rfl⟩⟩
    simp only [linkStep] at hstep
    split at hstep
    case h_1 => cases hstep
    case h_2 hnone =>
      rw [show s.storing = [] by rw [LinkState.storing, hnone]; rfl] at hbytes
      split_ifs at hstep with h0
      · cases hstep
        exact ⟨h.writing, h.reading, htold 0 fun _ => h0, (hreturned 0).symm ▸ h.bytes⟩
      · cases hstep
        exact ⟨h.writing, h.reading,
          htold HAL_ERR_FILE_IOCTL fun hret => absurd hret HAL_ERR_FILE_IOCTL_ne_zero,
          (hreturned HAL_ERR_FILE_IOCTL).symm ▸ h.bytes⟩
      · cases hstep
        refine ⟨h.writing, fun c hc => ?_, h.told, hbytes⟩
        cases hc
        refine ⟨rfl, ?_, .inl rfl⟩
        show dm.toSsize len = dm.wrapSsize (dm.toSsize len - 0)
        rw [Int.sub_zero, dm.wrapSsize_toSsize]
  | read a =>
    simp only [linkStep] at hstep
    split at hstep
    case h_1 len loop hc => exact h.afterRead hc (halComReadStep_brings (h.reading _ hc) a) hstep
    case h_2 => cases hstep
  | poll a =>
    simp only [linkStep] at hstep
    split at hstep
    case h_1 len loop hc =>
      exact h.afterRead hc (halComReadTimeoutStep_brings (h.reading _ hc) a) hstep
    case h_2 => cases hstep

theorem LinkInv.exec {dm : DataModel} {s t : LinkState} {is : List LinkInput} (h : LinkInv dm s)
    (hrun : exec (linkStep dm) s is = some t) : LinkInv dm t :=
  exec_inv (P := fun _ => True) (LinkInv dm) (fun _ _ _ _ hinv hstep => linkInv_step hinv hstep)
    hrun h fun _ _ => trivial

/-- The link is a queue of bytes, for all lengths of messages and requests, every
interleaving of the two nodes and all calls that fail.  What the reads left at the start of
their buffers is what the writes sent, in order, without gaps and without repetitions: the
rest of it is on the bus or in the buffer of a read that has not returned.  After a read
that returned 0 `*len` counts these bytes.  After one that failed `*len` is what was asked
for, so that its caller does not know of them. -/
theorem link_conserves (dm : DataModel) (sender receiver : HalComCtx) (is : List LinkInput)
    (s : LinkState) (hrun : exec (linkStep dm) (linkStart sender receiver) is = some s) :
    s.brought.flatMap (·.bytes) ++ s.storing ++ dataBytes s.bus =
      s.written.flatMap (·.bytes) ++ s.sending ∧
    ∀ m ∈ s.brought, (m.ret = 0 → m.len = m.bytes.length) ∧ (m.ret ≠ 0 → m.len = m.request) :=
  have hs : LinkInv dm s := (linkInv_start dm sender receiver).exec hrun
  ⟨hs.bytes, hs.told⟩

/-- A message of nine bytes.  The first frame answers a request for four, and the second one
is taken by a request for five, which then fails. -/
def nineBytes : List LinkInput :=
  ([.setPortnum 7, .callWrite (dataFrame 0 0 0).toCanFrame (fun i => UInt8.ofNat i) 9, .write 16,
    .callRead true (fun _ => 0) 4 0, .poll .noInput] : List LinkInput) ++
    (twoExchangesFrames.take 1).map (fun f => LinkInput.poll (.input (.frame f))) ++
    [.write 16, .callRead true (fun _ => 0) 5 0] ++
    ((twoExchangesFrames.take 2).drop 1).map (fun f => LinkInput.poll (.input (.frame f))) ++
    [.poll .fail]

theorem link_conserves_nineBytes :
    ∃ s, exec (linkStep .ilp32) (linkStart (openCtx 0) (openCtx 0)) nineBytes = some s ∧
      s.brought = [⟨⟨0, [0, 1, 2, 3, 4, 5, 6, 7]⟩, 4, 8⟩, ⟨⟨HAL_ERR_FILE_IOCTL, [8]⟩, 5, 5⟩] ∧
      s.brought.flatMap (·.bytes) ++ s.storing ++ dataBytes s.bus =
        [0, 1, 2, 3, 4, 5, 6, 7, 8] ∧
      ∀ m ∈ s.brought, (m.ret = 0 → m.len = m.bytes.length) ∧ (m.ret ≠ 0 → m.len = m.request) := by
  have hrun : (exec (linkStep .ilp32) (linkStart (openCtx 0) (openCtx 0)) nineBytes).map
      (fun s => (s.brought, s.written.flatMap (·.bytes) ++ s.sending)) =
        some ([⟨⟨0, [0, 1, 2, 3, 4, 5, 6, 7]⟩, 4, 8⟩, ⟨⟨HAL_ERR_FILE_IOCTL, [8]⟩, 5, 5⟩],
          [0, 1, 2, 3, 4, 5, 6, 7, 8]) := by decide
  obtain ⟨s, hs, hbytes⟩ := Option.map_eq_some_iff.mp hrun
  obtain ⟨hbrought, hsent⟩ := Prod.mk.inj hbytes
  obtain ⟨hconserved, htold⟩ := link_conserves .ilp32 (openCtx 0) (openCtx 0) nineBytes s hs
  exact ⟨s, hs, hbrought, hconserved.trans hsent, htold⟩

/-! ## Progress -/

/-- The answer that gives a frame to the running read. -/
def ReadCall.takes (c : ReadCall) (f : BusFrame) : LinkInput :=
  if c.timed then .poll (.input (.frame f)) else .read (.frame f)

/-- Since `s` the read `c` has returned with what it was asked for and less than a frame more,
and `*len` says how much it is.  The writer made no step. -/
structure ReadDone (s : LinkState) (c : ReadCall) (m : Brought) (t : LinkState) : Prop where
  sender : t.sender = s.sender
  writing : t.writing = s.writing
  written : t.written = s.written
  reading : t.reading = none
  brought : t.brought = s.brought ++ [m]
  ret : m.ret = 0
  request : m.request = c.len
  len : m.len = m.bytes.length
  reached : c.loop.left + c.loop.readTotalBytes ≤ m.bytes.length
  exceeds : m.bytes.length < c.loop.left + c.loop.readTotalBytes + CAN_MAX_DLEN

theorem linkStep_takes {dm : DataModel} {s : LinkState} {c : ReadCall} (hc : s.reading = some c)
    (f : BusFrame) :
    linkStep dm s (c.takes f) = s.afterRead c (some f) ((c.loop.accept dm f).next dm) := by
  obtain ⟨timed, len, loop⟩ := c
  cases timed <;> simp only [linkStep, ReadCall.takes, hc] <;> rfl

/-- By induction on the bus: each frame is taken until the request is reached. -/
theorem exists_readDone {dm : DataModel} {s : LinkState} {c : ReadCall} (hc : s.reading = some c)
    (hcounts : c.Counts dm) (hpos : 0 < c.loop.left) (henough : c.loop.left ≤ dataLen s.bus) :
    ∃ is t m, exec (linkStep dm) s is = some t ∧ ReadDone s c m t := by
  generalize hbus : s.bus = bus at henough
  induction bus generalizing s c with
  | nil =>
    rw [dataLen_nil] at henough
    omega
  | cons f rest ih =>
    have hdlc : f.dlc ≤ CAN_MAX_DLEN := f.dlc_le
    have hmax : CAN_MAX_DLEN = 8 := rfl
    have hrange : c.loop.left ≤ dm.SSIZE_MAX := (hcounts.request hpos).2
    have hleft : (c.loop.accept dm f).left = c.loop.left - f.dlc := by
      have := dm.eight_le_SSIZE_MAX
      exact DataModel.wrapSsize_of_range (by omega) (by omega)
    have hread : (c.loop.accept dm f).readTotalBytes = c.loop.readTotalBytes + f.dlc := rfl
    have hstep : linkStep dm s (c.takes f) = match (c.loop.accept dm f).next dm with
        | .again loop => some { s with bus := rest, reading := some { c with loop } }
        | .done r => some { s with
            bus := rest, receiver := r.ctx, reading := none,
            brought := s.brought ++ [c.brings r] } := by
      rw [linkStep_takes hc, LinkState.afterRead, hbus,
        if_pos (show (some f).toList <+: f :: rest from List.prefix_append [f] rest)]
      rfl
    rw [dataLen_cons] at henough
    unfold ReadState.next at hstep
    split_ifs at hstep with hmore
    · -- the request is not reached, so the read goes on with the frames behind
      let c' : ReadCall := { c with loop := c.loop.accept dm f }
      obtain ⟨is, t, m, hrun, hdone⟩ :=
        ih (c := c') (s := { s with bus := rest, reading := some c' })
          rfl (hcounts.accept f hmore) hmore rfl (by dsimp only [c']; omega)
      have hreached := hdone.reached
      have hexceeds := hdone.exceeds
      dsimp only [c'] at hreached hexceeds
      exact ⟨c.takes f :: is, t, m, exec_cons.mpr ⟨_, hstep, hrun⟩, hdone.sender, hdone.writing,
        hdone.written, hdone.reading, hdone.brought, hdone.ret, hdone.request, hdone.len,
        by omega, by omega⟩
    · obtain ⟨hstored, htold⟩ := brings_finish (s := c.loop.accept dm f) c
        (Nat.add_le_add hcounts.le f.dlc_le)
      have hlen : (c.brings ((c.loop.accept dm f).finish dm)).bytes.length =
          c.loop.readTotalBytes + f.dlc := by
        rw [hstored, ReadState.stored, slice_length, hread]
      exact ⟨[c.takes f], _, _, exec_cons.mpr ⟨_, hstep, rfl⟩, rfl, rfl, rfl, rfl, rfl, rfl,
        rfl, htold.1 rfl, by omega, by omega⟩

/-- No read waits for bytes that are there.  Whatever the two nodes did so far, a read that
waits has `left` bytes to go to what it was asked for.  When the bus carries these, the read
can take frames and return without a step of the writer.  It brings the bytes that it had
and the next ones of the bus. -/
theorem link_answers (dm : DataModel) (sender receiver : HalComCtx) (is : List LinkInput)
    (s : LinkState) (hrun : exec (linkStep dm) (linkStart sender receiver) is = some s)
    (c : ReadCall) (hc : s.reading = some c) (hpos : 0 < c.loop.left)
    (henough : c.loop.left ≤ dataLen s.bus) :
    c.loop.left + c.loop.readTotalBytes = dm.toSize c.len ∧
    ∃ is' t m, exec (linkStep dm) s is' = some t ∧ ReadDone s c m t ∧
      m.bytes ++ dataBytes t.bus = c.loop.stored ++ dataBytes s.bus := by
  have hs : LinkInv dm s := (linkInv_start dm sender receiver).exec hrun
  have hcounts : c.Counts dm := hs.reading c hc
  obtain ⟨is', t, m, hrun', hdone⟩ := exists_readDone hc hcounts hpos henough
  refine ⟨(hcounts.request hpos).1, is', t, m, hrun', hdone, ?_⟩
  have hbytes := (hs.exec hrun').bytes
  rw [LinkState.storing, LinkState.sending, hdone.brought, hdone.reading, hdone.written,
    hdone.writing, ← LinkState.sending, ← hs.bytes, LinkState.storing, hc] at hbytes
  simpa [List.append_assoc] using hbytes

/-- The writer has sent eight of nine bytes, and a request for four of them is not answered. -/
theorem link_answers_nineBytes :
    ∃ s c, exec (linkStep .ilp32) (linkStart (openCtx 0) (openCtx 0)) (nineBytes.take 4) = some s ∧
      s.reading = some c ∧ c.loop.left + c.loop.readTotalBytes = DataModel.ilp32.toSize c.len ∧
      ∃ is' t m, exec (linkStep .ilp32) s is' = some t ∧ ReadDone s c m t ∧
        m.bytes ++ dataBytes t.bus = c.loop.stored ++ dataBytes s.bus := by
  have hrun : (exec (linkStep .ilp32) (linkStart (openCtx 0) (openCtx 0)) (nineBytes.take 4)).bind
      (fun s => s.reading.map fun c => (c.loop.left, dataLen s.bus)) = some (4, 8) := by decide
  obtain ⟨s, hs, hreading⟩ := Option.bind_eq_some_iff.mp hrun
  obtain ⟨c, hc, hlens⟩ := Option.map_eq_some_iff.mp hreading
  obtain ⟨hleft, hbus⟩ := Prod.mk.inj hlens
  exact ⟨s, c, hs, hc,
    link_answers .ilp32 (openCtx 0) (openCtx 0) _ s hs c hc (by omega) (by omega)⟩

end CanbusAgent.HalCom

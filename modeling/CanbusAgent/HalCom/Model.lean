import CanbusAgent.Lib.Chunks
import CanbusAgent.Lib.DrivenLoop
import CanbusAgent.Lib.Region
import CanbusAgent.Platform

/-!
# The CAN transport

`hal_com.c` sends and receives byte buffers over a raw CAN socket.  A frame
carries at most eight bytes, so `hal_com_write` cuts a buffer into frames and
the two read functions collect frames into a buffer.

The socket is outside the program.  A call of `write`, `read`, `poll` or
`setsockopt` is answered by the kernel, and a model function takes these
answers as arguments: one answer for each pass of a loop.  The result of a
loop is a `DrivenLoop.run`, so a call that is still waiting for an answer is
part of the model, and so is a call that never returns.
-/

namespace CanbusAgent.HalCom

open DrivenLoop Region

/-! ## Frames -/

/-- `CAN_MAX_DLEN` of `linux/can.h`. -/
def CAN_MAX_DLEN : Nat := 8

/-- `struct can_frame`, with its padding and reserved bytes. -/
structure CanFrame where
  canId : UInt32
  canDlc : UInt8
  pad : UInt8
  res0 : UInt8
  res1 : UInt8
  data : Vector UInt8 CAN_MAX_DLEN
deriving DecidableEq, Repr

/-- `sizeof (struct can_frame)`. -/
def canFrameSize : Int := 16

/-- The first `can_dlc` data bytes. -/
def CanFrame.payload (f : CanFrame) : List UInt8 := f.data.toList.take f.canDlc.toNat

/-- A frame as a CAN socket delivers it: the length is at most eight. -/
structure BusFrame extends CanFrame where
  dlc_le : canDlc.toNat ≤ CAN_MAX_DLEN
deriving DecidableEq, Repr

/-- The number of data bytes of a frame. -/
def BusFrame.dlc (f : BusFrame) : Nat := f.canDlc.toNat

@[simp] theorem BusFrame.payload_length (f : BusFrame) : f.payload.length = f.dlc := by
  have := f.dlc_le
  simp [CanFrame.payload, BusFrame.dlc, this]

/-- A frame with `n` equal data bytes, and at most eight. -/
def dataFrame (id : UInt32) (n : Nat) (b : UInt8) : BusFrame where
  canId := id
  canDlc := UInt8.ofNat (min n CAN_MAX_DLEN)
  pad := 0
  res0 := 0
  res1 := 0
  data := Vector.replicate CAN_MAX_DLEN b
  dlc_le := by
    have hle : min n CAN_MAX_DLEN ≤ CAN_MAX_DLEN := Nat.min_le_right n CAN_MAX_DLEN
    rw [UInt8.toNat_ofNat_of_lt' (Nat.lt_of_le_of_lt hle (by decide))]
    exact hle

/-! ## Contexts -/

/-- `struct can_filter`. -/
structure CanFilter where
  canId : UInt32
  canMask : UInt32
deriving DecidableEq, Repr

/-- `HAL_COM_CONFIG_T`. -/
structure HalComConfig where
  rfilter : CanFilter
deriving DecidableEq, Repr

/-- The fields of `HAL_COM_T` that the transport uses. -/
structure HalComCtx where
  sockFd : Int
  currentCanId : UInt32
  config : HalComConfig
deriving DecidableEq, Repr

/-- A context with the accept-all filter. -/
def openCtx (id : UInt32) : HalComCtx :=
  { sockFd := 3, currentCanId := id, config := { rfilter := { canId := 0, canMask := 0 } } }

def halComSetConfig (ctx : HalComCtx) (config : HalComConfig) : Int × HalComCtx :=
  (HAL_SUCCESS, { ctx with config })

def halComSetPortnum (ctx : HalComCtx) (port : Int32) : Int × HalComCtx :=
  (HAL_SUCCESS, { ctx with currentCanId := port.toUInt32 })

/-- The second component is `*port`. -/
def halComGetPortnum (ctx : HalComCtx) : Int × Int32 :=
  (HAL_SUCCESS, ctx.currentCanId.toInt32)

/-! ## Writing -/

/-- The local variables of `hal_com_write` with the context, and the frames that were
passed to `write` so far, in order. -/
structure WriteState where
  ctx : HalComCtx
  frame : CanFrame
  left : Nat
  sendTotalBytes : Nat
  sent : List CanFrame

/-- The return value of `hal_com_write`, the context and the frames that it passed to
`write`. -/
structure WriteResult where
  ret : Int
  ctx : HalComCtx
  sent : List CanFrame
deriving DecidableEq, Repr

/-- `memcpy` to the start of the data bytes of a frame. -/
def copyData (data : Vector UInt8 CAN_MAX_DLEN) (bs : List UInt8) : Vector UInt8 CAN_MAX_DLEN :=
  Vector.ofFn fun i => bs.getD i.val data[i]

/-- One pass of the loop.  `writeBytes` is what `write` returns for the frame of
this pass. -/
def halComWriteStep (buffer : Nat → UInt8) (s : WriteState) (writeBytes : Int) :
    Step WriteState WriteResult :=
  let sendBytes := if s.left ≤ CAN_MAX_DLEN then s.left else CAN_MAX_DLEN
  let frame := { s.frame with
    data := copyData s.frame.data (slice buffer s.sendTotalBytes sendBytes)
    canDlc := UInt8.ofNat sendBytes }
  let sent := s.sent ++ [frame]
  if writeBytes ≠ canFrameSize then .done { ret := HAL_ERR_SEND_ERROR, ctx := s.ctx, sent }
  else
    let left := s.left - sendBytes
    if left ≠ 0 then
      .again
        { ctx := s.ctx, frame, left, sendTotalBytes := s.sendTotalBytes + sendBytes, sent }
    else .done { ret := HAL_SUCCESS, ctx := s.ctx, sent }

/-- `hal_com_write` on the `len` bytes of `buffer`.  `stack` is what the memory
of the local `frame` held on entry, and `writes` are the results of `write`. -/
def halComWrite (ctx : HalComCtx) (stack : CanFrame) (buffer : Nat → UInt8) (len : Nat)
    (writes : List Int) : Step WriteState WriteResult × List Int :=
  if len = 0 then (.done { ret := 0, ctx, sent := [] }, writes)
  else
    run (halComWriteStep buffer)
      { ctx
        frame := { stack with canId := ctx.currentCanId }
        left := len
        sendTotalBytes := 0
        sent := [] }
      writes

/-! ## Reading -/

/-- What a call of `read` on the socket gives. -/
inductive ReadAnswer where
  /-- A negative result. -/
  | error
  /-- The result 0. -/
  | empty
  /-- A whole frame. -/
  | frame (f : BusFrame)
deriving DecidableEq, Repr

/-- What a call of `poll` gives, with the answer of the `read` that follows a
reported input. -/
inductive PollAnswer where
  /-- A negative result. -/
  | fail
  /-- The result 0. -/
  | timeout
  /-- A positive result without `POLLIN` in `revents`. -/
  | noInput
  /-- A positive result with `POLLIN`, and the answer of `read`. -/
  | input (r : ReadAnswer)
deriving DecidableEq, Repr

/-- The frame that an answer takes from the socket. -/
def ReadAnswer.frame? : ReadAnswer → Option BusFrame
  | .frame f => some f
  | _ => none

/-- The frame that an answer takes from the socket. -/
def PollAnswer.frame? : PollAnswer → Option BusFrame
  | .input r => r.frame?
  | _ => none

/-- The local variables of a read loop, with the objects behind its arguments.
`left` is a `ssize_t` and wraps around.  `readTotalBytes` is used as an offset of
`buffer` and as a `size_t`, and it stays below the range of both.  `len` is the object
behind the argument of that name, which the loop leaves alone. -/
structure ReadState where
  ctx : HalComCtx
  buffer : Region UInt8
  left : Int
  readTotalBytes : Nat
  len : Nat

/-- The return value of a read function, with the objects behind its arguments. -/
structure ReadResult where
  ret : Int
  ctx : HalComCtx
  buffer : Region UInt8
  len : Nat

/-- The part of the loop body after a frame was read.  The sources compute
`read_bytes` from `left` first, with the bound `CAN_MAX_DLEN`, and then assign
`frame.can_dlc` to it before it is used. -/
def ReadState.accept (dm : DataModel) (s : ReadState) (f : BusFrame) : ReadState :=
  { s with
    ctx := { s.ctx with currentCanId := f.canId }
    buffer := s.buffer.store s.readTotalBytes f.payload
    left := dm.wrapSsize (s.left - f.dlc)
    readTotalBytes := s.readTotalBytes + f.dlc }

/-- The end of a read function after the loop. -/
def ReadState.finish (dm : DataModel) (s : ReadState) : ReadResult :=
  { ret := 0, ctx := s.ctx, buffer := s.buffer, len := dm.toSize s.readTotalBytes }

/-- The jump to `finish` with an error code, which skips the update of `*len`. -/
def ReadState.abort (s : ReadState) (code : Int) : ReadResult :=
  { ret := code, ctx := s.ctx, buffer := s.buffer, len := s.len }

/-- The condition of the `do` loop.  A `continue` goes here too. -/
def ReadState.next (dm : DataModel) (s : ReadState) : Step ReadState ReadResult :=
  if 0 < s.left then .again s else .done (s.finish dm)

def halComReadStep (dm : DataModel) (s : ReadState) : ReadAnswer → Step ReadState ReadResult
  | .error => s.next dm
  | .empty => s.next dm
  | .frame f => (s.accept dm f).next dm

def halComReadTimeoutStep (dm : DataModel) (s : ReadState) :
    PollAnswer → Step ReadState ReadResult
  | .fail => .done (s.abort HAL_ERR_FILE_IOCTL)
  | .timeout => .done (s.finish dm)
  | .noInput => s.next dm
  | .input .error => s.next dm
  | .input .empty => s.next dm
  | .input (.frame f) => (s.accept dm f).next dm

/-- The local variables at the start of a read loop. -/
def readStart (dm : DataModel) (ctx : HalComCtx) (buffer : Region UInt8) (len : Nat) : ReadState :=
  { ctx, buffer, left := dm.toSsize len, readTotalBytes := 0, len }

/-- `hal_com_read`.  `sockopt` is the result of `setsockopt`, and `reads` are
the results of `read`. -/
def halComRead (dm : DataModel) (ctx : HalComCtx) (buffer : Region UInt8) (len : Nat)
    (sockopt : Int) (reads : List ReadAnswer) : Step ReadState ReadResult × List ReadAnswer :=
  if len = 0 then (.done { ret := 0, ctx, buffer, len }, reads)
  else if sockopt < 0 then
    (.done { ret := HAL_ERR_FILE_IOCTL, ctx, buffer, len }, reads)
  else run (halComReadStep dm) (readStart dm ctx buffer len) reads

/-- `hal_com_read_timeout`.  `polls` are the results of `poll` and `read`.  The
argument `timeout_usec` only goes to `poll`. -/
def halComReadTimeout (dm : DataModel) (ctx : HalComCtx) (buffer : Region UInt8) (len : Nat)
    (sockopt : Int) (polls : List PollAnswer) : Step ReadState ReadResult × List PollAnswer :=
  if len = 0 then (.done { ret := 0, ctx, buffer, len }, polls)
  else if sockopt < 0 then
    (.done { ret := HAL_ERR_FILE_IOCTL, ctx, buffer, len }, polls)
  else run (halComReadTimeoutStep dm) (readStart dm ctx buffer len) polls

end CanbusAgent.HalCom

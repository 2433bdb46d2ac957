import CanbusAgent.HalCom.Read
import CanbusAgent.HalCom.Write

/-!
# Messages from a sender to a receiver

A sender gives each message its id with `hal_com_set_portnum` and cuts it into
frames with `hal_com_write`.  A receiver that asks for the lengths of the
messages in turn gets them back one by one: the frames of a message bring the
total exactly to its length, and only the last one does, so every read stops on
the last frame of its message.

The bus between the two delivers the frames that were passed to `write` once
and in order.  It is an equation between the list of sent frames and the frames
among the answers of the receiver's socket.
-/

namespace CanbusAgent.HalCom

open Chunks DrivenLoop Region

/-- One message, with what its sender and its receiver meet on their side. -/
structure Exchange where
  port : Int32
  /-- The buffer of the sender. -/
  message : Nat → UInt8
  len : Nat
  /-- What the memory of the sender's local `frame` held on entry. -/
  stack : CanFrame
  /-- The results of `write`. -/
  writes : List Int
  /-- The buffer of the receiver. -/
  target : Nat → UInt8
  /-- The result of `setsockopt`. -/
  sockopt : Int

namespace Exchange

/-- The bytes of the message. -/
def bytes (x : Exchange) : List UInt8 := slice x.message 0 x.len

/-- The message is not empty, its length is an `ssize_t`, and the calls of
`write` and `setsockopt` succeed. -/
structure Fair (dm : DataModel) (x : Exchange) : Prop where
  pos : 0 < x.len
  le_max : x.len ≤ dm.SSIZE_MAX
  whole : ∀ w ∈ x.writes, w = canFrameSize
  enough : x.len ≤ CAN_MAX_DLEN * x.writes.length
  sockopt : 0 ≤ x.sockopt

end Exchange

/-- The frames that a sender passes to `write` when it sends the messages in
turn. -/
def transmit : HalComCtx → List Exchange → List CanFrame
  | _, [] => []
  | ctx, x :: xs =>
    let ctx := (halComSetPortnum ctx x.port).2
    sentBy (halComWrite ctx x.stack x.message x.len x.writes).1 ++ transmit ctx xs

/-- The results of the calls of a receiver that reads the messages in turn with
the function `call`.  The answers that one call does not take are left to the
next. -/
def receive {α : Type}
    (call : HalComCtx → Region UInt8 → Nat → Int → List α → Step ReadState ReadResult × List α) :
    HalComCtx → List Exchange → List α → List ReadResult
  | _, [], _ => []
  | ctx, x :: xs, answers =>
    match call ctx (fresh x.target) x.len x.sockopt answers with
    | (.again _, _) => []
    | (.done r, rest) => r :: receive call r.ctx xs rest

/-- The call of the receiver for a message returned this message: nothing is
stored outside its length, and its id is what `hal_com_get_portnum` reports. -/
structure Received (x : Exchange) (r : ReadResult) : Prop where
  ret : r.ret = 0
  bytes : r.buffer.bytes = overlay x.target 0 x.bytes
  stores : r.buffer.StoresBelow x.len
  len : r.len = x.len
  port : halComGetPortnum r.ctx = (HAL_SUCCESS, x.port)

/-! ## The frames of one message -/

/-- Frames on the bus that are the frames of a message hold its bytes, and the
last one is the one that reaches its length. -/
theorem Carries.reaches {id : UInt32} {msg : List UInt8} {fs : List BusFrame}
    (h : Carries id msg (fs.map (·.toCanFrame))) (hpos : 0 < msg.length)
    (hall : msg.length ≤ CAN_MAX_DLEN * fs.length)
    (hlast : CAN_MAX_DLEN * fs.length < msg.length + CAN_MAX_DLEN) :
    ∃ init f, fs = init ++ [f] ∧ Reaches BusFrame.dlc msg.length init f ∧
      dataBytes (init ++ [f]) = msg ∧ f.canId = id := by
  have hdata : ∀ gs : List BusFrame,
      dataBytes gs = ((gs.map (·.toCanFrame)).map (·.payload)).flatten := by
    intro gs
    rw [dataBytes, List.map_map, List.flatMap_def]
    rfl
  have hmsg : dataBytes fs = msg := by
    rw [hdata, h.flatten, List.length_map, List.take_of_length_le hall]
  rcases List.eq_nil_or_concat fs with rfl | ⟨init, f, rfl⟩
  · rw [List.length_nil] at hall
    omega
  rw [List.concat_eq_append] at *
  refine ⟨init, f, rfl, ?_, hmsg, h.canId _ (by simp)⟩
  -- without the last frame at least one byte is missing
  have hshort : dataLen init ≤ CAN_MAX_DLEN * init.length := by
    clear * -
    induction init with
    | nil => simp
    | cons g gs ih =>
      have hg : g.dlc ≤ CAN_MAX_DLEN := g.dlc_le
      rw [dataLen_cons, List.length_cons, Nat.mul_succ]
      omega
  have htotal : dataLen init + f.dlc = msg.length := by
    rw [← hmsg, dataBytes_length, dataLen_append, dataLen_cons, dataLen_nil, Nat.add_zero]
  rw [List.length_append, List.length_singleton, Nat.mul_add, Nat.mul_one] at hlast
  refine ⟨?_, ?_⟩
  · show dataLen init < msg.length
    omega
  · show msg.length ≤ dataLen init + f.dlc
    omega

/-- A result that delivers the frames of a message is the message. -/
theorem Delivered.received {dm : DataModel} {ctx : HalComCtx} {x : Exchange}
    {init : List BusFrame} {f : BusFrame} {r : ReadResult}
    (h : Delivered dm (readStart dm ctx (fresh x.target) x.len) (init ++ [f]) r)
    (hx : x.Fair dm) (hmsg : dataBytes (init ++ [f]) = x.bytes) (hid : f.canId = x.port.toUInt32) :
    Received x r where
  ret := h.ret
  bytes := by
    rw [h.bytes, hmsg]
    rfl
  stores := by
    rw [h.stores, ← dataBytes_length, hmsg, Exchange.bytes, slice_length]
    exact ⟨Nat.le_refl _, by simp [readStart, fresh, StoresBelow]⟩
  len := by
    have hmax := hx.le_max
    rw [h.len, ← dataBytes_length, hmsg, Exchange.bytes, slice_length,
      DataModel.toSize_of_le_add (by omega)]
  port := by
    rw [halComGetPortnum, h.ctx, lastId_append_singleton, hid, Int32.toInt32_toUInt32]

/-! ## Frames on the bus -/

/-- A frame as it goes over the bus. -/
def busFrame? (f : CanFrame) : Option BusFrame :=
  if h : f.canDlc.toNat ≤ CAN_MAX_DLEN then some { f with dlc_le := h } else none

theorem busFrame?_eq {f : CanFrame} (h : f.canDlc.toNat ≤ CAN_MAX_DLEN) :
    busFrame? f = some { f with dlc_le := h } := dif_pos h

/-- The socket of the receiver gives the frames of the sender. -/
theorem framesRead_busFrame? {fs : List CanFrame} (h : ∀ f ∈ fs, f.canDlc.toNat ≤ CAN_MAX_DLEN) :
    (framesRead ((fs.filterMap busFrame?).map .frame)).map (·.toCanFrame) = fs := by
  induction fs with
  | nil => rfl
  | cons f fs ih =>
    obtain ⟨hf, hfs⟩ := List.forall_mem_cons.mp h
    rw [List.filterMap_cons_some (busFrame?_eq hf)]
    exact congrArg (f :: ·) (ih hfs)

/-! ## All messages -/

/-- The induction over the messages, for a read function that delivers what
arrives. -/
theorem receive_transmit {α : Type} {dm : DataModel}
    {call : HalComCtx → Region UInt8 → Nat → Int → List α → Step ReadState ReadResult × List α}
    {frames : List α → List BusFrame} (hcall : Delivers dm call frames) {xs : List Exchange}
    (hxs : ∀ x ∈ xs, x.Fair dm) (sender receiver : HalComCtx) (answers : List α)
    (hbus : (frames answers).map (·.toCanFrame) = transmit sender xs) :
    List.Forall₂ Received xs (receive call receiver xs answers) := by
  induction xs generalizing sender receiver answers with
  | nil => exact .nil
  | cons x xs ih =>
    have hx := hxs x List.mem_cons_self
    obtain ⟨w, _, hwrite, _, hcarries, hall, hlast⟩ :=
      halComWrite_sends (halComSetPortnum sender x.port).2 x.stack x.message hx.pos hx.whole
        hx.enough
    rw [transmit, hwrite] at hbus
    obtain ⟨fs, gs, hframes, hfs, hgs⟩ := List.map_eq_append_iff.mp hbus
    have hcount : w.sent.length = fs.length := by
      rw [← List.length_map (fun f : BusFrame => f.toCanFrame), hfs]
      rfl
    have hbytes : (slice x.message 0 x.len).length = x.len := slice_length _ _ _
    rw [hcount] at hall hlast
    have hcarries' : Carries x.port.toUInt32 x.bytes (fs.map (·.toCanFrame)) := by
      rw [hfs]
      exact hcarries
    obtain ⟨init, f, rfl, hreach, hmsg, hid⟩ := hcarries'.reaches
      (by rw [Exchange.bytes, hbytes]; exact hx.pos) (by rw [Exchange.bytes, hbytes]; exact hall)
      (by rw [Exchange.bytes, hbytes]; exact hlast)
    rw [Exchange.bytes, hbytes] at hreach
    rw [List.append_assoc, List.singleton_append] at hframes
    obtain ⟨r, rest, hr, hrest, hdel⟩ := hcall receiver (fresh x.target) x.len x.sockopt answers
      init gs f hx.le_max hx.sockopt hframes hreach
    have hnext := ih (fun y hy => hxs y (List.mem_cons_of_mem x hy))
      (halComSetPortnum sender x.port).2 r.ctx rest (by rw [hrest]; exact hgs)
    rw [receive, hr]
    exact .cons (hdel.received hx hmsg hid) hnext

/-- Fragmentation and reassembly keep the boundaries of messages.  Whatever
failed or empty reads come between the frames, the calls of the receiver return
the messages one by one, each with its own id. -/
theorem receive_messages (dm : DataModel) (xs : List Exchange) (hxs : ∀ x ∈ xs, x.Fair dm)
    (sender receiver : HalComCtx) :
    (∀ reads : List ReadAnswer, (framesRead reads).map (·.toCanFrame) = transmit sender xs →
      List.Forall₂ Received xs (receive (halComRead dm) receiver xs reads)) ∧
    (∀ polls : List PollAnswer,
      (framesPolled (beforeStop polls)).map (·.toCanFrame) = transmit sender xs →
      List.Forall₂ Received xs (receive (halComReadTimeout dm) receiver xs polls)) :=
  ⟨fun reads => receive_transmit (halComRead_delivers dm) hxs sender receiver reads,
    fun polls => receive_transmit (halComReadTimeout_delivers dm) hxs sender receiver polls⟩

/-- A message of nine bytes and one of a single byte. -/
def twoExchanges : List Exchange :=
  [{ port := 7, message := fun i => UInt8.ofNat i, len := 9, stack := (dataFrame 0 0 0).toCanFrame,
     writes := [16, 16], target := fun _ => 0, sockopt := 0 },
   { port := -1, message := fun _ => 0xaa, len := 1, stack := (dataFrame 0 0 0).toCanFrame,
     writes := [16], target := fun _ => 0, sockopt := 0 }]

/-- The frames of `twoExchanges` on the bus. -/
def twoExchangesFrames : List BusFrame :=
  [{ canId := 7, canDlc := 8, pad := 0, res0 := 0, res1 := 0,
     data := ⟨#[0, 1, 2, 3, 4, 5, 6, 7], rfl⟩, dlc_le := by decide },
   { canId := 7, canDlc := 1, pad := 0, res0 := 0, res1 := 0,
     data := ⟨#[8, 1, 2, 3, 4, 5, 6, 7], rfl⟩, dlc_le := by decide },
   { canId := 0xffffffff, canDlc := 1, pad := 0, res0 := 0, res1 := 0,
     data := ⟨#[0xaa, 0, 0, 0, 0, 0, 0, 0], rfl⟩, dlc_le := by decide }]

theorem receive_messages_two :
    List.Forall₂ Received twoExchanges
        (receive (halComRead .ilp32) (openCtx 0) twoExchanges
          (.error :: twoExchangesFrames.map .frame)) ∧
      List.Forall₂ Received twoExchanges
        (receive (halComReadTimeout .ilp32) (openCtx 0) twoExchanges
          (.noInput :: twoExchangesFrames.map fun f => .input (.frame f))) := by
  have hfair : ∀ x ∈ twoExchanges, x.Fair .ilp32 := by
    intro x hx
    rcases List.mem_cons.mp hx with rfl | hx
    · exact ⟨by decide, by decide, by decide, by decide, by decide⟩
    · rw [List.mem_singleton.mp hx]
      exact ⟨by decide, by decide, by decide, by decide, by decide⟩
  exact ⟨(receive_messages .ilp32 twoExchanges hfair (openCtx 0) (openCtx 0)).1 _ (by decide),
    (receive_messages .ilp32 twoExchanges hfair (openCtx 0) (openCtx 0)).2 _ (by decide)⟩

end CanbusAgent.HalCom

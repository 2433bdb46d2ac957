import CanbusAgent.HalCom.Transfer
import CanbusAgent.ProvMsg.Truncation

/-!
# Requests over the bus

A sender packs each request in place with `prov_msg_pack_req` and passes the packed bytes
to `hal_com_write`.  A receiver reads as many bytes and depacks them where they lie.
The transport keeps the boundaries of messages (`receive_transmit`), so each call of
`prov_msg_depack_req` finds exactly one packed request, and no request changes another
one.

The header holds a pointer, so its length depends on the data model: both ends have
the same one here.
-/

namespace CanbusAgent.ProvMsg

open HalCom Region

/-- A request, with what its sender and its receiver meet on their side. -/
structure Request where
  port : Int32
  crypto : UInt32
  crc : UInt32
  /-- The buffer of the sender, with the payload at its start. -/
  payload : Nat → UInt8
  len : Nat
  /-- What `prov_msg_pack_req` meets. -/
  env : PackEnv
  /-- What the memory of the local `frame` of `hal_com_write` held on entry. -/
  stack : CanFrame
  /-- The results of `write`. -/
  writes : List Int
  /-- The buffer of the receiver. -/
  target : Nat → UInt8
  /-- The result of `setsockopt`. -/
  sockopt : Int

namespace Request

/-- The call of `prov_msg_pack_req`. -/
def packed (dm : DataModel) (q : Request) : Int × MsgArgs :=
  provMsgPackReq dm q.env q.crypto q.crc { payload := fresh q.payload, ioLen := q.len }

/-- The message that carries the request. -/
def exchange (dm : DataModel) (q : Request) : Exchange where
  port := q.port
  message := (q.packed dm).2.payload.bytes
  len := (q.packed dm).2.ioLen
  stack := q.stack
  writes := q.writes
  target := q.target
  sockopt := q.sockopt

/-- The payload is not empty and its length fits the field `payload_len`, the packed
length is an `ssize_t`, and there is memory for the temporary. -/
structure Packable (dm : DataModel) (q : Request) : Prop where
  pos : 0 < q.len
  lt : q.len < 2 ^ 32
  le_max : PROV_MSG_HEADER_LEN dm + q.len ≤ dm.SSIZE_MAX
  malloc : ∃ addr, q.env.malloc = some addr

/-- The calls of `write` and `setsockopt` succeed, too. -/
structure Fair (dm : DataModel) (q : Request) : Prop extends Packable dm q where
  whole : ∀ w ∈ q.writes, w = canFrameSize
  enough : PROV_MSG_HEADER_LEN dm + q.len ≤ CAN_MAX_DLEN * q.writes.length
  sockopt : 0 ≤ q.sockopt

end Request

/-- The result of a call of `prov_msg_depack_req` that gives a request back and reads the
bytes of its message only. -/
structure Restores (dm : DataModel) (q : Request) (d : Int × DepackArgs) : Prop where
  ret : d.1 = 0
  crypto : d.2.crypto = q.crypto
  crc : d.2.crc = q.crc
  ioLen : d.2.ioLen = q.len
  payload : slice d.2.payload.bytes 0 q.len = slice q.payload 0 q.len
  loads : d.2.payload.LoadsBelow (PROV_MSG_HEADER_LEN dm + q.len)

/-- The read of the receiver returned the message of the request, and depacking it gives
the request back. -/
structure Answered (dm : DataModel) (q : Request) (r : ReadResult) : Prop where
  ret : r.ret = 0
  len : r.len = PROV_MSG_HEADER_LEN dm + q.len
  port : halComGetPortnum r.ctx = (HAL_SUCCESS, q.port)
  depacked : ∀ crypto crc,
    Restores dm q (provMsgDepackReq dm (received r.buffer.bytes r.len crypto crc))

/-! ## One request -/

/-- A packed request: its bytes and its length. -/
theorem Request.packed_spec {dm : DataModel} {q : Request} (h : q.Packable dm) :
    ∃ addr, (q.packed dm).1 = 0 ∧ (q.packed dm).2.ioLen = PROV_MSG_HEADER_LEN dm + q.len ∧
      (q.packed dm).2.payload.bytes = overlay q.payload 0
        (packedBytes dm q.env.stack q.crypto q.crc addr (slice q.payload 0 q.len)) := by
  obtain ⟨addr, haddr⟩ := h.malloc
  have hpos := h.pos
  have hlt := h.lt
  have hmax := h.le_max
  have hmod := dm.SSIZE_MAX_lt
  obtain ⟨hret, hlen, hbytes⟩ := provMsgPackReq_eq dm q.crypto q.crc
    { payload := fresh q.payload, ioLen := q.len } (Nat.pos_iff_ne_zero.mp hpos) haddr
  refine ⟨addr, hret, ?_, hbytes⟩
  apply hlen.trans
  have hsmall : q.len % 2 ^ 32 = q.len := Nat.mod_eq_of_lt hlt
  rw [show MsgArgs.ioLen _ = q.len from rfl, hsmall, Nat.add_comm]
  exact DataModel.toSize_of_lt (by omega)

/-- The packed bytes at the start of the buffer. -/
theorem Request.slice_packed {dm : DataModel} {q : Request} (h : q.Packable dm) :
    ∃ addr, slice (q.packed dm).2.payload.bytes 0 (PROV_MSG_HEADER_LEN dm + q.len) =
      packedBytes dm q.env.stack q.crypto q.crc addr (slice q.payload 0 q.len) := by
  obtain ⟨addr, -, -, hpacked⟩ := q.packed_spec h
  refine ⟨addr, ?_⟩
  rw [hpacked]
  exact slice_overlay_of_length _ _ (by simp)

/-- The message that carries a fair request is a fair one. -/
theorem Request.exchange_fair {dm : DataModel} {q : Request} (h : q.Fair dm) :
    (q.exchange dm).Fair dm := by
  obtain ⟨_, -, hlen, -⟩ := q.packed_spec h.toPackable
  have hpos := h.pos
  refine ⟨?_, ?_, h.whole, ?_, h.sockopt⟩
  · show 0 < (q.packed dm).2.ioLen
    omega
  · show (q.packed dm).2.ioLen ≤ _
    rw [hlen]
    exact h.le_max
  · show (q.packed dm).2.ioLen ≤ _
    rw [hlen]
    exact h.enough

/-- A buffer that starts with a packed request gives it back. -/
theorem restores_of_packed {dm : DataModel} {q : Request} (h : q.Packable dm)
    {stack : Nat → UInt8} {addr : Nat} {m : Nat → UInt8}
    (hm : slice m 0 (PROV_MSG_HEADER_LEN dm + q.len) =
      packedBytes dm stack q.crypto q.crc addr (slice q.payload 0 q.len)) (crypto crc : UInt32) :
    Restores dm q
      (provMsgDepackReq dm (received m (PROV_MSG_HEADER_LEN dm + q.len) crypto crc)) := by
  have hpos := h.pos
  have hne : PROV_MSG_HEADER_LEN dm + q.len ≠ 0 := by omega
  rw [slice_add, Nat.zero_add, packedBytes] at hm
  obtain ⟨hheader, hpayload⟩ := List.append_inj hm (by simp)
  obtain ⟨_, _, hcrypto, hcrc, hpl⟩ := headerAt_packed dm stack q.crypto q.crc addr hheader
  rw [slice_length, Nat.mod_eq_of_lt h.lt] at hpl
  have hacc : Accepts dm m (PROV_MSG_HEADER_LEN dm + q.len) := by
    rw [accepts_packed_iff dm stack q.crypto q.crc addr hheader, slice_length,
      Nat.mod_eq_of_lt h.lt]
    omega
  have hloads := (loadsBelow_received dm m hne crypto crc (PROV_MSG_HEADER_LEN dm + q.len)).mpr
    ⟨by omega, fun _ => Or.inr (by rw [hpl])⟩
  have hdepack := provMsgDepackReq_of_accepts dm
    (received m (PROV_MSG_HEADER_LEN dm + q.len) crypto crc) hne hacc
  refine ⟨?_, ?_, ?_, ?_, ?_, hloads⟩
  all_goals rw [hdepack]
  · exact hcrypto
  · exact hcrc
  · exact hpl
  · show slice (overlay m 0 (slice m (PROV_MSG_HEADER_LEN dm)
      (headerAt dm m).payloadLen.toNat)) 0 q.len = _
    rw [hpl, slice_overlay_of_length _ _ (slice_length _ _ _), hpayload]

/-- The message of a request answers it. -/
theorem Request.answered {dm : DataModel} {q : Request} (h : q.Fair dm) {r : ReadResult}
    (hr : Received (q.exchange dm) r) : Answered dm q r := by
  obtain ⟨_, -, hlen, -⟩ := q.packed_spec h.toPackable
  obtain ⟨addr, hpacked⟩ := q.slice_packed h.toPackable
  have hrlen : r.len = PROV_MSG_HEADER_LEN dm + q.len := hr.len.trans hlen
  -- the receiver holds the packed bytes
  have hbytes : slice r.buffer.bytes 0 (PROV_MSG_HEADER_LEN dm + q.len) =
      packedBytes dm q.env.stack q.crypto q.crc addr (slice q.payload 0 q.len) := by
    have hmessage : (q.exchange dm).bytes =
        packedBytes dm q.env.stack q.crypto q.crc addr (slice q.payload 0 q.len) := by
      show slice (q.packed dm).2.payload.bytes 0 (q.packed dm).2.ioLen = _
      rw [hlen, hpacked]
    rw [hr.bytes, hmessage]
    exact slice_overlay_of_length _ _ (by simp)
  refine ⟨hr.ret, hrlen, hr.port, fun crypto crc => ?_⟩
  rw [hrlen]
  exact restores_of_packed h.toPackable hbytes crypto crc

/-! ## All requests -/

theorem answered_all {dm : DataModel} {qs : List Request} (hqs : ∀ q ∈ qs, q.Fair dm)
    {rs : List ReadResult} (h : List.Forall₂ Received (qs.map (·.exchange dm)) rs) :
    List.Forall₂ (Answered dm) qs rs := by
  induction qs generalizing rs with
  | nil =>
    cases h
    exact .nil
  | cons q qs ih =>
    obtain ⟨hq, hqs⟩ := List.forall_mem_cons.mp hqs
    rw [List.map_cons] at h
    cases h with
    | cons hr hrs => exact .cons (Request.answered hq hr) (ih hqs hrs)

/-- Requests keep their boundaries and their contents on the bus.  Whatever failed or empty
reads come between the frames, the receiver gets them back one by one from `hal_com_read`
as from `hal_com_read_timeout`, each with its id, its `crypto`, its `crc` and its payload. -/
theorem requests_transfer (dm : DataModel) (qs : List Request) (hqs : ∀ q ∈ qs, q.Fair dm)
    (sender receiver : HalComCtx) :
    (∀ reads : List ReadAnswer,
      (framesRead reads).map (·.toCanFrame) = transmit sender (qs.map (·.exchange dm)) →
      List.Forall₂ (Answered dm) qs
        (receive (halComRead dm) receiver (qs.map (·.exchange dm)) reads)) ∧
    (∀ polls : List PollAnswer,
      (framesPolled (beforeStop polls)).map (·.toCanFrame) =
        transmit sender (qs.map (·.exchange dm)) →
      List.Forall₂ (Answered dm) qs
        (receive (halComReadTimeout dm) receiver (qs.map (·.exchange dm)) polls)) := by
  have hfair : ∀ x ∈ qs.map (·.exchange dm), x.Fair dm := by
    intro x hx
    obtain ⟨q, hq, rfl⟩ := List.mem_map.mp hx
    exact Request.exchange_fair (hqs q hq)
  exact ⟨fun reads h => answered_all hqs
      (receive_transmit (halComRead_delivers dm) hfair sender receiver reads h),
    fun polls h => answered_all hqs
      (receive_transmit (halComReadTimeout_delivers dm) hfair sender receiver polls h)⟩

/-- A request of three bytes under id 7 and one of a single byte under id -1. -/
def twoRequests : List Request :=
  [{ port := 7, crypto := 1, crc := 0x6878f43a, payload := fun i => UInt8.ofNat i, len := 3,
     env := ⟨some 0x1000, fun _ => 0xcc⟩, stack := (dataFrame 0 0 0).toCanFrame,
     writes := List.replicate 5 canFrameSize, target := fun _ => 0, sockopt := 0 },
   { port := -1, crypto := 0, crc := 0, payload := fun _ => 0xaa, len := 1,
     env := ⟨some 0x1000, fun _ => 0⟩, stack := (dataFrame 0 0 0).toCanFrame,
     writes := List.replicate 5 canFrameSize, target := fun _ => 0, sockopt := 0 }]

/-- The frames of `twoRequests`. -/
def twoRequestsFrames : List CanFrame :=
  transmit (openCtx 0) (twoRequests.map (·.exchange .ilp32))

theorem requests_transfer_two :
    List.Forall₂ (Answered .ilp32) twoRequests
      (receive (halComRead .ilp32) (openCtx 0) (twoRequests.map (·.exchange .ilp32))
        (.error :: (twoRequestsFrames.filterMap busFrame?).map .frame)) := by
  have hfair : ∀ q ∈ twoRequests, q.Fair .ilp32 := by
    intro q hq
    rcases List.mem_cons.mp hq with rfl | hq
    · exact ⟨⟨by decide, by decide, by decide, ⟨_, rfl⟩⟩, by decide, by decide, by decide⟩
    · rw [List.mem_singleton.mp hq]
      exact ⟨⟨by decide, by decide, by decide, ⟨_, rfl⟩⟩, by decide, by decide, by decide⟩
  have hdlc : ∀ f ∈ twoRequestsFrames, f.canDlc.toNat ≤ CAN_MAX_DLEN := by decide
  exact (requests_transfer .ilp32 twoRequests hfair (openCtx 0) (openCtx 0)).1 _
    (framesRead_busFrame? hdlc)

end CanbusAgent.ProvMsg

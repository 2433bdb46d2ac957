import CanbusAgent.ProvMsg.Wire

/-!
# `prov_msg_pack_req` and `prov_msg_depack_req`

Both functions work in place on the buffer behind `payload` and use `*io_len`
as an argument and as a result.  The model passes these objects in and out.
`payload` is a `Region`, so the reads and writes of the buffer are part of the
result.

`provMsgPackReq_eq` and the two lemmas `provMsgDepackReq_of_accepts` and
`provMsgDepackReq_of_not_accepts` say what the functions do.  Nothing outside
this module unfolds them.
-/

namespace CanbusAgent.ProvMsg

open LittleEndian Region

/-- The objects behind the arguments `payload` and `io_len`. -/
structure MsgArgs where
  payload : Region UInt8
  ioLen : Nat

/-- The objects behind the arguments of `prov_msg_depack_req`. -/
structure DepackArgs extends MsgArgs where
  crypto : UInt32
  crc : UInt32

/-- What `prov_msg_pack_req` depends on besides its arguments. -/
structure PackEnv where
  /-- The address that `malloc` returned, or `none` for `NULL`. -/
  malloc : Option Nat
  /-- What the memory of the local struct `msg` held on entry. -/
  stack : Nat → UInt8

/-- `get_req_size`: an addition in `size_t`. -/
def getReqSize (dm : DataModel) (msg : ReqMsg) : Nat :=
  dm.toSize (msg.payloadLen.toNat + PROV_MSG_HEADER_LEN dm)

/-- The struct that `prov_msg_pack_req` fills.  The length is cut to 32 bits. -/
def packMsg (crypto crc : UInt32) (ioLen addr : Nat) : ReqMsg where
  magic := PROV_MSG_MAGIC
  version := PROV_MSG_VERSION 1
  crypto := crypto
  res := fun _ => 0
  crc := crc
  payloadLen := UInt32.ofNat ioLen
  payloadBuf := addr

def provMsgPackReq (dm : DataModel) (env : PackEnv) (crypto crc : UInt32) (args : MsgArgs) :
    Int × MsgArgs :=
  -- UTILS_CHECK_LEN leaves with ret = 0
  if args.ioLen = 0 then (0, args)
  else
    match env.malloc with
    | none => (HAL_ERR_MEM_ERROR, args)
    | some addr =>
      let (buffer, payload) := args.payload.load 0 args.ioLen
      let msg := packMsg crypto crc args.ioLen addr
      let payload := payload.store 0 (msg.header dm env.stack)
      let payload := payload.store (PROV_MSG_HEADER_LEN dm) buffer
      (0, { payload, ioLen := getReqSize dm msg })

def provMsgDepackReq (dm : DataModel) (args : DepackArgs) : Int × DepackArgs :=
  if args.ioLen = 0 then (0, args)
  else
    let (header, payload) := args.payload.load 0 (PROV_MSG_HEADER_LEN dm)
    let msg := ReqMsg.ofHeader dm header
    let args := { args with payload }
    if msg.magic ≠ PROV_MSG_MAGIC then (HAL_ERR_COM_MAGIC, args)
    else if msg.version ≠ PROV_MSG_VERSION 1 then (HAL_ERR_COM_VERSION, args)
    else if msg.payloadLen.toNat > args.ioLen then (HAL_ERR_BUFFER_TOO_SMALL, args)
    else
      (0, { crypto := msg.crypto
            crc := msg.crc
            ioLen := msg.payloadLen.toNat
            payload := payload.move 0 (PROV_MSG_HEADER_LEN dm) msg.payloadLen.toNat })

/-! ## What packing does -/

theorem provMsgPackReq_zero (dm : DataModel) (env : PackEnv) (crypto crc : UInt32)
    {args : MsgArgs} (h : args.ioLen = 0) :
    provMsgPackReq dm env crypto crc args = (0, args) := by
  unfold provMsgPackReq
  rw [if_pos h]

theorem provMsgPackReq_malloc_fails (dm : DataModel) {env : PackEnv} (crypto crc : UInt32)
    {args : MsgArgs} (hlen : args.ioLen ≠ 0) (hmalloc : env.malloc = none) :
    provMsgPackReq dm env crypto crc args = (HAL_ERR_MEM_ERROR, args) := by
  unfold provMsgPackReq
  rw [if_neg hlen, hmalloc]

/-- A call that returns 0 on a non-empty payload got its temporary. -/
theorem malloc_of_packReq (dm : DataModel) {env : PackEnv} {crypto crc : UInt32}
    {args : MsgArgs} (hlen : args.ioLen ≠ 0) (h : (provMsgPackReq dm env crypto crc args).1 = 0) :
    ∃ addr, env.malloc = some addr := by
  cases hnone : env.malloc with
  | none =>
    rw [provMsgPackReq_malloc_fails dm crypto crc hlen hnone] at h
    exact absurd h (show HAL_ERR_MEM_ERROR ≠ 0 by decide)
  | some addr => exact ⟨addr, rfl⟩

/-- The packed buffer: the header and the payload behind it. -/
def packedBytes (dm : DataModel) (stack : Nat → UInt8) (crypto crc : UInt32) (addr : Nat)
    (payload : List UInt8) : List UInt8 :=
  (packMsg crypto crc payload.length addr).header dm stack ++ payload

@[simp] theorem packedBytes_length (dm : DataModel) (stack : Nat → UInt8)
    (crypto crc : UInt32) (addr : Nat) (payload : List UInt8) :
    (packedBytes dm stack crypto crc addr payload).length =
      PROV_MSG_HEADER_LEN dm + payload.length := by
  simp [packedBytes]

/-- Packing puts the packed bytes at the start of the buffer.  The payload goes
through the temporary, so the shift by the header length loses nothing. -/
theorem provMsgPackReq_eq (dm : DataModel) {env : PackEnv} (crypto crc : UInt32)
    (args : MsgArgs) {addr : Nat} (hlen : args.ioLen ≠ 0) (hmalloc : env.malloc = some addr) :
    (provMsgPackReq dm env crypto crc args).1 = 0 ∧
      (provMsgPackReq dm env crypto crc args).2.ioLen =
        dm.toSize (args.ioLen % 2 ^ 32 + PROV_MSG_HEADER_LEN dm) ∧
      (provMsgPackReq dm env crypto crc args).2.payload.bytes =
        overlay args.payload.bytes 0
          (packedBytes dm env.stack crypto crc addr (slice args.payload.bytes 0 args.ioLen)) := by
  unfold provMsgPackReq
  rw [if_neg hlen, hmalloc]
  refine ⟨rfl, ?_, ?_⟩
  · show dm.toSize ((UInt32.ofNat args.ioLen).toNat + _) = _
    rw [UInt32.toNat_ofNat']
  · have happ := overlay_append args.payload.bytes 0
      ((packMsg crypto crc args.ioLen addr).header dm env.stack)
      (slice args.payload.bytes 0 args.ioLen)
    rw [ReqMsg.header_length, Nat.zero_add] at happ
    simpa [packedBytes] using happ

/-- Packing stays in the packed bytes. -/
theorem provMsgPackReq_below (dm : DataModel) {env : PackEnv} (crypto crc : UInt32)
    {args : MsgArgs} {addr bound : Nat} (hlen : args.ioLen ≠ 0) (hmalloc : env.malloc = some addr)
    (hbound : PROV_MSG_HEADER_LEN dm + args.ioLen ≤ bound) (hloads : args.payload.LoadsBelow bound)
    (hstores : args.payload.StoresBelow bound) :
    (provMsgPackReq dm env crypto crc args).2.payload.LoadsBelow bound ∧
      (provMsgPackReq dm env crypto crc args).2.payload.StoresBelow bound := by
  unfold provMsgPackReq
  rw [if_neg hlen, hmalloc]
  constructor
  · exact List.forall_mem_cons.mpr
      ⟨Span.below_iff.mpr (.inr (show 0 + args.ioLen ≤ bound by omega)), hloads⟩
  · refine storesBelow_store.mpr ⟨.inr ?_, storesBelow_store.mpr ⟨.inr ?_, hstores⟩⟩
    · rw [load_fst, slice_length]
      exact hbound
    · rw [ReqMsg.header_length]
      omega

/-! ## What depacking does -/

/-- The header that `prov_msg_depack_req` finds in the buffer. -/
def headerAt (dm : DataModel) (m : Nat → UInt8) : ReqMsg :=
  ReqMsg.ofHeader dm (slice m 0 (PROV_MSG_HEADER_LEN dm))

/-- The checks that `prov_msg_depack_req` makes, for a buffer and a received
length. -/
def Accepts (dm : DataModel) (m : Nat → UInt8) (n : Nat) : Prop :=
  (headerAt dm m).magic = PROV_MSG_MAGIC ∧ (headerAt dm m).version = PROV_MSG_VERSION 1 ∧
    (headerAt dm m).payloadLen.toNat ≤ n

instance (dm : DataModel) (m : Nat → UInt8) (n : Nat) : Decidable (Accepts dm m n) :=
  inferInstanceAs (Decidable (_ ∧ _ ∧ _))

theorem provMsgDepackReq_zero (dm : DataModel) {args : DepackArgs} (h : args.ioLen = 0) :
    provMsgDepackReq dm args = (0, args) := by
  unfold provMsgDepackReq
  rw [if_pos h]

/-- The checks of `prov_msg_depack_req` in the order in which it makes them. -/
private theorem provMsgDepackReq_eq (dm : DataModel) {args : DepackArgs} (hlen : args.ioLen ≠ 0) :
    provMsgDepackReq dm args =
      let payload := (args.payload.load 0 (PROV_MSG_HEADER_LEN dm)).2
      let msg := headerAt dm args.payload.bytes
      if msg.magic ≠ PROV_MSG_MAGIC then (HAL_ERR_COM_MAGIC, { args with payload })
      else if msg.version ≠ PROV_MSG_VERSION 1 then (HAL_ERR_COM_VERSION, { args with payload })
      else if msg.payloadLen.toNat > args.ioLen then
        (HAL_ERR_BUFFER_TOO_SMALL, { args with payload })
      else
        (0, { crypto := msg.crypto
              crc := msg.crc
              ioLen := msg.payloadLen.toNat
              payload := payload.move 0 (PROV_MSG_HEADER_LEN dm) msg.payloadLen.toNat }) := by
  unfold provMsgDepackReq
  rw [if_neg hlen]
  rfl

theorem provMsgDepackReq_of_accepts (dm : DataModel) (args : DepackArgs) (hlen : args.ioLen ≠ 0)
    (h : Accepts dm args.payload.bytes args.ioLen) :
    provMsgDepackReq dm args =
      (0, { crypto := (headerAt dm args.payload.bytes).crypto
            crc := (headerAt dm args.payload.bytes).crc
            ioLen := (headerAt dm args.payload.bytes).payloadLen.toNat
            payload := (args.payload.load 0 (PROV_MSG_HEADER_LEN dm)).2.move 0
              (PROV_MSG_HEADER_LEN dm) (headerAt dm args.payload.bytes).payloadLen.toNat }) := by
  obtain ⟨hmagic, hversion, hle⟩ := h
  have hfits : ¬ (headerAt dm args.payload.bytes).payloadLen.toNat > args.ioLen :=
    Nat.not_lt.mpr hle
  rw [provMsgDepackReq_eq dm hlen]
  simp only [hmagic, hversion, hfits, ne_eq, not_true_eq_false, if_false]

/-- Depacking stays in the message that it accepts. -/
theorem provMsgDepackReq_below (dm : DataModel) (args : DepackArgs) {bound : Nat}
    (hlen : args.ioLen ≠ 0) (h : Accepts dm args.payload.bytes args.ioLen)
    (hbound : PROV_MSG_HEADER_LEN dm + (headerAt dm args.payload.bytes).payloadLen.toNat ≤ bound)
    (hloads : args.payload.LoadsBelow bound) (hstores : args.payload.StoresBelow bound) :
    (provMsgDepackReq dm args).2.payload.LoadsBelow bound ∧
      (provMsgDepackReq dm args).2.payload.StoresBelow bound := by
  rw [provMsgDepackReq_of_accepts dm args hlen h]
  constructor
  · refine List.forall_mem_cons.mpr ⟨Span.below_iff.mpr (.inr hbound),
      List.forall_mem_cons.mpr ⟨Span.below_iff.mpr (.inr ?_), hloads⟩⟩
    show 0 + PROV_MSG_HEADER_LEN dm ≤ bound
    omega
  · refine storesBelow_store.mpr ⟨.inr ?_, hstores⟩
    rw [slice_length]
    omega

theorem provMsgDepackReq_of_not_accepts (dm : DataModel) (args : DepackArgs)
    (hlen : args.ioLen ≠ 0) (h : ¬ Accepts dm args.payload.bytes args.ioLen) :
    (provMsgDepackReq dm args).1 ≠ 0 ∧
      (provMsgDepackReq dm args).2 =
        { args with payload := (args.payload.load 0 (PROV_MSG_HEADER_LEN dm)).2 } := by
  rw [provMsgDepackReq_eq dm hlen]
  by_cases hmagic : (headerAt dm args.payload.bytes).magic = PROV_MSG_MAGIC
  · by_cases hversion : (headerAt dm args.payload.bytes).version = PROV_MSG_VERSION 1
    · have hlong : (headerAt dm args.payload.bytes).payloadLen.toNat > args.ioLen :=
        Nat.lt_of_not_le fun hle => h ⟨hmagic, hversion, hle⟩
      simp only [hmagic, hversion, hlong, ne_eq, not_true_eq_false, if_false, if_true]
      exact ⟨by decide, trivial⟩
    · simp only [hmagic, hversion, ne_eq, not_true_eq_false, not_false_eq_true, if_false,
        if_true]
      exact ⟨by decide, trivial⟩
  · simp only [hmagic, ne_eq, not_false_eq_true, if_true]
    exact ⟨by decide, trivial⟩

/-- `prov_msg_depack_req` returns 0 on a non-empty input exactly when its checks
pass. -/
theorem provMsgDepackReq_ret_iff (dm : DataModel) (args : DepackArgs) (hlen : args.ioLen ≠ 0) :
    (provMsgDepackReq dm args).1 = 0 ↔ Accepts dm args.payload.bytes args.ioLen := by
  by_cases h : Accepts dm args.payload.bytes args.ioLen
  · simp [provMsgDepackReq_of_accepts dm args hlen h, h]
  · simp [(provMsgDepackReq_of_not_accepts dm args hlen h).1, h]

/-- The start of a packed buffer is the header. -/
theorem slice_packed_header (dm : DataModel) (stack : Nat → UInt8) (crypto crc : UInt32)
    (addr : Nat) (m : Nat → UInt8) (payload : List UInt8) :
    slice (overlay m 0 (packedBytes dm stack crypto crc addr payload)) 0 (PROV_MSG_HEADER_LEN dm) =
      (packMsg crypto crc payload.length addr).header dm stack := by
  rw [slice_overlay_take _ _ _ (by simp), packedBytes, List.take_left' (by simp)]

/-- The first 36 bytes of a packed buffer are the fields, wherever `malloc` put
the temporary. -/
theorem slice_packed_fields (dm : DataModel) (stack : Nat → UInt8) (crypto crc : UInt32)
    (addr : Nat) (m : Nat → UInt8) (payload : List UInt8) :
    slice (overlay m 0 (packedBytes dm stack crypto crc addr payload)) 0 36 =
      (packMsg crypto crc payload.length 0).fields := by
  have hle := headerLen_ge dm
  rw [slice_overlay_take _ _ _ (by rw [packedBytes_length]; omega), packedBytes,
    List.take_append_of_le_length (by rw [ReqMsg.header_length]; exact hle), ReqMsg.header_eq,
    List.take_left' (ReqMsg.fields_length _)]
  rfl

/-- The payload lies behind the header. -/
theorem slice_packed_payload (dm : DataModel) (stack : Nat → UInt8) (crypto crc : UInt32)
    (addr : Nat) (m : Nat → UInt8) {payload : List UInt8} {n : Nat} (h : payload.length = n) :
    slice (overlay m 0 (packedBytes dm stack crypto crc addr payload)) (PROV_MSG_HEADER_LEN dm) n =
      payload := by
  have happ := overlay_append m 0 ((packMsg crypto crc payload.length addr).header dm stack) payload
  rw [ReqMsg.header_length, Nat.zero_add] at happ
  rw [packedBytes, ← happ, slice_overlay_of_length _ _ h]

/-- The header of a packed message, wherever it is found. -/
theorem headerAt_packed (dm : DataModel) (stack : Nat → UInt8) (crypto crc : UInt32) (addr : Nat)
    {payload : List UInt8} {m : Nat → UInt8}
    (h : slice m 0 (PROV_MSG_HEADER_LEN dm) =
      (packMsg crypto crc payload.length addr).header dm stack) :
    (headerAt dm m).magic = PROV_MSG_MAGIC ∧ (headerAt dm m).version = PROV_MSG_VERSION 1 ∧
      (headerAt dm m).crypto = crypto ∧ (headerAt dm m).crc = crc ∧
      (headerAt dm m).payloadLen.toNat = payload.length % 2 ^ 32 := by
  rw [headerAt, h, ReqMsg.header_eq, ReqMsg.ofHeader_append]
  exact ⟨rfl, rfl, rfl, rfl, UInt32.toNat_ofNat'⟩

/-- A buffer with the header of a packed message is accepted when as many bytes
were received as the payload has. -/
theorem accepts_packed_iff (dm : DataModel) (stack : Nat → UInt8) (crypto crc : UInt32)
    (addr : Nat) {payload : List UInt8} {m : Nat → UInt8}
    (h : slice m 0 (PROV_MSG_HEADER_LEN dm) =
      (packMsg crypto crc payload.length addr).header dm stack) (n : Nat) :
    Accepts dm m n ↔ payload.length % 2 ^ 32 ≤ n := by
  obtain ⟨hmagic, hversion, _, _, hpl⟩ := headerAt_packed dm stack crypto crc addr h
  simp only [Accepts, hmagic, hversion, hpl, true_and]

end CanbusAgent.ProvMsg

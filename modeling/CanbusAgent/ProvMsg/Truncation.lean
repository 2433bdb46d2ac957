import CanbusAgent.ProvMsg.Model

/-!
# Truncated messages

A receiver hands `prov_msg_depack_req` a buffer and the number of bytes that
arrived.  `Complete` says that these bytes hold a whole message.
`RejectsTruncated` says that one call looks at received bytes only and accepts
complete messages only.

The function reads the header before it looks at the received length, and its
length check compares `payload_len` alone with the received length.  The check
forgets the header, so a message that lost up to `PROV_MSG_HEADER_LEN` bytes
passes.  `rejectsTruncated_iff` is the exact condition under which a call is
safe.
-/

namespace CanbusAgent.ProvMsg

open LittleEndian Region

/-- The first `n` bytes of the buffer hold a whole message. -/
def Complete (dm : DataModel) (m : Nat → UInt8) (n : Nat) : Prop :=
  PROV_MSG_HEADER_LEN dm ≤ n ∧ (headerAt dm m).magic = PROV_MSG_MAGIC ∧
    (headerAt dm m).version = PROV_MSG_VERSION 1 ∧
    PROV_MSG_HEADER_LEN dm + (headerAt dm m).payloadLen.toNat ≤ n

instance (dm : DataModel) (m : Nat → UInt8) (n : Nat) : Decidable (Complete dm m n) :=
  inferInstanceAs (Decidable (_ ∧ _ ∧ _ ∧ _))

/-- The objects behind the arguments when `n` bytes were received into the
buffer `m`. -/
def received (m : Nat → UInt8) (n : Nat) (crypto crc : UInt32) : DepackArgs :=
  { payload := fresh m, ioLen := n, crypto, crc }

/-- A call on `n` received bytes reads no other byte, and it returns 0 only on a
complete message. -/
def RejectsTruncated (dm : DataModel) (m : Nat → UInt8) (n : Nat) (crypto crc : UInt32) : Prop :=
  (provMsgDepackReq dm (received m n crypto crc)).2.payload.LoadsBelow n ∧
    ((provMsgDepackReq dm (received m n crypto crc)).1 = 0 → Complete dm m n)

instance (dm : DataModel) (m : Nat → UInt8) (n : Nat) (crypto crc : UInt32) :
    Decidable (RejectsTruncated dm m n crypto crc) :=
  inferInstanceAs (Decidable (_ ∧ (_ → _)))

/-- The header is cut off, or the checks pass although the payload is cut off. -/
def Truncates (dm : DataModel) (m : Nat → UInt8) (n : Nat) : Prop :=
  n < PROV_MSG_HEADER_LEN dm ∨
    Accepts dm m n ∧ n < PROV_MSG_HEADER_LEN dm + (headerAt dm m).payloadLen.toNat

instance (dm : DataModel) (m : Nat → UInt8) (n : Nat) : Decidable (Truncates dm m n) :=
  inferInstanceAs (Decidable (_ ∨ _))

/-- What is read: the header always, and the payload behind it when the checks
pass. -/
theorem loadsBelow_received (dm : DataModel) (m : Nat → UInt8) {n : Nat} (hn : n ≠ 0)
    (crypto crc : UInt32) (bound : Nat) :
    (provMsgDepackReq dm (received m n crypto crc)).2.payload.LoadsBelow bound ↔
      PROV_MSG_HEADER_LEN dm ≤ bound ∧
        (Accepts dm m n → (headerAt dm m).payloadLen.toNat = 0 ∨
          PROV_MSG_HEADER_LEN dm + (headerAt dm m).payloadLen.toNat ≤ bound) := by
  have hpos : PROV_MSG_HEADER_LEN dm ≠ 0 := by
    have := headerLen_ge dm
    omega
  by_cases h : Accepts dm m n
  · rw [provMsgDepackReq_of_accepts dm (received m n crypto crc) hn h]
    simp [received, fresh, LoadsBelow, Span.below_iff, h, hpos, and_comm]
  · rw [(provMsgDepackReq_of_not_accepts dm (received m n crypto crc) hn h).2]
    simp [received, fresh, LoadsBelow, Span.below_iff, h, hpos]

/-- The exact condition under which a call is safe. -/
theorem rejectsTruncated_iff (dm : DataModel) (m : Nat → UInt8) {n : Nat} (hn : n ≠ 0)
    (crypto crc : UInt32) :
    RejectsTruncated dm m n crypto crc ↔ ¬ Truncates dm m n := by
  have hret := provMsgDepackReq_ret_iff dm (received m n crypto crc) hn
  unfold RejectsTruncated
  rw [loadsBelow_received dm m hn, hret, Truncates]
  constructor
  · rintro ⟨⟨hheader, _⟩, hcomplete⟩ (hshort | ⟨hacc, hcut⟩)
    · omega
    · have := (hcomplete hacc).2.2.2
      omega
  · intro h
    have hheader : PROV_MSG_HEADER_LEN dm ≤ n := Nat.not_lt.mp fun hlt => h (Or.inl hlt)
    have hwhole : Accepts dm m n →
        PROV_MSG_HEADER_LEN dm + (headerAt dm m).payloadLen.toNat ≤ n :=
      fun hacc => Nat.not_lt.mp fun hlt => h (Or.inr ⟨hacc, hlt⟩)
    exact ⟨⟨hheader, fun hacc => Or.inr (hwhole hacc)⟩,
      fun hacc => ⟨hheader, hacc.1, hacc.2.1, hwhole hacc⟩⟩

/-- A prefix of a packed message that reaches past the header is accepted as
soon as it is as long as the payload. -/
theorem accepts_prefix_iff (dm : DataModel) {env : PackEnv} (crypto crc : UInt32)
    {args : MsgArgs} {addr : Nat} (hlen : args.ioLen ≠ 0) (hmalloc : env.malloc = some addr)
    {m : Nat → UInt8} {k : Nat} (hk : PROV_MSG_HEADER_LEN dm ≤ k)
    (hm : ∀ i < k, m i = (provMsgPackReq dm env crypto crc args).2.payload.bytes i) :
    Accepts dm m k ↔ args.ioLen % 2 ^ 32 ≤ k := by
  have hbytes := (provMsgPackReq_eq dm crypto crc args hlen hmalloc).2.2
  have hslice : slice m 0 (PROV_MSG_HEADER_LEN dm) =
      (packMsg crypto crc (slice args.payload.bytes 0 args.ioLen).length addr).header dm
        env.stack := by
    have hcopy : slice m 0 (PROV_MSG_HEADER_LEN dm) =
        slice (provMsgPackReq dm env crypto crc args).2.payload.bytes 0
          (PROV_MSG_HEADER_LEN dm) := by
      apply slice_congr
      intro i hi
      rw [Nat.zero_add]
      exact hm i (by omega)
    rw [hcopy, hbytes, slice_packed_header]
  rw [accepts_packed_iff dm env.stack crypto crc addr hslice, slice_length]

/-- When depacking is safe against truncation.  A call on `n` received bytes is
safe exactly when the header arrived whole and the checks do not pass on a
payload that is cut off.  For a message that was just packed this means: the
first `k` bytes are rejected exactly when `k` reaches past the header and is
below the payload length, or the header that is found in the buffer behind a
shorter prefix fails the checks. -/
theorem depack_rejects_truncated (dm : DataModel) :
    (∀ (m : Nat → UInt8) (n : Nat) (crypto crc : UInt32), 0 < n →
      (RejectsTruncated dm m n crypto crc ↔ ¬ Truncates dm m n)) ∧
    (∀ (env : PackEnv) (crypto crc : UInt32) (args : MsgArgs) (addr : Nat) (m : Nat → UInt8)
      (k : Nat) (crypto₀ crc₀ : UInt32),
      env.malloc = some addr → args.ioLen ≠ 0 → 0 < k →
      (∀ i < k, m i = (provMsgPackReq dm env crypto crc args).2.payload.bytes i) →
      ((provMsgDepackReq dm (received m k crypto₀ crc₀)).1 ≠ 0 ↔
        if PROV_MSG_HEADER_LEN dm ≤ k then k < args.ioLen % 2 ^ 32 else ¬ Accepts dm m k)) := by
  refine ⟨fun m n crypto crc hn => rejectsTruncated_iff dm m (by omega) crypto crc, ?_⟩
  intro env crypto crc args addr m k crypto₀ crc₀ hmalloc hlen hk hm
  have hret := provMsgDepackReq_ret_iff dm (received m k crypto₀ crc₀)
    (show k ≠ 0 by omega)
  rw [ne_eq, hret]
  split_ifs with hheader
  · have hiff := accepts_prefix_iff dm crypto crc hlen hmalloc hheader hm
    rw [← Nat.not_le, ← hiff]
    rfl
  · rfl

/-- The buffer after a one-byte payload was packed. -/
def oneBytePacked : MsgArgs :=
  (provMsgPackReq .ilp32 ⟨some 0x1000, fun _ => 0⟩ 1 0x6878f43a
    ⟨fresh fun _ => 0xaa, 1⟩).2

/-- Both parts on the packed one-byte payload: all 37 bytes are safe, and the
36 bytes of the header are not rejected. -/
theorem depack_rejects_truncated_oneByte :
    RejectsTruncated .ilp32 oneBytePacked.payload.bytes 37 0 0 ∧
      ¬ (provMsgDepackReq .ilp32 (received oneBytePacked.payload.bytes 36 0 0)).1 ≠ 0 := by
  refine ⟨((depack_rejects_truncated .ilp32).1 _ 37 0 0 (by omega)).mpr ?_, ?_⟩
  · decide
  · rw [(depack_rejects_truncated .ilp32).2 ⟨some 0x1000, fun _ => 0⟩ 1
      0x6878f43a ⟨fresh fun _ => 0xaa, 1⟩ 0x1000 oneBytePacked.payload.bytes 36 0 0 rfl
      (by decide) (by decide) (fun _ _ => rfl)]
    decide

/-- The packed one-byte payload has 37 bytes.  When the last one, which is the
whole payload, was not received, the call returns 0 and reads it all the same. -/
theorem depack_accepts_truncated :
    oneBytePacked.ioLen = 37 ∧
      (provMsgDepackReq .ilp32 (received oneBytePacked.payload.bytes 36 0 0)).1 = 0 ∧
      ¬ RejectsTruncated .ilp32 oneBytePacked.payload.bytes 36 0 0 := by
  decide

end CanbusAgent.ProvMsg

import CanbusAgent.ProvMsg.Model

/-!
# Packing and depacking are inverse

On the 32-bit target the header is exactly the 36 bytes of the fields.  A
payload that was packed comes back with its `crypto` and `crc`, and packing
what was depacked restores a complete message with zero reserved words.

The bound `2 ^ 32` in the statements is the range of `size_t`: a buffer of
that capacity does not fit the address space.
-/

namespace CanbusAgent.ProvMsg

open LittleEndian Region

/-- A call of `prov_msg_pack_req` on the buffer `m` with an `n`-byte payload. -/
def pack (env : PackEnv) (crypto crc : UInt32) (m : Nat → UInt8) (n : Nat) : Int × MsgArgs :=
  provMsgPackReq .ilp32 env crypto crc { payload := fresh m, ioLen := n }

/-- A call of `prov_msg_depack_req` on the buffer `m` with `n` received bytes. -/
def depack (m : Nat → UInt8) (n : Nat) (crypto crc : UInt32) : Int × DepackArgs :=
  provMsgDepackReq .ilp32 { payload := fresh m, ioLen := n, crypto, crc }

/-- What a successful `pack` leaves behind. -/
theorem pack_spec {env : PackEnv} {addr : Nat} (hmalloc : env.malloc = some addr)
    (crypto crc : UInt32) (m : Nat → UInt8) {n : Nat} (hn : 0 < n) (hfit : n + 36 < 2 ^ 32) :
    (pack env crypto crc m n).1 = 0 ∧ (pack env crypto crc m n).2.ioLen = n + 36 ∧
      (pack env crypto crc m n).2.payload.bytes =
        overlay m 0 (packedBytes .ilp32 env.stack crypto crc addr (slice m 0 n)) := by
  obtain ⟨hret, hlen, hbytes⟩ := provMsgPackReq_eq .ilp32 crypto crc
    { payload := fresh m, ioLen := n } (by simpa using (by omega : n ≠ 0)) hmalloc
  refine ⟨hret, ?_, ?_⟩
  · apply hlen.trans
    have hmod : n % 2 ^ 32 = n := Nat.mod_eq_of_lt (by omega)
    show DataModel.toSize .ilp32 (n % 2 ^ 32 + 36) = n + 36
    rw [hmod, DataModel.toSize_of_lt (by rw [DataModel.sizeMod_ilp32]; exact hfit)]
  · exact hbytes

/-- What a successful `depack` leaves behind. -/
theorem depack_spec {m : Nat → UInt8} {l : Nat} (hl : 0 < l) (hacc : Accepts .ilp32 m l)
    (crypto₀ crc₀ : UInt32) :
    (depack m l crypto₀ crc₀).1 = 0 ∧
      (depack m l crypto₀ crc₀).2.crypto = (headerAt .ilp32 m).crypto ∧
      (depack m l crypto₀ crc₀).2.crc = (headerAt .ilp32 m).crc ∧
      (depack m l crypto₀ crc₀).2.ioLen = (headerAt .ilp32 m).payloadLen.toNat ∧
      (depack m l crypto₀ crc₀).2.payload.bytes =
        overlay m 0 (slice m 36 (headerAt .ilp32 m).payloadLen.toNat) := by
  have hne : l ≠ 0 := by omega
  rw [depack, provMsgDepackReq_of_accepts .ilp32
    { payload := fresh m, ioLen := l, crypto := crypto₀, crc := crc₀ } hne hacc]
  refine ⟨rfl, rfl, rfl, rfl, ?_⟩
  rw [move_bytes, load_bytes, headerLen_ilp32]
  rfl

/-- Depacking a packed payload gives the arguments of `pack` back. -/
theorem depack_pack {env : PackEnv} {addr : Nat} (hmalloc : env.malloc = some addr)
    (crypto crc : UInt32) (m : Nat → UInt8) {n l : Nat} (hn : 0 < n) (hfit : n + 36 < 2 ^ 32)
    (hl : n + 36 ≤ l) (crypto₀ crc₀ : UInt32) :
    let d := depack (pack env crypto crc m n).2.payload.bytes l crypto₀ crc₀
    d.1 = 0 ∧ d.2.crypto = crypto ∧ d.2.crc = crc ∧ d.2.ioLen = n ∧
      slice d.2.payload.bytes 0 n = slice m 0 n := by
  obtain ⟨_, _, hbytes⟩ := pack_spec hmalloc crypto crc m hn hfit
  have hheader := slice_packed_header .ilp32 env.stack crypto crc addr m (slice m 0 n)
  have hpayload := slice_packed_payload .ilp32 env.stack crypto crc addr m (slice_length m 0 n)
  rw [← hbytes] at hheader hpayload
  obtain ⟨_, _, hcrypto, hcrc, hpl⟩ := headerAt_packed .ilp32 env.stack crypto crc addr hheader
  have hmod : n % 2 ^ 32 = n := Nat.mod_eq_of_lt (by omega)
  rw [slice_length, hmod] at hpl
  have hacc : Accepts .ilp32 (pack env crypto crc m n).2.payload.bytes l := by
    rw [accepts_packed_iff .ilp32 env.stack crypto crc addr hheader, slice_length]
    omega
  obtain ⟨hret, hcrypto', hcrc', hioLen, hmove⟩ := depack_spec (by omega) hacc crypto₀ crc₀
  rw [hpl, ← headerLen_ilp32, hpayload] at hmove
  refine ⟨hret, hcrypto'.trans hcrypto, hcrc'.trans hcrc, hioLen.trans hpl, ?_⟩
  rw [hmove]
  exact slice_overlay_of_length _ _ (slice_length _ _ _)

/-- The fields that `pack` writes for a header that was read are the bytes that
it was read from. -/
theorem fields_packMsg_headerAt {m : Nat → UInt8} (addr : Nat)
    (hmagic : (headerAt .ilp32 m).magic = PROV_MSG_MAGIC)
    (hversion : (headerAt .ilp32 m).version = PROV_MSG_VERSION 1)
    (hres : ∀ i, (headerAt .ilp32 m).res i = 0) :
    (packMsg (headerAt .ilp32 m).crypto (headerAt .ilp32 m).crc
      (headerAt .ilp32 m).payloadLen.toNat addr).fields = slice m 0 36 := by
  have hfields := ReqMsg.fields_ofHeader .ilp32 (slice m 0 36) (by simp)
  rw [slice_take m 0 (Nat.le_refl 36)] at hfields
  rw [← hfields]
  show _ = (headerAt .ilp32 m).fields
  simp only [ReqMsg.fields, packMsg, hres, hmagic, hversion, UInt32.ofNat_toNat]

/-- Packing what was depacked restores a complete message whose reserved words
are zero. -/
theorem pack_depack {env : PackEnv} {addr : Nat} (hmalloc : env.malloc = some addr)
    {m : Nat → UInt8} {l : Nat} {crypto₀ crc₀ : UInt32} (hl : l < 2 ^ 32) (hl0 : 0 < l)
    (hret : (depack m l crypto₀ crc₀).1 = 0)
    (hwhole : 36 + (headerAt .ilp32 m).payloadLen.toNat ≤ l)
    (hres : ∀ i, (headerAt .ilp32 m).res i = 0)
    (hpos : 0 < (headerAt .ilp32 m).payloadLen.toNat) :
    let d := (depack m l crypto₀ crc₀).2
    let p := pack env d.crypto d.crc d.payload.bytes d.ioLen
    p.1 = 0 ∧ p.2.ioLen = 36 + (headerAt .ilp32 m).payloadLen.toNat ∧
      slice p.2.payload.bytes 0 (36 + (headerAt .ilp32 m).payloadLen.toNat) =
        slice m 0 (36 + (headerAt .ilp32 m).payloadLen.toNat) := by
  have hne : l ≠ 0 := by omega
  have hacc : Accepts .ilp32 m l :=
    (provMsgDepackReq_ret_iff .ilp32
      { payload := fresh m, ioLen := l, crypto := crypto₀, crc := crc₀ } hne).mp hret
  obtain ⟨_, hcrypto, hcrc, hioLen, hmove⟩ := depack_spec hl0 hacc crypto₀ crc₀
  have hmsg := fields_packMsg_headerAt addr hacc.1 hacc.2.1 hres
  generalize (headerAt .ilp32 m).payloadLen.toNat = pl at *
  have hshift : slice (overlay m 0 (slice m 36 pl)) 0 pl = slice m 36 pl :=
    slice_overlay_of_length _ _ (slice_length _ _ _)
  obtain ⟨hpret, hplen, hpbytes⟩ := pack_spec hmalloc (headerAt .ilp32 m).crypto
    (headerAt .ilp32 m).crc (overlay m 0 (slice m 36 pl)) hpos (by omega)
  simp only [hcrypto, hcrc, hioLen, hmove]
  refine ⟨hpret, by omega, ?_⟩
  have hpacked : packedBytes .ilp32 env.stack (headerAt .ilp32 m).crypto
      (headerAt .ilp32 m).crc addr (slice m 36 pl) = slice m 0 (36 + pl) := by
    rw [packedBytes, ReqMsg.header_ilp32, slice_length, hmsg, slice_add m 0 36, Nat.zero_add]
  rw [hpbytes, hshift, hpacked]
  exact slice_overlay_of_length _ _ (slice_length _ _ _)

/-- `prov_msg_pack_req` and `prov_msg_depack_req` are inverse on the 32-bit
target.  The first part is for every payload and every larger length that still
lies in the buffer, the second for every complete message with zero reserved
words that depacking accepts. -/
theorem pack_depack_inverse :
    (∀ (env : PackEnv) (addr : Nat) (crypto crc : UInt32) (m : Nat → UInt8) (n cap : Nat),
      env.malloc = some addr → 0 < n → n + PROV_MSG_HEADER_LEN .ilp32 ≤ cap → cap < 2 ^ 32 →
      (pack env crypto crc m n).1 = 0 ∧
      (pack env crypto crc m n).2.ioLen = n + PROV_MSG_HEADER_LEN .ilp32 ∧
      (∀ i, n + PROV_MSG_HEADER_LEN .ilp32 ≤ i →
        (pack env crypto crc m n).2.payload.bytes i = m i) ∧
      ∀ (l : Nat) (crypto₀ crc₀ : UInt32), n + PROV_MSG_HEADER_LEN .ilp32 ≤ l → l ≤ cap →
        let d := depack (pack env crypto crc m n).2.payload.bytes l crypto₀ crc₀
        d.1 = 0 ∧ d.2.crypto = crypto ∧ d.2.crc = crc ∧ d.2.ioLen = n ∧
          slice d.2.payload.bytes 0 n = slice m 0 n) ∧
    (∀ (env : PackEnv) (addr : Nat) (m : Nat → UInt8) (l : Nat) (crypto₀ crc₀ : UInt32),
      env.malloc = some addr → 0 < l → l < 2 ^ 32 → (depack m l crypto₀ crc₀).1 = 0 →
      PROV_MSG_HEADER_LEN .ilp32 + (headerAt .ilp32 m).payloadLen.toNat ≤ l →
      (∀ i, (headerAt .ilp32 m).res i = 0) → 0 < (headerAt .ilp32 m).payloadLen.toNat →
      let d := (depack m l crypto₀ crc₀).2
      let p := pack env d.crypto d.crc d.payload.bytes d.ioLen
      p.1 = 0 ∧
        p.2.ioLen = PROV_MSG_HEADER_LEN .ilp32 + (headerAt .ilp32 m).payloadLen.toNat ∧
        slice p.2.payload.bytes 0
            (PROV_MSG_HEADER_LEN .ilp32 + (headerAt .ilp32 m).payloadLen.toNat) =
          slice m 0 (PROV_MSG_HEADER_LEN .ilp32 + (headerAt .ilp32 m).payloadLen.toNat)) := by
  simp only [headerLen_ilp32]
  constructor
  · intro env addr crypto crc m n cap hmalloc hn hcap hcap32
    obtain ⟨hret, hlen, hbytes⟩ := pack_spec hmalloc crypto crc m hn (by omega)
    refine ⟨hret, hlen, ?_, ?_⟩
    · intro i hi
      rw [hbytes, overlay_of_ge]
      simp
      omega
    · intro l crypto₀ crc₀ hl _
      exact depack_pack hmalloc crypto crc m hn (by omega) hl crypto₀ crc₀
  · intro env addr m l crypto₀ crc₀ hmalloc hl0 hl hret hwhole hres hpos
    exact pack_depack hmalloc hl hl0 hret hwhole hres hpos

/-- The buffer after the payload `00 01 02` was packed. -/
def threeBytesPacked : Nat → UInt8 :=
  (pack ⟨some 0x1000, fun _ => 0xcc⟩ 1 0x6878f43a (fun i => UInt8.ofNat i) 3).2.payload.bytes

/-- Both parts on a payload of three bytes in a buffer of 40. -/
theorem pack_depack_inverse_threeBytes :
    slice (depack threeBytesPacked 40 0 0).2.payload.bytes 0 3 = [0, 1, 2] ∧
      (pack ⟨some 0x1000, fun _ => 0xcc⟩ (depack threeBytesPacked 39 0 0).2.crypto
        (depack threeBytesPacked 39 0 0).2.crc (depack threeBytesPacked 39 0 0).2.payload.bytes
        (depack threeBytesPacked 39 0 0).2.ioLen).1 = 0 := by
  constructor
  · have h := (pack_depack_inverse.1 ⟨some 0x1000, fun _ => 0xcc⟩ 0x1000 1 0x6878f43a
      (fun i => UInt8.ofNat i) 3 40 rfl (by decide) (by decide) (by decide)).2.2.2 40 0 0
      (by decide) (by decide)
    rw [threeBytesPacked, h.2.2.2.2]
    decide
  · exact (pack_depack_inverse.2 ⟨some 0x1000, fun _ => 0xcc⟩ 0x1000 threeBytesPacked 39 0 0 rfl
      (by decide) (by decide) (by decide) (by decide) (by decide) (by decide)).1

end CanbusAgent.ProvMsg

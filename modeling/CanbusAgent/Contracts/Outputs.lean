import CanbusAgent.PalCipher.Crc32
import CanbusAgent.PalCipher.Inverse
import CanbusAgent.ProvMsg.Truncation

/-!
# Calls that return 0

Whether a return value of 0 means that the outputs were produced.  The results
here compare two calls with equal inputs and different contents of the output
objects, of the stack and of the heap.

A call with a length of 0 is the exception.  `UTILS_CHECK_LEN` leaves with the
code 0 and nothing is written, so the outputs keep what they held before.  For
every other length the outputs are determined by the inputs.
-/

namespace CanbusAgent

open PalCipher ProvMsg Region

/-! ## Messages -/

/-- Two calls of `prov_msg_pack_req` on equal payloads leave equal lengths, equal
fields and equal payloads behind. -/
theorem packReq_determined (dm : DataModel) {env env' : PackEnv} (crypto crc : UInt32)
    {m m' : Nat → UInt8} {n : Nat} (hn : n ≠ 0) (hpayload : slice m 0 n = slice m' 0 n)
    (h : (provMsgPackReq dm env crypto crc ⟨fresh m, n⟩).1 = 0)
    (h' : (provMsgPackReq dm env' crypto crc ⟨fresh m', n⟩).1 = 0) :
    let r := (provMsgPackReq dm env crypto crc ⟨fresh m, n⟩).2
    let r' := (provMsgPackReq dm env' crypto crc ⟨fresh m', n⟩).2
    r.ioLen = r'.ioLen ∧
      slice r.payload.bytes 0 36 = slice r'.payload.bytes 0 36 ∧
      slice r.payload.bytes (PROV_MSG_HEADER_LEN dm) n =
        slice r'.payload.bytes (PROV_MSG_HEADER_LEN dm) n := by
  obtain ⟨addr, haddr⟩ := malloc_of_packReq dm hn h
  obtain ⟨addr', haddr'⟩ := malloc_of_packReq dm hn h'
  obtain ⟨_, hlen, hbytes⟩ := provMsgPackReq_eq dm crypto crc ⟨fresh m, n⟩ hn haddr
  obtain ⟨_, hlen', hbytes'⟩ := provMsgPackReq_eq dm crypto crc ⟨fresh m', n⟩ hn haddr'
  refine ⟨hlen.trans hlen'.symm, ?_, ?_⟩
  · rw [hbytes, hbytes', slice_packed_fields, slice_packed_fields, slice_length, slice_length]
  · rw [hbytes, hbytes', slice_packed_payload _ _ _ _ _ _ (slice_length _ _ _),
      slice_packed_payload _ _ _ _ _ _ (slice_length _ _ _)]
    exact hpayload

/-- A packed message is accepted with the same `crypto` and `crc`. -/
theorem packReq_accepted (dm : DataModel) {env : PackEnv} (crypto crc : UInt32)
    {m : Nat → UInt8} {n : Nat} (hn : n ≠ 0) (hcap : n + PROV_MSG_HEADER_LEN dm < dm.sizeMod)
    (h : (provMsgPackReq dm env crypto crc ⟨fresh m, n⟩).1 = 0) (crypto₀ crc₀ : UInt32) :
    let r := (provMsgPackReq dm env crypto crc ⟨fresh m, n⟩).2
    let d := provMsgDepackReq dm (received r.payload.bytes r.ioLen crypto₀ crc₀)
    d.1 = 0 ∧ d.2.crypto = crypto ∧ d.2.crc = crc := by
  obtain ⟨addr, haddr⟩ := malloc_of_packReq dm hn h
  obtain ⟨_, hlen, hbytes⟩ := provMsgPackReq_eq dm crypto crc ⟨fresh m, n⟩ hn haddr
  have hheader := slice_packed_header dm env.stack crypto crc addr m (slice m 0 n)
  change _ = overlay m 0 (packedBytes dm env.stack crypto crc addr (slice m 0 n)) at hbytes
  rw [← hbytes] at hheader
  obtain ⟨_, _, hcrypto, hcrc, _⟩ := headerAt_packed dm env.stack crypto crc addr hheader
  -- the length was cut to 32 bits, so it did not grow and the sum does not wrap
  have hmod : n % 2 ^ 32 ≤ n := Nat.mod_le n _
  have hge := headerLen_ge dm
  have hsize : dm.toSize (n % 2 ^ 32 + PROV_MSG_HEADER_LEN dm) =
      n % 2 ^ 32 + PROV_MSG_HEADER_LEN dm := DataModel.toSize_of_lt (by omega)
  have hioLen : (provMsgPackReq dm env crypto crc ⟨fresh m, n⟩).2.ioLen =
      n % 2 ^ 32 + PROV_MSG_HEADER_LEN dm := hlen.trans hsize
  have hacc : Accepts dm (provMsgPackReq dm env crypto crc ⟨fresh m, n⟩).2.payload.bytes
      (provMsgPackReq dm env crypto crc ⟨fresh m, n⟩).2.ioLen := by
    rw [accepts_packed_iff dm env.stack crypto crc addr hheader, hioLen, slice_length]
    omega
  have hne : (provMsgPackReq dm env crypto crc ⟨fresh m, n⟩).2.ioLen ≠ 0 := by
    rw [hioLen]
    omega
  intro r d
  have hd : d = _ :=
    provMsgDepackReq_of_accepts dm (received r.payload.bytes r.ioLen crypto₀ crc₀) hne hacc
  rw [hd]
  exact ⟨rfl, hcrypto, hcrc⟩

/-- Two calls of `prov_msg_depack_req` on buffers that agree on the received bytes
and on the bytes of the announced message. -/
theorem depackReq_determined (dm : DataModel) {m m' : Nat → UInt8} {n : Nat} (hn : n ≠ 0)
    (hagree : ∀ i < max n (PROV_MSG_HEADER_LEN dm + (headerAt dm m).payloadLen.toNat), m i = m' i)
    (crypto₀ crc₀ crypto₀' crc₀' : UInt32)
    (h : (provMsgDepackReq dm (received m n crypto₀ crc₀)).1 = 0) :
    let r := provMsgDepackReq dm (received m n crypto₀ crc₀)
    let r' := provMsgDepackReq dm (received m' n crypto₀' crc₀')
    r'.1 = 0 ∧ r.2.crypto = r'.2.crypto ∧ r.2.crc = r'.2.crc ∧ r.2.ioLen = r'.2.ioLen ∧
      slice r.2.payload.bytes 0 r.2.ioLen = slice r'.2.payload.bytes 0 r'.2.ioLen := by
  have hslice : slice m 0 (PROV_MSG_HEADER_LEN dm) = slice m' 0 (PROV_MSG_HEADER_LEN dm) :=
    slice_congr fun i hi => hagree _ (by omega)
  have hat : headerAt dm m' = headerAt dm m := by rw [headerAt, headerAt, hslice]
  have hacc : Accepts dm m n :=
    (provMsgDepackReq_ret_iff dm (received m n crypto₀ crc₀) hn).mp h
  have hacc' : Accepts dm m' n := by
    unfold Accepts
    rw [hat]
    exact hacc
  have hpayload : slice m (PROV_MSG_HEADER_LEN dm) (headerAt dm m).payloadLen.toNat =
      slice m' (PROV_MSG_HEADER_LEN dm) (headerAt dm m).payloadLen.toNat :=
    slice_congr fun i hi => hagree _ (by omega)
  have hmoved : ∀ m : Nat → UInt8, ∀ pl, slice (overlay m 0
      (slice m (PROV_MSG_HEADER_LEN dm) pl)) 0 pl = slice m (PROV_MSG_HEADER_LEN dm) pl := by
    intro m pl
    exact slice_overlay_of_length m 0 (slice_length _ _ _)
  intro r r'
  have hr : r = _ := provMsgDepackReq_of_accepts dm (received m n crypto₀ crc₀) hn hacc
  have hr' : r' = _ := provMsgDepackReq_of_accepts dm (received m' n crypto₀' crc₀') hn hacc'
  rw [hr, hr']
  dsimp only [received, fresh]
  rw [hat]
  refine ⟨rfl, rfl, rfl, rfl, ?_⟩
  rw [move_bytes, move_bytes, load_bytes, load_bytes]
  exact (hmoved m _).trans (hpayload.trans (hmoved m' _).symm)

/-! ## Ciphers -/

/-- Two calls of one direction on equal inputs. -/
theorem cbc_determined (dm : DataModel) {evp : Evp} {d : Direction evp} (hd : d.Reports)
    (hcode : d.failed ≠ 0) {malloc malloc' : Nat → Option (Nat → UInt8)}
    {input key iv : List UInt8} {io io' : CipherOut} (hne : input.length ≠ 0)
    (hlt : input.length < 2 ^ 32) (h : (cbc dm d malloc input key iv io).1 = 0)
    (h' : (cbc dm d malloc' input key iv io').1 = 0) :
    let r := (cbc dm d malloc input key iv io).2
    let r' := (cbc dm d malloc' input key iv io').2
    r.outLen = r'.outLen ∧ slice r.out.bytes 0 r.outLen = slice r'.out.bytes 0 r'.outLen := by
  obtain ⟨outBuf, hfill, hfit⟩ := (cbc_ret_iff dm d hcode malloc key iv io hne).mp h
  obtain ⟨outBuf', hfill', hfit'⟩ := (cbc_ret_iff dm d hcode malloc' key iv io' hne).mp h'
  obtain rfl := fillBuffer_unique dm hd hlt hfill hfill'
  rw [cbc_ok dm d malloc key iv io hne hfill hfit, cbc_ok dm d malloc' key iv io' hne hfill' hfit']
  refine ⟨rfl, ?_⟩
  exact (slice_overlay_self io.out.bytes 0 outBuf).trans
    (slice_overlay_self io'.out.bytes 0 outBuf).symm

/-! ## All five functions -/

/-- For every length but 0, what a call that returns 0 leaves behind is determined
by its inputs, and `prov_msg_depack_req` accepts a packed message with the same
`crypto` and `crc`.  A call with length 0 returns 0 and leaves the objects of the
caller as they were. -/
theorem outputs_determined (dm : DataModel) {evp : Evp} (hencrypt : (encrypting evp).Reports)
    (hdecrypt : (decrypting evp).Reports) :
    (∀ (buffer : List UInt8) (crc32Out crc32Out' : UInt32), buffer.length ≠ 0 →
      palCrc32 buffer crc32Out = palCrc32 buffer crc32Out') ∧
    (∀ (env env' : PackEnv) (crypto crc : UInt32) (m m' : Nat → UInt8) (n : Nat), n ≠ 0 →
      slice m 0 n = slice m' 0 n →
      (provMsgPackReq dm env crypto crc ⟨fresh m, n⟩).1 = 0 →
      (provMsgPackReq dm env' crypto crc ⟨fresh m', n⟩).1 = 0 →
      let r := (provMsgPackReq dm env crypto crc ⟨fresh m, n⟩).2
      let r' := (provMsgPackReq dm env' crypto crc ⟨fresh m', n⟩).2
      r.ioLen = r'.ioLen ∧
        slice r.payload.bytes 0 36 = slice r'.payload.bytes 0 36 ∧
        slice r.payload.bytes (PROV_MSG_HEADER_LEN dm) n =
          slice r'.payload.bytes (PROV_MSG_HEADER_LEN dm) n) ∧
    (∀ (env : PackEnv) (crypto crc : UInt32) (m : Nat → UInt8) (n : Nat) (crypto₀ crc₀ : UInt32),
      n ≠ 0 → n + PROV_MSG_HEADER_LEN dm < dm.sizeMod →
      (provMsgPackReq dm env crypto crc ⟨fresh m, n⟩).1 = 0 →
      let r := (provMsgPackReq dm env crypto crc ⟨fresh m, n⟩).2
      let d := provMsgDepackReq dm (received r.payload.bytes r.ioLen crypto₀ crc₀)
      d.1 = 0 ∧ d.2.crypto = crypto ∧ d.2.crc = crc) ∧
    (∀ (m m' : Nat → UInt8) (n : Nat) (crypto₀ crc₀ crypto₀' crc₀' : UInt32), n ≠ 0 →
      (∀ i < max n (PROV_MSG_HEADER_LEN dm + (headerAt dm m).payloadLen.toNat), m i = m' i) →
      (provMsgDepackReq dm (received m n crypto₀ crc₀)).1 = 0 →
      let r := provMsgDepackReq dm (received m n crypto₀ crc₀)
      let r' := provMsgDepackReq dm (received m' n crypto₀' crc₀')
      r'.1 = 0 ∧ r.2.crypto = r'.2.crypto ∧ r.2.crc = r'.2.crc ∧ r.2.ioLen = r'.2.ioLen ∧
        slice r.2.payload.bytes 0 r.2.ioLen = slice r'.2.payload.bytes 0 r'.2.ioLen) ∧
    (∀ (malloc malloc' : Nat → Option (Nat → UInt8)) (plainArray key iv : List UInt8)
      (io io' : CipherOut), plainArray.length ≠ 0 → plainArray.length < 2 ^ 32 →
      (palCipherEncryptCbc dm evp malloc plainArray key iv io).1 = 0 →
      (palCipherEncryptCbc dm evp malloc' plainArray key iv io').1 = 0 →
      let r := (palCipherEncryptCbc dm evp malloc plainArray key iv io).2
      let r' := (palCipherEncryptCbc dm evp malloc' plainArray key iv io').2
      r.outLen = r'.outLen ∧
        slice r.out.bytes 0 r.outLen = slice r'.out.bytes 0 r'.outLen) ∧
    (∀ (malloc malloc' : Nat → Option (Nat → UInt8)) (cipherArray key iv : List UInt8)
      (io io' : CipherOut), cipherArray.length ≠ 0 → cipherArray.length < 2 ^ 32 →
      (palCipherDecryptCbc dm evp malloc cipherArray key iv io).1 = 0 →
      (palCipherDecryptCbc dm evp malloc' cipherArray key iv io').1 = 0 →
      let r := (palCipherDecryptCbc dm evp malloc cipherArray key iv io).2
      let r' := (palCipherDecryptCbc dm evp malloc' cipherArray key iv io').2
      r.outLen = r'.outLen ∧
        slice r.out.bytes 0 r.outLen = slice r'.out.bytes 0 r'.outLen) ∧
    (∀ crc32Out : UInt32, palCrc32 [] crc32Out = (0, crc32Out)) ∧
    (∀ (env : PackEnv) (crypto crc : UInt32) (args : MsgArgs), args.ioLen = 0 →
      provMsgPackReq dm env crypto crc args = (0, args)) ∧
    (∀ args : DepackArgs, args.ioLen = 0 → provMsgDepackReq dm args = (0, args)) ∧
    (∀ (malloc : Nat → Option (Nat → UInt8)) (key iv : List UInt8) (io : CipherOut),
      palCipherEncryptCbc dm evp malloc [] key iv io = (0, io) ∧
        palCipherDecryptCbc dm evp malloc [] key iv io = (0, io)) := by
  refine ⟨?_, ?_, ?_, ?_, ?_, ?_, palCrc32_nil, ?_, ?_, ?_⟩
  · intro buffer crc32Out crc32Out' hne
    rw [palCrc32_of_ne hne, palCrc32_of_ne hne]
  · intro env env' crypto crc m m' n hn hpayload h h'
    exact packReq_determined dm crypto crc hn hpayload h h'
  · intro env crypto crc m n crypto₀ crc₀ hn hcap h
    exact packReq_accepted dm crypto crc hn hcap h crypto₀ crc₀
  · intro m m' n crypto₀ crc₀ crypto₀' crc₀' hn hagree h
    exact depackReq_determined dm hn hagree crypto₀ crc₀ crypto₀' crc₀' h
  · intro malloc malloc' plainArray key iv io io' hne hlt h h'
    exact cbc_determined dm hencrypt (encrypting_failed_ne evp) hne hlt h h'
  · intro malloc malloc' cipherArray key iv io io' hne hlt h h'
    exact cbc_determined dm hdecrypt (decrypting_failed_ne evp) hne hlt h h'
  · intro env crypto crc args hlen
    exact provMsgPackReq_zero dm env crypto crc hlen
  · intro args hlen
    exact provMsgDepackReq_zero dm hlen
  · intro malloc key iv io
    exact ⟨cbc_nil dm (encrypting evp) malloc key iv io rfl,
      cbc_nil dm (decrypting evp) malloc key iv io rfl⟩

/-- A payload of three bytes packed twice and depacked, and the test vector
encrypted and decrypted twice, with other bytes in every object and temporary. -/
theorem outputs_determined_twice :
    palCrc32 [0x61] 0 = palCrc32 [0x61] 7 ∧
    (provMsgPackReq .ilp32 ⟨some 0x1000, fun _ => 0xcc⟩ 1 2 ⟨fresh fun _ => 0xaa, 3⟩).2.ioLen =
      (provMsgPackReq .ilp32 ⟨some 0x2000, fun _ => 0⟩ 1 2
        ⟨fresh fun i => if i < 3 then 0xaa else 0, 3⟩).2.ioLen ∧
    (provMsgDepackReq .ilp32 (received (provMsgPackReq .ilp32 ⟨some 0x1000, fun _ => 0xcc⟩ 1 2
      ⟨fresh fun _ => 0xaa, 3⟩).2.payload.bytes 39 5 6)).2.crypto = 1 ∧
    (provMsgDepackReq .ilp32 (received (provMsgPackReq .ilp32 ⟨some 0x1000, fun _ => 0xcc⟩ 1 2
      ⟨fresh fun _ => 0xaa, 3⟩).2.payload.bytes 39 5 6)).2.crc =
      (provMsgDepackReq .ilp32 (received (provMsgPackReq .ilp32 ⟨some 0x1000, fun _ => 0xcc⟩ 1 2
        ⟨fresh fun _ => 0xaa, 3⟩).2.payload.bytes 39 7 8)).2.crc ∧
    (palCipherEncryptCbc .ilp32 (modelEvp testBlockCipher) (fun _ => some fun _ => 0xcc)
        aesTestText aesTestKey aesTestIv (roomFor 16)).2.outLen =
      (palCipherEncryptCbc .ilp32 (modelEvp testBlockCipher) (fun _ => some fun _ => 0)
        aesTestText aesTestKey aesTestIv (roomFor 20)).2.outLen ∧
    (palCipherDecryptCbc .ilp32 (modelEvp testBlockCipher) (fun _ => some fun _ => 0xcc)
        aesTestCipher aesTestKey aesTestIv (roomFor 16)).2.outLen =
      (palCipherDecryptCbc .ilp32 (modelEvp testBlockCipher) (fun _ => some fun _ => 0)
        aesTestCipher aesTestKey aesTestIv (roomFor 20)).2.outLen := by
  obtain ⟨hcrc32, hpack, haccepted, hdepack, hencrypt, hdecrypt, _⟩ :=
    outputs_determined .ilp32
      (model_reports testBlockCipher true (fun E iv bs => Cbc.encrypt_length E iv bs) rfl rfl)
      (model_reports testBlockCipher false (fun E iv bs => Cbc.decrypt_length E iv bs) rfl rfl)
  refine ⟨hcrc32 [0x61] 0 7 (by decide), ?_, ?_, ?_, ?_, ?_⟩
  · exact (hpack ⟨some 0x1000, fun _ => 0xcc⟩ ⟨some 0x2000, fun _ => 0⟩ 1 2 (fun _ => 0xaa)
      (fun i => if i < 3 then 0xaa else 0) 3 (by decide) (by decide) rfl rfl).1
  · exact (haccepted ⟨some 0x1000, fun _ => 0xcc⟩ 1 2 (fun _ => 0xaa) 3 5 6 (by omega)
      (by decide) rfl).2.1
  · exact (hdepack _ _ 39 5 6 7 8 (by decide) (fun _ _ => rfl) (by decide)).2.2.1
  · exact (hencrypt (fun _ => some fun _ => 0xcc) (fun _ => some fun _ => 0) aesTestText
      aesTestKey aesTestIv (roomFor 16) (roomFor 20) (by decide) (by decide) (by decide +kernel)
      (by decide +kernel)).1
  · exact (hdecrypt (fun _ => some fun _ => 0xcc) (fun _ => some fun _ => 0) aesTestCipher
      aesTestKey aesTestIv (roomFor 16) (roomFor 20) (by decide) (by decide) (by decide +kernel)
      (by decide +kernel)).1

/-- With length 0 two calls of `pal_crc32` return 0 and leave different values
behind. -/
theorem outputs_undetermined_zero :
    (palCrc32 [] 0).1 = 0 ∧ (palCrc32 [] 1).1 = 0 ∧ (palCrc32 [] 0).2 ≠ (palCrc32 [] 1).2 := by
  decide

end CanbusAgent

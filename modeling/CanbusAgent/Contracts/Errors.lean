import CanbusAgent.PalCipher.Inverse
import CanbusAgent.ProvMsg.Model

/-!
# Failed calls

The four functions that return an error code write their output objects only on
the way to a return value of 0.  `prov_msg_pack_req` can only fail before it
touches the buffer, `prov_msg_depack_req` makes all its checks before the shift,
and the cipher functions work in a buffer of their own and copy it out last.
So whatever fails, `malloc` and every EVP call included, the objects of the
caller are as before.
-/

namespace CanbusAgent

open PalCipher ProvMsg Region

/-- `prov_msg_pack_req` fails only when `malloc` does. -/
theorem provMsgPackReq_error (dm : DataModel) (env : PackEnv) (crypto crc : UInt32)
    (args : MsgArgs) (h : (provMsgPackReq dm env crypto crc args).1 ≠ 0) :
    (provMsgPackReq dm env crypto crc args).2 = args := by
  by_cases hlen : args.ioLen = 0
  · rw [provMsgPackReq_zero dm env crypto crc hlen]
  · cases hmalloc : env.malloc with
    | none => rw [provMsgPackReq_malloc_fails dm crypto crc hlen hmalloc]
    | some addr => exact absurd (provMsgPackReq_eq dm crypto crc args hlen hmalloc).1 h

/-- A message that is not accepted was only looked at. -/
theorem provMsgDepackReq_error (dm : DataModel) (args : DepackArgs)
    (h : (provMsgDepackReq dm args).1 ≠ 0) :
    (provMsgDepackReq dm args).2 =
      { args with payload := (args.payload.load 0 (PROV_MSG_HEADER_LEN dm)).2 } := by
  by_cases hlen : args.ioLen = 0
  · rw [provMsgDepackReq_zero dm hlen] at h
    exact absurd rfl h
  · rw [ne_eq, provMsgDepackReq_ret_iff dm args hlen] at h
    exact (provMsgDepackReq_of_not_accepts dm args hlen h).2

/-- Errors leave the data of the caller untouched.  A non-zero return value of
one of the four functions means that all its output objects hold the values from
before the call, and that nothing was stored in them. -/
theorem errors_leave_data (dm : DataModel) :
    (∀ (env : PackEnv) (crypto crc : UInt32) (args : MsgArgs),
      (provMsgPackReq dm env crypto crc args).1 ≠ 0 →
      (provMsgPackReq dm env crypto crc args).2 = args) ∧
    (∀ args : DepackArgs, (provMsgDepackReq dm args).1 ≠ 0 →
      (provMsgDepackReq dm args).2.payload.bytes = args.payload.bytes ∧
      (provMsgDepackReq dm args).2.payload.stores = args.payload.stores ∧
      (provMsgDepackReq dm args).2.ioLen = args.ioLen ∧
      (provMsgDepackReq dm args).2.crypto = args.crypto ∧
      (provMsgDepackReq dm args).2.crc = args.crc) ∧
    (∀ (evp : Evp) (malloc : Nat → Option (Nat → UInt8)) (plainArray key iv : List UInt8)
      (io : CipherOut), (palCipherEncryptCbc dm evp malloc plainArray key iv io).1 ≠ 0 →
      (palCipherEncryptCbc dm evp malloc plainArray key iv io).2 = io) ∧
    (∀ (evp : Evp) (malloc : Nat → Option (Nat → UInt8)) (cipherArray key iv : List UInt8)
      (io : CipherOut), (palCipherDecryptCbc dm evp malloc cipherArray key iv io).1 ≠ 0 →
      (palCipherDecryptCbc dm evp malloc cipherArray key iv io).2 = io) := by
  refine ⟨provMsgPackReq_error dm, ?_, ?_, ?_⟩
  · intro args h
    rw [provMsgDepackReq_error dm args h]
    exact ⟨rfl, rfl, rfl, rfl, rfl⟩
  · intro evp malloc plainArray key iv io h
    exact cbc_error dm (encrypting evp) malloc plainArray key iv io h
  · intro evp malloc cipherArray key iv io h
    exact cbc_error dm (decrypting evp) malloc cipherArray key iv io h

/-- `malloc` fails, a header has the wrong magic, a text is not aligned and the
output buffer is one byte too small. -/
theorem errors_leave_data_four :
    (provMsgPackReq .ilp32 ⟨none, fun _ => 0⟩ 1 2 ⟨fresh fun _ => 0xaa, 5⟩).2.ioLen = 5 ∧
    (provMsgDepackReq .ilp32 ⟨⟨fresh fun _ => 0xaa, 40⟩, 1, 2⟩).2.crypto = 1 ∧
    (palCipherEncryptCbc .ilp32 (modelEvp testBlockCipher) (fun _ => some fun _ => 0)
      [0x13] aesTestKey aesTestIv (roomFor 16)).2.outLen = 16 ∧
    (palCipherDecryptCbc .ilp32 (modelEvp testBlockCipher) (fun _ => some fun _ => 0)
      aesTestCipher aesTestKey aesTestIv (roomFor 15)).2.outLen = 15 := by
  obtain ⟨hpack, hdepack, hencrypt, hdecrypt⟩ := errors_leave_data .ilp32
  refine ⟨?_, ?_, ?_, ?_⟩
  · rw [hpack ⟨none, fun _ => 0⟩ 1 2 ⟨fresh fun _ => 0xaa, 5⟩ (by decide)]
  · rw [(hdepack ⟨⟨fresh fun _ => 0xaa, 40⟩, 1, 2⟩ (by decide)).2.2.2.1]
  · rw [hencrypt (modelEvp testBlockCipher) (fun _ => some fun _ => 0) [0x13] aesTestKey aesTestIv
      (roomFor 16) (by decide)]
    rfl
  · rw [hdecrypt (modelEvp testBlockCipher) (fun _ => some fun _ => 0) aesTestCipher aesTestKey
      aesTestIv (roomFor 15) (by decide +kernel)]
    rfl

end CanbusAgent

import CanbusAgent.PalCipher.OpenSsl
import Mathlib.Logic.Equiv.Basic

/-!
# Encryption and decryption are inverse

When the EVP calls implement CBC over an invertible block cipher, both functions
succeed on exactly the same parameters (`cbc_ret_iff_params`) and produce the
chained blocks (`cbc_of_params`).  That the two undo each other is then the
inverse law of chaining, for any number of blocks.

The functions store `*outl` through a cast of `&len`, and they pass the length
of the input for an `int`.  Below `2 ^ 31` both keep the length; from there on
the `int` is negative and the update call fails.
-/

namespace CanbusAgent.PalCipher

open Chunks Region

theorem toSize_of_lt_32 (dm : DataModel) {n : Nat} (h : n < 2 ^ 32) : dm.toSize n = n :=
  DataModel.toSize_of_lt (Nat.lt_of_lt_of_le h (by cases dm <;> decide))

/-! ## One direction -/

/-- The parameters that both functions accept. -/
structure CbcParams (input key iv : List UInt8) : Prop where
  aligned : input.length % 16 = 0
  fits : input.length < 2 ^ 31
  iv : iv.length = 16
  key : key.length = 16 ∨ key.length = 32

/-- The permutation of the blocks that a key selects. -/
def permFor (evp : Evp) (block : evp.Cipher → List UInt8 → Equiv.Perm Block)
    (key : List UInt8) : Equiv.Perm Block :=
  match cipherFor evp key.length with
  | some cipher => block cipher key
  | none => Equiv.refl Block

variable {evp : Evp} {d : Direction evp} {block : evp.Cipher → List UInt8 → Equiv.Perm Block}
  {mode : Equiv.Perm Block → Block → List Block → List Block} {state : evp.Ctx → Option Keyed}

/-- What a direction makes of an input: the chained blocks. -/
def chained (evp : Evp) (block : evp.Cipher → List UInt8 → Equiv.Perm Block)
    (mode : Equiv.Perm Block → Block → List Block → List Block) (input key iv : List UInt8) :
    List UInt8 :=
  unblocks (mode (permFor evp block key) (toBlock iv) (blocks 16 (input.length / 16) input))

theorem chained_length (evp : Evp) (block : evp.Cipher → List UInt8 → Equiv.Perm Block)
    (hmode : ∀ E iv bs, (mode E iv bs).length = bs.length)
    {input : List UInt8} (key iv : List UInt8) (h : input.length % 16 = 0) :
    (chained evp block mode input key iv).length = input.length := by
  unfold chained
  rw [unblocks_length, hmode, blocks_length]
  omega

/-- On accepted parameters the buffer is filled with the chained blocks. -/
theorem fillBuffer_of_params (dm : DataModel) (himpl : d.Implements block mode state)
    (hmode : ∀ E iv bs, (mode E iv bs).length = bs.length) (hnew : evp.new.isSome = true)
    {malloc : Nat → Option (Nat → UInt8)} (hmalloc : ∀ n, (malloc n).isSome = true)
    {input key iv : List UInt8} (h : CbcParams input key iv) (hne : input.length ≠ 0) :
    fillBuffer dm d malloc input key iv = .ok (chained evp block mode input key iv) := by
  obtain ⟨ctx, hctx⟩ := Option.isSome_iff_exists.mp hnew
  obtain ⟨heap, hheap⟩ := Option.isSome_iff_exists.mp (hmalloc (outBufSize dm input.length))
  obtain ⟨cipher, hcipher⟩ : ∃ cipher, cipherFor evp key.length = some cipher := by
    rcases h.key with hlen | hlen
    · exact ⟨evp.aes128Cbc, by rw [cipherFor, hlen]; rfl⟩
    · exact ⟨evp.aes256Cbc, by rw [cipherFor, hlen]; rfl⟩
  -- the calls in their order
  obtain ⟨hinit, hkeyed⟩ := himpl.init ctx cipher key iv (keyFits_of_cipherFor hcipher) h.iv
  obtain ⟨hpadding, hunpadded⟩ := himpl.setPadding _ _ hkeyed
  have hblocks : input.length = 16 * (input.length / 16) := by
    have := h.aligned
    omega
  obtain ⟨hupdate, houtl, hout, k, hk, hoff⟩ :=
    himpl.update _ _ (input.length / 16) input hunpadded rfl (by omega) hblocks h.fits
  obtain ⟨hfinal, hfinalOutl, hfinalOut⟩ := himpl.final _ k hk hoff
  have hlt : input.length < 2 ^ 32 := by
    have := h.fits
    omega
  have haligned : input.length &&& (PAL_CIPHER_AES_CBC_BLOCK_SIZE - 1) = 0 :=
    (Nat.and_two_pow_sub_one_eq_mod input.length 4).trans h.aligned
  have hchained : chained evp block mode input key iv =
      (updated d input key iv ctx cipher).out := by
    unfold chained
    rw [permFor, hcipher]
    exact hout.symm
  rw [fillBuffer_eq_ok_iff]
  refine ⟨ctx, cipher, heap, ?_, ?_⟩
  · exact {
      aligned := haligned
      ivLen := h.iv.symm
      keyLen := h.key.symm.imp Eq.symm Eq.symm
      new := hctx
      chosen := hcipher
      init := hinit
      padding := hpadding
      alloc := hheap
      update := hupdate
      final := hfinal }
  · have hlen : storeInt input.length (updated d input key iv ctx cipher).outl = input.length := by
      rw [updated, houtl, storeInt_of_lt hlt, toNat_sizeToInt hlt]
    have hzero : storeInt input.length (finalised d input key iv ctx cipher).outl = 0 := by
      rw [finalised, updated, hfinalOutl, storeInt_of_lt hlt]
      rfl
    have hnothing : (finalised d input key iv ctx cipher).out = [] := hfinalOut
    unfold emittedBytes
    rw [hlen, hzero, hnothing, overlay_nil, Nat.zero_add, Nat.add_zero,
      toSize_of_lt_32 dm hlt, toSize_of_lt_32 dm hlt, hchained]
    have houtlen := chained_length evp block hmode key iv h.aligned
    rw [hchained] at houtlen
    exact (slice_overlay_of_length heap 0 houtlen).symm

/-- The buffer is filled on accepted parameters only. -/
theorem params_of_fillBuffer (dm : DataModel) (himpl : d.Implements block mode state)
    {malloc : Nat → Option (Nat → UInt8)} {input key iv outBuf : List UInt8}
    (hlt : input.length < 2 ^ 32) (h : fillBuffer dm d malloc input key iv = .ok outBuf) :
    CbcParams input key iv := by
  obtain ⟨ctx, cipher, heap, hran, -⟩ := (fillBuffer_eq_ok_iff dm d malloc input key iv _).mp h
  refine ⟨?_, ?_, hran.ivLen.symm, (hran.keyLen.imp Eq.symm Eq.symm).symm⟩
  · exact (Nat.and_two_pow_sub_one_eq_mod input.length 4).symm.trans hran.aligned
  · rcases Nat.lt_or_ge input.length (2 ^ 31) with hfits | hlong
    · exact hfits
    · exact absurd hran.update (himpl.negative _ _ _ ((sizeToInt_neg_iff hlt).mpr hlong))

/-- When a direction returns 0 on a non-empty input. -/
theorem cbc_ret_iff_params (dm : DataModel) (himpl : d.Implements block mode state)
    (hmode : ∀ E iv bs, (mode E iv bs).length = bs.length) (hd : d.failed ≠ 0)
    (hnew : evp.new.isSome = true) {malloc : Nat → Option (Nat → UInt8)}
    (hmalloc : ∀ n, (malloc n).isSome = true) {input : List UInt8} (key iv : List UInt8)
    (io : CipherOut) (hne : input.length ≠ 0) (hlt : input.length < 2 ^ 32) :
    (cbc dm d malloc input key iv io).1 = 0 ↔
      CbcParams input key iv ∧ input.length ≤ io.outLen := by
  rw [cbc_ret_iff dm d hd malloc key iv io hne]
  constructor
  · intro ⟨outBuf, hfill, hfit⟩
    have hparams := params_of_fillBuffer dm himpl hlt hfill
    rw [fillBuffer_of_params dm himpl hmode hnew hmalloc hparams hne] at hfill
    rw [← Except.ok.inj hfill, chained_length evp block hmode key iv hparams.aligned] at hfit
    exact ⟨hparams, hfit⟩
  · intro ⟨hparams, hfit⟩
    refine ⟨_, fillBuffer_of_params dm himpl hmode hnew hmalloc hparams hne, ?_⟩
    rw [chained_length evp block hmode key iv hparams.aligned]
    exact hfit

/-- What a direction leaves behind on accepted parameters. -/
theorem cbc_of_params (dm : DataModel) (himpl : d.Implements block mode state)
    (hmode : ∀ E iv bs, (mode E iv bs).length = bs.length) (hnew : evp.new.isSome = true)
    {malloc : Nat → Option (Nat → UInt8)} (hmalloc : ∀ n, (malloc n).isSome = true)
    {input key iv : List UInt8} {io : CipherOut} (hne : input.length ≠ 0)
    (h : CbcParams input key iv) (hfit : input.length ≤ io.outLen) :
    (cbc dm d malloc input key iv io).2.outLen = input.length ∧
      slice (cbc dm d malloc input key iv io).2.out.bytes 0 input.length =
        chained evp block mode input key iv := by
  have hlen := chained_length evp block hmode key iv h.aligned
  rw [cbc_ok dm d malloc key iv io hne (fillBuffer_of_params dm himpl hmode hnew hmalloc h hne)
    (by rw [hlen]; exact hfit)]
  exact ⟨hlen, slice_overlay_of_length io.out.bytes 0 hlen⟩

/-! ## Both directions -/

/-- A mode that undoes another one gives the input of the other back. -/
theorem chained_chained {mode' : Equiv.Perm Block → Block → List Block → List Block}
    (hmode : ∀ E iv bs, (mode E iv bs).length = bs.length)
    (hinv : ∀ E iv bs, mode' E iv (mode E iv bs) = bs) {input : List UInt8} (key iv : List UInt8)
    (h : input.length % 16 = 0) :
    chained evp block mode' (chained evp block mode input key iv) key iv = input := by
  have hlen := chained_length evp block hmode key iv h
  have hblocks : blocks 16 (input.length / 16) (chained evp block mode input key iv) =
      mode (permFor evp block key) (toBlock iv) (blocks 16 (input.length / 16) input) := by
    have hcount : (mode (permFor evp block key) (toBlock iv)
        (blocks 16 (input.length / 16) input)).length = input.length / 16 := by
      rw [hmode, blocks_length]
    have hback := blocks_unblocks (mode (permFor evp block key) (toBlock iv)
      (blocks 16 (input.length / 16) input))
    rw [hcount] at hback
    exact hback
  have hself : unblocks (blocks 16 (input.length / 16) input) = input :=
    unblocks_blocks (by omega)
  rw [chained, hlen, hblocks, hinv, hself]

/-- A direction whose mode undoes the other one gives the text back, and it
returns 0 wherever the other one does. -/
theorem cbc_cancels (dm : DataModel) {d' : Direction evp}
    {mode' : Equiv.Perm Block → Block → List Block → List Block} {state' : evp.Ctx → Option Keyed}
    (himpl : d.Implements block mode state) (himpl' : d'.Implements block mode' state')
    (hmode : ∀ E iv bs, (mode E iv bs).length = bs.length)
    (hmode' : ∀ E iv bs, (mode' E iv bs).length = bs.length)
    (hinv : ∀ E iv bs, mode' E iv (mode E iv bs) = bs) (hd' : d'.failed ≠ 0)
    (hnew : evp.new.isSome = true) {malloc malloc' : Nat → Option (Nat → UInt8)}
    (hmalloc : ∀ n, (malloc n).isSome = true) (hmalloc' : ∀ n, (malloc' n).isSome = true)
    {text key iv : List UInt8} {io io' : CipherOut} (hne : text.length ≠ 0)
    (h : CbcParams text key iv) (hfit : text.length ≤ io.outLen)
    (hfit' : text.length ≤ io'.outLen) :
    let c := slice (cbc dm d malloc text key iv io).2.out.bytes 0 text.length
    (cbc dm d' malloc' c key iv io').1 = 0 ∧
      slice (cbc dm d' malloc' c key iv io').2.out.bytes 0 text.length = text := by
  have hc := (cbc_of_params dm himpl hmode hnew hmalloc hne h hfit).2
  have hlen := chained_length evp block hmode key iv h.aligned
  simp only [hc]
  have hparams : CbcParams (chained evp block mode text key iv) key iv :=
    ⟨by rw [hlen]; exact h.aligned, by rw [hlen]; exact h.fits, h.iv, h.key⟩
  have hne' : (chained evp block mode text key iv).length ≠ 0 := by
    rw [hlen]
    exact hne
  have hlt : (chained evp block mode text key iv).length < 2 ^ 32 := by
    have := h.fits
    omega
  have hfit'' : (chained evp block mode text key iv).length ≤ io'.outLen := by
    rw [hlen]
    exact hfit'
  have hback := (cbc_of_params dm himpl' hmode' hnew hmalloc' hne' hparams hfit'').2
  rw [hlen, chained_chained hmode hinv key iv h.aligned] at hback
  exact ⟨(cbc_ret_iff_params dm himpl' hmode' hd' hnew hmalloc' key iv io' hne' hlt).mpr
    ⟨hparams, hfit''⟩, hback⟩

variable {encryptState decryptState : evp.Ctx → Option Keyed}

/-- `pal_cipher_encrypt_cbc` and `pal_cipher_decrypt_cbc` are inverse on the
32-bit target, and they succeed on exactly the same parameters. -/
theorem encrypt_decrypt_inverse (h : evp.ImplementsCbc block encryptState decryptState) :
    (∀ (malloc : Nat → Option (Nat → UInt8)) (input key iv : List UInt8) (io : CipherOut),
      (∀ n, (malloc n).isSome = true) → input.length ≠ 0 → input.length < 2 ^ 32 →
      ((palCipherEncryptCbc .ilp32 evp malloc input key iv io).1 = 0 ↔
        CbcParams input key iv ∧ input.length ≤ io.outLen) ∧
      ((palCipherDecryptCbc .ilp32 evp malloc input key iv io).1 = 0 ↔
        CbcParams input key iv ∧ input.length ≤ io.outLen) ∧
      ((palCipherEncryptCbc .ilp32 evp malloc input key iv io).1 = 0 →
        (palCipherEncryptCbc .ilp32 evp malloc input key iv io).2.outLen = input.length) ∧
      ((palCipherDecryptCbc .ilp32 evp malloc input key iv io).1 = 0 →
        (palCipherDecryptCbc .ilp32 evp malloc input key iv io).2.outLen = input.length)) ∧
    (∀ (malloc malloc' : Nat → Option (Nat → UInt8)) (text key iv : List UInt8)
      (io io' : CipherOut), (∀ n, (malloc n).isSome = true) → (∀ n, (malloc' n).isSome = true) →
      text.length ≠ 0 → CbcParams text key iv → text.length ≤ io.outLen →
      text.length ≤ io'.outLen →
      (let c := slice (palCipherEncryptCbc .ilp32 evp malloc text key iv io).2.out.bytes 0
          text.length
       (palCipherDecryptCbc .ilp32 evp malloc' c key iv io').1 = 0 ∧
        slice (palCipherDecryptCbc .ilp32 evp malloc' c key iv io').2.out.bytes 0 text.length =
          text) ∧
      (let p := slice (palCipherDecryptCbc .ilp32 evp malloc text key iv io).2.out.bytes 0
          text.length
       (palCipherEncryptCbc .ilp32 evp malloc' p key iv io').1 = 0 ∧
        slice (palCipherEncryptCbc .ilp32 evp malloc' p key iv io').2.out.bytes 0 text.length =
          text)) := by
  have hencLen : ∀ E iv bs, (Cbc.encrypt xorBlock E iv bs).length = bs.length :=
    fun E iv bs => Cbc.encrypt_length E iv bs
  have hdecLen : ∀ E iv bs, (Cbc.decrypt xorBlock E iv bs).length = bs.length :=
    fun E iv bs => Cbc.decrypt_length E iv bs
  have hencCode := encrypting_failed_ne evp
  have hdecCode := decrypting_failed_ne evp
  constructor
  · intro malloc input key iv io hmalloc hne hlt
    have henc := cbc_ret_iff_params .ilp32 h.encrypt hencLen hencCode h.new hmalloc key iv io hne
      hlt
    have hdec := cbc_ret_iff_params .ilp32 h.decrypt hdecLen hdecCode h.new hmalloc key iv io hne
      hlt
    refine ⟨henc, hdec, fun hret => ?_, fun hret => ?_⟩
    · obtain ⟨hparams, hfit⟩ := henc.mp hret
      exact (cbc_of_params .ilp32 h.encrypt hencLen h.new hmalloc hne hparams hfit).1
    · obtain ⟨hparams, hfit⟩ := hdec.mp hret
      exact (cbc_of_params .ilp32 h.decrypt hdecLen h.new hmalloc hne hparams hfit).1
  · intro malloc malloc' text key iv io io' hmalloc hmalloc' hne hparams hfit hfit'
    have hxor := xorBlock_cancels
    exact ⟨cbc_cancels .ilp32 h.encrypt h.decrypt hencLen hdecLen
        (fun E iv bs => Cbc.decrypt_encrypt hxor E iv bs) hdecCode h.new hmalloc hmalloc' hne
        hparams hfit hfit',
      cbc_cancels .ilp32 h.decrypt h.encrypt hdecLen hencLen
        (fun E iv bs => Cbc.encrypt_decrypt hxor E iv bs) hencCode h.new hmalloc hmalloc' hne
        hparams hfit hfit'⟩

/-! ## The test vector of the source -/

/-- `aes_test_cbc_key`. -/
def aesTestKey : List UInt8 :=
  [0x2b, 0x7e, 0x15, 0x16, 0x28, 0xae, 0xd2, 0xa6, 0xab, 0xf7, 0x15, 0x88, 0x09, 0xcf, 0x4f, 0x3c]

/-- `aes_test_cbc_iv`. -/
def aesTestIv : List UInt8 :=
  [0x55, 0x5c, 0x82, 0x24, 0xe2, 0xc9, 0x58, 0x73, 0x12, 0x08, 0x5b, 0xfb, 0x4e, 0xcb, 0x04, 0xb8]

/-- The first block of `aes_test_cbc_enc`. -/
def aesTestText : List UInt8 :=
  [0x13, 0x9e, 0x26, 0xaf, 0xc5, 0x72, 0x44, 0xbc, 0x6d, 0x78, 0x50, 0x66, 0x2f, 0x66, 0x8f, 0x8e]

/-- The first block of `aes_test_cbc_dec`, to which the first block of
`aes_test_cbc_enc` is encrypted. -/
def aesTestCipher : List UInt8 :=
  [0xb0, 0x6a, 0x73, 0x0c, 0x8d, 0x5a, 0x62, 0x73, 0x91, 0x86, 0x65, 0x0c, 0x96, 0xfe, 0x67, 0x34]

/-- The second block of `aes_test_cbc_enc`. -/
def aesTestText₂ : List UInt8 :=
  [0x4f, 0xa0, 0x34, 0x03, 0x7c, 0x72, 0x20, 0x46, 0x12, 0xbd, 0x7b, 0x74, 0xbe, 0xf7, 0x38, 0x11]

/-- The second block of `aes_test_cbc_dec`. -/
def aesTestCipher₂ : List UInt8 :=
  [0x50, 0x5f, 0x0c, 0x11, 0x4d, 0xe7, 0xf0, 0xdb, 0x0d, 0xed, 0xbd, 0xb6, 0xd5, 0x90, 0xf5, 0x93]

/-- A block cipher that agrees with AES on the first two blocks of the test vector. -/
def testBlockCipher (_ : Nat) (key : List UInt8) : Equiv.Perm Block :=
  if key = aesTestKey then
    (Equiv.swap (xorBlock (toBlock aesTestText) (toBlock aesTestIv))
      (toBlock aesTestCipher)).trans
        (Equiv.swap (xorBlock (toBlock aesTestText₂) (toBlock aesTestCipher))
          (toBlock aesTestCipher₂))
  else Equiv.refl Block

/-- Output objects with room for `n` bytes. -/
def roomFor (n : Nat) : CipherOut := { out := fresh fun _ => 0, outLen := n }

theorem encrypt_decrypt_inverse_testVector :
    (palCipherEncryptCbc .ilp32 (modelEvp testBlockCipher) (fun _ => some fun _ => 0xcc)
      aesTestText aesTestKey aesTestIv (roomFor 16)).1 = 0 ∧
    slice (palCipherDecryptCbc .ilp32 (modelEvp testBlockCipher) (fun _ => some fun _ => 0xcc)
      aesTestCipher aesTestKey aesTestIv (roomFor 20)).2.out.bytes 0 16 = aesTestText := by
  have himpl := modelEvp_implementsCbc testBlockCipher
  have hparams : CbcParams aesTestText aesTestKey aesTestIv :=
    ⟨by decide, by decide, by decide, by decide⟩
  have hcipher : slice (palCipherEncryptCbc .ilp32 (modelEvp testBlockCipher)
      (fun _ => some fun _ => 0xcc) aesTestText aesTestKey aesTestIv (roomFor 16)).2.out.bytes 0
      aesTestText.length = aesTestCipher := by decide +kernel
  have hreturns := (encrypt_decrypt_inverse himpl).1 (fun _ => some fun _ => 0xcc) aesTestText
    aesTestKey aesTestIv (roomFor 16) (fun _ => rfl) (by decide) (by decide)
  have hback := ((encrypt_decrypt_inverse himpl).2 (fun _ => some fun _ => 0xcc)
    (fun _ => some fun _ => 0xcc) aesTestText aesTestKey aesTestIv (roomFor 16) (roomFor 20)
    (fun _ => rfl) (fun _ => rfl) (by decide) hparams (by decide) (by decide)).1
  refine ⟨hreturns.1.mpr ⟨hparams, by decide⟩, ?_⟩
  dsimp only at hback
  rw [hcipher] at hback
  exact hback.2

end CanbusAgent.PalCipher

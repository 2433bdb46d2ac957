import CanbusAgent.Lib.Region
import CanbusAgent.Platform

/-!
# `pal_cipher_encrypt_cbc` and `pal_cipher_decrypt_cbc`

Both functions run an OpenSSL context over the whole input into a buffer of
their own and copy the result out at the end.  They are the same function with
other EVP calls and another error code, so they are two instances of `cbc`.

OpenSSL is not part of the repository.  `Evp` has the calls that the two
functions make, as functions on a context.  Nothing is assumed about them here:
every call may fail, and a call may write and report any number of bytes.
-/

namespace CanbusAgent.PalCipher

open Region

def OPSSL_OK : Int := 1
def PAL_CIPHER_AES_CBC_128_KEY_BYTES_LEN : Nat := 16
def PAL_CIPHER_AES_CBC_256_KEY_BYTES_LEN : Nat := 32
def PAL_CIPHER_AES_CBC_IV_BYTES_LEN : Nat := 16
def PAL_CIPHER_AES_CBC_BLOCK_SIZE : Nat := 16

/-! ## OpenSSL -/

/-- What a call leaves behind that emits bytes: the return value, the context,
`*outl` and the bytes that were written to `out`. -/
structure Emitted (Ctx : Type) where
  rc : Int
  ctx : Ctx
  outl : Int32
  out : List UInt8

/-- The EVP calls. -/
structure Evp where
  /-- `EVP_CIPHER_CTX`. -/
  Ctx : Type
  /-- `EVP_CIPHER`. -/
  Cipher : Type
  aes128Cbc : Cipher
  aes256Cbc : Cipher
  /-- `EVP_CIPHER_CTX_new`, `none` for `NULL`. -/
  new : Option Ctx
  /-- `EVP_EncryptInit_ex` with a key and an initialisation vector. -/
  encryptInit : Ctx → Cipher → List UInt8 → List UInt8 → Int × Ctx
  decryptInit : Ctx → Cipher → List UInt8 → List UInt8 → Int × Ctx
  setPadding : Ctx → Int → Int × Ctx
  /-- `EVP_EncryptUpdate` with `in` and `inl`. -/
  encryptUpdate : Ctx → List UInt8 → Int32 → Emitted Ctx
  decryptUpdate : Ctx → List UInt8 → Int32 → Emitted Ctx
  encryptFinal : Ctx → Emitted Ctx
  decryptFinal : Ctx → Emitted Ctx

/-- The calls in which the two functions differ, and their error code. -/
structure Direction (evp : Evp) where
  init : evp.Ctx → evp.Cipher → List UInt8 → List UInt8 → Int × evp.Ctx
  update : evp.Ctx → List UInt8 → Int32 → Emitted evp.Ctx
  final : evp.Ctx → Emitted evp.Ctx
  failed : Int

def encrypting (evp : Evp) : Direction evp where
  init := evp.encryptInit
  update := evp.encryptUpdate
  final := evp.encryptFinal
  failed := HAL_ERR_CRYPTO_ENCRYPT_FAILED

def decrypting (evp : Evp) : Direction evp where
  init := evp.decryptInit
  update := evp.decryptUpdate
  final := evp.decryptFinal
  failed := HAL_ERR_CRYPTO_DECRYPT_FAILED

theorem encrypting_failed_ne (evp : Evp) : (encrypting evp).failed ≠ 0 := by
  show HAL_ERR_CRYPTO_ENCRYPT_FAILED ≠ 0
  decide

theorem decrypting_failed_ne (evp : Evp) : (decrypting evp).failed ≠ 0 := by
  show HAL_ERR_CRYPTO_DECRYPT_FAILED ≠ 0
  decide

/-! ## Integers -/

/-- `UTILS_ROUNDUP` in `size_t`. -/
def UTILS_ROUNDUP (dm : DataModel) (x n : Nat) : Nat :=
  dm.toSize (x + (n - 1)) &&& (dm.sizeMod - n)

/-- A `size_t` that is passed for an `int`: its low 32 bits. -/
def sizeToInt (n : Nat) : Int32 := (UInt32.ofNat n).toInt32

/-- A `size_t` after an `int` was stored through `(int *)`: its low four bytes
are replaced. -/
def storeInt (n : Nat) (i : Int32) : Nat := n / 2 ^ 32 * 2 ^ 32 + i.toUInt32.toNat

/-! ## The functions -/

/-- The objects behind `out` and `out_len`. -/
structure CipherOut where
  out : Region UInt8
  outLen : Nat

/-- The cipher for a key length. -/
def cipherFor (evp : Evp) (keyLen : Nat) : Option evp.Cipher :=
  if keyLen = PAL_CIPHER_AES_CBC_128_KEY_BYTES_LEN then some evp.aes128Cbc
  else if keyLen = PAL_CIPHER_AES_CBC_256_KEY_BYTES_LEN then some evp.aes256Cbc
  else none

/-- The functions between the check of the input length and the check of
`*out_len`, which is the first to look at the output objects.  The result is the
first `olen` bytes of `out_buf`, or the code with which the function jumps to
`finish`.  `malloc` gives the memory of a fresh block of a given size, or `none`
for `NULL`. -/
def fillBuffer (dm : DataModel) {evp : Evp} (d : Direction evp)
    (malloc : Nat → Option (Nat → UInt8)) (input key iv : List UInt8) :
    Except Int (List UInt8) :=
  if input.length &&& (PAL_CIPHER_AES_CBC_BLOCK_SIZE - 1) ≠ 0 then .error HAL_ERR_INVALID_PARAM
  else if PAL_CIPHER_AES_CBC_IV_BYTES_LEN ≠ iv.length then .error HAL_ERR_INVALID_PARAM
  else if PAL_CIPHER_AES_CBC_256_KEY_BYTES_LEN ≠ key.length ∧
      PAL_CIPHER_AES_CBC_128_KEY_BYTES_LEN ≠ key.length then .error HAL_ERR_INVALID_PARAM
  else
    match evp.new with
    | none => .error HAL_ERR_CRYPTO_INIT_FAILED
    | some ctx =>
      match cipherFor evp key.length with
      | none => .error HAL_ERR_INVALID_PARAM
      | some cipher =>
        let (rc, ctx) := d.init ctx cipher key iv
        if OPSSL_OK ≠ rc then .error d.failed
        else
          let (rc, ctx) := evp.setPadding ctx 0
          -- both functions have the code of decryption here
          if rc ≠ OPSSL_OK then .error HAL_ERR_CRYPTO_DECRYPT_FAILED
          else
            match malloc (UTILS_ROUNDUP dm
              (dm.toSize (input.length + PAL_CIPHER_AES_CBC_BLOCK_SIZE))
              PAL_CIPHER_AES_CBC_BLOCK_SIZE) with
            | none => .error HAL_ERR_MEM_ERROR
            | some outBuf =>
              let update := d.update ctx input (sizeToInt input.length)
              if update.rc ≠ OPSSL_OK then .error d.failed
              else
                let outBuf := overlay outBuf 0 update.out
                let len := storeInt input.length update.outl
                let olen := dm.toSize (0 + len)
                let final := d.final update.ctx
                if final.rc ≠ OPSSL_OK then .error d.failed
                else
                  let outBuf := overlay outBuf len final.out
                  let len := storeInt len final.outl
                  let olen := dm.toSize (olen + len)
                  .ok (slice outBuf 0 olen)

def cbc (dm : DataModel) {evp : Evp} (d : Direction evp) (malloc : Nat → Option (Nat → UInt8))
    (input key iv : List UInt8) (io : CipherOut) : Int × CipherOut :=
  if input.length = 0 then (0, io)
  else
    match fillBuffer dm d malloc input key iv with
    | .error ret => (ret, io)
    | .ok outBuf =>
      if io.outLen < outBuf.length then (HAL_ERR_BUFFER_TOO_SMALL, io)
      else (0, { out := io.out.store 0 outBuf, outLen := outBuf.length })

/-- `pal_cipher_encrypt_cbc`. -/
def palCipherEncryptCbc (dm : DataModel) (evp : Evp) (malloc : Nat → Option (Nat → UInt8))
    (plainArray key iv : List UInt8) (io : CipherOut) : Int × CipherOut :=
  cbc dm (encrypting evp) malloc plainArray key iv io

/-- `pal_cipher_decrypt_cbc`. -/
def palCipherDecryptCbc (dm : DataModel) (evp : Evp) (malloc : Nat → Option (Nat → UInt8))
    (cipherArray key iv : List UInt8) (io : CipherOut) : Int × CipherOut :=
  cbc dm (decrypting evp) malloc cipherArray key iv io

/-! ## What the functions do -/

theorem cbc_nil (dm : DataModel) {evp : Evp} (d : Direction evp)
    (malloc : Nat → Option (Nat → UInt8)) {input : List UInt8} (key iv : List UInt8)
    (io : CipherOut) (h : input.length = 0) : cbc dm d malloc input key iv io = (0, io) := by
  unfold cbc
  rw [if_pos h]

/-- The output objects change only when the function returns 0. -/
theorem cbc_error (dm : DataModel) {evp : Evp} (d : Direction evp)
    (malloc : Nat → Option (Nat → UInt8)) (input key iv : List UInt8) (io : CipherOut)
    (h : (cbc dm d malloc input key iv io).1 ≠ 0) :
    (cbc dm d malloc input key iv io).2 = io := by
  unfold cbc at h ⊢
  split_ifs at h ⊢
  · rfl
  · cases hfill : fillBuffer dm d malloc input key iv with
    | error ret => rfl
    | ok outBuf =>
      rw [hfill] at h
      dsimp only at h ⊢
      split_ifs at h ⊢
      · rfl
      · exact absurd rfl h

/-! ## A run through all EVP calls -/

/-- What the update call leaves behind. -/
def updated {evp : Evp} (d : Direction evp) (input key iv : List UInt8) (ctx : evp.Ctx)
    (cipher : evp.Cipher) : Emitted evp.Ctx :=
  d.update (evp.setPadding (d.init ctx cipher key iv).2 0).2 input (sizeToInt input.length)

/-- What the final call leaves behind. -/
def finalised {evp : Evp} (d : Direction evp) (input key iv : List UInt8) (ctx : evp.Ctx)
    (cipher : evp.Cipher) : Emitted evp.Ctx :=
  d.final (updated d input key iv ctx cipher).ctx

/-- The first `olen` bytes of `out_buf` after two calls that emitted `update` and
`final`. -/
def emittedBytes {Ctx : Type} (dm : DataModel) (heap : Nat → UInt8) (inputLen : Nat)
    (update final : Emitted Ctx) : List UInt8 :=
  slice (overlay (overlay heap 0 update.out) (storeInt inputLen update.outl) final.out) 0
    (dm.toSize (dm.toSize (0 + storeInt inputLen update.outl) +
      storeInt (storeInt inputLen update.outl) final.outl))

/-- The size that the functions ask `malloc` for. -/
def outBufSize (dm : DataModel) (inputLen : Nat) : Nat :=
  UTILS_ROUNDUP dm (dm.toSize (inputLen + PAL_CIPHER_AES_CBC_BLOCK_SIZE))
    PAL_CIPHER_AES_CBC_BLOCK_SIZE

/-- Every check passes and every call succeeds. -/
structure Ran (dm : DataModel) {evp : Evp} (d : Direction evp)
    (malloc : Nat → Option (Nat → UInt8)) (input key iv : List UInt8) (ctx : evp.Ctx)
    (cipher : evp.Cipher) (heap : Nat → UInt8) : Prop where
  aligned : input.length &&& (PAL_CIPHER_AES_CBC_BLOCK_SIZE - 1) = 0
  ivLen : PAL_CIPHER_AES_CBC_IV_BYTES_LEN = iv.length
  keyLen : PAL_CIPHER_AES_CBC_256_KEY_BYTES_LEN = key.length ∨
    PAL_CIPHER_AES_CBC_128_KEY_BYTES_LEN = key.length
  new : evp.new = some ctx
  chosen : cipherFor evp key.length = some cipher
  init : (d.init ctx cipher key iv).1 = OPSSL_OK
  padding : (evp.setPadding (d.init ctx cipher key iv).2 0).1 = OPSSL_OK
  alloc : malloc (outBufSize dm input.length) = some heap
  update : (updated d input key iv ctx cipher).rc = OPSSL_OK
  final : (finalised d input key iv ctx cipher).rc = OPSSL_OK

/-- The codes with which the functions leave before they look at the output
objects. -/
inductive LeavesWith {evp : Evp} (d : Direction evp) : Int → Prop where
  | param : LeavesWith d HAL_ERR_INVALID_PARAM
  | init : LeavesWith d HAL_ERR_CRYPTO_INIT_FAILED
  | padding : LeavesWith d HAL_ERR_CRYPTO_DECRYPT_FAILED
  | mem : LeavesWith d HAL_ERR_MEM_ERROR
  | call : LeavesWith d d.failed

theorem LeavesWith.ne_zero {evp : Evp} {d : Direction evp} (hd : d.failed ≠ 0) {ret : Int}
    (h : LeavesWith d ret) : ret ≠ 0 := by
  cases h with
  | param => exact show HAL_ERR_INVALID_PARAM ≠ 0 by decide
  | init => exact show HAL_ERR_CRYPTO_INIT_FAILED ≠ 0 by decide
  | padding => exact show HAL_ERR_CRYPTO_DECRYPT_FAILED ≠ 0 by decide
  | mem => exact show HAL_ERR_MEM_ERROR ≠ 0 by decide
  | call => exact hd

/-- The exits of `fillBuffer`.  Either every check passes and every call
succeeds, and the buffer is filled with what the calls emitted, or the function
leaves with a code. -/
theorem fillBuffer_cases (dm : DataModel) {evp : Evp} (d : Direction evp)
    (malloc : Nat → Option (Nat → UInt8)) (input key iv : List UInt8) :
    (∃ ctx cipher heap, Ran dm d malloc input key iv ctx cipher heap ∧
      fillBuffer dm d malloc input key iv = .ok (emittedBytes dm heap input.length
        (updated d input key iv ctx cipher) (finalised d input key iv ctx cipher))) ∨
    ∃ ret, LeavesWith d ret ∧ fillBuffer dm d malloc input key iv = .error ret := by
  unfold fillBuffer
  by_cases haligned : input.length &&& (PAL_CIPHER_AES_CBC_BLOCK_SIZE - 1) = 0
  case neg =>
    rw [if_pos haligned]
    exact Or.inr ⟨_, .param, rfl⟩
  rw [if_neg (not_not.mpr haligned)]
  by_cases hiv : PAL_CIPHER_AES_CBC_IV_BYTES_LEN = iv.length
  case neg =>
    rw [if_pos hiv]
    exact Or.inr ⟨_, .param, rfl⟩
  rw [if_neg (not_not.mpr hiv)]
  by_cases hkey : PAL_CIPHER_AES_CBC_256_KEY_BYTES_LEN ≠ key.length ∧
      PAL_CIPHER_AES_CBC_128_KEY_BYTES_LEN ≠ key.length
  case pos =>
    rw [if_pos hkey]
    exact Or.inr ⟨_, .param, rfl⟩
  rw [if_neg hkey]
  cases hnew : evp.new with
  | none => exact Or.inr ⟨_, .init, rfl⟩
  | some ctx =>
    cases hcipher : cipherFor evp key.length with
    | none => exact Or.inr ⟨_, .param, rfl⟩
    | some cipher =>
      dsimp only
      by_cases hinit : OPSSL_OK = (d.init ctx cipher key iv).1
      case neg =>
        rw [if_pos hinit]
        exact Or.inr ⟨_, .call, rfl⟩
      rw [if_neg (not_not.mpr hinit)]
      by_cases hpadding : (evp.setPadding (d.init ctx cipher key iv).2 0).1 = OPSSL_OK
      case neg =>
        rw [if_pos hpadding]
        exact Or.inr ⟨_, .padding, rfl⟩
      rw [if_neg (not_not.mpr hpadding)]
      cases hmalloc : malloc (outBufSize dm input.length) with
      | none =>
        rw [outBufSize] at hmalloc
        rw [hmalloc]
        exact Or.inr ⟨_, .mem, rfl⟩
      | some heap =>
        have hmalloc' := hmalloc
        rw [outBufSize] at hmalloc'
        rw [hmalloc']
        dsimp only
        by_cases hupdate : (updated d input key iv ctx cipher).rc = OPSSL_OK
        case neg => exact Or.inr ⟨_, .call, if_pos hupdate⟩
        by_cases hfinal : (finalised d input key iv ctx cipher).rc = OPSSL_OK
        case neg =>
          exact Or.inr ⟨_, .call, (if_neg (not_not.mpr hupdate)).trans (if_pos hfinal)⟩
        refine Or.inl ⟨ctx, cipher, heap, ?_,
          (if_neg (not_not.mpr hupdate)).trans (if_neg (not_not.mpr hfinal))⟩
        exact {
          aligned := haligned
          ivLen := hiv
          keyLen := or_iff_not_imp_left.mpr (by simpa using hkey)
          new := hnew
          chosen := hcipher
          init := hinit.symm
          padding := hpadding
          alloc := hmalloc
          update := hupdate
          final := hfinal }

/-- No exit before the check of `*out_len` has the code 0. -/
theorem fillBuffer_error_ne (dm : DataModel) {evp : Evp} (d : Direction evp) (hd : d.failed ≠ 0)
    (malloc : Nat → Option (Nat → UInt8)) (input key iv : List UInt8) {ret : Int}
    (h : fillBuffer dm d malloc input key iv = .error ret) : ret ≠ 0 := by
  rcases fillBuffer_cases dm d malloc input key iv with ⟨_, _, _, _, hok⟩ | ⟨_, hleaves, herror⟩
  · rw [hok] at h
    exact absurd h (by simp)
  · rw [herror] at h
    exact Except.error.inj h ▸ hleaves.ne_zero hd

/-- The buffer is filled exactly when every check passes and every call succeeds,
and then with what the calls emitted. -/
theorem fillBuffer_eq_ok_iff (dm : DataModel) {evp : Evp} (d : Direction evp)
    (malloc : Nat → Option (Nat → UInt8)) (input key iv outBuf : List UInt8) :
    fillBuffer dm d malloc input key iv = .ok outBuf ↔
      ∃ ctx cipher heap, Ran dm d malloc input key iv ctx cipher heap ∧
        outBuf = emittedBytes dm heap input.length (updated d input key iv ctx cipher)
          (finalised d input key iv ctx cipher) := by
  constructor
  · intro h
    rcases fillBuffer_cases dm d malloc input key iv with
      ⟨ctx, cipher, heap, hran, hok⟩ | ⟨_, _, herror⟩
    · rw [hok] at h
      exact ⟨ctx, cipher, heap, hran, (Except.ok.inj h).symm⟩
    · rw [herror] at h
      exact absurd h (by simp)
  · rintro ⟨ctx, cipher, heap, h, rfl⟩
    have hkey : ¬ (PAL_CIPHER_AES_CBC_256_KEY_BYTES_LEN ≠ key.length ∧
        PAL_CIPHER_AES_CBC_128_KEY_BYTES_LEN ≠ key.length) := by
      rcases h.keyLen with hlen | hlen
      · exact fun hne => hne.1 hlen
      · exact fun hne => hne.2 hlen
    have hmalloc := h.alloc
    have hupdate := h.update
    have hfinal := h.final
    rw [outBufSize] at hmalloc
    rw [updated] at hupdate
    rw [finalised, updated] at hfinal
    unfold fillBuffer
    rw [if_neg (not_not.mpr h.aligned), if_neg (not_not.mpr h.ivLen), if_neg hkey]
    simp only [h.new, h.chosen, h.init, h.padding, hmalloc, hupdate, hfinal, ne_eq,
      not_true_eq_false, if_false]
    rfl

/-! ## Calls that return 0 -/

/-- When the function returns 0 on a non-empty input: the buffer was filled, and
it fits. -/
theorem cbc_ret_iff (dm : DataModel) {evp : Evp} (d : Direction evp) (hd : d.failed ≠ 0)
    (malloc : Nat → Option (Nat → UInt8)) {input : List UInt8} (key iv : List UInt8)
    (io : CipherOut) (hinput : input.length ≠ 0) :
    (cbc dm d malloc input key iv io).1 = 0 ↔
      ∃ outBuf, fillBuffer dm d malloc input key iv = .ok outBuf ∧ outBuf.length ≤ io.outLen := by
  unfold cbc
  rw [if_neg hinput]
  cases hfill : fillBuffer dm d malloc input key iv with
  | error ret =>
    have hne := fillBuffer_error_ne dm d hd malloc input key iv hfill
    simp [hne]
  | ok outBuf =>
    have hsmall : HAL_ERR_BUFFER_TOO_SMALL ≠ 0 := by decide
    dsimp only
    split_ifs with hlt
    · simp [hsmall, Nat.not_le.mpr hlt]
    · simp [Nat.not_lt.mp hlt]

/-- What a call that filled the buffer leaves behind. -/
theorem cbc_ok (dm : DataModel) {evp : Evp} (d : Direction evp)
    (malloc : Nat → Option (Nat → UInt8)) {input : List UInt8} (key iv : List UInt8)
    (io : CipherOut) (hinput : input.length ≠ 0) {outBuf : List UInt8}
    (hfill : fillBuffer dm d malloc input key iv = .ok outBuf)
    (hfit : outBuf.length ≤ io.outLen) :
    cbc dm d malloc input key iv io =
      (0, { out := io.out.store 0 outBuf, outLen := outBuf.length }) := by
  unfold cbc
  rw [if_neg hinput, hfill]
  dsimp only
  rw [if_neg (Nat.not_lt.mpr hfit)]

end CanbusAgent.PalCipher

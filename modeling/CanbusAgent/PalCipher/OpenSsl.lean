import CanbusAgent.Lib.Cbc
import CanbusAgent.Lib.Chunks
import CanbusAgent.PalCipher.Model

/-!
# What the EVP calls are documented to do

Two descriptions of the OpenSSL calls behind `Evp`.  `Reports` is the weak one:
a call that succeeds writes as many bytes as it reports.  `ImplementsCbc` is the
full one: the calls chain an invertible block cipher over the input.  The
results about the two functions name the description that they rest on.
-/

namespace CanbusAgent.PalCipher

open Chunks Region

/-! ## Blocks -/

/-- A block of AES. -/
abbrev Block : Type := Vector UInt8 16

def xorBlock (a b : Block) : Block := Vector.zipWith (· ^^^ ·) a b

theorem xorBlock_cancels : Cbc.SelfCancelling xorBlock := by
  intro a b
  apply Vector.ext
  intro i hi
  simp only [xorBlock, Vector.getElem_zipWith, UInt8.xor_assoc, UInt8.xor_self, UInt8.xor_zero]

/-- The first sixteen bytes of a list. -/
def toBlock (bs : List UInt8) : Block := Vector.ofFn fun j => bs.getD j.val 0

/-! ## Lengths as `int` -/

/-- A length that is passed for an `int` keeps its bits. -/
theorem toNat_sizeToInt {n : Nat} (h : n < 2 ^ 32) : (sizeToInt n).toUInt32.toNat = n := by
  rw [sizeToInt, UInt32.toUInt32_toInt32, UInt32.toNat_ofNat_of_lt' h]

/-- A length from `2 ^ 31` on is passed as a negative `int`. -/
theorem sizeToInt_neg_iff {n : Nat} (h : n < 2 ^ 32) : sizeToInt n < 0 ↔ 2 ^ 31 ≤ n := by
  rw [sizeToInt, UInt32.toInt32_ofNat', Int32.lt_iff_toInt_lt, Int32.toInt_ofNat', Int32.toInt_zero,
    Int.bmod_def]
  simp only [Int32.size]
  split_ifs <;> omega

/-- The value that `len` has after an `int` was stored in it. -/
theorem storeInt_of_lt {n : Nat} (h : n < 2 ^ 32) (i : Int32) :
    storeInt n i = i.toUInt32.toNat := by
  have hdiv : n / 2 ^ 32 = 0 := Nat.div_eq_of_lt h
  rw [storeInt, hdiv, Nat.zero_mul, Nat.zero_add]

/-! ## Calls that emit bytes -/

/-- A call that succeeds has written the number of bytes that it reports. -/
def Emitted.Reports {Ctx : Type} (e : Emitted Ctx) : Prop :=
  e.rc = OPSSL_OK → e.out.length = e.outl.toUInt32.toNat

/-- Both emitting calls of a direction report what they write. -/
structure Direction.Reports {evp : Evp} (d : Direction evp) : Prop where
  update : ∀ ctx input inl, (d.update ctx input inl).Reports
  final : ∀ ctx, (d.final ctx).Reports

/-- When both calls report what they write, the bytes that are copied out are
bytes that the calls have written.  What the fresh block held does not matter. -/
theorem emittedBytes_congr {Ctx : Type} (dm : DataModel) (heap heap' : Nat → UInt8)
    {inputLen : Nat} (hlt : inputLen < 2 ^ 32) {update final : Emitted Ctx}
    (hupdate : update.Reports) (hfinal : final.Reports) (hupdateRc : update.rc = OPSSL_OK)
    (hfinalRc : final.rc = OPSSL_OK) :
    emittedBytes dm heap inputLen update final = emittedBytes dm heap' inputLen update final := by
  have hlen : storeInt inputLen update.outl = update.out.length := by
    rw [storeInt_of_lt hlt, hupdate hupdateRc]
  have hlenFinal : storeInt update.out.length final.outl = final.out.length := by
    have hlt' : update.out.length < 2 ^ 32 := by
      rw [hupdate hupdateRc]
      exact update.outl.toUInt32.toNat_lt
    rw [storeInt_of_lt hlt', hfinal hfinalRc]
  -- the sum in `size_t` does not exceed the bytes that were written
  have hle : dm.toSize (dm.toSize (0 + update.out.length) + final.out.length) ≤
      (update.out ++ final.out).length := by
    rw [List.length_append, Nat.zero_add]
    exact (Nat.mod_le _ _).trans (Nat.add_le_add_right (Nat.mod_le _ _) _)
  have htake : ∀ m : Nat → UInt8, emittedBytes dm m inputLen update final =
      (update.out ++ final.out).take
        (dm.toSize (dm.toSize (0 + update.out.length) + final.out.length)) := by
    intro m
    have happ := overlay_append m 0 update.out final.out
    rw [Nat.zero_add] at happ
    unfold emittedBytes
    rw [hlen, hlenFinal, happ, slice_overlay_take _ _ _ hle]
  rw [htake heap, htake heap']

/-- Two calls on equal inputs fill their buffers with equal bytes, whatever the
fresh blocks held. -/
theorem fillBuffer_unique (dm : DataModel) {evp : Evp} {d : Direction evp} (hd : d.Reports)
    {malloc malloc' : Nat → Option (Nat → UInt8)} {input key iv outBuf outBuf' : List UInt8}
    (hlt : input.length < 2 ^ 32) (h : fillBuffer dm d malloc input key iv = .ok outBuf)
    (h' : fillBuffer dm d malloc' input key iv = .ok outBuf') : outBuf = outBuf' := by
  obtain ⟨ctx, cipher, heap, hran, rfl⟩ := (fillBuffer_eq_ok_iff dm d malloc input key iv _).mp h
  obtain ⟨ctx', cipher', heap', hran', rfl⟩ :=
    (fillBuffer_eq_ok_iff dm d malloc' input key iv _).mp h'
  obtain rfl : ctx = ctx' := Option.some.inj (hran.new.symm.trans hran'.new)
  obtain rfl : cipher = cipher' := Option.some.inj (hran.chosen.symm.trans hran'.chosen)
  exact emittedBytes_congr dm heap heap' hlt (hd.update _ _ _) (hd.final _) hran.update hran.final

/-! ## CBC -/

/-- A context that was initialised: the permutation of the blocks, the block to
chain with and whether padding is on. -/
structure Keyed where
  perm : Equiv.Perm Block
  iv : Block
  padding : Bool

/-- The key has the length of the cipher. -/
def KeyFits (evp : Evp) (cipher : evp.Cipher) (key : List UInt8) : Prop :=
  (cipher = evp.aes128Cbc ∧ key.length = PAL_CIPHER_AES_CBC_128_KEY_BYTES_LEN) ∨
    (cipher = evp.aes256Cbc ∧ key.length = PAL_CIPHER_AES_CBC_256_KEY_BYTES_LEN)

theorem keyFits_of_cipherFor {evp : Evp} {key : List UInt8} {cipher : evp.Cipher}
    (h : cipherFor evp key.length = some cipher) : KeyFits evp cipher key := by
  unfold cipherFor at h
  split_ifs at h with h128 h256
  · exact Or.inl ⟨(Option.some.inj h).symm, h128⟩
  · exact Or.inr ⟨(Option.some.inj h).symm, h256⟩

/-- The calls of one direction run `mode` over the block cipher `block`.  `state`
reads an initialised context at a block boundary. -/
structure Direction.Implements {evp : Evp} (d : Direction evp)
    (block : evp.Cipher → List UInt8 → Equiv.Perm Block)
    (mode : Equiv.Perm Block → Block → List Block → List Block)
    (state : evp.Ctx → Option Keyed) : Prop where
  init : ∀ ctx cipher key iv, KeyFits evp cipher key →
    iv.length = PAL_CIPHER_AES_CBC_IV_BYTES_LEN →
    (d.init ctx cipher key iv).1 = OPSSL_OK ∧
      state (d.init ctx cipher key iv).2 = some ⟨block cipher key, toBlock iv, true⟩
  setPadding : ∀ ctx k, state ctx = some k →
    (evp.setPadding ctx 0).1 = OPSSL_OK ∧
      state (evp.setPadding ctx 0).2 = some { k with padding := false }
  /-- Without padding an update with whole blocks emits all of them. -/
  update : ∀ ctx k n input, state ctx = some k → k.padding = false → 0 < n →
    input.length = 16 * n → input.length < 2 ^ 31 →
    (d.update ctx input (sizeToInt input.length)).rc = OPSSL_OK ∧
      (d.update ctx input (sizeToInt input.length)).outl = sizeToInt input.length ∧
      (d.update ctx input (sizeToInt input.length)).out =
        unblocks (mode k.perm k.iv (blocks 16 n input)) ∧
      ∃ k', state (d.update ctx input (sizeToInt input.length)).ctx = some k' ∧
        k'.padding = false
  negative : ∀ ctx input inl, inl < 0 → (d.update ctx input inl).rc ≠ OPSSL_OK
  /-- Without padding the final call emits nothing. -/
  final : ∀ ctx k, state ctx = some k → k.padding = false →
    (d.final ctx).rc = OPSSL_OK ∧ (d.final ctx).outl = 0 ∧ (d.final ctx).out = []

/-- The EVP calls implement CBC over the block cipher `block`. -/
structure Evp.ImplementsCbc (evp : Evp) (block : evp.Cipher → List UInt8 → Equiv.Perm Block)
    (encryptState decryptState : evp.Ctx → Option Keyed) : Prop where
  new : evp.new.isSome = true
  encrypt : (encrypting evp).Implements block (Cbc.encrypt xorBlock) encryptState
  decrypt : (decrypting evp).Implements block (Cbc.decrypt xorBlock) decryptState

/-! ## A reference implementation

The descriptions above can be met: `modelEvp` implements them over any block
cipher.  A context remembers its direction, and a cipher is its key length. -/

/-- A call that fails. -/
def Emitted.fail {Ctx : Type} (ctx : Ctx) : Emitted Ctx := { rc := 0, ctx, outl := 0, out := [] }

theorem Emitted.fail_rc_ne {Ctx : Type} (ctx : Ctx) : (Emitted.fail ctx).rc ≠ OPSSL_OK := by
  show (0 : Int) ≠ 1
  decide

abbrev ModelCtx : Type := Option (Bool × Keyed)

def modelInit (block : Nat → List UInt8 → Equiv.Perm Block) (encrypts : Bool) (_ : ModelCtx)
    (cipher : Nat) (key iv : List UInt8) : Int × ModelCtx :=
  (OPSSL_OK, some (encrypts, { perm := block cipher key, iv := toBlock iv, padding := true }))

/-- Whole blocks without padding.  `inl` is the length of the input. -/
def modelUpdate (mode : Equiv.Perm Block → Block → List Block → List Block) (encrypts : Bool)
    (ctx : ModelCtx) (input : List UInt8) (inl : Int32) : Emitted ModelCtx :=
  match ctx with
  | none => .fail ctx
  | some (dir, k) =>
    if dir = encrypts ∧ k.padding = false ∧ ¬ inl < 0 ∧ input.length = inl.toUInt32.toNat ∧
        input.length % 16 = 0 then
      { rc := OPSSL_OK
        ctx
        outl := inl
        out := unblocks (mode k.perm k.iv (blocks 16 (input.length / 16) input)) }
    else .fail ctx

def modelFinal (encrypts : Bool) (ctx : ModelCtx) : Emitted ModelCtx :=
  match ctx with
  | none => .fail ctx
  | some (dir, k) =>
    if dir = encrypts ∧ k.padding = false then { rc := OPSSL_OK, ctx, outl := 0, out := [] }
    else .fail ctx

def modelEvp (block : Nat → List UInt8 → Equiv.Perm Block) : Evp where
  Ctx := ModelCtx
  Cipher := Nat
  aes128Cbc := 16
  aes256Cbc := 32
  new := some none
  encryptInit := modelInit block true
  decryptInit := modelInit block false
  setPadding ctx pad :=
    (OPSSL_OK, ctx.map fun (dir, k) => (dir, { k with padding := decide (pad ≠ 0) }))
  encryptUpdate := modelUpdate (Cbc.encrypt xorBlock) true
  decryptUpdate := modelUpdate (Cbc.decrypt xorBlock) false
  encryptFinal := modelFinal true
  decryptFinal := modelFinal false

/-- An initialised context of one direction. -/
def modelState (encrypts : Bool) : ModelCtx → Option Keyed
  | none => none
  | some (dir, k) => if dir = encrypts then some k else none

theorem modelState_eq_some {encrypts : Bool} {ctx : ModelCtx} {k : Keyed}
    (h : modelState encrypts ctx = some k) : ctx = some (encrypts, k) := by
  rcases ctx with _ | ⟨dir, k'⟩
  · exact absurd h (by simp [modelState])
  · rw [modelState] at h
    split_ifs at h with hdir
    rw [hdir, Option.some.inj h]

/-- One direction of the reference implementation. -/
theorem model_implements (block : Nat → List UInt8 → Equiv.Perm Block) (encrypts : Bool)
    {d : Direction (modelEvp block)}
    {mode : Equiv.Perm Block → Block → List Block → List Block}
    (hinit : d.init = modelInit block encrypts) (hupdate : d.update = modelUpdate mode encrypts)
    (hfinal : d.final = modelFinal encrypts) :
    d.Implements block mode (modelState encrypts) where
  init ctx cipher key iv _ _ := by
    rw [hinit]
    exact ⟨rfl, by simp [modelInit, modelState]⟩
  setPadding ctx k hk := by
    rw [modelState_eq_some hk]
    exact ⟨rfl, by simp [modelEvp, modelState]⟩
  update ctx k n input hk hoff hn hlen hlt := by
    have hsize : (sizeToInt input.length).toUInt32.toNat = input.length :=
      toNat_sizeToInt (by omega)
    have hpos : ¬ sizeToInt input.length < 0 := by
      rw [sizeToInt_neg_iff (by omega)]
      omega
    have hcond : encrypts = encrypts ∧ k.padding = false ∧ ¬ sizeToInt input.length < 0 ∧
        input.length = (sizeToInt input.length).toUInt32.toNat ∧ input.length % 16 = 0 :=
      ⟨rfl, hoff, hpos, hsize.symm, by omega⟩
    have hblocks : input.length / 16 = n := by omega
    rw [hupdate, modelState_eq_some hk, modelUpdate, if_pos hcond, hblocks]
    exact ⟨rfl, rfl, rfl, k, by simp [modelState], hoff⟩
  negative ctx input inl hneg := by
    rw [hupdate]
    rcases ctx with _ | ⟨dir, k⟩
    · exact Emitted.fail_rc_ne _
    · rw [modelUpdate, if_neg fun h => h.2.2.1 hneg]
      exact Emitted.fail_rc_ne _
  final ctx k hk hoff := by
    rw [hfinal, modelState_eq_some hk, modelFinal, if_pos ⟨rfl, hoff⟩]
    exact ⟨rfl, rfl, rfl⟩

theorem modelEvp_implementsCbc (block : Nat → List UInt8 → Equiv.Perm Block) :
    (modelEvp block).ImplementsCbc block (modelState true) (modelState false) where
  new := rfl
  encrypt := model_implements block true rfl rfl rfl
  decrypt := model_implements block false rfl rfl rfl

/-- One direction of the reference implementation reports what it writes. -/
theorem model_reports (block : Nat → List UInt8 → Equiv.Perm Block) (encrypts : Bool)
    {d : Direction (modelEvp block)}
    {mode : Equiv.Perm Block → Block → List Block → List Block}
    (hmode : ∀ E iv bs, (mode E iv bs).length = bs.length)
    (hupdate : d.update = modelUpdate mode encrypts) (hfinal : d.final = modelFinal encrypts) :
    d.Reports where
  update ctx input inl := by
    rw [hupdate]
    intro hrc
    rcases ctx with _ | ⟨dir, k⟩
    · exact absurd hrc (Emitted.fail_rc_ne _)
    · rw [modelUpdate] at hrc ⊢
      split_ifs at hrc ⊢ with hcond
      · obtain ⟨_, _, _, hlen, haligned⟩ := hcond
        simp only [unblocks_length, hmode, blocks_length]
        omega
      · exact absurd hrc (Emitted.fail_rc_ne _)
  final ctx := by
    rw [hfinal]
    intro hrc
    rcases ctx with _ | ⟨dir, k⟩
    · exact absurd hrc (Emitted.fail_rc_ne _)
    · rw [modelFinal] at hrc ⊢
      split_ifs at hrc ⊢ with hcond
      · rfl
      · exact absurd hrc (Emitted.fail_rc_ne _)

end CanbusAgent.PalCipher

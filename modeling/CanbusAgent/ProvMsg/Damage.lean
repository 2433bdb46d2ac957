import CanbusAgent.PalCipher.Crc32Algebra
import CanbusAgent.ProvMsg.Transfer

/-!
# Damaged requests

The field `crc` of a request is there for the value that `pal_crc32` has on the payload.  A
receiver that depacks a request and compares the two finds up to two inverted bits in the
magic word, the version, the `crc` and the payload, wherever they are.  The other bits of the
header have no protection.

An inverted bit changes the magic word, the version and the difference between the two values
by a word that depends on its place alone, so a list of inverted bits is judged by the sum of
these words.
-/

namespace CanbusAgent.ProvMsg

open HalCom LittleEndian PalCipher Region ShiftRegister

/-! ## Inverted bits -/

/-- The sum of the words `w p`. -/
def gain (w : Nat → UInt32) : List Nat → UInt32
  | [] => 0
  | p :: ps => w p ^^^ gain w ps

/-- A value that gains the word `w p` from the bit `p` gains the sum from several bits. -/
theorem foldl_flipBit {F : List UInt8 → UInt32} {w : Nat → UInt32} {n : Nat}
    (hF : ∀ bs p, bs.length = n → p < 8 * n → F (flipBit bs p) = F bs ^^^ w p) {ps : List Nat}
    {bs : List UInt8} (hbs : bs.length = n) (hps : ∀ p ∈ ps, p < 8 * n) :
    F (ps.foldl flipBit bs) = F bs ^^^ gain w ps := by
  induction ps generalizing bs with
  | nil => simp [gain]
  | cons p ps ih =>
    obtain ⟨hp, hps⟩ := List.forall_mem_cons.mp hps
    rw [List.foldl_cons, ih (by rwa [flipBit_length]) hps, hF bs p hbs hp, gain, UInt32.xor_assoc]

theorem gain_zero {w : Nat → UInt32} {ps : List Nat} (h : ∀ p ∈ ps, w p = 0) : gain w ps = 0 := by
  induction ps with
  | nil => rfl
  | cons p ps ih =>
    obtain ⟨hp, hps⟩ := List.forall_mem_cons.mp h
    rw [gain, hp, ih hps, UInt32.xor_self]

/-- Bits before an offset do not change what lies behind it. -/
theorem drop_foldl_flipBit {ps : List Nat} {k : Nat} (h : ∀ p ∈ ps, p < 8 * k) (bs : List UInt8) :
    (ps.foldl flipBit bs).drop k = bs.drop k := by
  induction ps generalizing bs with
  | nil => rfl
  | cons p ps ih =>
    obtain ⟨hp, hps⟩ := List.forall_mem_cons.mp h
    rw [List.foldl_cons, ih hps, flipBit, List.drop_modify_of_lt _ _ _ _ (by omega)]

/-- Up to two words that differ from each other cancel only when they are zero. -/
theorem gain_eq_zero_iff {w : Nat → UInt32} {ps : List Nat} (hnodup : ps.Nodup)
    (hlen : ps.length ≤ 2)
    (hinj : ∀ p ∈ ps, ∀ q ∈ ps, p ≠ q → w p = w q → w p = 0) :
    gain w ps = 0 ↔ ∀ p ∈ ps, w p = 0 := by
  match ps, hlen with
  | [], _ => simp [gain]
  | [p], _ => simp [gain]
  | [p, q], _ =>
    have hpq : p ≠ q := by simpa using hnodup
    have hsum : gain w [p, q] = 0 ↔ w p = w q := by
      simp [gain]
    rw [hsum]
    constructor
    · intro h
      have hzero := hinj p (by simp) q (by simp) hpq h
      have hzero' : w q = 0 := h ▸ hzero
      simp [hzero, hzero']
    · intro h
      rw [h p (by simp), h q (by simp)]

/-! ## What an inverted bit does to a packed request -/

theorem getLsbD_word {bs : List UInt8} {off : Nat} (h : off + 4 ≤ bs.length) {i : Nat}
    (hi : i < 32) : (ReqMsg.word bs off).toBitVec.getLsbD i = messageBit bs (8 * off + i) := by
  have hfour : ((bs.drop off).take 4).length = 4 := by
    rw [List.length_take, List.length_drop]
    omega
  rw [ReqMsg.word, ← word_u32Bytes, u32Bytes_u32OfBytes hfour, ShiftRegister.getLsbD_word,
    decide_eq_true hi, Bool.true_and, List.getD_eq_getElem _ _ (by simpa [hfour] using hi),
    getElem_messageBits, messageBit, messageBit, show (8 * off + i) / 8 = off + i / 8 by omega,
    show (8 * off + i) % 8 = i % 8 by omega, List.getD_eq_getElem?_getD, List.getD_eq_getElem?_getD,
    List.getElem?_take_of_lt (by omega), List.getElem?_drop]

/-- What the word at an offset gains from the bit `p` of the request. -/
def wordGain (off p : Nat) : UInt32 :=
  if 8 * off ≤ p ∧ p < 8 * off + 32 then ⟨BitVec.twoPow 32 (p - 8 * off)⟩ else 0

theorem word_flipBit {bs : List UInt8} {off p : Nat} (h : off + 4 ≤ bs.length)
    (hp : p < 8 * bs.length) :
    ReqMsg.word (flipBit bs p) off = ReqMsg.word bs off ^^^ wordGain off p := by
  apply UInt32.toBitVec_inj.mp
  apply BitVec.eq_of_getLsbD_eq
  intro i hi
  rw [getLsbD_word (by rwa [flipBit_length]) hi, messageBit_flipBit hp, UInt32.toBitVec_xor,
    BitVec.getLsbD_xor, getLsbD_word h hi, wordGain]
  by_cases hin : 8 * off ≤ p ∧ p < 8 * off + 32
  · rw [if_pos hin]
    have hbit : (BitVec.twoPow 32 (p - 8 * off)).getLsbD i = decide (p = 8 * off + i) := by
      rw [BitVec.getLsbD_twoPow, decide_eq_true (show p - 8 * off < 32 by omega), Bool.true_and]
      exact decide_eq_decide.mpr (by omega)
    rw [hbit]
    by_cases hpi : p = 8 * off + i
    · simp [hpi]
    · simp [hpi]
  · rw [if_neg hin, if_neg (show p ≠ 8 * off + i by omega)]
    simp

/-- The difference between the value of the payload and the field `crc`. -/
def mismatch (dm : DataModel) (bs : List UInt8) : UInt32 :=
  (palCrc32 (bs.drop (PROV_MSG_HEADER_LEN dm)) 0).2 ^^^ ReqMsg.word bs 28

/-- What the difference gains from the bit `p` of a request with `n` bytes of payload. -/
def mismatchGain (dm : DataModel) (n p : Nat) : UInt32 :=
  if 8 * PROV_MSG_HEADER_LEN dm ≤ p then flipDelta (8 * (PROV_MSG_HEADER_LEN dm + n) - p)
  else wordGain 28 p

theorem mismatch_flipBit {dm : DataModel} {bs : List UInt8} {n p : Nat}
    (hbs : bs.length = PROV_MSG_HEADER_LEN dm + n) (hp : p < 8 * (PROV_MSG_HEADER_LEN dm + n)) :
    mismatch dm (flipBit bs p) = mismatch dm bs ^^^ mismatchGain dm n p := by
  have hge := headerLen_ge dm
  rw [mismatch, mismatch, word_flipBit (by omega) (by omega), mismatchGain]
  by_cases hpay : 8 * PROV_MSG_HEADER_LEN dm ≤ p
  · have hdrop : (flipBit bs p).drop (PROV_MSG_HEADER_LEN dm) =
        flipBit (bs.drop (PROV_MSG_HEADER_LEN dm)) (p - 8 * PROV_MSG_HEADER_LEN dm) := by
      rw [flipBit, List.drop_modify_of_ge _ _ _ _ (by omega), flipBit,
        show (p - 8 * PROV_MSG_HEADER_LEN dm) / 8 = p / 8 - PROV_MSG_HEADER_LEN dm by omega,
        show (p - 8 * PROV_MSG_HEADER_LEN dm) % 8 = p % 8 by omega]
    have hlen : (bs.drop (PROV_MSG_HEADER_LEN dm)).length = n := by
      rw [List.length_drop, hbs]
      omega
    rw [if_pos hpay, hdrop, palCrc32_flipBit (by omega) 0 0, hlen,
      show 8 * n - (p - 8 * PROV_MSG_HEADER_LEN dm) = 8 * (PROV_MSG_HEADER_LEN dm + n) - p by omega,
      wordGain, if_neg (by omega), UInt32.xor_zero, UInt32.xor_assoc,
      UInt32.xor_comm (flipDelta _), UInt32.xor_assoc]
  · rw [if_neg hpay, flipBit, List.drop_modify_of_lt _ _ _ _ (by omega), UInt32.xor_assoc]

/-! ## Gains that cancel -/

theorem wordGain_eq_zero_iff {off p : Nat} :
    wordGain off p = 0 ↔ ¬ (8 * off ≤ p ∧ p < 8 * off + 32) := by
  unfold wordGain
  split_ifs with h
  · refine iff_of_false ?_ (not_not_intro h)
    intro hzero
    have hbit := congrArg (fun w : UInt32 => w.toBitVec.getLsbD (p - 8 * off)) hzero
    simp [show p - 8 * off < 32 by omega] at hbit
  · exact iff_of_true rfl h

theorem wordGain_cancels {off p q : Nat} (hpq : p ≠ q) (h : wordGain off p = wordGain off q) :
    wordGain off p = 0 := by
  by_contra hp
  have hq : wordGain off q ≠ 0 := h ▸ hp
  have hinp := not_not.mp (mt wordGain_eq_zero_iff.mpr hp)
  have hinq := not_not.mp (mt wordGain_eq_zero_iff.mpr hq)
  rw [wordGain, wordGain, if_pos hinp, if_pos hinq] at h
  have hbit := congrArg (fun w : UInt32 => w.toBitVec.getLsbD (p - 8 * off)) h
  simp [show p - 8 * off < 32 by omega] at hbit
  omega

/-- The bits of the field `crc` and of the payload. -/
def Compared (dm : DataModel) (p : Nat) : Prop :=
  224 ≤ p ∧ p < 256 ∨ 8 * PROV_MSG_HEADER_LEN dm ≤ p

/-- The gain of such a bit is a power of the shift: the field `crc` goes on where the payload
ends. -/
def power (dm : DataModel) (n p : Nat) : Nat :=
  if 8 * PROV_MSG_HEADER_LEN dm ≤ p then 8 * (PROV_MSG_HEADER_LEN dm + n) - p + 31 else 255 - p

theorem toBitVec_mismatchGain {dm : DataModel} {n p : Nat} (h : Compared dm p) :
    (mismatchGain dm n p).toBitVec = (shift crc32Poly)^[power dm n p] (unit 32) := by
  unfold mismatchGain power
  split_ifs with hpay
  · have hone : (1#32 : BitVec 32) = (shift crc32Poly)^[31] (unit 32) :=
      (shift_iterate_unit (show 0 < 32 by omega)).symm
    rw [flipDelta, hone, ← Function.iterate_add_apply]
  · have hfield := h.resolve_right hpay
    rw [wordGain, if_pos (by omega), show 255 - p = 32 - 1 - (p - 8 * 28) by omega,
      shift_iterate_unit (by omega)]

theorem mismatchGain_ne_zero {dm : DataModel} {n p : Nat} (h : Compared dm p) :
    mismatchGain dm n p ≠ 0 := by
  intro hzero
  have hpow := toBitVec_mismatchGain (n := n) h
  have hstart : (shift crc32Poly)^[power dm n p] 0#32 =
      (shift crc32Poly)^[power dm n p] (unit 32) := by
    rw [← hpow, hzero, shift_iterate_zero]
    rfl
  have hunit := Function.Injective.iterate (shift_injective crc32Poly_msb) _ hstart
  exact absurd hunit (by decide)

theorem mismatchGain_of_not {dm : DataModel} {n p : Nat} (h : ¬ Compared dm p) :
    mismatchGain dm n p = 0 := by
  have hpay : ¬ 8 * PROV_MSG_HEADER_LEN dm ≤ p := fun hle => h (Or.inr hle)
  rw [mismatchGain, if_neg hpay, wordGain_eq_zero_iff]
  exact fun hin => h (Or.inl (by omega))

theorem mismatchGain_cancels {dm : DataModel} {n p q : Nat} (hn : n + 4 < 2 ^ 29)
    (hp : p < 8 * (PROV_MSG_HEADER_LEN dm + n)) (hq : q < 8 * (PROV_MSG_HEADER_LEN dm + n))
    (hpq : p ≠ q) (h : mismatchGain dm n p = mismatchGain dm n q) : mismatchGain dm n p = 0 := by
  by_cases hcp : Compared dm p
  swap
  · exact mismatchGain_of_not hcp
  by_cases hcq : Compared dm q
  swap
  · rw [h, mismatchGain_of_not hcq]
  exfalso
  have hpow := congrArg UInt32.toBitVec h
  rw [toBitVec_mismatchGain hcp, toBitVec_mismatchGain hcq] at hpow
  have hge := headerLen_ge dm
  have hperiod := fun d => @shift_crc32Poly_ne_unit d
  have hbound : ∀ i, Compared dm i → i < 8 * (PROV_MSG_HEADER_LEN dm + n) →
      power dm n i < 2 ^ 32 - 1 := by
    intro i hi hlt
    unfold power
    split_ifs <;> omega
  have hne : power dm n p ≠ power dm n q := by
    unfold Compared at hcp hcq
    unfold power
    split_ifs <;> omega
  have hbp := hbound p hcp hp
  have hbq := hbound q hcq hq
  rcases Nat.lt_or_gt_of_ne hne with hlt | hgt
  · exact shift_iterate_unit_ne crc32Poly_msb hperiod hlt (by omega) hpow
  · exact shift_iterate_unit_ne crc32Poly_msb hperiod hgt (by omega) hpow.symm

/-! ## The receiver -/

/-- A receiver of `n` bytes depacks them, and the value of the payload that it gets is the
`crc` that it gets. -/
structure Passes (dm : DataModel) (m : Nat → UInt8) (n : Nat) (crypto crc out : UInt32) :
    Prop where
  ret : (provMsgDepackReq dm (received m n crypto crc)).1 = 0
  crc : (palCrc32
      (slice (provMsgDepackReq dm (received m n crypto crc)).2.payload.bytes 0
        (provMsgDepackReq dm (received m n crypto crc)).2.ioLen) out).2 =
    (provMsgDepackReq dm (received m n crypto crc)).2.crc

theorem word_take {bs : List UInt8} {off k : Nat} (h : off + 4 ≤ k) :
    ReqMsg.word (bs.take k) off = ReqMsg.word bs off := by
  rw [ReqMsg.word, ReqMsg.word, List.drop_take, List.take_take, Nat.min_eq_left (by omega)]

/-- The value of a message that is not empty does not depend on `crc32_out`. -/
theorem palCrc32_out {m : List UInt8} (h : m.length ≠ 0) (out out' : UInt32) :
    palCrc32 m out = palCrc32 m out' := by
  rw [palCrc32_of_ne h, palCrc32_of_ne h]

theorem slice_drop {α : Type} (m : Nat → α) (k n : Nat) :
    (slice m 0 (k + n)).drop k = slice m k n := by
  rw [slice_add, Nat.zero_add]
  exact List.drop_left' (slice_length m 0 k)

/-- The words of the header are those of the whole request. -/
theorem word_header {dm : DataModel} (m : Nat → UInt8) (n : Nat) {off : Nat} (hoff : off + 4 ≤ 36) :
    ReqMsg.word (slice m 0 (PROV_MSG_HEADER_LEN dm)) off =
      ReqMsg.word (slice m 0 (PROV_MSG_HEADER_LEN dm + n)) off := by
  have hge := headerLen_ge dm
  rw [← slice_take m 0 (Nat.le_add_right (PROV_MSG_HEADER_LEN dm) n)]
  exact word_take (by omega)

/-- What the receiver gets from a request whose length is right. -/
theorem depacked {dm : DataModel} {m : Nat → UInt8} {n : Nat} (hn : 0 < n)
    (hlen : (ReqMsg.word (slice m 0 (PROV_MSG_HEADER_LEN dm + n)) 32).toNat = n)
    {crypto crc : UInt32}
    (hret : (provMsgDepackReq dm (received m (PROV_MSG_HEADER_LEN dm + n) crypto crc)).1 = 0) :
    slice (provMsgDepackReq dm
        (received m (PROV_MSG_HEADER_LEN dm + n) crypto crc)).2.payload.bytes 0
        (provMsgDepackReq dm (received m (PROV_MSG_HEADER_LEN dm + n) crypto crc)).2.ioLen =
      slice m (PROV_MSG_HEADER_LEN dm) n ∧
    (provMsgDepackReq dm (received m (PROV_MSG_HEADER_LEN dm + n) crypto crc)).2.crc =
      ReqMsg.word (slice m 0 (PROV_MSG_HEADER_LEN dm + n)) 28 := by
  have hne : PROV_MSG_HEADER_LEN dm + n ≠ 0 := by omega
  have hacc := (provMsgDepackReq_ret_iff dm
    (received m (PROV_MSG_HEADER_LEN dm + n) crypto crc) hne).mp hret
  have hpl : (headerAt dm m).payloadLen.toNat = n := by
    show (ReqMsg.word (slice m 0 (PROV_MSG_HEADER_LEN dm)) 32).toNat = n
    rw [word_header m n (by omega), hlen]
  rw [provMsgDepackReq_of_accepts dm _ hne hacc]
  constructor
  · show slice (overlay m 0 (slice m (PROV_MSG_HEADER_LEN dm)
      (headerAt dm m).payloadLen.toNat)) 0 (headerAt dm m).payloadLen.toNat = _
    rw [hpl]
    exact slice_overlay_of_length _ _ (slice_length _ _ _)
  · exact word_header m n (by omega)

/-- What the receiver checks, for a request whose length is right. -/
theorem passes_iff {dm : DataModel} {m : Nat → UInt8} {n : Nat} (hn : 0 < n)
    (hlen : (ReqMsg.word (slice m 0 (PROV_MSG_HEADER_LEN dm + n)) 32).toNat = n)
    (crypto crc out : UInt32) :
    Passes dm m (PROV_MSG_HEADER_LEN dm + n) crypto crc out ↔
      (ReqMsg.word (slice m 0 (PROV_MSG_HEADER_LEN dm + n)) 0 = PROV_MSG_MAGIC ∧
        ReqMsg.word (slice m 0 (PROV_MSG_HEADER_LEN dm + n)) 4 = PROV_MSG_VERSION 1) ∧
      mismatch dm (slice m 0 (PROV_MSG_HEADER_LEN dm + n)) = 0 := by
  have hne : PROV_MSG_HEADER_LEN dm + n ≠ 0 := by omega
  have hret := provMsgDepackReq_ret_iff dm
    (received m (PROV_MSG_HEADER_LEN dm + n) crypto crc) hne
  have hacc : Accepts dm m (PROV_MSG_HEADER_LEN dm + n) ↔
      ReqMsg.word (slice m 0 (PROV_MSG_HEADER_LEN dm + n)) 0 = PROV_MSG_MAGIC ∧
        ReqMsg.word (slice m 0 (PROV_MSG_HEADER_LEN dm + n)) 4 = PROV_MSG_VERSION 1 := by
    have hpl : (headerAt dm m).payloadLen.toNat ≤ PROV_MSG_HEADER_LEN dm + n := by
      show (ReqMsg.word (slice m 0 (PROV_MSG_HEADER_LEN dm)) 32).toNat ≤ _
      rw [word_header m n (by omega), hlen]
      omega
    rw [← word_header m n (by omega), ← word_header m n (by omega), Accepts]
    exact ⟨fun h => ⟨h.1, h.2.1⟩, fun h => ⟨h.1, h.2, hpl⟩⟩
  have hvalue : (provMsgDepackReq dm
      (received m (PROV_MSG_HEADER_LEN dm + n) crypto crc)).1 = 0 →
      ((palCrc32 (slice (provMsgDepackReq dm
          (received m (PROV_MSG_HEADER_LEN dm + n) crypto crc)).2.payload.bytes 0
          (provMsgDepackReq dm (received m (PROV_MSG_HEADER_LEN dm + n) crypto crc)).2.ioLen)
          out).2 =
        (provMsgDepackReq dm (received m (PROV_MSG_HEADER_LEN dm + n) crypto crc)).2.crc ↔
      mismatch dm (slice m 0 (PROV_MSG_HEADER_LEN dm + n)) = 0) := by
    intro h
    obtain ⟨hpayload, hcrc⟩ := depacked hn hlen h
    rw [hpayload, hcrc, mismatch, slice_drop, UInt32.xor_eq_zero_iff,
      palCrc32_out (by rw [slice_length]; omega) out 0]
  rw [← hacc]
  constructor
  · rintro ⟨hzero, hcrc⟩
    exact ⟨hret.mp hzero, (hvalue hzero).mp hcrc⟩
  · rintro ⟨haccepts, hzero⟩
    have hretZero := hret.mpr haccepts
    exact ⟨hretZero, (hvalue hretZero).mpr hzero⟩

/-! ## Up to two inverted bits -/

/-- The words of a packed request, and what follows its header. -/
theorem packed_words (dm : DataModel) (stack : Nat → UInt8) (crypto crc : UInt32) (addr : Nat)
    (payload : List UInt8) :
    (ReqMsg.word (packedBytes dm stack crypto crc addr payload) 0 = PROV_MSG_MAGIC ∧
      ReqMsg.word (packedBytes dm stack crypto crc addr payload) 4 = PROV_MSG_VERSION 1 ∧
      ReqMsg.word (packedBytes dm stack crypto crc addr payload) 28 = crc ∧
      ReqMsg.word (packedBytes dm stack crypto crc addr payload) 32 =
        UInt32.ofNat payload.length) ∧
    (packedBytes dm stack crypto crc addr payload).drop (PROV_MSG_HEADER_LEN dm) = payload := by
  constructor
  · rw [packedBytes, ReqMsg.header_eq, List.append_assoc]
    obtain ⟨h0, h4, _, _, h28, h32⟩ :=
      ReqMsg.word_fields (packMsg crypto crc payload.length addr) _
    exact ⟨h0, h4, h28, h32⟩
  · rw [packedBytes]
    exact List.drop_left' (ReqMsg.header_length _ _ _)

/-- The bits of the magic word, the version, the `crc` and the payload. -/
def Guarded (dm : DataModel) (p : Nat) : Prop := p < 64 ∨ Compared dm p

/-- Up to two bits leave the magic word, the version and the comparison as they were exactly
when none of them is guarded. -/
theorem gains_eq_zero_iff {dm : DataModel} {n : Nat} (hsmall : n + 4 < 2 ^ 29) {ps : List Nat}
    (hnodup : ps.Nodup) (htwo : ps.length ≤ 2)
    (hin : ∀ p ∈ ps, p < 8 * (PROV_MSG_HEADER_LEN dm + n)) :
    (gain (wordGain 0) ps = 0 ∧ gain (wordGain 4) ps = 0) ∧ gain (mismatchGain dm n) ps = 0 ↔
      ∀ p ∈ ps, ¬ Guarded dm p := by
  rw [gain_eq_zero_iff hnodup htwo fun _ _ _ _ hpq h => wordGain_cancels hpq h,
    gain_eq_zero_iff hnodup htwo fun _ _ _ _ hpq h => wordGain_cancels hpq h,
    gain_eq_zero_iff hnodup htwo fun p hp r hr hpr h =>
      mismatchGain_cancels hsmall (hin p hp) (hin r hr) hpr h]
  constructor
  · rintro ⟨⟨hmagic, hversion⟩, hcompared⟩ p hp (hlow | hcmp)
    · have hm := wordGain_eq_zero_iff.mp (hmagic p hp)
      have hv := wordGain_eq_zero_iff.mp (hversion p hp)
      omega
    · exact mismatchGain_ne_zero hcmp (hcompared p hp)
  · intro h
    refine ⟨⟨?_, ?_⟩, ?_⟩
    · intro p hp
      exact wordGain_eq_zero_iff.mpr fun hfield => h p hp (Or.inl (by omega))
    · intro p hp
      exact wordGain_eq_zero_iff.mpr fun hfield => h p hp (Or.inl (by omega))
    · intro p hp
      exact mismatchGain_of_not fun hcmp => h p hp (Or.inr hcmp)

/-- The sender puts the value of its payload into the field `crc`. -/
def Request.Sealed (q : Request) : Prop :=
  ∀ out, q.crc = (palCrc32 (slice q.payload 0 q.len) out).2

/-- A receiver whose buffer holds a sealed request with up to two inverted bits, none of
them in the field `payload_len`, accepts it exactly when none of them is guarded.  So what
it accepts is the payload that was sent. -/
theorem damaged_passes_iff (dm : DataModel) (q : Request) (hq : q.Packable dm) (hseal : q.Sealed)
    (hsmall : q.len + 4 < 2 ^ 29) (ps : List Nat) (hnodup : ps.Nodup) (htwo : ps.length ≤ 2)
    (hin : ∀ p ∈ ps, p < 8 * (q.packed dm).2.ioLen) (hlength : ∀ p ∈ ps, p < 256 ∨ 288 ≤ p)
    (m : Nat → UInt8)
    (hm : slice m 0 (q.packed dm).2.ioLen =
      ps.foldl flipBit (slice (q.packed dm).2.payload.bytes 0 (q.packed dm).2.ioLen))
    (crypto crc out : UInt32) :
    (Passes dm m (q.packed dm).2.ioLen crypto crc out ↔ ∀ p ∈ ps, ¬ Guarded dm p) ∧
    (Passes dm m (q.packed dm).2.ioLen crypto crc out →
      slice (provMsgDepackReq dm (received m (q.packed dm).2.ioLen crypto crc)).2.payload.bytes 0
          (provMsgDepackReq dm (received m (q.packed dm).2.ioLen crypto crc)).2.ioLen =
        slice q.payload 0 q.len) := by
  obtain ⟨addr, hpacked⟩ := q.slice_packed hq
  obtain ⟨_, -, hioLen, -⟩ := q.packed_spec hq
  have hn := hq.pos
  have hge := headerLen_ge dm
  rw [hioLen] at hin hm ⊢
  obtain ⟨⟨h0, h4, h28, h32⟩, hdrop⟩ := packed_words dm q.env.stack q.crypto q.crc addr
    (slice q.payload 0 q.len)
  rw [← hpacked] at h0 h4 h28 h32 hdrop
  have hlen : (slice (q.packed dm).2.payload.bytes 0 (PROV_MSG_HEADER_LEN dm + q.len)).length =
      PROV_MSG_HEADER_LEN dm + q.len := slice_length _ _ _
  generalize slice (q.packed dm).2.payload.bytes 0 (PROV_MSG_HEADER_LEN dm + q.len) = bs at *
  have hword : ∀ off, off + 4 ≤ 36 → ReqMsg.word (ps.foldl flipBit bs) off =
      ReqMsg.word bs off ^^^ gain (wordGain off) ps := by
    intro off hoff
    exact foldl_flipBit (F := (ReqMsg.word · off))
      (fun cs p hcs hp => word_flipBit (by omega) (by omega)) hlen hin
  have hmismatch : mismatch dm (ps.foldl flipBit bs) =
      mismatch dm bs ^^^ gain (mismatchGain dm q.len) ps :=
    foldl_flipBit (fun cs p hcs hp => mismatch_flipBit hcs hp) hlen hin
  have hsealed : mismatch dm bs = 0 := by
    rw [mismatch, hdrop, h28, hseal 0, UInt32.xor_self]
  -- the length is right, so the receiver looks at the whole request
  have hwhole : (ReqMsg.word (slice m 0 (PROV_MSG_HEADER_LEN dm + q.len)) 32).toNat = q.len := by
    have hkept : gain (wordGain 32) ps = 0 := by
      apply gain_zero
      intro p hp
      have hout := hlength p hp
      exact wordGain_eq_zero_iff.mpr (by omega)
    rw [hm, hword 32 (by omega), h32, hkept, UInt32.xor_zero, slice_length]
    exact UInt32.toNat_ofNat_of_lt' hq.lt
  have hcancel : ∀ a g : UInt32, a ^^^ g = a ↔ g = 0 := by
    intro a g
    rw [← UInt32.xor_right_inj a (a := g), UInt32.xor_zero]
  have hgains : Passes dm m (PROV_MSG_HEADER_LEN dm + q.len) crypto crc out ↔
      ∀ p ∈ ps, ¬ Guarded dm p := by
    rw [passes_iff hn hwhole, hm, hword 0 (by omega), hword 4 (by omega), hmismatch, h0, h4,
      hsealed, UInt32.zero_xor, hcancel, hcancel, gains_eq_zero_iff hsmall hnodup htwo hin]
  refine ⟨hgains, fun hpasses => ?_⟩
  have hclear := hgains.mp hpasses
  have hbefore : ∀ p ∈ ps, p < 8 * PROV_MSG_HEADER_LEN dm := by
    intro p hp
    by_contra hge
    exact hclear p hp (Or.inr (Or.inr (by omega)))
  rw [(depacked hn hwhole hpasses.ret).1, ← slice_drop, hm, drop_foldl_flipBit hbefore, hdrop]

/-- A sealed request of three bytes. -/
def sealedRequest : Request :=
  { port := 7, crypto := 1, crc := 0x854897f, payload := fun i => UInt8.ofNat i, len := 3,
    env := ⟨some 0x1000, fun _ => 0xcc⟩, stack := (dataFrame 0 0 0).toCanFrame,
    writes := [], target := fun _ => 0, sockopt := 0 }

/-- One bit of its `crc` and one of its payload are inverted. -/
def damagedBuffer (i : Nat) : UInt8 :=
  ([230, 293].foldl flipBit
    (slice (sealedRequest.packed .ilp32).2.payload.bytes 0 39)).getD i 0

theorem damaged_passes_iff_mixed : ¬ Passes .ilp32 damagedBuffer 39 0 0 0 := by
  have hsealed : sealedRequest.Sealed := by
    intro out
    rw [palCrc32_out (by decide) out 0]
    decide
  have h := (damaged_passes_iff .ilp32 sealedRequest
    ⟨by decide, by decide, by decide, ⟨_, rfl⟩⟩ hsealed (by decide) [230, 293] (by decide)
    (by decide) (by decide) (by decide) damagedBuffer (by decide) 0 0 0).1
  intro hpasses
  exact h.mp hpasses 230 (by simp) (Or.inr (Or.inl (by omega)))

end CanbusAgent.ProvMsg

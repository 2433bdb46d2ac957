import CanbusAgent.Lib.LittleEndian
import CanbusAgent.PalCipher.Crc32Detection
import Mathlib.Data.FinEnum

/-!
# The algebra of `pal_crc32`

The register is linear, so the value of a changed message is known from the change alone:
an inverted bit adds a word that depends only on its distance to the end of the message
(`palCrc32_flipBit`).  Four bytes anywhere in a message run through all values, one each, and
a message that ends with its own value has the same value as every other such message.
-/

namespace CanbusAgent.PalCipher

open LittleEndian ShiftRegister

/-- The register after a message. -/
def register (m : List UInt8) : BitVec 32 :=
  feedAll crc32Poly (0xffffffff : UInt32).toBitVec (messageBits m)

theorem toBitVec_palCrc32 {m : List UInt8} (h : m.length ≠ 0) (out : UInt32) :
    (palCrc32 m out).2.toBitVec = register m ^^^ 0xffffffff#32 := by
  rw [palCrc32_of_ne h, foldl_crc32Step, UInt32.toBitVec_xor, register, feedAll_messageBits]
  rfl

/-- Equal values come from equal registers. -/
theorem palCrc32_eq_iff {a b : List UInt8} (ha : a.length ≠ 0) (hb : b.length ≠ 0)
    (out out' : UInt32) :
    (palCrc32 a out).2 = (palCrc32 b out').2 ↔ register a = register b := by
  rw [← UInt32.toBitVec_inj, toBitVec_palCrc32 ha, toBitVec_palCrc32 hb, BitVec.xor_left_inj]

/-! ## One inverted bit -/

/-- What the value of a message gains when the bit `k` places before its end is inverted. -/
def flipDelta (k : Nat) : UInt32 := ⟨(shift crc32Poly)^[k] 1#32⟩

theorem messageBits_flipBit {m : List UInt8} {p : Nat} (hp : p < 8 * m.length) :
    messageBits (flipBit m p) = (messageBits m).modify p not := by
  apply List.ext_getElem?
  intro i
  rw [getElem?_messageBits, flipBit_length, List.getElem?_modify, getElem?_messageBits,
    messageBit_flipBit hp]
  by_cases hi : i < 8 * m.length
  · by_cases hpi : p = i
    · simp [hi, hpi]
    · simp [hi, hpi]
  · simp [hi]

theorem palCrc32_flipBit {m : List UInt8} {p : Nat} (hp : p < 8 * m.length) (out out' : UInt32) :
    (palCrc32 (flipBit m p) out').2 = (palCrc32 m out).2 ^^^ flipDelta (8 * m.length - p) := by
  have hm : m.length ≠ 0 := by omega
  apply UInt32.toBitVec_inj.mp
  rw [UInt32.toBitVec_xor, toBitVec_palCrc32 hm, toBitVec_palCrc32 (by rwa [flipBit_length]),
    register, messageBits_flipBit hp, feedAll_modify_not _ (by simpa using hp), messageBits_length,
    register, flipDelta, BitVec.xor_assoc, BitVec.xor_assoc, BitVec.xor_comm 0xffffffff#32]

/-! ## Four bytes -/

theorem messageBit_leBytes (k n i : Nat) :
    messageBit (leBytes k n) i = (decide (i < 8 * k) && n.testBit i) := by
  induction k generalizing n i with
  | zero => simp [leBytes, messageBit]
  | succ k ih =>
    rw [leBytes]
    by_cases hi : i < 8
    · rw [messageBit, Nat.div_eq_of_lt hi, Nat.mod_eq_of_lt hi, List.getD_cons_zero,
        UInt8.toNat_ofNat', Nat.testBit_mod_two_pow, decide_eq_true hi,
        decide_eq_true (show i < 8 * (k + 1) by omega)]
    · obtain ⟨j, rfl⟩ : ∃ j, i = 8 + j := ⟨i - 8, by omega⟩
      have hrest : messageBit (UInt8.ofNat n :: leBytes k (n / 256)) (8 + j) =
          messageBit (leBytes k (n / 256)) j := by
        rw [messageBit, show (8 + j) / 8 = j / 8 + 1 by omega, Nat.add_mod_left,
          List.getD_cons_succ, messageBit]
      rw [hrest, ih, show 256 = 2 ^ 8 by rfl, Nat.testBit_div_two_pow, Nat.add_comm j]
      simp [show j < 8 * k ↔ 8 + j < 8 * (k + 1) by omega]

@[simp] theorem u32Bytes_length (w : UInt32) : (u32Bytes w).length = 4 := leBytes_length 4 _

theorem word_u32Bytes (w : UInt32) : word 32 (messageBits (u32Bytes w)) = w.toBitVec := by
  apply BitVec.eq_of_getLsbD_eq
  intro i hi
  rw [getLsbD_word, decide_eq_true hi, Bool.true_and, List.getD_eq_getElem _ _ (by simpa using hi),
    getElem_messageBits, u32Bytes, messageBit_leBytes, decide_eq_true (show i < 8 * 4 by omega),
    Bool.true_and]
  rfl

theorem messageBits_append (a b : List UInt8) :
    messageBits (a ++ b) = messageBits a ++ messageBits b := by
  induction a with
  | nil => rfl
  | cons x a ih => rw [List.cons_append, messageBits_cons, messageBits_cons, ih, List.append_assoc]

theorem register_append (a b : List UInt8) :
    register (a ++ b) = feedAll crc32Poly (register a) (messageBits b) := by
  rw [register, messageBits_append, feedAll_append, register]

/-- A word is added to the register before it shifts. -/
theorem register_u32Bytes (a : List UInt8) (w : UInt32) :
    register (a ++ u32Bytes w) = (shift crc32Poly)^[32] (register a ^^^ w.toBitVec) := by
  rw [register_append, feedAll_eq_of_le _ (by simp), word_u32Bytes]
  simp

/-- Different words have different values. -/
theorem palCrc32_word_injective (a b : List UInt8) (out : UInt32) :
    Function.Injective fun w : UInt32 => (palCrc32 (a ++ u32Bytes w ++ b) out).2 := by
  intro v w h
  have hne : ∀ x : UInt32, (a ++ u32Bytes x ++ b).length ≠ 0 := by
    intro x
    simp only [List.length_append, u32Bytes_length]
    omega
  have hreg := (palCrc32_eq_iff (hne v) (hne w) out out).mp h
  rw [register_append _ b, register_append _ b, register_u32Bytes, register_u32Bytes] at hreg
  have hmid := Function.Injective.iterate (shift_injective crc32Poly_msb) _
    (feedAll_injective crc32Poly_msb _ hreg)
  exact UInt32.toBitVec_inj.mp ((BitVec.xor_right_inj _).mp hmid)

/-- Whatever stands before and behind four bytes of a message, each value is the one of
exactly one choice of them.  So `pal_crc32` finds accidents and no intentions: a message
can be changed at will when four bytes of it are free. -/
theorem palCrc32_forged (a b : List UInt8) (target out : UInt32) :
    ∃! w : UInt32, (palCrc32 (a ++ u32Bytes w ++ b) out).2 = target := by
  have hinj := palCrc32_word_injective a b out
  obtain ⟨w, hw⟩ := Finite.injective_iff_surjective.mp hinj target
  exact ⟨w, hw, fun v hv => hinj (hv.trans hw.symm)⟩

/-- A message is followed by its own value exactly when the value of the whole is this
constant, so a receiver can check both in one pass. -/
theorem palCrc32_residue {m : List UInt8} (hm : m.length ≠ 0) (w out out' : UInt32) :
    (palCrc32 (m ++ u32Bytes w) out').2 = 0x2144df1c ↔ w = (palCrc32 m out).2 := by
  have hwhole : ∀ v : UInt32, (m ++ u32Bytes v).length ≠ 0 := by
    intro v
    rw [List.length_append]
    omega
  -- its own value leaves the register as it was at the start
  have hown : (palCrc32 (m ++ u32Bytes (palCrc32 m out).2) out').2 = 0x2144df1c := by
    apply UInt32.toBitVec_inj.mp
    rw [toBitVec_palCrc32 (hwhole _), register_u32Bytes, toBitVec_palCrc32 hm, ← BitVec.xor_assoc,
      BitVec.xor_self, BitVec.zero_xor]
    decide
  constructor
  · intro h
    have hinj := palCrc32_word_injective m [] out'
    apply hinj
    simp only [List.append_nil]
    rw [h, hown]
  · rintro rfl
    exact hown

/-- The value of the single byte `a` in front of itself. -/
theorem palCrc32_residue_a :
    (palCrc32 ([0x61] ++ u32Bytes 0xe8b7be43) 0).2 = 0x2144df1c :=
  (palCrc32_residue (show [(0x61 : UInt8)].length ≠ 0 by decide) 0xe8b7be43 0 0).mpr (by decide)

/-! ## Zero bytes -/

/-- The generator is primitive. -/
theorem crc32Poly_maximalPeriod : MaximalPeriod crc32Poly where
  msb := crc32Poly_msb
  back := by
    have hfull : shiftPow crc32Poly 32 (2 ^ 32 - 1) = unit 32 := by decide +kernel
    rwa [shiftPow_eq (by omega)] at hfull
  first _ := shift_crc32Poly_ne_unit

theorem register_zeros (a : List UInt8) (k : Nat) :
    register (a ++ List.replicate k 0) = (shift crc32Poly)^[8 * k] (register a) := by
  have hbits : messageBits (List.replicate k 0) = List.replicate (8 * k) false := by
    apply List.ext_getElem (by simp)
    intro i hi _
    have hzero : (List.replicate k (0 : UInt8)).getD (i / 8) 0 = 0 := by
      rw [List.getD_eq_getElem?_getD, List.getElem?_replicate]
      split_ifs
      · rfl
      · rfl
    rw [getElem_messageBits, List.getElem_replicate, messageBit, hzero]
    exact Nat.zero_testBit _
  rw [register_append, hbits, feedAll_replicate_false]

/-- A number of bits is a multiple of the period when the number of bytes is. -/
theorem not_period_dvd {k : Nat} (hpos : 0 < k) (hlt : k < 2 ^ 32 - 1) :
    ¬ 2 ^ 32 - 1 ∣ 8 * k := by
  intro h
  have hcoprime : Nat.Coprime (2 ^ 32 - 1) 8 := by decide
  exact absurd (Nat.le_of_dvd hpos (hcoprime.dvd_of_dvd_mul_left h)) (Nat.not_le.mpr hlt)

/-- Zero bytes that are inserted or lost go unnoticed exactly when they stand behind a start of
the message that has the value with all bits set.  Fewer than `2 ^ 32 - 1` of them are found at
the start of a message in any case. -/
theorem palCrc32_zeros_iff (a b : List UInt8) {k : Nat} (hpos : 0 < k) (hlt : k < 2 ^ 32 - 1)
    (hne : (a ++ b).length ≠ 0) (out out' out'' : UInt32) :
    (palCrc32 (a ++ List.replicate k 0 ++ b) out).2 = (palCrc32 (a ++ b) out').2 ↔
      a.length ≠ 0 ∧ (palCrc32 a out'').2 = 0xffffffff := by
  have hlong : (a ++ List.replicate k 0 ++ b).length ≠ 0 := by
    simp only [List.length_append, List.length_replicate]
    omega
  rw [palCrc32_eq_iff hlong hne, register_append, register_append a b, register_zeros,
    (feedAll_injective crc32Poly_msb (messageBits b)).eq_iff,
    crc32Poly_maximalPeriod.shift_iterate_eq_self_iff, or_iff_left (not_period_dvd hpos hlt)]
  rcases Nat.eq_zero_or_pos a.length with h0 | ha
  · -- the register starts with all bits set
    rw [List.eq_nil_of_length_eq_zero h0]
    exact iff_of_false (show (0xffffffff : UInt32).toBitVec ≠ 0#32 by decide) (by simp)
  · rw [and_iff_right ha.ne', ← UInt32.toBitVec_inj, toBitVec_palCrc32 ha.ne']
    exact (BitVec.xor_left_inj (0xffffffff#32)).symm.trans (by simp)

/-- Four bytes `0xff` hide zeros behind them. -/
theorem palCrc32_zeros_iff_ones :
    (palCrc32 ([0xff, 0xff, 0xff, 0xff] ++ List.replicate 1000000 0 ++ [1]) 0).2 =
      (palCrc32 ([0xff, 0xff, 0xff, 0xff] ++ [1]) 0).2 :=
  (palCrc32_zeros_iff [0xff, 0xff, 0xff, 0xff] [1] (k := 1000000) (by decide) (by decide)
    (by decide) 0 0 0).mpr (by decide)

end CanbusAgent.PalCipher

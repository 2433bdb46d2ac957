import CanbusAgent.Lib.ShiftRegister
import CanbusAgent.PalCipher.Crc32

/-!
# The CRC-32 of the standard

The bit-serial reference takes eight steps of one bit for each byte, where
`pal_crc32` looks one value up.  Both are the same shift register of 32 bits.
-/

namespace CanbusAgent.PalCipher

open ShiftRegister

/-- One step of the reference: a shift by one bit, with the polynomial added when
the bit that leaves is 1. -/
def bitStep (r : UInt32) : UInt32 :=
  if r &&& 1 = 1 then (r >>> 1) ^^^ 0xedb88320 else r >>> 1

/-- The reference on one message byte. -/
def referenceStep (r : UInt32) (b : UInt8) : UInt32 := bitStep^[8] (r ^^^ b.toUInt32)

/-- The bit-serial CRC-32. -/
def crc32Reference (message : List UInt8) : UInt32 :=
  message.foldl referenceStep 0xffffffff ^^^ 0xffffffff

/-- The generator, the bit of the lowest power at the top. -/
def crc32Poly : BitVec 32 := 0xedb88320#32

theorem toBitVec_bitStep (r : UInt32) : (bitStep r).toBitVec = shift crc32Poly r.toBitVec := by
  have hbit : r &&& 1 = 1 ↔ r.toBitVec.getLsbD 0 = true := by
    rw [← UInt32.toBitVec_inj, UInt32.toBitVec_and]
    show r.toBitVec &&& 1#32 = 1#32 ↔ _
    rw [BitVec.and_one_eq_setWidth_ofBool_getLsbD]
    cases r.toBitVec.getLsbD 0
    · simp
    · simp
  unfold bitStep shift
  by_cases h : r &&& 1 = 1
  · rw [if_pos h, if_pos (hbit.mp h)]
    rfl
  · rw [if_neg h, if_neg (fun hb => h (hbit.mpr hb)), BitVec.xor_zero]
    rfl

theorem toBitVec_bitStep_iterate (k : Nat) (r : UInt32) :
    (bitStep^[k] r).toBitVec = (shift crc32Poly)^[k] r.toBitVec :=
  Function.Semiconj.iterate_right toBitVec_bitStep k r

/-- Every entry of the table is the eight-step image of its index. -/
theorem crc32Table_eq (i : Fin 256) : crc32Table[i] = bitStep^[8] (UInt32.ofNat i.val) := by
  revert i
  decide +kernel

/-- A lookup takes the eight steps of the low byte, the upper three bytes only move. -/
theorem crc32Step_eq (crc32 : UInt32) (b : UInt8) : crc32Step crc32 b = referenceStep crc32 b := by
  have hindex : (UInt32.ofNat (crc32Index crc32 b).val).toBitVec =
      ((crc32 ^^^ b.toUInt32).toBitVec.setWidth 8).setWidth 32 := by
    have hval : (crc32Index crc32 b).val = (crc32 ^^^ b.toUInt32).toNat % 256 := by
      show ((crc32 ^^^ b.toUInt32) &&& 0xff).toNat = _
      rw [UInt32.toNat_and]
      exact Nat.and_two_pow_sub_one_eq_mod _ 8
    apply BitVec.eq_of_toNat_eq
    rw [hval, BitVec.toNat_setWidth, BitVec.toNat_setWidth]
    rfl
  have hhigh : (crc32 >>> 8).toBitVec = (crc32 ^^^ b.toUInt32).toBitVec >>> 8 := by
    apply BitVec.eq_of_getLsbD_eq
    intro i hi
    simp
  apply UInt32.toBitVec_inj.mp
  unfold crc32Step referenceStep
  rw [crc32Table_eq, UInt32.toBitVec_xor, toBitVec_bitStep_iterate, toBitVec_bitStep_iterate,
    hindex, hhigh, ← shift_iterate_eq (by omega)]

/-- The loop of `pal_crc32` is the loop of the reference. -/
theorem foldl_crc32Step (buffer : List UInt8) (crc32 : UInt32) :
    buffer.foldl crc32Step crc32 = buffer.foldl referenceStep crc32 := by
  induction buffer generalizing crc32 with
  | nil => rfl
  | cons b bs ih => rw [List.foldl_cons, List.foldl_cons, crc32Step_eq, ih]

/-- `pal_crc32` computes the standard CRC-32 of every non-empty message. -/
theorem palCrc32_eq_crc32Reference {buffer : List UInt8} (h : buffer.length ≠ 0)
    (crc32Out : UInt32) : palCrc32 buffer crc32Out = (0, crc32Reference buffer) := by
  rw [palCrc32_of_ne h, foldl_crc32Step, crc32Reference]

/-- The message of the single byte `a`. -/
theorem palCrc32_eq_crc32Reference_a :
    ([0x61] : List UInt8).length ≠ 0 ∧ palCrc32 [0x61] 0 = (0, crc32Reference [0x61]) :=
  ⟨by decide, palCrc32_eq_crc32Reference (by decide) 0⟩

end CanbusAgent.PalCipher

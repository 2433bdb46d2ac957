import CanbusAgent.Lib.RegisterPolynomial
import CanbusAgent.PalCipher.Crc32Algebra

/-!
# `pal_crc32` as a polynomial division

The standard defines the CRC-32 of a message as the complement of a remainder: the message
is a polynomial over the field of two elements, its first 32 bits are inverted, it is
multiplied by `X ^ 32` and divided by the generator.  `palCrc32_remainder` is this definition
for the table lookups of `pal_crc32`.

So an error goes unnoticed exactly when the difference is a multiple of the generator
(`palCrc32_eq_iff_dvd`).
-/

namespace CanbusAgent.PalCipher

open Polynomial ShiftRegister

/-- The generator of the standard. -/
noncomputable def crc32Generator : (ZMod 2)[X] :=
  X ^ 32 + X ^ 26 + X ^ 23 + X ^ 22 + X ^ 16 + X ^ 12 + X ^ 11 + X ^ 10 + X ^ 8 + X ^ 7 + X ^ 5 +
    X ^ 4 + X ^ 2 + X + 1

/-- The first bit of a message is the highest coefficient. -/
noncomputable def messagePoly (m : List UInt8) : (ZMod 2)[X] := bitsPoly (messageBits m)

/-- The polynomial of a value of the checksum. -/
noncomputable def valuePoly (v : UInt32) : (ZMod 2)[X] := toPoly v.toBitVec

/-- Adding it inverts 32 bits. -/
noncomputable def onesPoly : (ZMod 2)[X] := ∑ i ∈ Finset.range 32, X ^ i

theorem generator_crc32Poly : generator crc32Poly = crc32Generator := by
  have hbits : ∀ i : Fin 32, crc32Poly.getMsbD i =
      decide (i.val ∈ [26, 23, 22, 16, 12, 11, 10, 8, 7, 5, 4, 2, 1, 0]) := by
    decide
  rw [generator, toPoly_eq_sum, crc32Generator]
  simp only [hbits]
  simp [Fin.sum_univ_succ]
  ring

theorem toPoly_ones : toPoly (0xffffffff#32) = onesPoly := by
  have hbits : ∀ i : Fin 32, (0xffffffff#32).getMsbD i = true := by decide
  rw [toPoly_eq_sum, onesPoly, Finset.sum_range]
  simp only [hbits, ofBit_true, C_1, one_mul]

/-- `pal_crc32` divides: its value is the complement of the remainder of the message, with its
first 32 bits inverted and 32 zeros appended. -/
theorem palCrc32_remainder {m : List UInt8} (hm : m.length ≠ 0) (out : UInt32) :
    valuePoly (palCrc32 m out).2 + onesPoly =
      (X ^ (8 * m.length) * onesPoly + X ^ 32 * messagePoly m) %ₘ crc32Generator := by
  have hregister : valuePoly (palCrc32 m out).2 = toPoly (register m) + onesPoly := by
    rw [valuePoly, toBitVec_palCrc32 hm, toPoly_xor, toPoly_ones]
  rw [hregister, add_assoc, CharTwo.add_self_eq_zero, add_zero, register,
    toPoly_feedAll (by decide), messageBits_length, generator_crc32Poly]
  show (_ * toPoly (0xffffffff#32) + _) %ₘ _ = _
  rw [toPoly_ones, messagePoly]

/-- The value of the single byte `a`. -/
theorem palCrc32_remainder_a :
    valuePoly 0xe8b7be43 + onesPoly =
      (X ^ 8 * onesPoly + X ^ 32 * messagePoly [0x61]) %ₘ crc32Generator :=
  palCrc32_remainder (m := [0x61]) (by decide) 0

/-! ## What goes unnoticed -/

/-- Two messages of one length have the same value exactly when their difference is a multiple
of the generator. -/
theorem palCrc32_eq_iff_dvd {a b : List UInt8} (ha : a.length ≠ 0) (hlen : a.length = b.length)
    (out out' : UInt32) :
    (palCrc32 a out).2 = (palCrc32 b out').2 ↔
      crc32Generator ∣ messagePoly a - messagePoly b := by
  rw [palCrc32_eq_iff ha (hlen ▸ ha), register, register,
    feedAll_eq_iff_dvd crc32Poly_msb _ (by simp [hlen]), generator_crc32Poly, messagePoly,
    messagePoly]

/-- Two single bytes with different values. -/
theorem palCrc32_eq_iff_dvd_bytes :
    ¬ crc32Generator ∣ messagePoly [0x61] - messagePoly [0x62] := by
  intro h
  have heq := (palCrc32_eq_iff_dvd (a := [0x61]) (b := [0x62]) (by decide) rfl 0 0).mpr h
  exact absurd heq (by decide)

/-- Of the errors in a window of 33 bits, `pal_crc32` misses one, wherever the window is. -/
theorem palCrc32_eq_iff_of_window {a b : List UInt8} (hlen : a.length = b.length) (hne : a ≠ b)
    (t : Nat) (hwindow : ∀ i, messageBit a i ≠ messageBit b i → t ≤ i ∧ i < t + 33)
    (out out' : UInt32) :
    (palCrc32 a out).2 = (palCrc32 b out').2 ↔
      ∀ i < 33, (messageBit a (t + i) ≠ messageBit b (t + i) ↔
        crc32Generator.coeff (32 - i) = 1) := by
  have ha : a.length ≠ 0 := by
    intro h0
    have hb : b.length = 0 := hlen ▸ h0
    exact hne ((List.length_eq_zero_iff.mp h0).trans (List.length_eq_zero_iff.mp hb).symm)
  have hbits : messageBits a ≠ messageBits b := fun h => hne (messageBits_injective hlen h)
  have hsame : ∀ i, messageBit a i = messageBit b i →
      (messageBits a)[i]? = (messageBits b)[i]? := by
    intro i hi
    rw [getElem?_messageBits, getElem?_messageBits, hlen, hi]
  rw [palCrc32_eq_iff ha (hlen ▸ ha), register, register]
  rcases Nat.lt_or_ge (8 * a.length) (t + 33) with hshort | hroom
  · -- the window ends with the message, and 32 bits are left of it
    refine iff_of_false ?_ fun h => ?_
    · refine feedAll_ne_of_window crc32Poly_msb _ (by simp [hlen]) hbits t fun i hi => hsame i ?_
      by_contra hdiff
      have hinside := hwindow i hdiff
      rw [messageBit_of_ge (by omega), messageBit_of_ge (by omega)] at hdiff
      exact hdiff rfl
    · have hone : crc32Generator.coeff (32 - 32) = 1 := by simp [crc32Generator]
      refine (h 32 (by decide)).mpr hone ?_
      rw [messageBit_of_ge (by omega), messageBit_of_ge (by omega)]
  · rw [feedAll_eq_iff_of_window crc32Poly_msb _ (by simp [hlen]) hbits (by simpa using hroom)
      fun i hi => hsame i (not_not.mp fun h => by have := hwindow i h; omega), generator_crc32Poly]
    refine forall₂_congr fun i hi => iff_congr ?_ Iff.rfl
    rw [getElem?_messageBits, getElem?_messageBits, if_pos (by omega), if_pos (by omega), Ne,
      Option.some_inj]

/-- Five bytes that have the value of five zero bytes, because they are the generator. -/
theorem palCrc32_eq_iff_of_window_five :
    (palCrc32 [0, 0, 0, 0, 0] 0).2 = (palCrc32 [0x41, 0x06, 0x71, 0xdb, 0x01] 0).2 ∧
      ∀ i < 33, (messageBit [0, 0, 0, 0, 0] (0 + i) ≠
        messageBit [0x41, 0x06, 0x71, 0xdb, 0x01] (0 + i) ↔ crc32Generator.coeff (32 - i) = 1) := by
  have heq : (palCrc32 [0, 0, 0, 0, 0] 0).2 = (palCrc32 [0x41, 0x06, 0x71, 0xdb, 0x01] 0).2 := by
    decide
  have hinside : ∀ i < 40, messageBit [0, 0, 0, 0, 0] i ≠
      messageBit [0x41, 0x06, 0x71, 0xdb, 0x01] i → i < 33 := by
    decide
  refine ⟨heq, (palCrc32_eq_iff_of_window (a := [0, 0, 0, 0, 0])
    (b := [0x41, 0x06, 0x71, 0xdb, 0x01]) rfl (by decide) 0 (fun i hi => ?_) 0 0).mp heq⟩
  have hlt : i < 40 := by
    by_contra h
    apply hi
    rw [messageBit_of_ge (by simpa using h), messageBit_of_ge (by simpa using h)]
  exact ⟨Nat.zero_le i, by simpa using hinside i hlt hi⟩

end CanbusAgent.PalCipher

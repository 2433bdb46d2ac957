import Mathlib.Tactic.NormNum.Prime
import CanbusAgent.PalCipher.Crc32Reference

/-!
# Errors that `pal_crc32` detects

The bits of a message are numbered along it, least significant bit first within
each byte.  `pal_crc32` feeds them to the register in that order, so what the
register tells apart, the stored value tells apart: every burst of up to 32 bits,
and every two bits of a message of fewer than `2 ^ 29` bytes.
-/

namespace CanbusAgent.PalCipher

open ShiftRegister

/-! ## The bits of a message -/

def byteBits (b : UInt8) : List Bool := (List.range 8).map b.toNat.testBit

/-- Bit `i` of a message; past the end there are only zeros. -/
def messageBit (m : List UInt8) (i : Nat) : Bool := (m.getD (i / 8) 0).toNat.testBit (i % 8)

theorem messageBit_of_ge {m : List UInt8} {i : Nat} (h : 8 * m.length ≤ i) :
    messageBit m i = false := by
  rw [messageBit, List.getD_eq_default _ _ (by omega)]
  exact Nat.zero_testBit _

def messageBits (m : List UInt8) : List Bool := (List.range (8 * m.length)).map (messageBit m)

@[simp] theorem messageBits_length (m : List UInt8) : (messageBits m).length = 8 * m.length := by
  simp [messageBits]

theorem getElem?_messageBits (m : List UInt8) (i : Nat) :
    (messageBits m)[i]? = if i < 8 * m.length then some (messageBit m i) else none := by
  unfold messageBits
  split
  · next h => rw [List.getElem?_map, List.getElem?_range h, Option.map_some]
  · next h => rw [List.getElem?_eq_none (by simpa using h)]

theorem getElem_messageBits {m : List UInt8} {i : Nat} (h : i < (messageBits m).length) :
    (messageBits m)[i] = messageBit m i := by
  simp [messageBits]

theorem messageBits_cons (b : UInt8) (m : List UInt8) :
    messageBits (b :: m) = byteBits b ++ messageBits m := by
  have hfirst : (List.range 8).map (messageBit (b :: m)) = byteBits b := by
    apply List.map_congr_left
    intro i hi
    have hi : i < 8 := List.mem_range.mp hi
    rw [messageBit, Nat.div_eq_of_lt hi, Nat.mod_eq_of_lt hi, List.getD_cons_zero]
  have hrest : ∀ i, messageBit (b :: m) (8 + i) = messageBit m i := by
    intro i
    rw [messageBit, show (8 + i) / 8 = i / 8 + 1 by omega, Nat.add_mod_left, List.getD_cons_succ,
      messageBit]
  rw [messageBits, List.length_cons, show 8 * (m.length + 1) = 8 + 8 * m.length by omega,
    List.range_add, List.map_append, List.map_map, hfirst]
  congr 1
  apply List.map_congr_left
  intro i _
  exact hrest i

theorem messageBits_injective {a b : List UInt8} (hlen : a.length = b.length)
    (h : messageBits a = messageBits b) : a = b := by
  apply List.ext_getElem hlen
  intro k ha hb
  rw [← UInt8.toNat_inj]
  apply Nat.eq_of_testBit_eq
  intro j
  by_cases hj : j < 8
  · have hbit : (messageBits a)[8 * k + j]? = (messageBits b)[8 * k + j]? := by rw [h]
    rw [getElem?_messageBits, getElem?_messageBits, if_pos (by omega), if_pos (by omega),
      Option.some_inj, messageBit, messageBit] at hbit
    rwa [show (8 * k + j) / 8 = k by omega, show (8 * k + j) % 8 = j by omega,
      List.getD_eq_getElem _ _ ha, List.getD_eq_getElem _ _ hb] at hbit
  · have hpow : 2 ^ 8 ≤ 2 ^ j := Nat.pow_le_pow_right (by omega) (by omega)
    rw [Nat.testBit_lt_two_pow (Nat.lt_of_lt_of_le (UInt8.toNat_lt _) hpow),
      Nat.testBit_lt_two_pow (Nat.lt_of_lt_of_le (UInt8.toNat_lt _) hpow)]

/-! ## The register of a message -/

theorem word_byteBits (b : UInt8) : word 32 (byteBits b) = b.toUInt32.toBitVec := by
  apply BitVec.eq_of_getLsbD_eq
  intro i hi
  rw [getLsbD_word, decide_eq_true hi, Bool.true_and, byteBits]
  by_cases h : i < 8
  · rw [List.getD_eq_getElem _ _ (by simpa using h)]
    simp [BitVec.getLsbD]
  · rw [List.getD_eq_default _ _ (by simpa using h)]
    simp [BitVec.getLsbD_of_ge _ _ (Nat.le_of_not_lt h)]

theorem feedAll_messageBits (m : List UInt8) (r : UInt32) :
    feedAll crc32Poly r.toBitVec (messageBits m) = (m.foldl referenceStep r).toBitVec := by
  induction m generalizing r with
  | nil => rfl
  | cons b m ih =>
    have hbyte : feedAll crc32Poly r.toBitVec (byteBits b) = (referenceStep r b).toBitVec := by
      rw [feedAll_eq_of_le _ (by simp [byteBits]), word_byteBits, referenceStep,
        toBitVec_bitStep_iterate, UInt32.toBitVec_xor]
      rfl
    rw [messageBits_cons, feedAll_append, hbyte, ih, List.foldl_cons]

/-- Equal values come from equal registers. -/
theorem palCrc32_ne {a b : List UInt8} (ha : a.length ≠ 0) (hb : b.length ≠ 0) {outA outB : UInt32}
    (h : feedAll crc32Poly (0xffffffff : UInt32).toBitVec (messageBits a) ≠
      feedAll crc32Poly (0xffffffff : UInt32).toBitVec (messageBits b)) :
    (palCrc32 a outA).2 ≠ (palCrc32 b outB).2 := by
  intro heq
  apply h
  rw [palCrc32_of_ne ha, palCrc32_of_ne hb, foldl_crc32Step, foldl_crc32Step] at heq
  rw [feedAll_messageBits, feedAll_messageBits]
  have hxor := congrArg UInt32.toBitVec heq
  rw [UInt32.toBitVec_xor, UInt32.toBitVec_xor] at hxor
  exact (BitVec.xor_left_inj _).mp hxor

/-! ## Bursts -/

theorem crc32Poly_msb : crc32Poly.msb = true := by decide

/-- Two messages that differ, but only in bits of one window of 32, have different
values. -/
theorem palCrc32_ne_of_burst {a b : List UInt8} (hlen : a.length = b.length) (hne : a ≠ b)
    (t : Nat) (hwindow : ∀ i, messageBit a i ≠ messageBit b i → t ≤ i ∧ i < t + 32)
    (outA outB : UInt32) : (palCrc32 a outA).2 ≠ (palCrc32 b outB).2 := by
  have ha : a.length ≠ 0 := by
    intro h
    have hb : b.length = 0 := by rw [← hlen, h]
    exact hne ((List.length_eq_zero_iff.mp h).trans (List.length_eq_zero_iff.mp hb).symm)
  apply palCrc32_ne ha (hlen ▸ ha)
  apply feedAll_ne_of_window crc32Poly_msb _ _ (fun h => hne (messageBits_injective hlen h)) t
  · intro i hi
    have hbit : messageBit a i = messageBit b i := by
      by_contra h
      have := hwindow i h
      omega
    rw [getElem?_messageBits, getElem?_messageBits, hlen, hbit]
  · rw [messageBits_length, messageBits_length, hlen]

/-- The upper half of byte 1 and the lower half of byte 2 are changed. -/
theorem palCrc32_ne_of_burst_middle :
    (palCrc32 [1, 0x02, 0x03, 4] 0).2 ≠ (palCrc32 [1, 0xf2, 0x0c, 4] 0).2 := by
  have hinside : ∀ i < 32, messageBit [1, 0x02, 0x03, 4] i ≠ messageBit [1, 0xf2, 0x0c, 4] i →
      12 ≤ i := by
    decide
  apply palCrc32_ne_of_burst (by decide) (by decide) 12
  intro i hi
  have hlt : i < 32 := by
    by_contra h
    apply hi
    rw [messageBit_of_ge (by simpa using h), messageBit_of_ge (by simpa using h)]
  exact ⟨hinside i hlt hi, by omega⟩

/-! ## Pairs of bits -/

/-- The message with bit `i` inverted. -/
def flipBit (m : List UInt8) (i : Nat) : List UInt8 :=
  m.modify (i / 8) fun b => b ^^^ (1 <<< UInt8.ofNat (i % 8))

@[simp] theorem flipBit_length (m : List UInt8) (i : Nat) : (flipBit m i).length = m.length := by
  simp [flipBit]

theorem messageBit_flipBit {m : List UInt8} {i : Nat} (hi : i < 8 * m.length) (j : Nat) :
    messageBit (flipBit m i) j = if i = j then !messageBit m j else messageBit m j := by
  have hmask : ∀ k < 8, ((1 : UInt8) <<< UInt8.ofNat k).toNat = 2 ^ k := by decide
  unfold messageBit flipBit
  rw [List.getD_eq_getElem?_getD, List.getD_eq_getElem?_getD]
  by_cases hbyte : i / 8 = j / 8
  · have hj : j / 8 < m.length := by omega
    rw [hbyte, List.getElem?_modify_eq, List.getElem?_eq_getElem hj]
    show (m[j / 8] ^^^ (1 <<< UInt8.ofNat (i % 8))).toNat.testBit (j % 8) = _
    rw [UInt8.toNat_xor, Nat.testBit_xor, hmask _ (Nat.mod_lt _ (by omega)), Nat.testBit_two_pow]
    by_cases hij : i = j
    · simp [hij]
    · simp [hij, show i % 8 ≠ j % 8 by omega]
  · rw [List.getElem?_modify_ne _ _ hbyte, if_neg (fun h => hbyte (by rw [h]))]

theorem crc32_order_prime_factors {p : Nat} (hp : p.Prime) (h : p ∣ 2 ^ 32 - 1) :
    p = 3 ∨ p = 5 ∨ p = 17 ∨ p = 257 ∨ p = 65537 := by
  rw [show 2 ^ 32 - 1 = 3 * 5 * 17 * 257 * 65537 by norm_num, hp.dvd_mul, hp.dvd_mul, hp.dvd_mul,
    hp.dvd_mul, Nat.prime_dvd_prime_iff_eq hp (by norm_num),
    Nat.prime_dvd_prime_iff_eq hp (by norm_num), Nat.prime_dvd_prime_iff_eq hp (by norm_num),
    Nat.prime_dvd_prime_iff_eq hp (by norm_num), Nat.prime_dvd_prime_iff_eq hp (by norm_num)] at h
  simpa only [or_assoc] using h

/-- The generator is primitive: the register runs through `2 ^ 32 - 1` states. -/
theorem shift_crc32Poly_ne_unit {d : Nat} (hpos : 0 < d) (hlt : d < 2 ^ 32 - 1) :
    (shift crc32Poly)^[d] (unit 32) ≠ unit 32 := by
  have hfull : shiftPow crc32Poly 32 (2 ^ 32 - 1) = unit 32 := by decide +kernel
  have hpart : ∀ p ∈ [3, 5, 17, 257, 65537],
      shiftPow crc32Poly 32 ((2 ^ 32 - 1) / p) ≠ unit 32 := by
    decide +kernel
  rw [shiftPow_eq (by omega)] at hfull
  apply iterate_ne_of_prime_factors hfull _ hpos hlt
  intro p hp hdvd
  have hmem : p ∈ [3, 5, 17, 257, 65537] := by
    simpa using crc32_order_prime_factors hp hdvd
  have hlt : (2 ^ 32 - 1) / p < 2 ^ 32 := Nat.lt_of_le_of_lt (Nat.div_le_self _ _) (by omega)
  rw [← shiftPow_eq hlt]
  exact hpart p hmem

theorem palCrc32_ne_of_ordered_flips {m flipped : List UInt8} (hlen : m.length = flipped.length)
    (hlt : m.length < 2 ^ 29) {p q : Nat} (hpq : p < q) (hq : q < 8 * m.length)
    (hbits : ∀ i, messageBit flipped i =
      if i = p ∨ i = q then !messageBit m i else messageBit m i) (out outFlipped : UInt32) :
    (palCrc32 m out).2 ≠ (palCrc32 flipped outFlipped).2 := by
  have hdistance : (shift crc32Poly)^[q - p] 1#32 ≠ 1#32 :=
    shift_iterate_one_ne crc32Poly_msb (shift_crc32Poly_ne_unit (by omega) (by omega))
  apply palCrc32_ne (by omega) (by omega)
  apply feedAll_ne_of_flips crc32Poly_msb _ (by simp [hlen]) hpq (by simpa using hq) _ hdistance
  intro i hb hc
  rw [getElem_messageBits, getElem_messageBits, hbits]

/-- Flipping two bits of a message of fewer than `2 ^ 29` bytes changes the value. -/
theorem palCrc32_ne_of_two_flips {m : List UInt8} (hlen : m.length < 2 ^ 29) {p q : Nat}
    (hp : p < 8 * m.length) (hq : q < 8 * m.length) (hpq : p ≠ q) (out outFlipped : UInt32) :
    (palCrc32 m out).2 ≠ (palCrc32 (flipBit (flipBit m p) q) outFlipped).2 := by
  have hbits : ∀ i, messageBit (flipBit (flipBit m p) q) i =
      if i = p ∨ i = q then !messageBit m i else messageBit m i := by
    intro i
    rw [messageBit_flipBit (by rwa [flipBit_length]), messageBit_flipBit hp]
    by_cases hip : i = p
    · simp [hip, hpq, Ne.symm hpq]
    · by_cases hiq : i = q
      · simp [hiq, hpq]
      · simp [hip, hiq, Ne.symm hip, Ne.symm hiq]
  have hlength : m.length = (flipBit (flipBit m p) q).length := by simp
  rcases Nat.lt_or_gt_of_ne hpq with h | h
  · exact palCrc32_ne_of_ordered_flips hlength hlen h hq hbits out outFlipped
  · -- the register only sees which of the two bits comes first
    have hswapped : ∀ i, messageBit (flipBit (flipBit m p) q) i =
        if i = q ∨ i = p then !messageBit m i else messageBit m i := by
      intro i
      rw [hbits i]
      simp only [or_comm]
    exact palCrc32_ne_of_ordered_flips hlength hlen h hp hswapped out outFlipped

/-- The first and the last bit of three bytes. -/
theorem palCrc32_ne_of_two_flips_ends :
    ([0x61, 0x62, 0x63] : List UInt8).length < 2 ^ 29 ∧
      (palCrc32 [0x61, 0x62, 0x63] 0).2 ≠
        (palCrc32 (flipBit (flipBit [0x61, 0x62, 0x63] 23) 0) 0).2 :=
  ⟨by decide, palCrc32_ne_of_two_flips (by decide) (by decide) (by decide) (by decide) 0 0⟩

end CanbusAgent.PalCipher

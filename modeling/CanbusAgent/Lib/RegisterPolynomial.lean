import CanbusAgent.Lib.ShiftRegister
import Mathlib

/-!
# Shift registers divide polynomials

A bit string is a polynomial over the field of two elements, the first bit at the highest
power.  A register is one as well, with its lowest bit at the highest power, because this is
the bit that leaves next.  Then a shift multiplies by `X` modulo `generator poly`, and a
register that was fed a string holds a remainder (`toPoly_feedAll`).
-/

namespace ShiftRegister

open Polynomial

variable {w : Nat} {poly : BitVec w}

/-- A bit as an element of the field. -/
def ofBit (b : Bool) : ZMod 2 := if b then 1 else 0

@[simp] theorem ofBit_false : ofBit false = 0 := rfl

@[simp] theorem ofBit_true : ofBit true = 1 := rfl

/-! ## Registers -/

/-- The coefficient of `X ^ i` is bit `i` from the top. -/
noncomputable def toPoly (r : BitVec w) : (ZMod 2)[X] := ofFn w fun i => ofBit (r.getMsbD i)

theorem coeff_toPoly (r : BitVec w) (n : Nat) : (toPoly r).coeff n = ofBit (r.getMsbD n) := by
  rcases Nat.lt_or_ge n w with hlt | hge
  · exact ofFn_coeff_eq_val_of_lt _ hlt
  · rw [BitVec.getMsbD_of_ge _ _ hge]
    exact ofFn_coeff_eq_zero_of_ge _ hge

theorem toPoly_eq_sum (r : BitVec w) :
    toPoly r = ∑ i : Fin w, C (ofBit (r.getMsbD i)) * X ^ i.val := by
  rw [toPoly, ofFn_eq_sum_monomial]
  simp only [C_mul_X_pow_eq_monomial]

theorem degree_toPoly_lt (r : BitVec w) : (toPoly r).degree < w := ofFn_degree_lt _

theorem toPoly_injective : Function.Injective (toPoly (w := w)) := by
  intro r s h
  have hbits := injective_ofFn w h
  refine BitVec.eq_of_getMsbD_eq fun i hi => ?_
  have hbit : ofBit (r.getMsbD i) = ofBit (s.getMsbD i) := congrFun hbits ⟨i, hi⟩
  cases hr : r.getMsbD i <;> cases hs : s.getMsbD i
  all_goals simp [hr, hs] at hbit ⊢

theorem toPoly_zero : toPoly 0#w = 0 := by
  ext n
  rw [coeff_toPoly, BitVec.getMsbD_zero, ofBit_false, coeff_zero]

theorem toPoly_xor (r s : BitVec w) : toPoly (r ^^^ s) = toPoly r + toPoly s := by
  ext n
  rw [coeff_add, coeff_toPoly, coeff_toPoly, coeff_toPoly, BitVec.getMsbD_xor]
  cases r.getMsbD n <;> cases s.getMsbD n
  all_goals rfl

/-- The bit that leaves is the coefficient that arrives at `X ^ w`. -/
theorem X_mul_toPoly (r : BitVec w) :
    X * toPoly r = toPoly (r >>> 1) + C (ofBit (r.getLsbD 0)) * X ^ w := by
  ext n
  rw [coeff_add, coeff_toPoly, coeff_C_mul_X_pow, BitVec.getMsbD_ushiftRight]
  cases n with
  | zero =>
    rw [coeff_X_mul_zero]
    rcases Nat.eq_zero_or_pos w with rfl | hw
    · simp
    · simp [show 0 ≠ w by omega]
  | succ n =>
    rw [coeff_X_mul, coeff_toPoly]
    rcases Nat.lt_trichotomy (n + 1) w with hlt | rfl | hgt
    · simp [hlt, show n + 1 ≠ w by omega]
    · simp [BitVec.getMsbD]
    · rw [BitVec.getMsbD_of_ge _ _ (by omega)]
      simp [show ¬ n + 1 < w by omega, show n + 1 ≠ w by omega]

/-- The polynomial by which a register with this feedback divides. -/
noncomputable def generator (poly : BitVec w) : (ZMod 2)[X] := X ^ w + toPoly poly

theorem generator_monic (poly : BitVec w) : (generator poly).Monic :=
  monic_X_pow_add (degree_toPoly_lt poly)

theorem degree_generator (poly : BitVec w) : (generator poly).degree = w := by
  rw [generator, degree_add_eq_left_of_degree_lt, degree_X_pow]
  rw [degree_X_pow]
  exact degree_toPoly_lt poly

/-- A shift multiplies by `X`. -/
theorem toPoly_shift (r : BitVec w) :
    toPoly (shift poly r) = X * toPoly r + C (ofBit (r.getLsbD 0)) * generator poly := by
  have hfeedback : toPoly (if r.getLsbD 0 then poly else 0#w) =
      C (ofBit (r.getLsbD 0)) * toPoly poly := by
    cases r.getLsbD 0
    · simp [toPoly_zero]
    · simp
  -- the coefficient of `X ^ w` is added twice
  rw [shift, toPoly_xor, hfeedback, X_mul_toPoly, generator, mul_add, ← add_assoc,
    add_assoc (toPoly (r >>> 1)), CharTwo.add_self_eq_zero, add_zero]

/-! ## Bit strings -/

/-- The first bit is the highest coefficient. -/
noncomputable def bitsPoly : List Bool → (ZMod 2)[X]
  | [] => 0
  | b :: bs => C (ofBit b) * X ^ bs.length + bitsPoly bs

theorem bitsPoly_append (as bs : List Bool) :
    bitsPoly (as ++ bs) = X ^ bs.length * bitsPoly as + bitsPoly bs := by
  induction as with
  | nil => simp [bitsPoly]
  | cons a as ih =>
    rw [List.cons_append, bitsPoly, bitsPoly, ih, List.length_append]
    ring

theorem degree_bitsPoly_lt (bs : List Bool) : (bitsPoly bs).degree < bs.length := by
  rw [degree_lt_iff_coeff_zero]
  intro n hn
  induction bs with
  | nil => exact coeff_zero n
  | cons b bs ih =>
    rw [List.length_cons] at hn
    rw [bitsPoly, coeff_add, coeff_C_mul_X_pow, if_neg (by omega), zero_add, ih (by omega)]

theorem coeff_bitsPoly {bs : List Bool} {n : Nat} (hn : n < bs.length) :
    (bitsPoly bs).coeff (bs.length - 1 - n) = ofBit bs[n] := by
  induction bs generalizing n with
  | nil => exact absurd hn (Nat.not_lt_zero n)
  | cons b bs ih =>
    rw [bitsPoly, coeff_add, coeff_C_mul_X_pow, List.length_cons]
    cases n with
    | zero =>
      have hrest := (degree_lt_iff_coeff_zero _ _).mp (degree_bitsPoly_lt bs) _ (Nat.le_refl _)
      rw [Nat.add_sub_cancel, Nat.sub_zero, if_pos rfl, hrest, add_zero, List.getElem_cons_zero]
    | succ n =>
      have hn : n < bs.length := Nat.lt_of_succ_lt_succ hn
      have hindex : bs.length + 1 - 1 - (n + 1) = bs.length - 1 - n := by omega
      rw [if_neg (by omega), zero_add, hindex, ih hn, List.getElem_cons_succ]

theorem X_mul_toPoly_lowBit (hw : 0 < w) (b : Bool) :
    X * toPoly (lowBit w b) = C (ofBit b) * X ^ w := by
  have hshift : lowBit w b >>> 1 = 0#w := by
    apply BitVec.eq_of_getLsbD_eq
    intro i _
    cases b
    · simp [lowBit]
    · simp [lowBit, Nat.add_comm 1]
  have hlow : (lowBit w b).getLsbD 0 = b := by
    cases b
    · simp [lowBit]
    · simp [lowBit, hw]
  rw [X_mul_toPoly, hshift, hlow, toPoly_zero, zero_add]

theorem toPoly_feed (hw : 0 < w) (poly r : BitVec w) (b : Bool) :
    ∃ q, toPoly (feed poly r b) = X * toPoly r + C (ofBit b) * X ^ w + generator poly * q := by
  refine ⟨C (ofBit ((r ^^^ lowBit w b).getLsbD 0)), ?_⟩
  rw [feed, toPoly_shift, toPoly_xor, mul_add, X_mul_toPoly_lowBit hw, mul_comm (generator poly)]

/-- The step of `toPoly_feedAll` by induction on the string. -/
theorem exists_toPoly_feedAll (hw : 0 < w) (poly r : BitVec w) (bs : List Bool) :
    ∃ q, toPoly (feedAll poly r bs) + generator poly * q =
      X ^ bs.length * toPoly r + X ^ w * bitsPoly bs := by
  induction bs generalizing r with
  | nil => exact ⟨0, by simp [bitsPoly]⟩
  | cons b bs ih =>
    obtain ⟨c, hfeed⟩ := toPoly_feed hw poly r b
    obtain ⟨q, hrest⟩ := ih (feed poly r b)
    refine ⟨q - X ^ bs.length * c, ?_⟩
    rw [feedAll_cons, List.length_cons, bitsPoly]
    linear_combination hrest + X ^ bs.length * hfeed

/-- A register that was fed a string holds the remainder of the string behind its old
contents. -/
theorem toPoly_feedAll (hw : 0 < w) (r : BitVec w) (bs : List Bool) :
    toPoly (feedAll poly r bs) =
      (X ^ bs.length * toPoly r + X ^ w * bitsPoly bs) %ₘ generator poly := by
  obtain ⟨q, hq⟩ := exists_toPoly_feedAll hw poly r bs
  have hdegree : (toPoly (feedAll poly r bs)).degree < (generator poly).degree := by
    rw [degree_generator]
    exact degree_toPoly_lt _
  exact (div_modByMonic_unique q _ (generator_monic poly) ⟨hq, hdegree⟩).2.symm

/-! ## Strings that leave the same register -/

/-- When the polynomial of the register has its top bit, the generator has the coefficient 1
at the low end. -/
theorem isCoprime_X_generator (hpoly : poly.msb = true) :
    IsCoprime (X : (ZMod 2)[X]) (generator poly) := by
  have hw := width_pos hpoly
  have hlow : (generator poly).coeff 0 = 1 := by
    rw [generator, coeff_add, coeff_X_pow, if_neg (by omega), zero_add, coeff_toPoly]
    show ofBit poly.msb = 1
    rw [hpoly, ofBit_true]
  refine ⟨-divX (generator poly), 1, ?_⟩
  have hsplit := divX_mul_X_add (generator poly)
  rw [hlow, C_1] at hsplit
  linear_combination -hsplit

theorem generator_dvd_X_pow_mul_iff (hpoly : poly.msb = true) (k : Nat) (p : (ZMod 2)[X]) :
    generator poly ∣ X ^ k * p ↔ generator poly ∣ p := by
  constructor
  · exact (IsCoprime.pow_right (isCoprime_X_generator hpoly).symm).dvd_of_dvd_mul_left
  · exact fun h => h.mul_left _

/-- Two strings of one length leave the same register exactly when their difference is a
multiple of the generator. -/
theorem feedAll_eq_iff_dvd (hpoly : poly.msb = true) (r : BitVec w) {bs cs : List Bool}
    (hlen : bs.length = cs.length) :
    feedAll poly r bs = feedAll poly r cs ↔ generator poly ∣ bitsPoly bs - bitsPoly cs := by
  have hdiff : toPoly (feedAll poly r bs) - toPoly (feedAll poly r cs) =
      (X ^ w * (bitsPoly bs - bitsPoly cs)) %ₘ generator poly := by
    have hw := width_pos hpoly
    rw [toPoly_feedAll hw, toPoly_feedAll hw, ← sub_modByMonic, hlen]
    congr 1
    ring
  rw [← toPoly_injective.eq_iff, ← sub_eq_zero, hdiff,
    modByMonic_eq_zero_iff_dvd (generator_monic poly), generator_dvd_X_pow_mul_iff hpoly]

/-! ## A window that is one bit longer than the register -/

/-- The coefficients of a difference are the bits that differ. -/
theorem coeff_bitsPoly_sub {bs cs : List Bool} (hbs : bs.length = w + 1) (hcs : cs.length = w + 1)
    {i : Nat} (hi : i < w + 1) :
    (bitsPoly bs - bitsPoly cs).coeff (w - i) = if bs[i]? = cs[i]? then 0 else 1 := by
  have hb := coeff_bitsPoly (show i < bs.length by omega)
  have hc := coeff_bitsPoly (show i < cs.length by omega)
  rw [show bs.length - 1 - i = w - i by omega] at hb
  rw [show cs.length - 1 - i = w - i by omega] at hc
  rw [coeff_sub, hb, hc, List.getElem?_eq_getElem (by omega), List.getElem?_eq_getElem (by omega)]
  cases bs[i] <;> cases cs[i]
  all_goals decide

theorem degree_bitsPoly_sub_lt {bs cs : List Bool} (hlen : bs.length = cs.length) :
    (bitsPoly bs - bitsPoly cs).degree < bs.length :=
  lt_of_le_of_lt (degree_sub_le _ _)
    (max_lt (degree_bitsPoly_lt bs) (hlen ▸ degree_bitsPoly_lt cs))

/-- The only multiple of the generator that has its degree is the generator. -/
theorem generator_dvd_iff_eq {p : (ZMod 2)[X]} (hp : p ≠ 0) (hdegree : p.degree < (w + 1 : Nat)) :
    generator poly ∣ p ↔ p = generator poly := by
  have hbinary : ∀ x : ZMod 2, x ≠ 0 → x = 1 := by decide
  constructor
  · intro hdvd
    have hmonic : p.Monic := hbinary _ (leadingCoeff_ne_zero.mpr hp)
    apply eq_of_monic_of_dvd_of_natDegree_le (generator_monic poly) hmonic hdvd
    rw [natDegree_eq_of_degree_eq_some (degree_generator poly)]
    exact Nat.le_of_lt_succ ((natDegree_lt_iff_degree_lt hp).mpr hdegree)
  · rintro rfl
    exact dvd_refl _

/-- Polynomials of this degree are equal when they have the coefficient 1 at the same places. -/
theorem eq_iff_coeff_eq_one {p q : (ZMod 2)[X]} (hp : p.degree < (w + 1 : Nat))
    (hq : q.degree < (w + 1 : Nat)) :
    p = q ↔ ∀ i < w + 1, (p.coeff (w - i) = 1 ↔ q.coeff (w - i) = 1) := by
  have hbinary : ∀ x y : ZMod 2, (x = 1 ↔ y = 1) → x = y := by decide
  constructor
  · rintro rfl i _
    rfl
  · intro h
    ext n
    by_cases hn : n < w + 1
    · obtain ⟨i, hi, rfl⟩ : ∃ i < w + 1, n = w - i := ⟨w - n, by omega, by omega⟩
      exact hbinary _ _ (h i hi)
    · rw [(degree_lt_iff_coeff_zero _ _).mp hp n (Nat.not_lt.mp hn),
        (degree_lt_iff_coeff_zero _ _).mp hq n (Nat.not_lt.mp hn)]

theorem generator_dvd_sub_iff {bs cs : List Bool} (hbs : bs.length = w + 1)
    (hcs : cs.length = w + 1) (hne : bs ≠ cs) :
    generator poly ∣ bitsPoly bs - bitsPoly cs ↔
      ∀ i < w + 1, (bs[i]? ≠ cs[i]? ↔ (generator poly).coeff (w - i) = 1) := by
  have hdegree := degree_bitsPoly_sub_lt (hbs.trans hcs.symm)
  rw [hbs] at hdegree
  have hgenerator : (generator poly).degree < (w + 1 : Nat) := by
    rw [degree_generator]
    exact_mod_cast Nat.lt_succ_self w
  have hcoeff : ∀ i < w + 1,
      ((bitsPoly bs - bitsPoly cs).coeff (w - i) = 1 ↔ bs[i]? ≠ cs[i]?) := by
    intro i hi
    rw [coeff_bitsPoly_sub hbs hcs hi]
    split_ifs with h
    · simp [h]
    · simp [h]
  have hzero : bitsPoly bs - bitsPoly cs ≠ 0 := by
    intro h0
    apply hne
    apply List.ext_getElem?
    intro i
    by_cases hi : i < w + 1
    · have hbit := hcoeff i hi
      rw [h0, coeff_zero] at hbit
      exact not_not.mp fun h => absurd (hbit.mpr h) (by decide)
    · rw [List.getElem?_eq_none (by omega), List.getElem?_eq_none (by omega)]
  rw [generator_dvd_iff_eq hzero hdegree, eq_iff_coeff_eq_one hdegree hgenerator]
  exact forall₂_congr fun i hi => iff_congr (hcoeff i hi) Iff.rfl

/-- Different strings that differ in a window of `w + 1` bits only are told apart unless they
differ in the bits of the generator. -/
theorem feedAll_eq_iff_of_window (hpoly : poly.msb = true) (r : BitVec w)
    {bs cs : List Bool} (hlen : bs.length = cs.length) (hne : bs ≠ cs) {t : Nat}
    (hroom : t + (w + 1) ≤ bs.length)
    (hout : ∀ i, i < t ∨ t + (w + 1) ≤ i → bs[i]? = cs[i]?) :
    feedAll poly r bs = feedAll poly r cs ↔
      ∀ i < w + 1, (bs[t + i]? ≠ cs[t + i]? ↔ (generator poly).coeff (w - i) = 1) := by
  have hsplit : ∀ ds : List Bool,
      ds = ds.take t ++ ((ds.drop t).take (w + 1) ++ ds.drop (t + (w + 1))) := by
    intro ds
    rw [← List.drop_drop, List.take_append_drop, List.take_append_drop]
  have hfront : bs.take t = cs.take t := take_congr fun i hi => hout i (.inl hi)
  have hback : bs.drop (t + (w + 1)) = cs.drop (t + (w + 1)) :=
    drop_congr fun i hi => hout i (.inr hi)
  have hmid : ∀ ds : List Bool, t + (w + 1) ≤ ds.length →
      ((ds.drop t).take (w + 1)).length = w + 1 := by
    intro ds hds
    rw [List.length_take, List.length_drop]
    omega
  have hget : ∀ (ds : List Bool), ∀ i < w + 1, ((ds.drop t).take (w + 1))[i]? = ds[t + i]? := by
    intro ds i hi
    rw [List.getElem?_take_of_lt hi, List.getElem?_drop]
  have hmidne : (bs.drop t).take (w + 1) ≠ (cs.drop t).take (w + 1) := by
    intro h
    apply hne
    rw [hsplit bs, hsplit cs, hfront, hback, h]
  have hdiff : bitsPoly bs - bitsPoly cs = X ^ (cs.drop (t + (w + 1))).length *
      (bitsPoly ((bs.drop t).take (w + 1)) - bitsPoly ((cs.drop t).take (w + 1))) := by
    conv_lhs => rw [hsplit bs, hsplit cs, hfront, hback]
    simp only [bitsPoly_append, List.length_append, hmid bs hroom, hmid cs (hlen ▸ hroom)]
    ring
  rw [feedAll_eq_iff_dvd hpoly r hlen, hdiff, generator_dvd_X_pow_mul_iff hpoly,
    generator_dvd_sub_iff (hmid bs hroom) (hmid cs (hlen ▸ hroom)) hmidne]
  refine forall₂_congr fun i hi => ?_
  rw [hget bs i hi, hget cs i hi]

end ShiftRegister

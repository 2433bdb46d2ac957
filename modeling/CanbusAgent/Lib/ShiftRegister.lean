import Mathlib.Data.FinEnum
import Mathlib.Data.List.GetD
import Mathlib.Data.Nat.Prime.Basic
import Mathlib.Dynamics.PeriodicPts.Defs
import Mathlib.Tactic.Ring

/-!
# Linear shift registers

A register of `w` bits that shifts right and adds a polynomial when the bit that
leaves is set, as cyclic redundancy checks use it.  `feedAll` runs it over a bit
string.  The step is linear over exclusive or, and injective when the polynomial
has its top bit: two strings that differ in a window of `w` bits, or in two bits
that are no multiple of the period apart, leave different registers.
-/

namespace ShiftRegister

variable {w : Nat} {poly : BitVec w}

theorem eq_zero_of_xor_eq {r s : BitVec w} (h : r ^^^ s = r) : s = 0#w := by
  rw [← BitVec.xor_right_inj r, h, BitVec.xor_zero]

/-- One shift to the right.  The bit that leaves decides whether `poly` is added. -/
def shift (poly r : BitVec w) : BitVec w :=
  (r >>> 1) ^^^ (if r.getLsbD 0 then poly else 0#w)

@[simp] theorem shift_zero (poly : BitVec w) : shift poly 0#w = 0#w := by
  simp [shift]

theorem shift_xor (r s : BitVec w) : shift poly (r ^^^ s) = shift poly r ^^^ shift poly s := by
  unfold shift
  rw [BitVec.ushiftRight_xor_distrib, BitVec.getLsbD_xor]
  cases r.getLsbD 0 <;> cases s.getLsbD 0
  · simp
  · simp only [Bool.false_bne, if_true, Bool.false_eq_true, if_false, BitVec.xor_zero]
    ac_rfl
  · simp only [Bool.true_bne, Bool.not_false, if_true, Bool.false_eq_true, if_false,
      BitVec.xor_zero]
    ac_rfl
  · -- the polynomial is added twice on the right and not at all on the left
    have hcancel : ∀ a b : BitVec w, a ^^^ b = a ^^^ poly ^^^ (b ^^^ poly) := by
      intro a b
      rw [BitVec.xor_comm b, ← BitVec.xor_assoc, BitVec.xor_assoc a, BitVec.xor_self,
        BitVec.xor_zero]
    simpa using hcancel (r >>> 1) (s >>> 1)

@[simp] theorem shift_iterate_zero (k : Nat) : (shift poly)^[k] 0#w = 0#w :=
  Function.iterate_fixed (shift_zero poly) k

theorem shift_iterate_xor (k : Nat) (r s : BitVec w) :
    (shift poly)^[k] (r ^^^ s) = (shift poly)^[k] r ^^^ (shift poly)^[k] s := by
  induction k generalizing r s with
  | zero => rfl
  | succ k ih => rw [Function.iterate_succ_apply, shift_xor, ih]; rfl

/-- A register whose low bit is clear only moves. -/
theorem shift_shiftLeft_one {v : BitVec w} (h : v.msb = false) : shift poly (v <<< 1) = v := by
  ext i hi
  have hw : v.getLsbD (w - 1) = false := by rwa [← BitVec.msb_eq_getLsbD_last]
  by_cases hlast : i = w - 1
  · subst hlast
    simp [shift, show ¬ 1 + (w - 1) < w by omega, ← BitVec.getLsbD_eq_getElem, hw]
  · simp [shift, show 1 + i < w by omega, ← BitVec.getLsbD_eq_getElem]

/-- The top bits tell whether the polynomial was added, so the step can be undone. -/
theorem shift_injective (hpoly : poly.msb = true) : Function.Injective (shift poly) := by
  have hzero : ∀ r : BitVec w, shift poly r = 0#w → r = 0#w := by
    intro r hr
    have hw : 0 < w := by
      by_contra hw
      obtain rfl : w = 0 := by omega
      simp [BitVec.msb_eq_getLsbD_last] at hpoly
    have htop : (shift poly r).getLsbD (w - 1) = r.getLsbD 0 := by
      rw [BitVec.msb_eq_getLsbD_last] at hpoly
      cases hlow : r.getLsbD 0 <;> simp [shift, hlow, hpoly, show w ≤ 1 + (w - 1) by omega]
    have hlow : r.getLsbD 0 = false := by rw [← htop, hr, BitVec.getLsbD_zero]
    apply BitVec.eq_of_getLsbD_eq
    intro i hi
    cases i with
    | zero => rw [hlow, BitVec.getLsbD_zero]
    | succ i =>
      have hbit : (shift poly r).getLsbD i = r.getLsbD (i + 1) := by
        simp [shift, hlow, Nat.add_comm]
      rw [← hbit, hr, BitVec.getLsbD_zero, BitVec.getLsbD_zero]
  intro r s h
  rw [← BitVec.xor_eq_zero_iff]
  apply hzero
  rw [shift_xor, h, BitVec.xor_self]

/-! ## Bit strings -/

/-- A bit at the low end of a register. -/
def lowBit (w : Nat) (b : Bool) : BitVec w := if b then 1#w else 0#w

/-- One bit of input: it is added to the low bit, then the register shifts. -/
def feed (poly r : BitVec w) (b : Bool) : BitVec w := shift poly (r ^^^ lowBit w b)

def feedAll (poly r : BitVec w) (bits : List Bool) : BitVec w := bits.foldl (feed poly) r

@[simp] theorem feedAll_nil (r : BitVec w) : feedAll poly r [] = r := rfl

theorem feedAll_cons (r : BitVec w) (b : Bool) (bs : List Bool) :
    feedAll poly r (b :: bs) = feedAll poly (feed poly r b) bs := rfl

theorem feedAll_append (r : BitVec w) (bs cs : List Bool) :
    feedAll poly r (bs ++ cs) = feedAll poly (feedAll poly r bs) cs :=
  List.foldl_append

/-- A difference between two registers travels on as if nothing were fed. -/
theorem feedAll_xor (r s : BitVec w) (bs : List Bool) :
    feedAll poly (r ^^^ s) bs = feedAll poly r bs ^^^ (shift poly)^[bs.length] s := by
  induction bs generalizing r s with
  | nil => rfl
  | cons b bs ih =>
    have hfeed : feed poly (r ^^^ s) b = feed poly r b ^^^ shift poly s := by
      unfold feed
      rw [← shift_xor]
      congr 1
      ac_rfl
    rw [feedAll_cons, hfeed, ih, feedAll_cons, List.length_cons, Function.iterate_succ_apply]

theorem feedAll_injective (hpoly : poly.msb = true) (bs : List Bool) :
    Function.Injective fun r => feedAll poly r bs := by
  intro r s h
  have hdiff : feedAll poly (r ^^^ (r ^^^ s)) bs = feedAll poly r bs := by
    rw [← BitVec.xor_assoc, BitVec.xor_self, BitVec.zero_xor]
    exact h.symm
  rw [feedAll_xor] at hdiff
  have hzero : (shift poly)^[bs.length] (r ^^^ s) = (shift poly)^[bs.length] 0#w := by
    rw [shift_iterate_zero]
    exact eq_zero_of_xor_eq hdiff
  exact BitVec.xor_eq_zero_iff.mp (Function.Injective.iterate (shift_injective hpoly) _ hzero)

/-- The bits of a string as one word, the first bit lowest. -/
def word (w : Nat) : List Bool → BitVec w
  | [] => 0#w
  | b :: bs => lowBit w b ^^^ (word w bs <<< 1)

theorem getLsbD_word (bs : List Bool) (i : Nat) :
    (word w bs).getLsbD i = (decide (i < w) && bs.getD i false) := by
  induction bs generalizing i with
  | nil => simp [word]
  | cons b bs ih =>
    cases i with
    | zero => cases b <;> simp [word, lowBit]
    | succ i =>
      have hlow : (lowBit w b).getLsbD (i + 1) = false := by cases b <;> simp [lowBit]
      rw [word, BitVec.getLsbD_xor, hlow, BitVec.getLsbD_shiftLeft, Nat.add_sub_cancel, ih]
      by_cases hi : i + 1 < w
      · simp [hi, Nat.lt_of_succ_lt hi]
      · simp [hi]

/-- A string that fits the register acts as one addition before the shifts. -/
theorem feedAll_eq_of_le (r : BitVec w) {bs : List Bool} (h : bs.length ≤ w) :
    feedAll poly r bs = (shift poly)^[bs.length] (r ^^^ word w bs) := by
  induction bs generalizing r with
  | nil => simp [word]
  | cons b bs ih =>
    rw [List.length_cons] at h
    have hmsb : (word w bs).msb = false := by
      rw [BitVec.msb_eq_getLsbD_last, getLsbD_word, List.getD_eq_default _ _ (by omega)]
      simp
    calc feedAll poly r (b :: bs)
        = (shift poly)^[bs.length] (feed poly r b ^^^ word w bs) := by
          rw [feedAll_cons, ih _ (by omega)]
      _ = (shift poly)^[bs.length] (shift poly (r ^^^ lowBit w b ^^^ (word w bs <<< 1))) := by
          rw [shift_xor, shift_shiftLeft_one hmsb, feed]
      _ = (shift poly)^[(b :: bs).length] (r ^^^ word w (b :: bs)) := by
          rw [word, ← BitVec.xor_assoc, List.length_cons, Function.iterate_succ_apply]

theorem word_injective {bs cs : List Bool} (hlen : bs.length = cs.length) (h : bs.length ≤ w)
    (heq : word w bs = word w cs) : bs = cs := by
  apply List.ext_getElem hlen
  intro i hb hc
  have hbit : (word w bs).getLsbD i = (word w cs).getLsbD i := by rw [heq]
  rw [getLsbD_word, getLsbD_word, List.getD_eq_getElem _ _ hb, List.getD_eq_getElem _ _ hc] at hbit
  simpa [show i < w by omega] using hbit

/-! ## Bursts and pairs of bits -/

theorem take_congr {bs cs : List Bool} {n : Nat} (h : ∀ i < n, bs[i]? = cs[i]?) :
    bs.take n = cs.take n := by
  apply List.ext_getElem?
  intro i
  by_cases hi : i < n
  · rw [List.getElem?_take_of_lt hi, List.getElem?_take_of_lt hi, h i hi]
  · rw [List.getElem?_take_eq_none (by omega), List.getElem?_take_eq_none (by omega)]

theorem drop_congr {bs cs : List Bool} {n : Nat} (h : ∀ i, n ≤ i → bs[i]? = cs[i]?) :
    bs.drop n = cs.drop n := by
  apply List.ext_getElem?
  intro i
  rw [List.getElem?_drop, List.getElem?_drop, h _ (by omega)]

/-- Two strings of at most `w` bits between equal ends are told apart. -/
theorem feedAll_ne_of_burst (hpoly : poly.msb = true) (r : BitVec w)
    (front back : List Bool) {bs cs : List Bool} (hlen : bs.length = cs.length)
    (hw : bs.length ≤ w) (hne : bs ≠ cs) :
    feedAll poly r (front ++ bs ++ back) ≠ feedAll poly r (front ++ cs ++ back) := by
  intro h
  simp only [feedAll_append] at h
  have hmid : feedAll poly (feedAll poly r front) bs = feedAll poly (feedAll poly r front) cs :=
    feedAll_injective hpoly back h
  generalize feedAll poly r front = r' at hmid
  rw [feedAll_eq_of_le r' hw, feedAll_eq_of_le r' (hlen ▸ hw), ← hlen] at hmid
  have hword := Function.Injective.iterate (shift_injective hpoly) _ hmid
  exact hne (word_injective hlen hw ((BitVec.xor_right_inj _).mp hword))

/-- Strings that differ, but only at positions of one window of `w` bits. -/
theorem feedAll_ne_of_window (hpoly : poly.msb = true) (r : BitVec w) {bs cs : List Bool}
    (hlen : bs.length = cs.length) (hne : bs ≠ cs) (t : Nat)
    (hout : ∀ i, i < t ∨ t + w ≤ i → bs[i]? = cs[i]?) :
    feedAll poly r bs ≠ feedAll poly r cs := by
  have hsplit : ∀ ds : List Bool, ds = ds.take t ++ (ds.drop t).take w ++ ds.drop (t + w) := by
    intro ds
    rw [List.append_assoc, ← List.drop_drop, List.take_append_drop, List.take_append_drop]
  have hfront : bs.take t = cs.take t := take_congr fun i hi => hout i (.inl hi)
  have hback : bs.drop (t + w) = cs.drop (t + w) := drop_congr fun i hi => hout i (.inr hi)
  have hmid : (bs.drop t).take w ≠ (cs.drop t).take w := by
    intro h
    apply hne
    rw [hsplit bs, hsplit cs, hfront, hback, h]
  rw [hsplit bs, hsplit cs, hfront, hback]
  apply feedAll_ne_of_burst hpoly r _ _ _ _ hmid
  · simp only [List.length_take, List.length_drop, hlen]
  · rw [List.length_take]
    omega

/-- Flipping two bits goes unnoticed exactly when their distance carries a single
bit back to itself. -/
theorem feedAll_ne_of_two (hpoly : poly.msb = true) (r : BitVec w) (a b : Bool)
    (front mid back : List Bool) (hd : (shift poly)^[mid.length + 1] 1#w ≠ 1#w) :
    feedAll poly r (front ++ a :: mid ++ b :: back) ≠
      feedAll poly r (front ++ (!a) :: mid ++ (!b) :: back) := by
  have hnot : ∀ c, lowBit w (!c) = lowBit w c ^^^ 1#w := by
    intro c
    cases c <;> simp [lowBit]
  have hflip : ∀ (s d : BitVec w) (c : Bool),
      feed poly (s ^^^ d) (!c) = feed poly s c ^^^ shift poly (d ^^^ 1#w) := by
    intro s d c
    unfold feed
    rw [hnot, ← shift_xor]
    congr 1
    ac_rfl
  have hfirst : ∀ s : BitVec w, feed poly s (!a) = feed poly s a ^^^ shift poly 1#w := by
    intro s
    have := hflip s 0#w a
    rwa [BitVec.xor_zero, BitVec.zero_xor] at this
  intro h
  simp only [feedAll_append, feedAll_cons] at h
  have hlast := feedAll_injective hpoly back h
  rw [hfirst, feedAll_xor, ← Function.iterate_succ_apply, hflip] at hlast
  have hzero : shift poly ((shift poly)^[mid.length + 1] 1#w ^^^ 1#w) = shift poly 0#w := by
    rw [shift_zero]
    exact eq_zero_of_xor_eq hlast.symm
  exact hd (BitVec.xor_eq_zero_iff.mp (shift_injective hpoly hzero))

/-- The same for strings where one is the other with the bits `p` and `q` inverted. -/
theorem feedAll_ne_of_flips (hpoly : poly.msb = true) (r : BitVec w) {bs cs : List Bool}
    (hlen : bs.length = cs.length) {p q : Nat} (hpq : p < q) (hq : q < bs.length)
    (hflip : ∀ i (hb : i < bs.length) (hc : i < cs.length),
      cs[i] = if i = p ∨ i = q then !bs[i] else bs[i])
    (hd : (shift poly)^[q - p] 1#w ≠ 1#w) : feedAll poly r bs ≠ feedAll poly r cs := by
  have hsplit : ∀ (ds : List Bool) (hds : q < ds.length), ds = ds.take p ++
      ds[p] :: (ds.drop (p + 1)).take (q - p - 1) ++ ds[q] :: ds.drop (q + 1) := by
    intro ds hds
    have hdrop : ds.drop q = (ds.drop (p + 1)).drop (q - p - 1) := by
      rw [List.drop_drop, show p + 1 + (q - p - 1) = q by omega]
    rw [List.append_assoc, List.cons_append, ← List.drop_eq_getElem_cons hds, hdrop,
      List.take_append_drop, ← List.drop_eq_getElem_cons, List.take_append_drop]
  have hsame : ∀ i, i ≠ p → i ≠ q → cs[i]? = bs[i]? := by
    intro i hip hiq
    by_cases hb : i < bs.length
    · rw [List.getElem?_eq_getElem hb, List.getElem?_eq_getElem (hlen ▸ hb), hflip i hb (hlen ▸ hb),
        if_neg (by simp [hip, hiq])]
    · rw [List.getElem?_eq_none (by omega), List.getElem?_eq_none (by omega)]
  have hfront : cs.take p = bs.take p := by
    apply take_congr
    intro i hi
    exact hsame i (by omega) (by omega)
  have hmid : (cs.drop (p + 1)).take (q - p - 1) = (bs.drop (p + 1)).take (q - p - 1) := by
    apply take_congr
    intro i hi
    rw [List.getElem?_drop, List.getElem?_drop, hsame _ (by omega) (by omega)]
  have hback : cs.drop (q + 1) = bs.drop (q + 1) := by
    apply drop_congr
    intro i hi
    exact hsame i (by omega) (by omega)
  have hmidlen : ((bs.drop (p + 1)).take (q - p - 1)).length + 1 = q - p := by
    rw [List.length_take, List.length_drop]
    omega
  rw [hsplit bs hq, hsplit cs (hlen ▸ hq), hfront, hmid, hback,
    hflip p (by omega) (by omega), hflip q hq (hlen ▸ hq), if_pos (.inl rfl), if_pos (.inr rfl)]
  apply feedAll_ne_of_two hpoly
  rwa [hmidlen]

theorem feed_not (r : BitVec w) (b : Bool) :
    feed poly r (!b) = feed poly r b ^^^ shift poly 1#w := by
  have hnot : lowBit w (!b) = lowBit w b ^^^ 1#w := by cases b <;> simp [lowBit]
  rw [feed, hnot, feed, ← shift_xor, BitVec.xor_assoc]

/-- Inverting one bit changes the register by a power of the shift that depends only on the
distance to the end. -/
theorem feedAll_modify_not (r : BitVec w) {bs : List Bool} {p : Nat} (hp : p < bs.length) :
    feedAll poly r (bs.modify p not) =
      feedAll poly r bs ^^^ (shift poly)^[bs.length - p] 1#w := by
  induction bs generalizing r p with
  | nil => exact absurd hp (Nat.not_lt_zero p)
  | cons b bs ih =>
    cases p with
    | zero =>
      rw [List.modify_zero_cons, feedAll_cons, feed_not, feedAll_xor, feedAll_cons,
        List.length_cons, Nat.sub_zero, Function.iterate_succ_apply]
    | succ p =>
      rw [List.length_cons] at hp
      rw [List.modify_succ_cons, feedAll_cons, ih _ (by omega), feedAll_cons, List.length_cons,
        Nat.add_sub_add_right]

/-! ## Several shifts at once -/

theorem shift_iterate_shiftLeft {k : Nat} {v : BitVec w}
    (h : ∀ i, w - k ≤ i → v.getLsbD i = false) : (shift poly)^[k] (v <<< k) = v := by
  induction k with
  | zero => rw [Function.iterate_zero_apply, BitVec.shiftLeft_zero]
  | succ k ih =>
    have hmsb : (v <<< k).msb = false := by
      rw [BitVec.msb_eq_getLsbD_last, BitVec.getLsbD_shiftLeft, h _ (by omega), Bool.and_false]
    rw [Function.iterate_succ_apply, BitVec.shiftLeft_add, shift_shiftLeft_one hmsb]
    exact ih fun i hi => h i (by omega)

/-- The low `k` bits run through the polynomial, the others only move. -/
theorem shift_iterate_eq {k : Nat} (hk : k ≤ w) (r : BitVec w) :
    (shift poly)^[k] r = (shift poly)^[k] ((r.setWidth k).setWidth w) ^^^ (r >>> k) := by
  have hsplit : r = ((r.setWidth k).setWidth w) ^^^ ((r >>> k) <<< k) := by
    apply BitVec.eq_of_getLsbD_eq
    intro i hi
    by_cases h : i < k
    · simp [hi, h]
    · simp [hi, h, show k + (i - k) = i by omega]
  have hhigh : (shift poly)^[k] ((r >>> k) <<< k) = r >>> k := by
    apply shift_iterate_shiftLeft
    intro i hi
    rw [BitVec.getLsbD_ushiftRight, BitVec.getLsbD_of_ge _ _ (by omega)]
  conv_lhs => rw [hsplit, shift_iterate_xor, hhigh]

/-! ## The period of a register

`unit` is the polynomial 1 with its coefficients reflected, and `shift` multiplies
by the indeterminate.  `mul` is the product, so a high power of the shift takes as
many steps as its exponent has bits.
-/

def unit (w : Nat) : BitVec w := BitVec.twoPow w (w - 1)

/-- The product with the part of `b` below bit `n`. -/
def mulUpTo (poly a b : BitVec w) : Nat → BitVec w
  | 0 => 0#w
  | n + 1 => shift poly (mulUpTo poly a b n) ^^^ (if b.getLsbD n then a else 0#w)

def mul (poly a b : BitVec w) : BitVec w := mulUpTo poly a b w

theorem mulUpTo_shift (k : Nat) (a b : BitVec w) (n : Nat) :
    mulUpTo poly ((shift poly)^[k] a) b n = (shift poly)^[k] (mulUpTo poly a b n) := by
  induction n with
  | zero => rw [mulUpTo, mulUpTo, shift_iterate_zero]
  | succ n ih =>
    rw [mulUpTo, mulUpTo, ih, shift_iterate_xor,
      ((Function.Commute.refl (shift poly)).iterate_left k).eq]
    congr 1
    cases b.getLsbD n
    · simp
    · simp

theorem mulUpTo_unit (b : BitVec w) {n : Nat} (hn : n ≤ w) :
    mulUpTo poly (unit w) b n = b <<< (w - n) := by
  induction n with
  | zero => simp [mulUpTo]
  | succ n ih =>
    obtain ⟨m, rfl⟩ : ∃ m, w = n + 1 + m := ⟨w - (n + 1), by omega⟩
    rw [mulUpTo, ih (by omega), show n + 1 + m - (n + 1) = m by omega,
      show n + 1 + m - n = m + 1 by omega]
    apply BitVec.eq_of_getLsbD_eq
    intro i hi
    have hshift : (shift poly (b <<< (m + 1))).getLsbD i = (b <<< (m + 1)).getLsbD (1 + i) := by
      simp [shift]
    have hunit : (if b.getLsbD n then unit (n + 1 + m) else 0#(n + 1 + m)).getLsbD i =
        (decide (i = n + m) && b.getLsbD n) := by
      cases b.getLsbD n
      · simp
      · simp [unit, BitVec.getLsbD_twoPow, show n + 1 + m - 1 = n + m by omega, eq_comm]
    rw [BitVec.getLsbD_xor, hshift, hunit, BitVec.getLsbD_shiftLeft, BitVec.getLsbD_shiftLeft]
    -- the new coefficient arrives at the top, the earlier ones move down
    by_cases htop : i = n + m
    · subst htop
      simp [show ¬ 1 + (n + m) < n + 1 + m by omega, show n + m < n + 1 + m by omega]
    · by_cases hlow : i < m
      · simp [htop, hlow, show 1 + i < m + 1 by omega]
      · simp [htop, hlow, hi, show 1 + i < n + 1 + m by omega, show ¬ 1 + i < m + 1 by omega,
          show 1 + i - (m + 1) = i - m by omega]

theorem mul_shift_unit (k : Nat) (b : BitVec w) :
    mul poly ((shift poly)^[k] (unit w)) b = (shift poly)^[k] b := by
  rw [mul, mulUpTo_shift, mulUpTo_unit b (Nat.le_refl w), Nat.sub_self, BitVec.shiftLeft_zero]

/-- The `k`-th power of the shift on `unit`, by squaring, for `k < 2 ^ fuel`. -/
def shiftPow (poly : BitVec w) : Nat → Nat → BitVec w
  | 0, _ => unit w
  | fuel + 1, k =>
    let half := shiftPow poly fuel (k / 2)
    let square := mul poly half half
    if k % 2 = 1 then shift poly square else square

theorem shiftPow_eq {fuel k : Nat} (h : k < 2 ^ fuel) :
    shiftPow poly fuel k = (shift poly)^[k] (unit w) := by
  induction fuel generalizing k with
  | zero =>
    obtain rfl : k = 0 := by omega
    rfl
  | succ fuel ih =>
    have hhalf : k / 2 < 2 ^ fuel := by
      rw [Nat.pow_succ] at h
      omega
    have hsquare : mul poly (shiftPow poly fuel (k / 2)) (shiftPow poly fuel (k / 2)) =
        (shift poly)^[k / 2 + k / 2] (unit w) := by
      rw [ih hhalf, mul_shift_unit, ← Function.iterate_add_apply]
    simp only [shiftPow, hsquare]
    split
    · next hodd =>
      rw [← Function.iterate_succ_apply' (shift poly)]
      congr 2
      omega
    · next heven =>
      congr 2
      omega

/-- The register that holds a single low bit is a power of the shift on `unit`, so it
comes back together with `unit`. -/
theorem shift_iterate_one_ne (hpoly : poly.msb = true) {d : Nat}
    (h : (shift poly)^[d] (unit w) ≠ unit w) : (shift poly)^[d] 1#w ≠ 1#w := by
  have hone : (shift poly)^[w - 1] (unit w) = 1#w := by
    have hunit : unit w = 1#w <<< (w - 1) := by
      rw [unit, BitVec.shiftLeft_eq_mul_twoPow, BitVec.one_mul]
    rw [hunit]
    apply shift_iterate_shiftLeft
    intro i hi
    rw [BitVec.getLsbD_one]
    by_cases hw : 0 < w
    · simp [show i ≠ 0 by omega]
    · simp [hw]
  intro hd
  rw [← hone, ((Function.Commute.refl (shift poly)).iterate_iterate d (w - 1)).eq] at hd
  exact h (Function.Injective.iterate (shift_injective hpoly) _ hd)

/-- A single bit is a power of the shift on `unit`. -/
theorem shift_iterate_unit {j : Nat} (hj : j < w) :
    (shift poly)^[w - 1 - j] (unit w) = BitVec.twoPow w j := by
  have hpow : ∀ i, BitVec.twoPow w i = 1#w <<< i := by
    intro i
    rw [BitVec.shiftLeft_eq_mul_twoPow, BitVec.one_mul]
  have hunit : unit w = BitVec.twoPow w j <<< (w - 1 - j) := by
    rw [unit, hpow, hpow, ← BitVec.shiftLeft_add, show j + (w - 1 - j) = w - 1 by omega]
  rw [hunit]
  apply shift_iterate_shiftLeft
  intro i hi
  rw [BitVec.getLsbD_twoPow]
  simp [show j ≠ i by omega]

/-- Powers of the shift whose distance is below the period differ. -/
theorem shift_iterate_unit_ne (hpoly : poly.msb = true) {period : Nat}
    (hperiod : ∀ d, 0 < d → d < period → (shift poly)^[d] (unit w) ≠ unit w) {e f : Nat}
    (hlt : e < f) (hclose : f - e < period) :
    (shift poly)^[e] (unit w) ≠ (shift poly)^[f] (unit w) := by
  intro h
  have hsum : f = e + (f - e) := by omega
  rw [hsum, Function.iterate_add_apply] at h
  exact hperiod (f - e) (by omega) hclose
    (Function.Injective.iterate (shift_injective hpoly) _ h).symm

/-- A point that comes back after `n` steps, but not after `n / p` for any prime
factor `p` of `n`, does not come back earlier. -/
theorem iterate_ne_of_prime_factors {α : Type*} {f : α → α} {x : α} {n : Nat}
    (hn : f^[n] x = x) (hprime : ∀ p, p.Prime → p ∣ n → f^[n / p] x ≠ x)
    {d : Nat} (hpos : 0 < d) (hlt : d < n) : f^[d] x ≠ x := by
  have hdvd : Function.minimalPeriod f x ∣ n := Function.IsPeriodicPt.minimalPeriod_dvd hn
  obtain ⟨c, hc⟩ := hdvd
  have hone : c = 1 := by
    by_contra hne
    obtain ⟨p, hp, q, rfl⟩ := Nat.exists_prime_and_dvd hne
    apply hprime p hp ⟨Function.minimalPeriod f x * q, by rw [hc]; ring⟩
    have hdiv : n / p = Function.minimalPeriod f x * q := by
      rw [hc, show Function.minimalPeriod f x * (p * q) = p * (Function.minimalPeriod f x * q) by
        ring, Nat.mul_div_cancel_left _ hp.pos]
    rw [hdiv]
    exact (Function.isPeriodicPt_minimalPeriod f x).mul_const q
  intro hd
  rw [hone, Nat.mul_one] at hc
  exact Function.not_isPeriodicPt_of_pos_of_lt_minimalPeriod (by omega) (hc ▸ hlt) hd

/-! ## Registers of maximal period -/

/-- A string of zeros only shifts. -/
theorem feedAll_replicate_false (r : BitVec w) (n : Nat) :
    feedAll poly r (List.replicate n false) = (shift poly)^[n] r := by
  induction n generalizing r with
  | zero => rfl
  | succ n ih =>
    rw [List.replicate_succ, feedAll_cons, ih, Function.iterate_succ_apply]
    congr 1
    rw [feed, lowBit, if_neg (by decide), BitVec.xor_zero]

theorem width_pos (hpoly : poly.msb = true) : 0 < w := by
  rcases Nat.eq_zero_or_pos w with rfl | hw
  · simp [BitVec.msb_eq_getLsbD_last] at hpoly
  · exact hw

/-- The shift runs through all registers but 0 before it comes back to `unit`. -/
structure MaximalPeriod (poly : BitVec w) : Prop where
  msb : poly.msb = true
  back : (shift poly)^[2 ^ w - 1] (unit w) = unit w
  first : ∀ d, 0 < d → d < 2 ^ w - 1 → (shift poly)^[d] (unit w) ≠ unit w

namespace MaximalPeriod

theorem unit_ne_zero (h : MaximalPeriod poly) : unit w ≠ 0#w := by
  have hw := width_pos h.msb
  intro hunit
  have hbit := congrArg (·.getLsbD (w - 1)) hunit
  simp [unit, show w - 1 < w by omega] at hbit

/-- Every register but 0 is a power of the shift on `unit`, because there are as many powers. -/
theorem exists_iterate_unit (h : MaximalPeriod poly) {r : BitVec w} (hr : r ≠ 0#w) :
    ∃ e, (shift poly)^[e] (unit w) = r := by
  have hsub : (Finset.range (2 ^ w - 1)).image (fun e => (shift poly)^[e] (unit w)) ⊆
      Finset.univ.erase 0#w := by
    intro s hs
    obtain ⟨e, -, rfl⟩ := Finset.mem_image.mp hs
    refine Finset.mem_erase.mpr ⟨fun h0 => h.unit_ne_zero ?_, Finset.mem_univ _⟩
    rw [← shift_iterate_zero e] at h0
    exact Function.Injective.iterate (shift_injective h.msb) e h0
  have hinj : Set.InjOn (fun e => (shift poly)^[e] (unit w)) (Finset.range (2 ^ w - 1)) := by
    intro e he f hf heq
    have he := Finset.mem_range.mp he
    have hf := Finset.mem_range.mp hf
    rcases Nat.lt_trichotomy e f with hlt | rfl | hgt
    · exact absurd heq (shift_iterate_unit_ne h.msb h.first hlt (by omega))
    · rfl
    · exact absurd heq.symm (shift_iterate_unit_ne h.msb h.first hgt (by omega))
  have hcard : (Finset.univ.erase 0#w).card = 2 ^ w - 1 := by
    rw [Finset.card_erase_of_mem (Finset.mem_univ _), Finset.card_univ,
      ← FinEnum.card_eq_fintypeCard, FinEnum.card_bitVec]
  have hall := Finset.eq_of_subset_of_card_le hsub
    (by rw [Finset.card_image_of_injOn hinj, Finset.card_range, hcard])
  have hmem := Finset.mem_erase.mpr ⟨hr, Finset.mem_univ r⟩
  rw [← hall] at hmem
  obtain ⟨e, -, he⟩ := Finset.mem_image.mp hmem
  exact ⟨e, he⟩

/-- Shifts bring a register back when it is 0 and after the period. -/
theorem shift_iterate_eq_self_iff (h : MaximalPeriod poly) (r : BitVec w) (d : Nat) :
    (shift poly)^[d] r = r ↔ r = 0#w ∨ 2 ^ w - 1 ∣ d := by
  have hcommute := fun e => (Function.Commute.refl (shift poly)).iterate_iterate d e
  constructor
  · intro hd
    by_contra hnot
    obtain ⟨hr, hdvd⟩ := not_or.mp hnot
    obtain ⟨e, rfl⟩ := h.exists_iterate_unit hr
    rw [(hcommute e).eq] at hd
    have hunit := Function.Injective.iterate (shift_injective h.msb) e hd
    rw [← Function.IsPeriodicPt.iterate_mod_apply h.back d] at hunit
    have hpos : 0 < d % (2 ^ w - 1) :=
      Nat.pos_of_ne_zero fun h0 => hdvd (Nat.dvd_of_mod_eq_zero h0)
    have hperiod : 1 < 2 ^ w := Nat.one_lt_two_pow (width_pos h.msb).ne'
    exact h.first _ hpos (Nat.mod_lt d (by omega)) hunit
  · rintro (rfl | ⟨c, rfl⟩)
    · exact shift_iterate_zero d
    · by_cases hr : r = 0#w
      · rw [hr, shift_iterate_zero]
      · obtain ⟨e, rfl⟩ := h.exists_iterate_unit hr
        rw [(hcommute e).eq]
        congr 1
        exact (Function.IsPeriodicPt.mul_const h.back c)

end MaximalPeriod

end ShiftRegister

import CanbusAgent.Lib.Lexicographic
import CanbusAgent.Platform

/-!
# `utils_memcmp`

The loop reads both arrays through `char`, whose sign is the choice of the
target.  `utilsMemcmp_eq` says what it computes on either: the lexicographic
order of the values of `char`.  This is the order of `memcmp`, which compares
unsigned bytes, unless the first bytes that differ are on both sides of 0x80 and
`char` is signed.
-/

namespace CanbusAgent.Utils

open Lexicographic Region

/-- The sign of plain `char`. -/
inductive CharSign where
  /-- The ARM target of the Makefile. -/
  | unsigned
  /-- An x86 host. -/
  | signed
deriving DecidableEq, Repr

/-- The value of `*(char*)p` when `p` leads to the byte `b`. -/
def CharSign.char (sign : CharSign) (b : UInt8) : Int :=
  match sign with
  | unsigned => b.toNat
  | signed => b.toInt8.toInt

/-- The loop of `utils_memcmp` with `len` bytes to go.  Both pointers were moved
by `i`. -/
def utilsMemcmpLoop (sign : CharSign) (a b : Nat → UInt8) (i : Nat) : (len : Nat) → Int
  | 0 => 0
  | len + 1 =>
    if sign.char (a i) = sign.char (b i) then utilsMemcmpLoop sign a b (i + 1) len
    else if sign.char (b i) < sign.char (a i) then 1
    else -1

def utilsMemcmp (sign : CharSign) (a b : Nat → UInt8) (len : Nat) : Int :=
  if len = 0 then 0 else utilsMemcmpLoop sign a b 0 len

/-! ## The order of the loop -/

theorem signed_char (b : UInt8) :
    CharSign.signed.char b = if b.toNat < 128 then (b.toNat : Int) else b.toNat - 256 := by
  show b.toBitVec.toInt = _
  rw [BitVec.toInt_eq_toNat_cond]
  show (if 2 * b.toNat < 256 then _ else _) = _
  split_ifs <;> first | rfl | omega

/-- Different bytes are different values of `char`. -/
theorem char_inj {sign : CharSign} {x y : UInt8} (h : sign.char x = sign.char y) : x = y := by
  have hx := x.toNat_lt
  have hy := y.toNat_lt
  apply UInt8.toNat_inj.mp
  cases sign with
  | unsigned => exact Int.ofNat_inj.mp h
  | signed =>
    rw [signed_char, signed_char] at h
    split_ifs at h <;> omega

theorem utilsMemcmpLoop_eq (sign : CharSign) (a b : Nat → UInt8) (i len : Nat) :
    utilsMemcmpLoop sign a b i len =
      sgn (compare (slice (fun j => sign.char (a j)) i len)
        (slice (fun j => sign.char (b j)) i len)) := by
  induction len generalizing i with
  | zero => rfl
  | succ len ih =>
    rw [utilsMemcmpLoop, slice_succ, slice_succ, List.compare_cons_cons]
    split_ifs with heq hgt
    · have hself : compare (sign.char (b i)) (sign.char (b i)) = .eq := Std.ReflCmp.compare_self
      rw [ih, heq, hself]
      rfl
    · rw [Int.compare_eq_gt.mpr hgt]
      rfl
    · rw [Int.compare_eq_lt.mpr (by omega)]
      rfl

/-- `utils_memcmp` is the lexicographic order of the values of `char`. -/
theorem utilsMemcmp_eq (sign : CharSign) (a b : Nat → UInt8) (len : Nat) :
    utilsMemcmp sign a b len =
      sgn (compareCells (fun j => sign.char (a j)) (fun j => sign.char (b j)) len) := by
  unfold utilsMemcmp
  split_ifs with h0
  · subst h0
    rfl
  · exact utilsMemcmpLoop_eq sign a b 0 len

theorem utilsMemcmp_eq_zero (sign : CharSign) (a b : Nat → UInt8) (len : Nat) :
    utilsMemcmp sign a b len = 0 ↔ ∀ i < len, a i = b i := by
  rw [utilsMemcmp_eq, sgn_eq_zero, compareCells_eq]
  exact forall₂_congr fun i _ => ⟨char_inj, congrArg sign.char⟩

theorem utilsMemcmp_of_firstDiff {sign : CharSign} {a b : Nat → UInt8} {len k : Nat}
    (h : FirstDiff a b len k) :
    utilsMemcmp sign a b len = if sign.char (b k) < sign.char (a k) then 1 else -1 := by
  have hne : sign.char (a k) ≠ sign.char (b k) := fun heq => h.ne (char_inj heq)
  rw [utilsMemcmp_eq, compareCells_of_firstDiff (firstDiff_map (fun _ _ => char_inj) h),
    sgn_compare hne]

theorem utilsMemcmp_swap (sign : CharSign) (a b : Nat → UInt8) (len : Nat) :
    utilsMemcmp sign b a len = -utilsMemcmp sign a b len := by
  rw [utilsMemcmp_eq, utilsMemcmp_eq, compareCells_swap, sgn_swap]

theorem utilsMemcmp_trans {sign : CharSign} {a b c : Nat → UInt8} {len : Nat}
    (hab : utilsMemcmp sign a b len ≤ 0) (hbc : utilsMemcmp sign b c len ≤ 0) :
    utilsMemcmp sign a c len ≤ 0 := by
  rw [utilsMemcmp_eq, sgn_le_zero] at *
  exact compareCells_trans hab hbc

/-! ## The order of `memcmp` -/

/-- The result `r` is that of `memcmp`, as -1, 0 or 1. -/
structure IsMemcmp (a b : Nat → UInt8) (len : Nat) (r : Int) : Prop where
  zero : r = 0 ↔ ∀ i < len, a i = b i
  diff : ∀ k, FirstDiff a b len k → r = if b k < a k then 1 else -1

/-- The first bytes that differ, if any, are on the same side of 0x80. -/
def SameSide (a b : Nat → UInt8) (len : Nat) : Prop :=
  ∀ k, FirstDiff a b len k → (a k < 128 ↔ b k < 128)

theorem unsigned_lt (x y : UInt8) :
    CharSign.unsigned.char x < CharSign.unsigned.char y ↔ x < y := by
  rw [UInt8.lt_iff_toNat_lt]
  exact Int.ofNat_lt

/-- Both kinds of `char` order two different bytes the same way exactly when the
bytes are on the same side of 0x80. -/
theorem signed_lt_iff {x y : UInt8} (h : x ≠ y) :
    (CharSign.signed.char x < CharSign.signed.char y ↔ x < y) ↔ (x < 128 ↔ y < 128) := by
  have hx := x.toNat_lt
  have hy := y.toNat_lt
  have hne : x.toNat ≠ y.toNat := fun heq => h (UInt8.toNat_inj.mp heq)
  rw [signed_char, signed_char, UInt8.lt_iff_toNat_lt, UInt8.lt_iff_toNat_lt,
    UInt8.lt_iff_toNat_lt]
  show _ ↔ (x.toNat < 128 ↔ y.toNat < 128)
  split_ifs <;> omega

theorem isMemcmp_unsigned (a b : Nat → UInt8) (len : Nat) :
    IsMemcmp a b len (utilsMemcmp .unsigned a b len) where
  zero := utilsMemcmp_eq_zero .unsigned a b len
  diff k hk := by
    rw [utilsMemcmp_of_firstDiff hk]
    simp only [unsigned_lt]

theorem isMemcmp_signed (a b : Nat → UInt8) (len : Nat) :
    IsMemcmp a b len (utilsMemcmp .signed a b len) ↔ SameSide a b len := by
  constructor
  · intro h k hk
    have hdiff := h.diff k hk
    rw [utilsMemcmp_of_firstDiff hk] at hdiff
    rw [Iff.comm, ← signed_lt_iff hk.ne.symm]
    -- where the two orders differ, the results 1 and -1 would be equal
    split_ifs at hdiff with hsigned hunsigned hunsigned
    · exact iff_of_true hsigned hunsigned
    · exact iff_of_false hsigned hunsigned
  · intro h
    refine ⟨utilsMemcmp_eq_zero .signed a b len, fun k hk => ?_⟩
    rw [utilsMemcmp_of_firstDiff hk]
    simp only [(signed_lt_iff hk.ne.symm).mpr (h k hk).symm]

/-- On each target `utils_memcmp` is an order.  It is the one of `memcmp`, and so the
same on every target, exactly where no first difference is on both sides of 0x80
for a signed `char`. -/
theorem utilsMemcmp_iff (sign : CharSign) (a b : Nat → UInt8) (len : Nat) :
    (IsMemcmp a b len (utilsMemcmp sign a b len) ↔ sign = .unsigned ∨ SameSide a b len) ∧
      (utilsMemcmp .signed a b len = utilsMemcmp .unsigned a b len ↔ SameSide a b len) ∧
      utilsMemcmp sign b a len = -utilsMemcmp sign a b len ∧
      ∀ c, utilsMemcmp sign a b len ≤ 0 → utilsMemcmp sign b c len ≤ 0 →
        utilsMemcmp sign a c len ≤ 0 := by
  refine ⟨?_, ?_, utilsMemcmp_swap sign a b len, fun c => utilsMemcmp_trans⟩
  · cases sign with
    | unsigned => exact iff_of_true (isMemcmp_unsigned a b len) (Or.inl rfl)
    | signed =>
      rw [isMemcmp_signed]
      simp
  · rw [← isMemcmp_signed]
    constructor
    · intro h
      rw [h]
      exact isMemcmp_unsigned a b len
    · intro h
      by_cases hall : ∀ i < len, a i = b i
      · rw [(utilsMemcmp_eq_zero .signed a b len).mpr hall,
          (utilsMemcmp_eq_zero .unsigned a b len).mpr hall]
      · obtain ⟨k, hk⟩ := exists_firstDiff hall
        rw [h.diff k hk, (isMemcmp_unsigned a b len).diff k hk]

/-- With a signed `char` the byte 0x80 comes before 0x01. -/
theorem utilsMemcmp_signed_reversed :
    ¬ IsMemcmp (fun _ => 0x80) (fun _ => 0x01) 1
      (utilsMemcmp .signed (fun _ => 0x80) (fun _ => 0x01) 1) := by
  intro h
  have hdiff := h.diff 0 ⟨by decide, by simp, by decide⟩
  exact absurd hdiff (by decide)

end CanbusAgent.Utils

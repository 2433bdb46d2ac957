import Mathlib.Data.List.Basic
import Mathlib.Tactic.Ring

/-!
# Little-endian words

The bytes of a natural number, lowest byte first, and the number that a byte
list stands for.  The width is a parameter, so one pair of functions serves
32-bit fields and pointers of either size.  `leNat_leBytes` and
`leBytes_leNat` say that the two are inverse on words that fit.
-/

namespace LittleEndian

/-- The `k` low bytes of `n`, lowest first. -/
def leBytes : Nat → Nat → List UInt8
  | 0, _ => []
  | k + 1, n => UInt8.ofNat n :: leBytes k (n / 256)

/-- The number that a byte list stands for. -/
def leNat : List UInt8 → Nat
  | [] => 0
  | b :: bs => b.toNat + 256 * leNat bs

@[simp] theorem leBytes_length (k n : Nat) : (leBytes k n).length = k := by
  induction k generalizing n with
  | zero => rfl
  | succ k ih => simp [leBytes, ih]

theorem leNat_lt (bs : List UInt8) : leNat bs < 256 ^ bs.length := by
  induction bs with
  | nil => simp [leNat]
  | cons b bs ih =>
    have hb : b.toNat < 256 := b.toNat_lt
    rw [leNat, List.length_cons, Nat.pow_succ]
    omega

/-- Writing a number and reading it back keeps the part that fits. -/
theorem leNat_leBytes (k n : Nat) : leNat (leBytes k n) = n % 256 ^ k := by
  induction k generalizing n with
  | zero => simp [leBytes, leNat, Nat.mod_one]
  | succ k ih =>
    have hb : (UInt8.ofNat n).toNat = n % 256 := UInt8.toNat_ofNat'
    rw [leBytes, leNat, ih, hb, Nat.pow_succ', Nat.mod_mul]

/-- Reading bytes and writing the number gives the bytes back. -/
theorem leBytes_leNat (bs : List UInt8) : leBytes bs.length (leNat bs) = bs := by
  induction bs with
  | nil => rfl
  | cons b bs ih =>
    have hb : b.toNat < 256 := b.toNat_lt
    have hdiv : (b.toNat + 256 * leNat bs) / 256 = leNat bs := by omega
    have hlow : UInt8.ofNat (b.toNat + 256 * leNat bs) = b := by
      rw [← UInt8.toNat_inj, UInt8.toNat_ofNat']
      omega
    rw [leNat, List.length_cons, leBytes, hdiv, ih, hlow]

/-- The four bytes of a 32-bit word. -/
def u32Bytes (w : UInt32) : List UInt8 := leBytes 4 w.toNat

/-- The 32-bit word that four bytes stand for. -/
def u32OfBytes (bs : List UInt8) : UInt32 := UInt32.ofNat (leNat bs)

@[simp] theorem u32OfBytes_u32Bytes (w : UInt32) : u32OfBytes (u32Bytes w) = w := by
  have hw : w.toNat < 256 ^ 4 := w.toNat_lt
  rw [u32OfBytes, u32Bytes, leNat_leBytes, Nat.mod_eq_of_lt hw, UInt32.ofNat_toNat]

theorem u32Bytes_u32OfBytes {bs : List UInt8} (h : bs.length = 4) :
    u32Bytes (u32OfBytes bs) = bs := by
  have hlt : leNat bs < 2 ^ 32 := by
    have := leNat_lt bs
    rw [h] at this
    exact this
  rw [u32Bytes, u32OfBytes, UInt32.toNat_ofNat_of_lt' hlt, ← h, leBytes_leNat]

end LittleEndian

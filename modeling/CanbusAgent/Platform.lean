import Mathlib.Algebra.Order.Ring.Int
import Mathlib.Data.Int.ModEq

/-!
# Platform facts that the C code depends on

The Makefile builds for 32-bit ARM: `int`, `long`, `size_t` and pointers have
four bytes, words are little-endian and plain `char` is unsigned.  `DataModel`
also has the data model of a 64-bit host, on which the same sources give a
different struct layout and a wider `size_t`.

`int32_t` return values are `Int`.  The error codes are those of `hal_err.h`
that some modelled function returns.

Every function of the sources starts with `UTILS_ASSERT_MSG` checks that spin
forever on a `NULL` argument.  An argument of the model is the object that the
pointer leads to, so these checks have passed and do not appear.  The log
output of `UTILS_LOG` and `UTILS_ERR` does not appear either.
-/

namespace CanbusAgent

/-- The data model of the C compiler. -/
inductive DataModel where
  /-- 4-byte pointers, `long` and `size_t`: the target of the Makefile. -/
  | ilp32
  /-- 8-byte pointers, `long` and `size_t`, naturally aligned. -/
  | lp64
deriving DecidableEq, Repr

namespace DataModel

/-- `sizeof (void *)`, which is also `sizeof (size_t)`. -/
def ptrSize : DataModel → Nat
  | ilp32 => 4
  | lp64 => 8

/-- The number of values of `size_t`. -/
def sizeMod (dm : DataModel) : Nat := 256 ^ dm.ptrSize

/-- The value of a computation in `size_t`. -/
def toSize (dm : DataModel) (n : Nat) : Nat := n % dm.sizeMod

/-- The cast `(ssize_t)` of a `size_t`. -/
def toSsize (dm : DataModel) (n : Nat) : Int := (n : Int).bmod dm.sizeMod

/-- The conversion of a `ssize_t` to `size_t`. -/
def ofSsize (dm : DataModel) (x : Int) : Nat := (x % dm.sizeMod).toNat

/-- The value of a computation in `ssize_t`, which wraps around. -/
def wrapSsize (dm : DataModel) (x : Int) : Int := x.bmod dm.sizeMod

/-- The greatest `ssize_t`. -/
def SSIZE_MAX (dm : DataModel) : Nat := dm.sizeMod / 2 - 1

@[simp] theorem sizeMod_ilp32 : ilp32.sizeMod = 2 ^ 32 := rfl
@[simp] theorem sizeMod_lp64 : lp64.sizeMod = 2 ^ 64 := rfl

theorem SSIZE_MAX_lt (dm : DataModel) : dm.SSIZE_MAX < dm.sizeMod := by
  cases dm <;> decide

theorem eight_le_SSIZE_MAX (dm : DataModel) : 8 ≤ dm.SSIZE_MAX := by
  cases dm <;> decide

theorem toSize_of_lt {dm : DataModel} {n : Nat} (h : n < dm.sizeMod) : dm.toSize n = n :=
  Nat.mod_eq_of_lt h

/-- A length that is a positive `ssize_t` survives the cast. -/
theorem toSsize_of_le {dm : DataModel} {n : Nat} (h : n ≤ dm.SSIZE_MAX) :
    dm.toSsize n = n := by
  rw [toSsize]
  cases dm <;> simp only [SSIZE_MAX, sizeMod, ptrSize] at h ⊢ <;>
    exact Int.bmod_eq_of_le (by omega) (by omega)

/-- A length that is no positive `ssize_t` becomes negative. -/
theorem toSsize_neg {dm : DataModel} {n : Nat} (hmax : dm.SSIZE_MAX < n) (h : n < dm.sizeMod) :
    dm.toSsize n < 0 := by
  have hge : ¬ (n : Int) < ((dm.sizeMod : Int) + 1) / 2 := by
    cases dm <;> simp only [SSIZE_MAX, sizeMod, ptrSize] at hmax ⊢ <;> omega
  rw [toSsize, Int.bmod_def, ← Int.natCast_emod, Nat.mod_eq_of_lt h, if_neg hge]
  omega

/-- A length survives the cast to `ssize_t` and back. -/
theorem ofSsize_toSsize {dm : DataModel} {n : Nat} (h : n < dm.sizeMod) :
    dm.ofSsize (dm.toSsize n) = n := by
  rw [ofSsize, toSsize, Int.bmod_emod, ← Int.natCast_emod, Int.toNat_natCast]
  exact Nat.mod_eq_of_lt h

theorem toSsize_inj {dm : DataModel} {m n : Nat} (hm : m < dm.sizeMod) (hn : n < dm.sizeMod) :
    dm.toSsize m = dm.toSsize n ↔ m = n := by
  constructor
  · intro h
    rw [← ofSsize_toSsize hm, h, ofSsize_toSsize hn]
  · exact congrArg dm.toSsize

theorem toSsize_eq_zero {dm : DataModel} {n : Nat} (h : n < dm.sizeMod) :
    dm.toSsize n = 0 ↔ n = 0 := by
  have h0 : dm.toSsize 0 = 0 := Int.zero_bmod
  rw [← h0, toSsize_inj h (Nat.zero_lt_of_lt h)]

theorem toSsize_ne_zero {dm : DataModel} {n : Nat} (hpos : 0 < n) (h : n < dm.sizeMod) :
    dm.toSsize n ≠ 0 := by
  rw [Ne, toSsize_eq_zero h]
  omega

/-- The difference of two lengths does not depend on where the casts wrapped. -/
theorem wrapSsize_sub {dm : DataModel} {m n : Nat} (h : n ≤ m) :
    dm.wrapSsize (dm.toSsize m - dm.toSsize n) = dm.toSsize (m - n) := by
  rw [wrapSsize, toSsize, toSsize, toSsize, Int.bmod_sub_bmod, Int.sub_bmod_bmod,
    Int.ofNat_sub h]

theorem wrapSsize_toSsize (dm : DataModel) (n : Nat) :
    dm.wrapSsize (dm.toSsize n) = dm.toSsize n := Int.bmod_bmod

/-- Two subtractions wrap like one. -/
theorem wrapSsize_sub_sub (dm : DataModel) (x y z : Int) :
    dm.wrapSsize (dm.wrapSsize (x - y) - z) = dm.wrapSsize (x - (y + z)) := by
  rw [wrapSsize, wrapSsize, wrapSsize, Int.bmod_sub_bmod, Int.sub_sub]

/-- A value in the range of `ssize_t` does not wrap. -/
theorem wrapSsize_of_range {dm : DataModel} {x : Int} (hmin : -(dm.SSIZE_MAX : Int) - 1 ≤ x)
    (hmax : x ≤ dm.SSIZE_MAX) : dm.wrapSsize x = x := by
  rw [wrapSsize]
  cases dm <;> simp only [SSIZE_MAX, sizeMod, ptrSize] at hmin hmax ⊢ <;>
    exact Int.bmod_eq_of_le (by omega) (by omega)

/-- A cast that wrapped does not change what is missing of a length when `d` bytes of it
have come. -/
theorem wrapSsize_toSsize_sub (dm : DataModel) (n : Nat) (d : Int) :
    dm.wrapSsize (dm.toSsize n - d) = dm.wrapSsize ((dm.toSize n : Int) - d) := by
  rw [wrapSsize, wrapSsize, toSsize, toSize, Int.bmod_sub_bmod, Int.natCast_emod,
    Int.emod_sub_bmod]

/-- What is missing of a length is right as a `ssize_t` when it fits in one. -/
theorem wrapSsize_toSsize_sub_of_le {dm : DataModel} {n d : Nat} (h : d ≤ dm.toSize n + 8)
    (hmax : dm.toSize n ≤ dm.SSIZE_MAX + d) :
    dm.wrapSsize (dm.toSsize n - d) = (dm.toSize n : Int) - d := by
  have height : 8 ≤ dm.SSIZE_MAX := dm.eight_le_SSIZE_MAX
  rw [wrapSsize_toSsize_sub]
  exact wrapSsize_of_range (by omega) (by omega)

/-- When `d` bytes of a length have come, at most eight too many, the missing ones are a
positive `ssize_t` exactly when there are some and not more than `SSIZE_MAX`. -/
theorem wrapSsize_pos_iff {dm : DataModel} {n d : Nat} (h : d ≤ dm.toSize n + 8) :
    0 < dm.wrapSsize (dm.toSsize n - d) ↔ d < dm.toSize n ∧ dm.toSize n ≤ dm.SSIZE_MAX + d := by
  by_cases hmax : dm.toSize n ≤ dm.SSIZE_MAX + d
  · rw [wrapSsize_toSsize_sub_of_le h hmax]
    omega
  · -- the missing bytes are no positive `ssize_t`, so they are negative as one
    have hlt : dm.toSize n < dm.sizeMod := Nat.mod_lt n (by cases dm <;> decide)
    have hneg : dm.wrapSsize ((dm.toSize n : Int) - d) = (dm.toSize n : Int) - d - dm.sizeMod := by
      rw [wrapSsize, ← Int.sub_bmod_right]
      cases dm <;> simp only [SSIZE_MAX, sizeMod, ptrSize] at hmax hlt ⊢ <;>
        exact Int.bmod_eq_of_le (by omega) (by omega)
    rw [wrapSsize_toSsize_sub, hneg]
    omega

/-- Two frames more than a positive `ssize_t` are still a `size_t`. -/
theorem toSize_of_le_add {dm : DataModel} {n : Nat} (h : n ≤ dm.SSIZE_MAX + 16) :
    dm.toSize n = n := by
  apply toSize_of_lt
  cases dm <;> simp only [SSIZE_MAX, sizeMod, ptrSize] at h ⊢ <;> omega

end DataModel

/-! ## `hal_err.h` -/

def HAL_SUCCESS : Int := 0
def HAL_ERR_MEM_ERROR : Int := 9
def HAL_ERR_BUFFER_TOO_SMALL : Int := 12
def HAL_ERR_INVALID_PARAM : Int := 15
def HAL_ERR_DEVICE_BUSY : Int := 21
def HAL_ERR_SEND_ERROR : Int := 28
def HAL_ERR_FILE_ACCESS : Int := 32
def HAL_ERR_FILE_IOCTL : Int := 34
def HAL_ERR_COM_MAGIC : Int := 39
def HAL_ERR_COM_VERSION : Int := 40
def HAL_ERR_CRYPTO_ENCRYPT_FAILED : Int := 103
def HAL_ERR_CRYPTO_DECRYPT_FAILED : Int := 104
def HAL_ERR_CRYPTO_INIT_FAILED : Int := 105

theorem HAL_ERR_FILE_IOCTL_ne_zero : HAL_ERR_FILE_IOCTL ≠ 0 := by decide

end CanbusAgent

import Mathlib.Data.List.GetD
import Mathlib.Logic.Equiv.Defs

/-!
# Cipher block chaining

A block cipher under a fixed key is a permutation of the blocks.  Chaining
combines every block with the previous ciphertext block before it is
encrypted; the first one is combined with an initialisation vector.  The two
directions are inverse for every combining operation that cancels itself, and
for any number of blocks.
-/

universe u

namespace Cbc

variable {B : Type u}

/-- Combining twice with the same block gives the first one back. -/
def SelfCancelling (xor : B → B → B) : Prop := ∀ a b, xor (xor a b) b = a

/-- Chained encryption of a list of blocks. -/
def encrypt (xor : B → B → B) (E : Equiv.Perm B) : B → List B → List B
  | _, [] => []
  | iv, p :: ps => E (xor p iv) :: encrypt xor E (E (xor p iv)) ps

/-- Chained decryption of a list of blocks. -/
def decrypt (xor : B → B → B) (E : Equiv.Perm B) : B → List B → List B
  | _, [] => []
  | iv, c :: cs => xor (E.symm c) iv :: decrypt xor E c cs

variable {xor : B → B → B}

@[simp] theorem encrypt_length (E : Equiv.Perm B) (iv : B) (ps : List B) :
    (encrypt xor E iv ps).length = ps.length := by
  induction ps generalizing iv with
  | nil => rfl
  | cons p ps ih => simp [encrypt, ih]

@[simp] theorem decrypt_length (E : Equiv.Perm B) (iv : B) (cs : List B) :
    (decrypt xor E iv cs).length = cs.length := by
  induction cs generalizing iv with
  | nil => rfl
  | cons c cs ih => simp [decrypt, ih]

/-- Decryption inverts encryption.  The ciphertext block that encryption passes
on is the one that decryption reads. -/
theorem decrypt_encrypt (hxor : SelfCancelling xor) (E : Equiv.Perm B) (iv : B) (ps : List B) :
    decrypt xor E iv (encrypt xor E iv ps) = ps := by
  induction ps generalizing iv with
  | nil => rfl
  | cons p ps ih => rw [encrypt, decrypt, Equiv.symm_apply_apply, hxor, ih]

/-- Encryption inverts decryption. -/
theorem encrypt_decrypt (hxor : SelfCancelling xor) (E : Equiv.Perm B) (iv : B) (cs : List B) :
    encrypt xor E iv (decrypt xor E iv cs) = cs := by
  induction cs generalizing iv with
  | nil => rfl
  | cons c cs ih => rw [decrypt, encrypt, hxor, Equiv.apply_symm_apply, ih]

/-! ## Texts in pieces -/

/-- The block that the next piece is chained with. -/
theorem encrypt_append (E : Equiv.Perm B) (iv : B) (ps qs : List B) :
    encrypt xor E iv (ps ++ qs) =
      encrypt xor E iv ps ++ encrypt xor E ((encrypt xor E iv ps).getLastD iv) qs := by
  induction ps generalizing iv with
  | nil => rfl
  | cons p ps ih =>
    rw [List.cons_append, encrypt, ih, encrypt, List.cons_append, List.getLastD_cons]

theorem decrypt_append (E : Equiv.Perm B) (iv : B) (cs ds : List B) :
    decrypt xor E iv (cs ++ ds) = decrypt xor E iv cs ++ decrypt xor E (cs.getLastD iv) ds := by
  induction cs generalizing iv with
  | nil => rfl
  | cons c cs ih =>
    rw [List.cons_append, decrypt, ih, decrypt, List.cons_append, List.getLastD_cons]

/-! ## Changed texts -/

/-- Decryption looks at two ciphertext blocks for each block of the text. -/
theorem getElem?_decrypt (E : Equiv.Perm B) (iv : B) (cs : List B) (i : Nat) :
    (decrypt xor E iv cs)[i]? =
      (cs[i]?).map fun c => xor (E.symm c) ((iv :: cs).getD i iv) := by
  induction cs generalizing iv i with
  | nil => rfl
  | cons c cs ih =>
    cases i with
    | zero => rfl
    | succ i =>
      rw [decrypt, List.getElem?_cons_succ, ih, List.getElem?_cons_succ, List.getD_cons_succ]
      cases hc : cs[i]? with
      | none => rfl
      | some d =>
        have hi : i < (c :: cs).length := by
          have := (List.getElem?_eq_some_iff.mp hc).1
          rw [List.length_cons]
          omega
        rw [Option.map_some, Option.map_some, List.getD_eq_getElem _ _ hi,
          List.getD_eq_getElem _ _ hi]

/-- Two texts are encrypted to the same first blocks exactly when they have the same first
blocks. -/
theorem encrypt_take_iff (hxor : SelfCancelling xor) (E : Equiv.Perm B) (iv : B)
    (ps qs : List B) (k : Nat) :
    (encrypt xor E iv ps).take k = (encrypt xor E iv qs).take k ↔ ps.take k = qs.take k := by
  have hinj : ∀ a b c, xor a c = xor b c → a = b := by
    intro a b c h
    rw [← hxor a c, h, hxor]
  induction k generalizing iv ps qs with
  | zero => simp
  | succ k ih =>
    cases ps with
    | nil => cases qs <;> simp [encrypt]
    | cons p ps =>
      cases qs with
      | nil => simp [encrypt]
      | cons q qs =>
        simp only [encrypt, List.take_succ_cons, List.cons.injEq, E.injective.eq_iff]
        constructor
        · rintro ⟨hblock, hrest⟩
          obtain rfl := hinj p q iv hblock
          exact ⟨rfl, (ih _ ps qs).mp hrest⟩
        · rintro ⟨rfl, hrest⟩
          exact ⟨rfl, (ih _ ps qs).mpr hrest⟩

end Cbc

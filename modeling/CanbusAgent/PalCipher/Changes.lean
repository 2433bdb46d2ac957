import CanbusAgent.PalCipher.Pieces

/-!
# What a change of one text does to the other

The functions have no integrity check: a changed ciphertext is decrypted as well.  The change
stays in its block and the next one, and what it does to the next one is the change itself
(`decrypt_damaged`).  In the other direction, equal first blocks stay visible: two texts under
the same key and `iv` have the same first blocks exactly when their ciphertexts have
(`encrypt_prefix_iff`).
-/

namespace CanbusAgent.PalCipher

open Chunks Region

variable {evp : Evp} {block : evp.Cipher → List UInt8 → Equiv.Perm Block}
  {encryptState decryptState : evp.Ctx → Option Keyed}

/-! ## Bytes and blocks -/

theorem getElem?_unblocks (bs : List Block) (k : Nat) {r : Nat} (hr : r < 16) :
    (unblocks bs)[16 * k + r]? = (bs[k]?).map fun b => b[r] := by
  induction bs generalizing k with
  | nil => rfl
  | cons b bs ih =>
    have hcons : unblocks (b :: bs) = b.toList ++ unblocks bs := List.flatMap_cons
    rw [hcons]
    cases k with
    | zero =>
      rw [List.getElem?_append_left (by simpa using hr)]
      simp [hr]
    | succ k =>
      rw [List.getElem?_append_right (by simp; omega), Vector.length_toList,
        show 16 * (k + 1) + r - 16 = 16 * k + r by omega, ih, List.getElem?_cons_succ]

theorem getElem_toBlock (bs : List UInt8) {r : Nat} (hr : r < 16) :
    (toBlock bs)[r] = bs.getD r 0 := by
  simp [toBlock]

theorem getD_drop (bs : List UInt8) (n i : Nat) : (bs.drop n).getD i 0 = bs.getD (n + i) 0 := by
  rw [List.getD_eq_getElem?_getD, List.getElem?_drop, List.getD_eq_getElem?_getD]

theorem getElem?_textBlocks (bs : List UInt8) (k : Nat) :
    (textBlocks bs)[k]? =
      if k < bs.length / 16 then some (toBlock (bs.drop (16 * k))) else none := by
  have hblocks : ∀ (n : Nat) (xs : List UInt8) (k : Nat), (blocks 16 n xs)[k]? =
      if k < n then some (toBlock (xs.drop (16 * k))) else none := by
    intro n
    induction n with
    | zero => simp [blocks]
    | succ n ih =>
      intro xs k
      cases k with
      | zero =>
        rw [if_pos (by omega)]
        rfl
      | succ k =>
        rw [blocks, List.getElem?_cons_succ, ih, List.drop_drop,
          show 16 + 16 * k = 16 * (k + 1) by omega]
        simp only [Nat.add_lt_add_iff_right]
  exact hblocks _ bs k

/-- Equal bytes are equal blocks. -/
theorem getElem?_textBlocks_congr {bs bs' : List UInt8} (hlen : bs'.length = bs.length) {k : Nat}
    (h : ∀ r < 16, bs'[16 * k + r]? = bs[16 * k + r]?) :
    (textBlocks bs')[k]? = (textBlocks bs)[k]? := by
  have hblock : toBlock (bs'.drop (16 * k)) = toBlock (bs.drop (16 * k)) := by
    apply Vector.ext
    intro r hr
    rw [getElem_toBlock _ hr, getElem_toBlock _ hr, List.getD_eq_getElem?_getD,
      List.getD_eq_getElem?_getD, List.getElem?_drop, List.getElem?_drop, h r hr]
  rw [getElem?_textBlocks, getElem?_textBlocks, hlen, hblock]

/-! ## Decryption -/

/-- A byte of a decrypted text. -/
theorem getElem?_decrypted (E : Equiv.Perm Block) (iv : Block) (cs : List Block) (k : Nat)
    {r : Nat} (hr : r < 16) : (unblocks (Cbc.decrypt xorBlock E iv cs))[16 * k + r]? =
      (cs[k]?).map fun b => (E.symm b)[r] ^^^ ((iv :: cs).getD k iv)[r] := by
  rw [getElem?_unblocks _ _ hr, Cbc.getElem?_decrypt, Option.map_map]
  congr 1
  funext b
  simp [xorBlock]

theorem blockAt {bs : List UInt8} {k : Nat} (h : k < bs.length / 16) :
    (textBlocks bs)[k]? = some (toBlock (bs.drop (16 * k))) := by
  rw [getElem?_textBlocks, if_pos h]

section Changed

variable (E : Equiv.Perm Block) (iv : Block) {bs bs' : List UInt8} (hlen : bs'.length = bs.length)
  {j : Nat} (hsame : ∀ i, i / 16 ≠ j → bs'[i]? = bs[i]?)

include hlen hsame

/-- The other blocks are as before. -/
theorem textBlocks_same {k : Nat} (hk : k ≠ j) : (textBlocks bs')[k]? = (textBlocks bs)[k]? :=
  getElem?_textBlocks_congr hlen fun r hr => hsame _ (by omega)

/-- Only the block behind the changed one is chained with another block. -/
theorem previous_same {k : Nat} (hk : k ≠ j + 1) :
    (iv :: textBlocks bs').getD k iv = (iv :: textBlocks bs).getD k iv := by
  cases k with
  | zero => rfl
  | succ k =>
    have hblock := textBlocks_same hlen hsame (show k ≠ j by omega)
    rw [List.getD_cons_succ, List.getD_cons_succ, List.getD_eq_getElem?_getD,
      List.getD_eq_getElem?_getD, hblock]

theorem decrypted_far {i : Nat} (hi : i / 16 ≠ j) (hi' : i / 16 ≠ j + 1) :
    (unblocks (Cbc.decrypt xorBlock E iv (textBlocks bs')))[i]? =
      (unblocks (Cbc.decrypt xorBlock E iv (textBlocks bs)))[i]? := by
  have hsplit : i = 16 * (i / 16) + i % 16 := by omega
  rw [hsplit, getElem?_decrypted _ _ _ _ (by omega), getElem?_decrypted _ _ _ _ (by omega),
    textBlocks_same hlen hsame hi, previous_same iv hlen hsame hi']

/-- The block behind the changed one has the change of the ciphertext. -/
theorem decrypted_next {r : Nat} (hr : r < 16) (hin : j + 1 < bs.length / 16) :
    (unblocks (Cbc.decrypt xorBlock E iv (textBlocks bs'))).getD (16 * (j + 1) + r) 0 =
      (unblocks (Cbc.decrypt xorBlock E iv (textBlocks bs))).getD (16 * (j + 1) + r) 0 ^^^
        (bs'.getD (16 * j + r) 0 ^^^ bs.getD (16 * j + r) 0) := by
  have hnext := blockAt hin
  have hnext' := (textBlocks_same hlen hsame (show j + 1 ≠ j by omega)).trans hnext
  have hchain : ∀ {ds : List UInt8}, j < ds.length / 16 →
      (iv :: textBlocks ds).getD (j + 1) iv = toBlock (ds.drop (16 * j)) := by
    intro _ hj
    rw [List.getD_cons_succ, List.getD_eq_getElem?_getD, blockAt hj, Option.getD_some]
  rw [List.getD_eq_getElem?_getD, List.getD_eq_getElem?_getD, getElem?_decrypted _ _ _ _ hr,
    getElem?_decrypted _ _ _ _ hr, hnext, hnext', hchain (by omega), hchain (by omega),
    Option.map_some, Option.map_some, Option.getD_some, Option.getD_some, getElem_toBlock _ hr,
    getElem_toBlock _ hr, getD_drop, getD_drop, UInt8.xor_assoc, UInt8.xor_comm (bs.getD _ _),
    UInt8.xor_assoc, UInt8.xor_self, UInt8.xor_zero]

/-- A text whose own block is as before comes from the same ciphertext. -/
theorem decrypted_own (haligned : bs.length % 16 = 0)
    (hown : ∀ i, i / 16 = j → (unblocks (Cbc.decrypt xorBlock E iv (textBlocks bs')))[i]? =
      (unblocks (Cbc.decrypt xorBlock E iv (textBlocks bs)))[i]?) : bs' = bs := by
  apply List.ext_getElem?
  intro i
  by_cases hi : i / 16 = j
  swap
  · exact hsame i hi
  by_cases hin : j < bs.length / 16
  swap
  · rw [List.getElem?_eq_none (by omega), List.getElem?_eq_none (by omega)]
  have hequal : toBlock (bs'.drop (16 * j)) = toBlock (bs.drop (16 * j)) := by
    apply E.symm.injective
    apply Vector.ext
    intro r hr
    have hbyte := hown (16 * j + r) (by omega)
    rw [getElem?_decrypted _ _ _ _ hr, getElem?_decrypted _ _ _ _ hr, blockAt hin,
      blockAt (show j < bs'.length / 16 by omega), previous_same iv hlen hsame (by omega),
      Option.map_some, Option.map_some, Option.some_inj] at hbyte
    exact (UInt8.xor_left_inj _).mp hbyte
  have hbyte : (toBlock (bs'.drop (16 * j)))[i % 16] = (toBlock (bs.drop (16 * j)))[i % 16] := by
    rw [hequal]
  rw [getElem_toBlock _ (by omega), getElem_toBlock _ (by omega), getD_drop, getD_drop,
    show 16 * j + i % 16 = i by omega, List.getD_eq_getElem _ _ (by omega),
    List.getD_eq_getElem _ _ (by omega)] at hbyte
  rw [List.getElem?_eq_getElem (by omega), List.getElem?_eq_getElem (by omega), hbyte]

end Changed

/-- The text that a call for a piece leaves. -/
theorem output_decrypt (dm : DataModel) (h : evp.ImplementsCbc block encryptState decryptState)
    {p : Piece} (hp : p.Fits) {key iv : List UInt8} (hkey : key.length = 16 ∨ key.length = 32)
    (hiv : iv.length = 16) :
    output (palCipherDecryptCbc dm evp p.malloc p.text key iv p.io) = unblocks
      (Cbc.decrypt xorBlock (permFor evp block key) (toBlock iv) (textBlocks p.text)) :=
  (output_cbc dm h.decrypt (fun E iv bs => Cbc.decrypt_length E iv bs) (decrypting_failed_ne evp)
    h.new hp hkey hiv).2

/-- Bytes of one block of a ciphertext were changed.  Decryption returns 0 all the same, and
only this block and the next one of the text are different.  The next one has the change of
the ciphertext, so its change can be chosen at will; the block itself always changes. -/
theorem decrypt_damaged (dm : DataModel) (h : evp.ImplementsCbc block encryptState decryptState)
    (key iv : List UInt8) (hkey : key.length = 16 ∨ key.length = 32) (hiv : iv.length = 16)
    (p p' : Piece) (hp : p.Fits) (hp' : p'.Fits) (hlen : p'.text.length = p.text.length) (j : Nat)
    (hsame : ∀ i, i / 16 ≠ j → p'.text[i]? = p.text[i]?) :
    (palCipherDecryptCbc dm evp p'.malloc p'.text key iv p'.io).1 = 0 ∧
    (∀ i, i / 16 ≠ j → i / 16 ≠ j + 1 →
      (output (palCipherDecryptCbc dm evp p'.malloc p'.text key iv p'.io))[i]? =
        (output (palCipherDecryptCbc dm evp p.malloc p.text key iv p.io))[i]?) ∧
    (∀ r < 16, 16 * (j + 1) + r < p.text.length →
      (output (palCipherDecryptCbc dm evp p'.malloc p'.text key iv p'.io)).getD
          (16 * (j + 1) + r) 0 =
        (output (palCipherDecryptCbc dm evp p.malloc p.text key iv p.io)).getD
            (16 * (j + 1) + r) 0 ^^^
          (p'.text.getD (16 * j + r) 0 ^^^ p.text.getD (16 * j + r) 0)) ∧
    (p'.text ≠ p.text → ∃ i, i / 16 = j ∧
      (output (palCipherDecryptCbc dm evp p'.malloc p'.text key iv p'.io))[i]? ≠
        (output (palCipherDecryptCbc dm evp p.malloc p.text key iv p.io))[i]?) := by
  have haligned := hp.aligned
  have hret := (output_cbc dm h.decrypt (fun E iv bs => Cbc.decrypt_length E iv bs)
    (decrypting_failed_ne evp) h.new hp' hkey hiv).1
  rw [output_decrypt dm h hp hkey hiv, output_decrypt dm h hp' hkey hiv]
  refine ⟨hret, fun i hi hi' => decrypted_far _ _ hlen hsame hi hi',
    fun r hr hin => decrypted_next _ _ hlen hsame hr (by omega), fun hne => ?_⟩
  by_contra hall
  push Not at hall
  exact hne (decrypted_own _ _ hlen hsame haligned hall)

/-- The second block of the test vector stands in place of the first one, too. -/
theorem decrypt_damaged_repeated :
    (output (palCipherDecryptCbc .ilp32 (modelEvp testBlockCipher) (fun _ => some fun _ => 0xcc)
      (aesTestCipher₂ ++ aesTestCipher₂) aesTestKey aesTestIv (roomFor 32))).getD 16 0 =
    (output (palCipherDecryptCbc .ilp32 (modelEvp testBlockCipher) (fun _ => some fun _ => 0xcc)
      (aesTestCipher ++ aesTestCipher₂) aesTestKey aesTestIv (roomFor 32))).getD 16 0 ^^^
        (0x50 ^^^ 0xb0) := by
  have hsame : ∀ i, i / 16 ≠ 0 →
      (aesTestCipher₂ ++ aesTestCipher₂)[i]? = (aesTestCipher ++ aesTestCipher₂)[i]? := by
    intro i hi
    have hlen : aesTestCipher.length = 16 := by decide
    have hlen₂ : aesTestCipher₂.length = 16 := by decide
    rw [List.getElem?_append_right (by omega), List.getElem?_append_right (by omega), hlen, hlen₂]
  exact (decrypt_damaged .ilp32 (modelEvp_implementsCbc testBlockCipher) aesTestKey aesTestIv
    (by decide) (by decide) (pieceOf (aesTestCipher ++ aesTestCipher₂))
    (pieceOf (aesTestCipher₂ ++ aesTestCipher₂)) (pieceOf_fits (by decide))
    (pieceOf_fits (by decide))
    (by decide) 0 hsame).2.2.1 0 (by omega) (by decide)

/-! ## Encryption -/

theorem take_unblocks (bs : List Block) (k : Nat) :
    (unblocks bs).take (16 * k) = unblocks (bs.take k) := by
  induction k generalizing bs with
  | zero => rfl
  | succ k ih =>
    cases bs with
    | nil => simp [unblocks]
    | cons b bs =>
      have hcons : ∀ cs : List Block, unblocks (b :: cs) = b.toList ++ unblocks cs :=
        fun cs => List.flatMap_cons
      have hlen : 16 * (k + 1) = b.toList.length + 16 * k := by
        rw [Vector.length_toList]
        omega
      rw [List.take_succ_cons, hcons, hcons, ← ih, hlen, List.take_length_add_append]

/-- The first blocks of two texts as bytes and as blocks. -/
theorem take_unblocks_iff (as bs : List Block) (k : Nat) :
    (unblocks as).take (16 * k) = (unblocks bs).take (16 * k) ↔ as.take k = bs.take k := by
  rw [take_unblocks, take_unblocks]
  constructor
  · intro h
    rw [← textBlocks_unblocks (as.take k), h, textBlocks_unblocks]
  · intro h
    rw [h]

/-- Two texts under the same key and `iv` have the same first blocks exactly when their
ciphertexts have. -/
theorem encrypt_prefix_iff (dm : DataModel) (h : evp.ImplementsCbc block encryptState decryptState)
    (key iv : List UInt8) (hkey : key.length = 16 ∨ key.length = 32) (hiv : iv.length = 16)
    (p q : Piece) (hp : p.Fits) (hq : q.Fits) (k : Nat) :
    (output (palCipherEncryptCbc dm evp p.malloc p.text key iv p.io)).take (16 * k) =
        (output (palCipherEncryptCbc dm evp q.malloc q.text key iv q.io)).take (16 * k) ↔
      p.text.take (16 * k) = q.text.take (16 * k) := by
  have hout : ∀ {r : Piece}, r.Fits →
      output (palCipherEncryptCbc dm evp r.malloc r.text key iv r.io) = unblocks
        (Cbc.encrypt xorBlock (permFor evp block key) (toBlock iv) (textBlocks r.text)) :=
    fun hr => (output_cbc dm h.encrypt (fun E iv bs => Cbc.encrypt_length E iv bs)
      (encrypting_failed_ne evp) h.new hr hkey hiv).2
  rw [hout hp, hout hq, take_unblocks_iff, Cbc.encrypt_take_iff xorBlock_cancels,
    ← take_unblocks_iff, unblocks_textBlocks hp.aligned, unblocks_textBlocks hq.aligned]

/-- A second block that is encrypted to the same block as `aesTestText` before it: the
exclusive or of `aesTestText`, `aesTestIv` and `aesTestCipher`. -/
def aesRepeatedText : List UInt8 :=
  [0xf6, 0xa8, 0xd7, 0x87, 0xaa, 0xe1, 0x7e, 0xbc, 0xee, 0xf6, 0x6e, 0x91, 0xf7, 0x53, 0xec, 0x02]

/-- Two texts that begin with the same block. -/
theorem encrypt_prefix_iff_oneBlock :
    (output (palCipherEncryptCbc .ilp32 (modelEvp testBlockCipher) (fun _ => some fun _ => 0xcc)
      (aesTestText ++ aesTestText₂) aesTestKey aesTestIv (roomFor 32))).take 16 =
    (output (palCipherEncryptCbc .ilp32 (modelEvp testBlockCipher) (fun _ => some fun _ => 0xcc)
      (aesTestText ++ aesRepeatedText) aesTestKey aesTestIv (roomFor 32))).take 16 := by
  exact (encrypt_prefix_iff .ilp32 (modelEvp_implementsCbc testBlockCipher) aesTestKey aesTestIv
    (by decide) (by decide) (pieceOf (aesTestText ++ aesTestText₂))
    (pieceOf (aesTestText ++ aesRepeatedText)) (pieceOf_fits (by decide))
    (pieceOf_fits (by decide)) 1).mpr (by decide)

end CanbusAgent.PalCipher

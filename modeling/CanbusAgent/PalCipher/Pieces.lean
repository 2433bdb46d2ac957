import CanbusAgent.PalCipher.Inverse

/-!
# Texts in pieces

A call takes whole blocks, and fewer than `2 ^ 31` bytes.  A caller that passes the last
block of one call as the `iv` of the next one chains on, so a text of any number of blocks
can be encrypted in pieces.  The ciphertext does not show where the pieces ended: decryption
in other pieces gives the text back.
-/

namespace CanbusAgent.PalCipher

open Chunks Region

/-! ## Calls in turn -/

/-- What a call leaves in `out`. -/
def output (r : Int × CipherOut) : List UInt8 := slice r.2.out.bytes 0 r.2.outLen

/-- The last sixteen bytes. -/
def lastBlock (bs : List UInt8) : List UInt8 := bs.drop (bs.length - 16)

/-- A part of a text, with what the call for it meets. -/
structure Piece where
  text : List UInt8
  malloc : Nat → Option (Nat → UInt8)
  io : CipherOut

/-- The text of the pieces. -/
def textOf (ps : List Piece) : List UInt8 := ps.flatMap (·.text)

/-- A call for each piece, until one fails.  The next `iv` is the last block of the output or
of the input. -/
def callPieces (call : (Nat → Option (Nat → UInt8)) → List UInt8 → List UInt8 → List UInt8 →
      CipherOut → Int × CipherOut)
    (chainsOutput : Bool) (key : List UInt8) : List UInt8 → List Piece → Option (List UInt8)
  | _, [] => some []
  | iv, p :: ps => do
    let r := call p.malloc p.text key iv p.io
    if r.1 ≠ 0 then none
    else
      let chain := if chainsOutput then output r else p.text
      let rest ← callPieces call chainsOutput key (lastBlock chain) ps
      some (output r ++ rest)

def encryptPieces (dm : DataModel) (evp : Evp) (key iv : List UInt8) (ps : List Piece) :
    Option (List UInt8) :=
  callPieces (palCipherEncryptCbc dm evp) true key iv ps

def decryptPieces (dm : DataModel) (evp : Evp) (key iv : List UInt8) (ps : List Piece) :
    Option (List UInt8) :=
  callPieces (palCipherDecryptCbc dm evp) false key iv ps

/-- A piece that a call takes: whole blocks, and there is room for the output. -/
structure Piece.Fits (p : Piece) : Prop where
  ne : p.text.length ≠ 0
  aligned : p.text.length % 16 = 0
  lt : p.text.length < 2 ^ 31
  malloc : ∀ n, (p.malloc n).isSome = true
  room : p.text.length ≤ p.io.outLen

/-- The blocks of a text. -/
def textBlocks (bs : List UInt8) : List Block := blocks 16 (bs.length / 16) bs

variable {evp : Evp} {d : Direction evp} {block : evp.Cipher → List UInt8 → Equiv.Perm Block}
  {mode : Equiv.Perm Block → Block → List Block → List Block} {state : evp.Ctx → Option Keyed}

/-! ## One call -/

/-- A call for a piece returns 0 and leaves the chained blocks. -/
theorem output_cbc (dm : DataModel) (himpl : d.Implements block mode state)
    (hmode : ∀ E iv bs, (mode E iv bs).length = bs.length) (hd : d.failed ≠ 0)
    (hnew : evp.new.isSome = true) {p : Piece} (hp : p.Fits) {key iv : List UInt8}
    (hkey : key.length = 16 ∨ key.length = 32) (hiv : iv.length = 16) :
    (cbc dm d p.malloc p.text key iv p.io).1 = 0 ∧
      output (cbc dm d p.malloc p.text key iv p.io) =
        unblocks (mode (permFor evp block key) (toBlock iv) (textBlocks p.text)) := by
  have hparams : CbcParams p.text key iv := ⟨hp.aligned, hp.lt, hiv, hkey⟩
  have hlt : p.text.length < 2 ^ 32 := by
    have := hp.lt
    omega
  obtain ⟨hlen, hout⟩ := cbc_of_params dm himpl hmode hnew hp.malloc hp.ne hparams hp.room
  refine ⟨(cbc_ret_iff_params dm himpl hmode hd hnew hp.malloc key iv p.io hp.ne hlt).mpr
    ⟨hparams, hp.room⟩, ?_⟩
  rw [output, hlen, hout, chained, textBlocks]

/-! ## Blocks of a text -/

theorem textBlocks_append {as : List UInt8} (h : as.length % 16 = 0) (bs : List UInt8) :
    textBlocks (as ++ bs) = textBlocks as ++ textBlocks bs := by
  rw [textBlocks, List.length_append, show (as.length + bs.length) / 16 =
    as.length / 16 + bs.length / 16 by omega, blocks_append (by omega), textBlocks, textBlocks]

theorem textBlocks_unblocks (bs : List Block) : textBlocks (unblocks bs) = bs := by
  rw [textBlocks, unblocks_length, Nat.mul_div_cancel_left _ (by omega), blocks_unblocks]

theorem unblocks_textBlocks {bs : List UInt8} (h : bs.length % 16 = 0) :
    unblocks (textBlocks bs) = bs := unblocks_blocks (by omega)

theorem lastBlock_length {bs : List UInt8} (h : bs.length % 16 = 0) (hne : bs.length ≠ 0) :
    (lastBlock bs).length = 16 := by
  rw [lastBlock, List.length_drop]
  omega

/-- The last sixteen bytes are the last block. -/
theorem toBlock_lastBlock {bs : List UInt8} (h : bs.length % 16 = 0) (hne : bs.length ≠ 0)
    (iv : Block) : toBlock (lastBlock bs) = (textBlocks bs).getLastD iv := by
  have hsplit : bs = bs.take (bs.length - 16) ++ lastBlock bs := (List.take_append_drop _ bs).symm
  have hfront : (bs.take (bs.length - 16)).length % 16 = 0 := by
    rw [List.length_take]
    omega
  have hlast := lastBlock_length h hne
  have hone : textBlocks (lastBlock bs) = [toBlock (lastBlock bs)] := by
    rw [textBlocks, hlast]
    rfl
  have hall := textBlocks_append hfront (lastBlock bs)
  rw [← hsplit, hone] at hall
  rw [hall, List.getLastD_concat]

/-! ## All calls -/

/-- The calls for the pieces make what one pass over all blocks makes. -/
theorem callPieces_eq (dm : DataModel) (himpl : d.Implements block mode state)
    (hmode : ∀ E iv bs, (mode E iv bs).length = bs.length) (hd : d.failed ≠ 0)
    (hnew : evp.new.isSome = true) {chainsOutput : Bool}
    (happend : ∀ E iv as bs, mode E iv (as ++ bs) =
      mode E iv as ++ mode E ((if chainsOutput then mode E iv as else as).getLastD iv) bs)
    (hempty : ∀ E iv, mode E iv [] = [])
    {key : List UInt8} (hkey : key.length = 16 ∨ key.length = 32) {ps : List Piece}
    (hps : ∀ p ∈ ps, p.Fits) {iv : List UInt8} (hiv : iv.length = 16) :
    callPieces (cbc dm d) chainsOutput key iv ps =
      some (unblocks (mode (permFor evp block key) (toBlock iv) (textBlocks (textOf ps)))) := by
  induction ps generalizing iv with
  | nil =>
    show some [] = some (unblocks (mode _ _ []))
    rw [hempty]
    rfl
  | cons p ps ih =>
    obtain ⟨hp, hps⟩ := List.forall_mem_cons.mp hps
    obtain ⟨hret, hout⟩ := output_cbc dm himpl hmode hd hnew hp hkey hiv
    have houtlen : (output (cbc dm d p.malloc p.text key iv p.io)).length = p.text.length := by
      have haligned := hp.aligned
      rw [hout, unblocks_length, hmode, textBlocks, blocks_length]
      omega
    -- the block to chain with, as bytes and as a block
    set chain := if chainsOutput then output (cbc dm d p.malloc p.text key iv p.io) else p.text
      with hchain
    have hlen : chain.length = p.text.length := by
      rw [hchain]
      split_ifs
      · exact houtlen
      · rfl
    have haligned : chain.length % 16 = 0 := hlen ▸ hp.aligned
    have hne : chain.length ≠ 0 := hlen ▸ hp.ne
    have hblock : toBlock (lastBlock chain) =
        (if chainsOutput then mode (permFor evp block key) (toBlock iv) (textBlocks p.text)
          else textBlocks p.text).getLastD (toBlock iv) := by
      rw [toBlock_lastBlock haligned hne (toBlock iv), hchain]
      split_ifs
      · rw [hout, textBlocks_unblocks]
      · rfl
    have hnext := ih hps (lastBlock_length haligned hne)
    have htext : textOf (p :: ps) = p.text ++ textOf ps := List.flatMap_cons
    rw [callPieces, htext, textBlocks_append hp.aligned, happend, unblocks_append, ← hblock, ← hout]
    simp only [hret, ne_eq, not_true_eq_false, if_false]
    rw [← hchain, hnext]
    rfl

theorem textOf_aligned {ps : List Piece} (h : ∀ p ∈ ps, p.Fits) : (textOf ps).length % 16 = 0 := by
  induction ps with
  | nil => rfl
  | cons p ps ih =>
    obtain ⟨hp, hps⟩ := List.forall_mem_cons.mp h
    have htext : textOf (p :: ps) = p.text ++ textOf ps := List.flatMap_cons
    have haligned := hp.aligned
    have hrest := ih hps
    rw [htext, List.length_append]
    omega

variable {encryptState decryptState : evp.Ctx → Option Keyed}

theorem encryptPieces_eq (dm : DataModel) (h : evp.ImplementsCbc block encryptState decryptState)
    {key iv : List UInt8} (hkey : key.length = 16 ∨ key.length = 32) (hiv : iv.length = 16)
    {ps : List Piece} (hps : ∀ p ∈ ps, p.Fits) :
    encryptPieces dm evp key iv ps = some (unblocks
      (Cbc.encrypt xorBlock (permFor evp block key) (toBlock iv) (textBlocks (textOf ps)))) :=
  callPieces_eq dm h.encrypt (fun E iv bs => Cbc.encrypt_length E iv bs) (encrypting_failed_ne evp)
    h.new (fun E iv as bs => Cbc.encrypt_append E iv as bs) (fun _ _ => rfl) hkey hps hiv

theorem decryptPieces_eq (dm : DataModel) (h : evp.ImplementsCbc block encryptState decryptState)
    {key iv : List UInt8} (hkey : key.length = 16 ∨ key.length = 32) (hiv : iv.length = 16)
    {ps : List Piece} (hps : ∀ p ∈ ps, p.Fits) :
    decryptPieces dm evp key iv ps = some (unblocks
      (Cbc.decrypt xorBlock (permFor evp block key) (toBlock iv) (textBlocks (textOf ps)))) :=
  callPieces_eq dm h.decrypt (fun E iv bs => Cbc.decrypt_length E iv bs) (decrypting_failed_ne evp)
    h.new (fun E iv as bs => Cbc.decrypt_append E iv as bs) (fun _ _ => rfl) hkey hps hiv

/-- A text of any number of blocks can be encrypted in pieces of whole blocks.  The
ciphertext does not depend on where the pieces end, and decryption in any such pieces gives
the text back. -/
theorem pieces_inverse (dm : DataModel) (h : evp.ImplementsCbc block encryptState decryptState)
    (key iv : List UInt8) (hkey : key.length = 16 ∨ key.length = 32) (hiv : iv.length = 16)
    (ps : List Piece) (hps : ∀ p ∈ ps, p.Fits) :
    ∃ c, encryptPieces dm evp key iv ps = some c ∧ c.length = (textOf ps).length ∧
      (∀ qs : List Piece, (∀ q ∈ qs, q.Fits) → textOf qs = textOf ps →
        encryptPieces dm evp key iv qs = some c) ∧
      ∀ qs : List Piece, (∀ q ∈ qs, q.Fits) → textOf qs = c →
        decryptPieces dm evp key iv qs = some (textOf ps) := by
  have haligned := textOf_aligned hps
  refine ⟨_, encryptPieces_eq dm h hkey hiv hps, ?_, ?_, ?_⟩
  · rw [unblocks_length, Cbc.encrypt_length, textBlocks, blocks_length]
    omega
  · intro qs hqs htext
    rw [encryptPieces_eq dm h hkey hiv hqs, htext]
  · intro qs hqs htext
    rw [decryptPieces_eq dm h hkey hiv hqs, htext, textBlocks_unblocks,
      Cbc.decrypt_encrypt xorBlock_cancels, unblocks_textBlocks haligned]

/-- A piece with room for its output. -/
def pieceOf (text : List UInt8) : Piece :=
  { text, malloc := fun _ => some fun _ => 0xcc, io := roomFor text.length }

theorem pieceOf_fits {text : List UInt8} (h : text.length = 32) : (pieceOf text).Fits := by
  have htext : (pieceOf text).text.length = 32 := h
  exact ⟨by omega, by omega, by omega, fun _ => rfl, Nat.le_refl _⟩

/-- The two blocks of the test vector, encrypted one by one and decrypted at once. -/
theorem pieces_inverse_twoBlocks :
    encryptPieces .lp64 (modelEvp testBlockCipher) aesTestKey aesTestIv
        [pieceOf aesTestText, pieceOf aesTestText₂] = some (aesTestCipher ++ aesTestCipher₂) ∧
      decryptPieces .lp64 (modelEvp testBlockCipher) aesTestKey aesTestIv
        [pieceOf (aesTestCipher ++ aesTestCipher₂)] = some (aesTestText ++ aesTestText₂) := by
  have hfits : ∀ p ∈ [pieceOf aesTestText, pieceOf aesTestText₂], p.Fits := by
    refine List.forall_mem_cons.mpr ⟨?_, List.forall_mem_singleton.mpr ?_⟩
    · exact ⟨by decide, by decide, by decide, fun _ => rfl, by decide⟩
    · exact ⟨by decide, by decide, by decide, fun _ => rfl, by decide⟩
  have hcipher : encryptPieces .lp64 (modelEvp testBlockCipher) aesTestKey aesTestIv
      [pieceOf aesTestText, pieceOf aesTestText₂] = some (aesTestCipher ++ aesTestCipher₂) := by
    decide +kernel
  obtain ⟨c, hc, -, -, hback⟩ := pieces_inverse .lp64
    (modelEvp_implementsCbc testBlockCipher) aesTestKey aesTestIv (by decide) (by decide)
    [pieceOf aesTestText, pieceOf aesTestText₂] hfits
  obtain rfl : c = aesTestCipher ++ aesTestCipher₂ := Option.some.inj (hc.symm.trans hcipher)
  have hwhole : ∀ q ∈ [pieceOf (aesTestCipher ++ aesTestCipher₂)], q.Fits :=
    List.forall_mem_singleton.mpr (pieceOf_fits (by decide))
  exact ⟨hc, hback _ hwhole (List.append_nil _)⟩

end CanbusAgent.PalCipher

import CanbusAgent.Lib.Hex
import CanbusAgent.Lib.Region
import CanbusAgent.Platform

/-!
# `utils_convert_str_to_be`

The function decodes a string of hexadecimal digits, two for each byte, and stops
at the first pair that has another character in it.  `PairsDone` is the invariant
of its loop: the pairs before `c_len` are decoded in the buffer, and nothing else
was stored.
-/

namespace CanbusAgent.Utils

open Region

/-! ## The functions -/

/-- `utils_convert_char_to_nibble`.  The result is `*num` of a call that returns 0,
and `none` is a call that returns -1 and leaves `*num` alone. -/
def utilsConvertCharToNibble (inchar : UInt8) : Option UInt8 :=
  if '0'.toUInt8 ≤ inchar ∧ inchar ≤ '9'.toUInt8 then some (inchar - '0'.toUInt8)
  else if 'a'.toUInt8 ≤ inchar ∧ inchar ≤ 'f'.toUInt8 then some (inchar - 'a'.toUInt8 + 10)
  else if 'A'.toUInt8 ≤ inchar ∧ inchar ≤ 'F'.toUInt8 then some (inchar - 'A'.toUInt8 + 10)
  else none

/-- The return value, with the objects behind the arguments. -/
structure ConvertResult where
  ret : Int
  str : Region UInt8
  buf : Region UInt8

/-- The loop of `utils_convert_str_to_be`.  As `c_len` stays at or below
`ascii_len`, no computation in `size_t` wraps around. -/
def utilsConvertLoop (str buf : Region UInt8) (asciiLen cLen : Nat) : ConvertResult :=
  if cLen < asciiLen then
    let (upper, str) := str.loadAt cLen
    match utilsConvertCharToNibble upper with
    | none => ⟨-1, str, buf⟩
    | some upperNibble =>
      let (lower, str) := str.loadAt (cLen + 1)
      match utilsConvertCharToNibble lower with
      | none => ⟨-1, str, buf⟩
      | some lowerNibble =>
        utilsConvertLoop str (buf.store (cLen / 2) [upperNibble <<< 4 ||| lowerNibble])
          asciiLen (cLen + 2)
  else ⟨0, str, buf⟩
termination_by asciiLen - cLen

def utilsConvertStrToBe (str buf : Region UInt8) (asciiLen : Nat) : ConvertResult :=
  if asciiLen = 0 ∨ asciiLen % 2 = 1 then ⟨-1, str, buf⟩
  else utilsConvertLoop str buf asciiLen 0

/-! ## Digits -/

/-- The value of a byte that is the character of a digit, in either case. -/
def hexValue (b : UInt8) : Option Nat := Hex.digitValue (Char.ofUInt8 b)

/-- The conversion of one character is the value of the digit. -/
theorem utilsConvertCharToNibble_eq (inchar : UInt8) :
    (utilsConvertCharToNibble inchar).map (·.toNat) = hexValue inchar := by
  have hall : ∀ n < 256,
      (utilsConvertCharToNibble (UInt8.ofNat n)).map (·.toNat) = hexValue (UInt8.ofNat n) := by
    decide +kernel
  simpa using hall inchar.toNat inchar.toNat_lt

theorem convert_none {inchar : UInt8} (h : utilsConvertCharToNibble inchar = none) :
    hexValue inchar = none := by
  rw [← utilsConvertCharToNibble_eq, h]
  rfl

theorem convert_some {inchar nibble : UInt8} (h : utilsConvertCharToNibble inchar = some nibble) :
    hexValue inchar = some nibble.toNat := by
  rw [← utilsConvertCharToNibble_eq, h]
  rfl

theorem nibble_lt {inchar nibble : UInt8} (h : utilsConvertCharToNibble inchar = some nibble) :
    nibble.toNat < 16 :=
  Hex.digitValue_lt (convert_some h)

/-- `(upper_nibble << 4) | lower_nibble`. -/
theorem toNat_shift_or {upper lower : UInt8} (hupper : upper.toNat < 16)
    (hlower : lower.toNat < 16) :
    (upper <<< 4 ||| lower).toNat = 16 * upper.toNat + lower.toNat := by
  have hshift : (upper <<< 4).toNat = 2 ^ 4 * upper.toNat := by
    rw [UInt8.toNat_shiftLeft]
    show upper.toNat <<< 4 % 256 = 2 ^ 4 * upper.toNat
    rw [Nat.shiftLeft_eq]
    omega
  rw [UInt8.toNat_or, hshift, ← Nat.two_pow_add_eq_or_of_lt hlower]

/-! ## The loop -/

/-- The two characters of the pair with index `i` are digits. -/
def ValidPair (str : Nat → UInt8) (i : Nat) : Prop :=
  (hexValue (str (2 * i))).isSome ∧ (hexValue (str (2 * i + 1))).isSome

/-- The byte `b` is the decoding of the pair with index `i`. -/
def DecodesPair (str : Nat → UInt8) (i : Nat) (b : UInt8) : Prop :=
  ∃ x y, hexValue (str (2 * i)) = some x ∧ hexValue (str (2 * i + 1)) = some y ∧
    b.toNat = 16 * x + y

theorem DecodesPair.valid {str : Nat → UInt8} {i : Nat} {b : UInt8} (h : DecodesPair str i b) :
    ValidPair str i := by
  obtain ⟨x, y, hx, hy, _⟩ := h
  rw [ValidPair, hx, hy]
  exact ⟨rfl, rfl⟩

/-- The first `k` pairs of the string are decoded, no character from `n` on was
read, and nothing but the decodings was stored. -/
structure PairsDone (str buf : Nat → UInt8) (n k : Nat) (strAt bufAt : Region UInt8) : Prop where
  untouched : strAt.bytes = str
  decoded : ∀ i < k, DecodesPair str i (bufAt.bytes i)
  rest : ∀ i, k ≤ i → bufAt.bytes i = buf i
  loads : strAt.LoadsBelow n
  stores : bufAt.StoresBelow k

section

variable {str buf : Nat → UInt8} {n k : Nat} {strAt bufAt : Region UInt8}

/-- Reading a character below `n` changes nothing. -/
theorem PairsDone.load (h : PairsDone str buf n k strAt bufAt) {i : Nat} (hi : i < n) :
    PairsDone str buf n k (strAt.loadAt i).2 bufAt where
  untouched := h.untouched
  decoded := h.decoded
  rest := h.rest
  loads := loadsBelow_loadAt.mpr ⟨hi, h.loads⟩
  stores := h.stores

/-- The step lemma: the next byte. -/
theorem PairsDone.snoc (h : PairsDone str buf n k strAt bufAt) {b : UInt8}
    (hb : DecodesPair str k b) : PairsDone str buf n (k + 1) strAt (bufAt.store k [b]) where
  untouched := h.untouched
  decoded i hi := by
    rw [store_bytes]
    rcases Nat.lt_succ_iff_lt_or_eq.mp hi with hlt | rfl
    · rw [overlay_of_lt _ _ hlt]
      exact h.decoded i hlt
    · have hget := overlay_add bufAt.bytes i [b] (i := 0) (by simp)
      rw [Nat.add_zero] at hget
      rw [hget]
      exact hb
  rest i hi := by
    rw [store_bytes, overlay_of_ge _ _ (by simpa using hi)]
    exact h.rest i (by omega)
  loads := h.loads
  stores := storesBelow_store.mpr ⟨Or.inr (Nat.le_refl _), h.stores.mono (Nat.le_succ k)⟩

end

/-- What the loop guarantees when it returns: every pair is decoded, or those before
the first bad pair are. -/
def LoopPost (str buf : Nat → UInt8) (n k : Nat) (r : ConvertResult) : Prop :=
  PairsDone str buf n k r.str r.buf ∧
    (r.ret = 0 ∧ n = 2 * k ∨ r.ret = -1 ∧ 2 * k < n ∧ ¬ ValidPair str k)

/-- The run lemma, by induction on the number of pairs that are left. -/
theorem utilsConvertLoop_spec {str buf : Nat → UInt8} {n todo k : Nat} {strAt bufAt : Region UInt8}
    (hn : n = 2 * (k + todo)) (h : PairsDone str buf n k strAt bufAt) :
    ∃ j, LoopPost str buf n j (utilsConvertLoop strAt bufAt n (2 * k)) := by
  induction todo generalizing k strAt bufAt with
  | zero =>
    rw [utilsConvertLoop, if_neg (by omega)]
    exact ⟨k, h, Or.inl ⟨rfl, by omega⟩⟩
  | succ todo ih =>
    have hupper := h.load (i := 2 * k) (by omega)
    have hlower := hupper.load (i := 2 * k + 1) (by omega)
    rw [utilsConvertLoop, if_pos (by omega)]
    dsimp only
    rw [loadAt_fst, loadAt_fst, loadAt_bytes, h.untouched]
    cases hu : utilsConvertCharToNibble (str (2 * k)) with
    | none =>
      refine ⟨k, hupper, Or.inr ⟨rfl, by omega, fun hvalid => ?_⟩⟩
      rw [ValidPair, convert_none hu] at hvalid
      exact absurd hvalid.1 (by simp)
    | some upper =>
      cases hl : utilsConvertCharToNibble (str (2 * k + 1)) with
      | none =>
        refine ⟨k, hlower, Or.inr ⟨rfl, by omega, fun hvalid => ?_⟩⟩
        rw [ValidPair, convert_none hl] at hvalid
        exact absurd hvalid.2 (by simp)
      | some lower =>
        have hbyte : DecodesPair str k (upper <<< 4 ||| lower) :=
          ⟨upper.toNat, lower.toNat, convert_some hu, convert_some hl,
            toNat_shift_or (nibble_lt hu) (nibble_lt hl)⟩
        have hnext := ih (by omega) (hlower.snoc hbyte)
        have hk : 2 * k / 2 = k := by omega
        dsimp only
        rw [hk]
        exact hnext

/-! ## The result of a call -/

/-- How a call ends that decoded `k` pairs of a string of `n` characters. -/
inductive ConvertEnd (str : Nat → UInt8) (n k : Nat) : Int → Prop where
  | decoded (hn : n = 2 * k) (hk : k ≠ 0) : ConvertEnd str n k 0
  | badPair (heven : n % 2 = 0) (hk : 2 * k < n) (hbad : ¬ ValidPair str k) :
      ConvertEnd str n k (-1)
  | badLength (hn : n = 0 ∨ n % 2 = 1) (hk : k = 0) : ConvertEnd str n k (-1)

theorem utilsConvertStrToBe_spec (str buf : Nat → UInt8) (asciiLen : Nat) :
    ∃ k, PairsDone str buf asciiLen k (utilsConvertStrToBe (.fresh str) (.fresh buf) asciiLen).str
        (utilsConvertStrToBe (.fresh str) (.fresh buf) asciiLen).buf ∧
      ConvertEnd str asciiLen k (utilsConvertStrToBe (.fresh str) (.fresh buf) asciiLen).ret := by
  have hstart : PairsDone str buf asciiLen 0 (.fresh str) (.fresh buf) :=
    ⟨rfl, by simp, fun _ _ => rfl, by simp [fresh, LoadsBelow], by simp [fresh, StoresBelow]⟩
  unfold utilsConvertStrToBe
  split_ifs with hlen
  · exact ⟨0, hstart, .badLength hlen rfl⟩
  · have hpairs : asciiLen = 2 * (0 + asciiLen / 2) := by omega
    obtain ⟨k, hdone, hend⟩ := utilsConvertLoop_spec hpairs hstart
    refine ⟨k, hdone, ?_⟩
    rcases hend with ⟨hret, hn⟩ | ⟨hret, hk, hbad⟩
    · rw [hret]
      exact .decoded hn (by omega)
    · rw [hret]
      exact .badPair (by omega) hk hbad

/-- The pairs of a string are valid when its characters are digits. -/
theorem forall_isSome_iff {str : Nat → UInt8} {k : Nat} :
    (∀ i < 2 * k, (hexValue (str i)).isSome) ↔ ∀ i < k, ValidPair str i := by
  constructor
  · intro h i hi
    exact ⟨h (2 * i) (by omega), h (2 * i + 1) (by omega)⟩
  · intro h i hi
    have hpair := h (i / 2) (by omega)
    rcases Nat.mod_two_eq_zero_or_one i with heven | hodd
    · have hi : 2 * (i / 2) = i := by omega
      exact hi ▸ hpair.1
    · have hi : 2 * (i / 2) + 1 = i := by omega
      exact hi ▸ hpair.2

/-- A call returns 0 for the non-empty strings of pairs of digits. -/
theorem ConvertEnd.ret_iff {str : Nat → UInt8} {n k : Nat} {ret : Int}
    (h : ConvertEnd str n k ret) (hvalid : ∀ i < k, ValidPair str i) :
    ret = 0 ↔ n % 2 = 0 ∧ n ≠ 0 ∧ ∀ i < n, (hexValue (str i)).isSome := by
  cases h with
  | decoded hn hk =>
    refine iff_of_true rfl ⟨by omega, by omega, ?_⟩
    rw [hn]
    exact forall_isSome_iff.mpr hvalid
  | badPair heven hk hbad =>
    refine iff_of_false (by omega) ?_
    intro ⟨_, _, hall⟩
    exact hbad ⟨hall (2 * k) hk, hall (2 * k + 1) (by omega)⟩
  | badLength hn =>
    refine iff_of_false (by omega) ?_
    omega

/-- The string is a hexadecimal encoding of the bytes, in any mix of cases. -/
def Encodes (str : Nat → UInt8) (bs : List UInt8) : Prop :=
  ∀ i (hi : i < bs.length), hexValue (str (2 * i)) = some (bs[i].toNat / 16) ∧
    hexValue (str (2 * i + 1)) = some (bs[i].toNat % 16)

theorem Encodes.valid {str : Nat → UInt8} {bs : List UInt8} (h : Encodes str bs) :
    ∀ i < bs.length, ValidPair str i := by
  intro i hi
  obtain ⟨hupper, hlower⟩ := h i hi
  rw [ValidPair, hupper, hlower]
  exact ⟨rfl, rfl⟩

/-- The decoding of an encoding is what was encoded. -/
theorem DecodesPair.unique {str : Nat → UInt8} {bs : List UInt8} (h : Encodes str bs) {i : Nat}
    (hi : i < bs.length) {b : UInt8} (hb : DecodesPair str i b) : b = bs[i] := by
  obtain ⟨hupper, hlower⟩ := h i hi
  obtain ⟨x, y, hx, hy, hvalue⟩ := hb
  rw [hupper] at hx
  rw [hlower] at hy
  have hxv := Option.some_inj.mp hx
  have hyv := Option.some_inj.mp hy
  apply UInt8.toNat_inj.mp
  omega

/-- The result `r` is that of decoding the first `n` characters of the string.  `k` in
`stored` is the number of pairs that were decoded. -/
structure IsDecoding (str buf : Nat → UInt8) (n : Nat) (r : ConvertResult) : Prop where
  accepts : r.ret = 0 ↔ n % 2 = 0 ∧ n ≠ 0 ∧ ∀ i < n, (hexValue (str i)).isSome
  stored : ∃ k, (∀ i < k, DecodesPair str i (r.buf.bytes i)) ∧
    (∀ i, k ≤ i → r.buf.bytes i = buf i) ∧ r.buf.StoresBelow k ∧
    (r.ret = 0 ∧ n = 2 * k ∨
      r.ret = -1 ∧ n % 2 = 0 ∧ 2 * k < n ∧ ¬ ValidPair str k ∨
      r.ret = -1 ∧ (n = 0 ∨ n % 2 = 1) ∧ k = 0)
  inverse : ∀ bs, bs ≠ [] → n = 2 * bs.length → Encodes str bs →
    r.ret = 0 ∧ slice r.buf.bytes 0 bs.length = bs
  loads : r.str.LoadsBelow n
  stores : r.buf.StoresBelow (n / 2)

/-- `utils_convert_str_to_be` accepts exactly the non-empty strings of pairs of digits
and decodes them. -/
theorem utilsConvertStrToBe_decodes (str buf : Nat → UInt8) (asciiLen : Nat) :
    IsDecoding str buf asciiLen
      (utilsConvertStrToBe (.fresh str) (.fresh buf) asciiLen) := by
  obtain ⟨k, hdone, hend⟩ := utilsConvertStrToBe_spec str buf asciiLen
  have hret := hend.ret_iff fun i hi => (hdone.decoded i hi).valid
  generalize utilsConvertStrToBe (.fresh str) (.fresh buf) asciiLen = r at hdone hend hret ⊢
  have hcases : r.ret = 0 ∧ asciiLen = 2 * k ∨
      r.ret = -1 ∧ asciiLen % 2 = 0 ∧ 2 * k < asciiLen ∧ ¬ ValidPair str k ∨
      r.ret = -1 ∧ (asciiLen = 0 ∨ asciiLen % 2 = 1) ∧ k = 0 := by
    generalize r.ret = ret at hend ⊢
    cases hend with
    | decoded hn => exact Or.inl ⟨rfl, hn⟩
    | badPair heven hk hbad => exact Or.inr (Or.inl ⟨rfl, heven, hk, hbad⟩)
    | badLength hn hk => exact Or.inr (Or.inr ⟨rfl, hn, hk⟩)
  have hle : k ≤ asciiLen / 2 := by omega
  refine ⟨hret, ⟨k, hdone.decoded, hdone.rest, hdone.stores, hcases⟩, ?_, hdone.loads,
    hdone.stores.mono hle⟩
  intro bs hbs hlen hencodes
  have hpos := List.length_pos_iff.mpr hbs
  have hzero : r.ret = 0 := by
    rw [hret, hlen]
    exact ⟨by omega, by omega, forall_isSome_iff.mpr hencodes.valid⟩
  have hk : k = bs.length := by omega
  refine ⟨hzero, ?_⟩
  apply List.ext_getElem
  · rw [slice_length]
  · intro i _ hi
    rw [slice_getElem, Nat.zero_add]
    exact DecodesPair.unique hencodes hi (hdone.decoded i (by omega))

end CanbusAgent.Utils

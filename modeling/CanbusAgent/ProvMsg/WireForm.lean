import Mathlib.Data.List.GetD
import CanbusAgent.ProvMsg.Model

/-!
# What the wire form depends on

`PROV_MSG_HEADER_LEN` takes the size of a `uint32_t` off the struct, in the place of
the pointer at its end.  With 4-byte pointers nothing but the fields is copied.
With 8-byte pointers the header also shows four padding bytes and the low half of
the address that `malloc` returned, and it is eight bytes longer, so the two data
models look for the payload at different offsets.

`wire_form_iff` says exactly when two runs give the same bytes, and when one data
model finds the payload that the other packed.
-/

namespace CanbusAgent.ProvMsg

open LittleEndian Region

/-! ## The bytes behind the fields -/

/-- The bytes of the header behind the fields: the padding and the part of the
pointer that is copied. -/
def hiddenBytes (dm : DataModel) (stack : Nat → UInt8) (addr : Nat) : List UInt8 :=
  slice stack 36 (payloadBufOffset dm - 36) ++ (leBytes dm.ptrSize addr).take (dm.ptrSize - 4)

@[simp] theorem hiddenBytes_length (dm : DataModel) (stack : Nat → UInt8) (addr : Nat) :
    (hiddenBytes dm stack addr).length = PROV_MSG_HEADER_LEN dm - 36 := by
  cases dm <;> simp [hiddenBytes, payloadBufOffset, DataModel.ptrSize]

theorem packedBytes_eq (dm : DataModel) (stack : Nat → UInt8) (crypto crc : UInt32) (addr : Nat)
    (payload : List UInt8) :
    packedBytes dm stack crypto crc addr payload =
      (packMsg crypto crc payload.length 0).fields ++ hiddenBytes dm stack addr ++ payload := by
  have htail : (slice stack 36 (payloadBufOffset dm - 36) ++ leBytes dm.ptrSize addr).take
      (PROV_MSG_HEADER_LEN dm - 36) = hiddenBytes dm stack addr := by
    cases dm with
    | ilp32 => rfl
    | lp64 =>
      rw [List.take_append]
      rfl
  rw [packedBytes, ReqMsg.header_eq]
  congr 2

/-- A call of `prov_msg_pack_req` on the first `n` bytes of `m`. -/
def packOn (dm : DataModel) (env : PackEnv) (crypto crc : UInt32) (m : Nat → UInt8) (n : Nat) :
    Int × MsgArgs :=
  provMsgPackReq dm env crypto crc { payload := fresh m, ioLen := n }

/-- The bytes `buffer[0 .. *io_len - 1]` of the packed message. -/
def wireForm (dm : DataModel) (env : PackEnv) (crypto crc : UInt32) (m : Nat → UInt8) (n : Nat) :
    List UInt8 :=
  slice (packOn dm env crypto crc m n).2.payload.bytes 0 (packOn dm env crypto crc m n).2.ioLen

theorem wireForm_eq (dm : DataModel) {env : PackEnv} {addr : Nat} (hmalloc : env.malloc = some addr)
    (crypto crc : UInt32) (m : Nat → UInt8) {n : Nat} (hn : 0 < n) (hmax : n < 2 ^ 31) :
    wireForm dm env crypto crc m n =
      packedBytes dm env.stack crypto crc addr (slice m 0 n) := by
  obtain ⟨_, hlen, hbytes⟩ := provMsgPackReq_eq dm crypto crc
    { payload := fresh m, ioLen := n } (show n ≠ 0 by omega) hmalloc
  have hlen : (packOn dm env crypto crc m n).2.ioLen = PROV_MSG_HEADER_LEN dm + n := by
    apply hlen.trans
    show dm.toSize (n % 2 ^ 32 + PROV_MSG_HEADER_LEN dm) = PROV_MSG_HEADER_LEN dm + n
    rw [Nat.mod_eq_of_lt (by omega), DataModel.toSize_of_lt, Nat.add_comm]
    cases dm <;> simp <;> omega
  have hbytes : (packOn dm env crypto crc m n).2.payload.bytes =
      overlay m 0 (packedBytes dm env.stack crypto crc addr (slice m 0 n)) := hbytes
  rw [wireForm, hlen, hbytes]
  exact slice_overlay_of_length _ _ (by simp)

/-- Two runs hide the same bytes in the header.  On the 32-bit target there are none. -/
def SameHidden (dm : DataModel) (stack stack' : Nat → UInt8) (addr addr' : Nat) : Prop :=
  slice stack 36 (payloadBufOffset dm - 36) = slice stack' 36 (payloadBufOffset dm - 36) ∧
    (leBytes dm.ptrSize addr).take (dm.ptrSize - 4) =
      (leBytes dm.ptrSize addr').take (dm.ptrSize - 4)

theorem sameHidden_ilp32 (stack stack' : Nat → UInt8) (addr addr' : Nat) :
    SameHidden .ilp32 stack stack' addr addr' := ⟨rfl, rfl⟩

theorem wireForm_eq_iff (dm : DataModel) {env env' : PackEnv} {addr addr' : Nat}
    (hmalloc : env.malloc = some addr) (hmalloc' : env'.malloc = some addr') (crypto crc : UInt32)
    (m : Nat → UInt8) {n : Nat} (hn : 0 < n) (hmax : n < 2 ^ 31) :
    wireForm dm env crypto crc m n = wireForm dm env' crypto crc m n ↔
      SameHidden dm env.stack env'.stack addr addr' := by
  rw [wireForm_eq dm hmalloc crypto crc m hn hmax, wireForm_eq dm hmalloc' crypto crc m hn hmax,
    packedBytes_eq, packedBytes_eq, List.append_cancel_right_eq, List.append_cancel_left_eq]
  unfold hiddenBytes SameHidden
  constructor
  · exact fun h => List.append_inj h (by simp)
  · intro ⟨hpad, hptr⟩
    rw [hpad, hptr]

/-! ## The other data model -/

/-- A message that was received: the buffer `w` holds its bytes. -/
def Received (dm : DataModel) (env : PackEnv) (crypto crc : UInt32) (m : Nat → UInt8) (n : Nat)
    (w : Nat → UInt8) : Prop :=
  ∀ i (hi : i < (wireForm dm env crypto crc m n).length), w i = (wireForm dm env crypto crc m n)[i]

/-- The sender's own buffer holds them. -/
theorem received_packOn (dm : DataModel) (env : PackEnv) (crypto crc : UInt32) (m : Nat → UInt8)
    (n : Nat) :
    Received dm env crypto crc m n (packOn dm env crypto crc m n).2.payload.bytes := by
  intro i hi
  have hget := slice_getElem (packOn dm env crypto crc m n).2.payload.bytes 0 _ hi
  rw [Nat.zero_add] at hget
  exact hget.symm

/-- A call of `prov_msg_depack_req` on `l` received bytes. -/
def depackOn (dm : DataModel) (w : Nat → UInt8) (l : Nat) (crypto crc : UInt32) :
    Int × DepackArgs :=
  provMsgDepackReq dm { payload := fresh w, ioLen := l, crypto, crc }

/-- The call gives back what was packed. -/
def GivesBack (crypto crc : UInt32) (m : Nat → UInt8) (n : Nat) (d : Int × DepackArgs) : Prop :=
  d.1 = 0 ∧ d.2.crypto = crypto ∧ d.2.crc = crc ∧ d.2.ioLen = n ∧
    slice d.2.payload.bytes 0 n = slice m 0 n

/-- What the data model `dm'` takes for byte `i` of a payload that `dm` packed.  A
64-bit receiver starts eight bytes too late and runs over the end of the message, a
32-bit one starts with the padding and the pointer. -/
def foundAt (dm dm' : DataModel) (stack : Nat → UInt8) (addr : Nat) (m : Nat → UInt8) (n : Nat)
    (w : Nat → UInt8) (i : Nat) : UInt8 :=
  match dm, dm' with
  | .ilp32, .lp64 => if i + 8 < n then m (i + 8) else w (i + 44)
  | .lp64, .ilp32 =>
    if i < 4 then stack (36 + i) else if i < 8 then (leBytes 8 addr).getD (i - 4) 0 else m (i - 8)
  | .ilp32, .ilp32 => m i
  | .lp64, .lp64 => m i

/-- The parts of a received message. -/
theorem Received.slices {dm : DataModel} {env : PackEnv} {addr : Nat} {crypto crc : UInt32}
    {m w : Nat → UInt8} {n : Nat} (h : Received dm env crypto crc m n w)
    (hmalloc : env.malloc = some addr) (hn : 0 < n) (hmax : n < 2 ^ 31) :
    slice w 0 36 = (packMsg crypto crc n 0).fields ∧
      slice w 36 (PROV_MSG_HEADER_LEN dm - 36) = hiddenBytes dm env.stack addr ∧
      slice w (PROV_MSG_HEADER_LEN dm) n = slice m 0 n := by
  have hwire : wireForm dm env crypto crc m n =
      (packMsg crypto crc n 0).fields ++ hiddenBytes dm env.stack addr ++ slice m 0 n := by
    rw [wireForm_eq dm hmalloc crypto crc m hn hmax, packedBytes_eq, slice_length]
  have hlen : (wireForm dm env crypto crc m n).length = 36 + (PROV_MSG_HEADER_LEN dm - 36) + n := by
    rw [hwire, List.length_append, List.length_append, ReqMsg.fields_length, hiddenBytes_length,
      slice_length]
  have hall : slice w 0 (36 + (PROV_MSG_HEADER_LEN dm - 36) + n) =
      wireForm dm env crypto crc m n := by
    apply List.ext_getElem
    · rw [slice_length, hlen]
    · intro i hi hi'
      rw [slice_getElem, Nat.zero_add]
      exact h i hi'
  rw [hwire, slice_add, slice_add, Nat.zero_add, Nat.zero_add] at hall
  obtain ⟨hhead, hpayload⟩ := List.append_inj hall (by simp)
  obtain ⟨hfields, hhidden⟩ := List.append_inj hhead (by simp)
  have hheader : 36 + (PROV_MSG_HEADER_LEN dm - 36) = PROV_MSG_HEADER_LEN dm :=
    Nat.add_sub_cancel' (headerLen_ge dm)
  rw [hheader] at hpayload
  exact ⟨hfields, hhidden, hpayload⟩

/-- Both data models find the fields in the first 36 bytes. -/
theorem headerAt_of_fields (dm : DataModel) {w : Nat → UInt8} {crypto crc : UInt32} {n : Nat}
    (h : slice w 0 36 = (packMsg crypto crc n 0).fields) :
    (headerAt dm w).magic = PROV_MSG_MAGIC ∧ (headerAt dm w).version = PROV_MSG_VERSION 1 ∧
      (headerAt dm w).crypto = crypto ∧ (headerAt dm w).crc = crc ∧
      (headerAt dm w).payloadLen.toNat = n % 2 ^ 32 := by
  have hsplit : slice w 0 (PROV_MSG_HEADER_LEN dm) =
      (packMsg crypto crc n 0).fields ++ slice w 36 (PROV_MSG_HEADER_LEN dm - 36) := by
    rw [← h, ← Nat.zero_add 36, ← slice_add, Nat.zero_add,
      Nat.add_sub_cancel' (headerLen_ge dm)]
  rw [headerAt, hsplit, ReqMsg.ofHeader_append]
  exact ⟨rfl, rfl, rfl, rfl, UInt32.toNat_ofNat'⟩

theorem slice_foundAt {dm : DataModel} {env : PackEnv} {addr : Nat} {crypto crc : UInt32}
    {m w : Nat → UInt8} {n : Nat} (h : Received dm env crypto crc m n w)
    (hmalloc : env.malloc = some addr) (hn : 0 < n) (hmax : n < 2 ^ 31) (dm' : DataModel) :
    slice w (PROV_MSG_HEADER_LEN dm') n = slice (foundAt dm dm' env.stack addr m n w) 0 n := by
  obtain ⟨_, hhidden, hpayload⟩ := h.slices hmalloc hn hmax
  have hbyte : ∀ i, i < n → w (PROV_MSG_HEADER_LEN dm + i) = m i := by
    intro i hi
    rw [slice_eq_iff.mp hpayload i hi, Nat.zero_add]
  apply slice_congr
  intro i hi
  rw [Nat.zero_add]
  cases dm with
  | ilp32 =>
    cases dm' with
    | ilp32 => exact hbyte i hi
    | lp64 =>
      show w (44 + i) = if i + 8 < n then m (i + 8) else w (i + 44)
      split
      · next hin =>
        rw [← hbyte (i + 8) hin, headerLen_ilp32]
        congr 1
        omega
      · rw [Nat.add_comm]
  | lp64 =>
    cases dm' with
    | lp64 => exact hbyte i hi
    | ilp32 =>
      show w (36 + i) = if i < 4 then env.stack (36 + i) else
        if i < 8 then (leBytes 8 addr).getD (i - 4) 0 else m (i - 8)
      have hhidden : slice w 36 8 = slice env.stack 36 4 ++ (leBytes 8 addr).take 4 := hhidden
      rw [show 8 = 4 + 4 from rfl, slice_add] at hhidden
      obtain ⟨hpad, hptr⟩ := List.append_inj hhidden (by simp)
      by_cases h4 : i < 4
      · rw [if_pos h4]
        exact slice_eq_iff.mp hpad i h4
      rw [if_neg h4]
      by_cases h8 : i < 8
      · have hlt : i - 4 < 4 := by omega
        have hget := congrArg (fun l : List UInt8 => l[i - 4]?) hptr
        rw [if_pos h8, List.getD_eq_getElem _ _ (by rw [leBytes_length]; omega)]
        simpa [slice, hlt, show i - 4 < 8 by omega, show 40 + (i - 4) = 36 + i by omega] using hget
      · rw [if_neg h8, ← hbyte (i - 8) (by omega), headerLen_lp64]
        congr 1
        omega

/-- The other end reads the fields in every case, and the payload exactly when the
bytes that it finds are those of the payload. -/
theorem depackOn_iff {dm : DataModel} {env : PackEnv} {addr : Nat} {crypto crc : UInt32}
    {m w : Nat → UInt8} {n : Nat} (h : Received dm env crypto crc m n w)
    (hmalloc : env.malloc = some addr) (hn : 0 < n) (hmax : n < 2 ^ 31) (dm' : DataModel)
    (crypto₀ crc₀ : UInt32) :
    GivesBack crypto crc m n
        (depackOn dm' w (wireForm dm env crypto crc m n).length crypto₀ crc₀) ↔
      ∀ i < n, foundAt dm dm' env.stack addr m n w i = m i := by
  obtain ⟨hfields, _, _⟩ := h.slices hmalloc hn hmax
  obtain ⟨hmagic, hversion, hcrypto, hcrc, hpl⟩ := headerAt_of_fields dm' hfields
  have hlen : (wireForm dm env crypto crc m n).length = PROV_MSG_HEADER_LEN dm + n := by
    rw [wireForm_eq dm hmalloc crypto crc m hn hmax, packedBytes_length, slice_length]
  rw [Nat.mod_eq_of_lt (by omega)] at hpl
  have hacc : Accepts dm' w (wireForm dm env crypto crc m n).length := by
    refine ⟨hmagic, hversion, ?_⟩
    rw [hpl, hlen]
    omega
  have hdepack := provMsgDepackReq_of_accepts dm'
    { payload := fresh w, ioLen := (wireForm dm env crypto crc m n).length,
      crypto := crypto₀, crc := crc₀ }
    (show (wireForm dm env crypto crc m n).length ≠ 0 by omega) hacc
  have hpayload : slice (depackOn dm' w (wireForm dm env crypto crc m n).length crypto₀
      crc₀).2.payload.bytes 0 n = slice (foundAt dm dm' env.stack addr m n w) 0 n := by
    rw [depackOn, hdepack, ← slice_foundAt h hmalloc hn hmax]
    show slice (overlay w 0 (slice w _ (headerAt dm' w).payloadLen.toNat)) 0 n = _
    rw [hpl]
    exact slice_overlay_of_length _ _ (slice_length _ _ _)
  have hbytes : slice (foundAt dm dm' env.stack addr m n w) 0 n = slice m 0 n ↔
      ∀ i < n, foundAt dm dm' env.stack addr m n w i = m i := by
    simp only [slice_eq_iff, Nat.zero_add]
  unfold GivesBack
  rw [hpayload, hbytes]
  constructor
  · intro ⟨_, _, _, _, hsame⟩
    exact hsame
  · intro hsame
    rw [depackOn, hdepack]
    exact ⟨rfl, hcrypto, hcrc, hpl, hsame⟩

/-- When the wire form depends on the content only.  Two runs give the same bytes
exactly when they hide the same bytes in the header, and a data model finds the
payload that the other packed exactly when the bytes at its own offset are the same. -/
theorem wire_form_iff (crypto crc : UInt32) (m : Nat → UInt8) {n : Nat} (hn : 0 < n)
    (hmax : n < 2 ^ 31) :
    (∀ (dm : DataModel) (env env' : PackEnv) (addr addr' : Nat), env.malloc = some addr →
      env'.malloc = some addr' →
      (wireForm dm env crypto crc m n = wireForm dm env' crypto crc m n ↔
        SameHidden dm env.stack env'.stack addr addr')) ∧
    (∀ (dm dm' : DataModel) (env : PackEnv) (addr : Nat) (w : Nat → UInt8) (crypto₀ crc₀ : UInt32),
      env.malloc = some addr → Received dm env crypto crc m n w →
      (GivesBack crypto crc m n
          (depackOn dm' w (wireForm dm env crypto crc m n).length crypto₀ crc₀) ↔
        ∀ i < n, foundAt dm dm' env.stack addr m n w i = m i)) :=
  ⟨fun dm _ _ _ _ hmalloc hmalloc' => wireForm_eq_iff dm hmalloc hmalloc' crypto crc m hn hmax,
    fun _ dm' _ _ _ crypto₀ crc₀ hmalloc h => depackOn_iff h hmalloc hn hmax dm' crypto₀ crc₀⟩

/-- Two runs on the 32-bit target with different addresses and stacks, and a message
that stays on its data model. -/
theorem wire_form_iff_threeBytes :
    wireForm .ilp32 ⟨some 0x1000, fun _ => 0xcc⟩ 1 0x6878f43a (fun i => UInt8.ofNat i) 3 =
        wireForm .ilp32 ⟨some 0x2000, fun _ => 0xdd⟩ 1 0x6878f43a (fun i => UInt8.ofNat i) 3 ∧
      GivesBack 1 0x6878f43a (fun i => UInt8.ofNat i) 3
        (depackOn .lp64
          (packOn .lp64 ⟨some 0x1000, fun _ => 0xcc⟩ 1 0x6878f43a (fun i => UInt8.ofNat i)
            3).2.payload.bytes
          (wireForm .lp64 ⟨some 0x1000, fun _ => 0xcc⟩ 1 0x6878f43a (fun i => UInt8.ofNat i)
            3).length 0 0) := by
  have h := wire_form_iff 1 0x6878f43a (fun i => UInt8.ofNat i) (n := 3) (by omega) (by omega)
  constructor
  · exact (h.1 .ilp32 _ _ 0x1000 0x2000 rfl rfl).mpr (sameHidden_ilp32 _ _ _ _)
  · exact (h.2 .lp64 .lp64 _ 0x1000 _ 0 0 rfl (received_packOn _ _ _ _ _ _)).mpr fun _ _ => rfl

/-- With 8-byte pointers the address of the temporary is on the wire, and the 32-bit
target takes the first padding byte for the payload. -/
theorem wire_form_shows_address :
    wireForm .lp64 ⟨some 0x1000, fun _ => 0xcc⟩ 0 0 (fun _ => 0x55) 1 ≠
        wireForm .lp64 ⟨some 0x2000, fun _ => 0xcc⟩ 0 0 (fun _ => 0x55) 1 ∧
      ¬ GivesBack 0 0 (fun _ => 0x55) 1
        (depackOn .ilp32
          (packOn .lp64 ⟨some 0x1000, fun _ => 0xcc⟩ 0 0 (fun _ => 0x55) 1).2.payload.bytes
          (wireForm .lp64 ⟨some 0x1000, fun _ => 0xcc⟩ 0 0 (fun _ => 0x55) 1).length 0 0) := by
  constructor
  · decide
  · intro ⟨_, _, _, _, hpayload⟩
    exact absurd hpayload (by decide)

end CanbusAgent.ProvMsg

import CanbusAgent.Lib.LittleEndian
import CanbusAgent.Lib.Region
import CanbusAgent.Platform

/-!
# The request header on the wire

`prov_msg.h` does not serialise the header field by field.  It copies a prefix
of the struct `RPOV_REQ_MSG_T`, cut four bytes before the end of the struct.
So the wire format is the memory image of the struct, and this module has the
layout that the C compiler gives it.

The nine fields up to `payload_len` fill 36 bytes without padding.  They are
`ReqMsg.fields`.  The pointer `payload_buf` comes last.  With 4-byte pointers
it starts at offset 36 and `PROV_MSG_HEADER_LEN` cuts it off entirely.  With
8-byte pointers it starts at offset 40, because `aligned(4)` raises an
alignment and never lowers one, and the header ends with four padding bytes
and the low half of the pointer.

`ReqMsg.ofHeader` reads the struct back from the header bytes.  The lemmas say
that it reads back what `ReqMsg.header` wrote (`ofHeader_header`), and that
the fields of any 36 bytes write these bytes again (`fields_ofHeader`).
-/

namespace CanbusAgent.ProvMsg

open LittleEndian Region

def PROV_MSG_MAGIC : UInt32 := 0x5052544c
def PROV_MSG_VERSION (x : UInt32) : UInt32 := x

/-- `RPOV_REQ_MSG_T`. -/
structure ReqMsg where
  magic : UInt32
  version : UInt32
  crypto : UInt32
  res : Fin 4 → UInt32
  crc : UInt32
  payloadLen : UInt32
  /-- The value of the pointer `payload_buf`. -/
  payloadBuf : Nat

/-- The offset of `payload_buf`: 36, rounded up to the alignment of a pointer. -/
def payloadBufOffset (dm : DataModel) : Nat :=
  match dm with
  | .ilp32 => 36
  | .lp64 => 40

/-- `sizeof (RPOV_REQ_MSG_T)`. -/
def reqMsgSize (dm : DataModel) : Nat := payloadBufOffset dm + dm.ptrSize

/-- `PROV_MSG_HEADER_LEN`, which is `sizeof (RPOV_REQ_MSG_T) - sizeof (uint32_t)`. -/
def PROV_MSG_HEADER_LEN (dm : DataModel) : Nat := reqMsgSize dm - 4

@[simp] theorem headerLen_ilp32 : PROV_MSG_HEADER_LEN .ilp32 = 36 := rfl
@[simp] theorem headerLen_lp64 : PROV_MSG_HEADER_LEN .lp64 = 44 := rfl

theorem headerLen_ge (dm : DataModel) : 36 ≤ PROV_MSG_HEADER_LEN dm := by
  cases dm <;> decide

namespace ReqMsg

/-- The bytes of the fields before `payload_buf`. -/
def fields (msg : ReqMsg) : List UInt8 :=
  u32Bytes msg.magic ++ u32Bytes msg.version ++ u32Bytes msg.crypto ++
    (u32Bytes (msg.res 0) ++ u32Bytes (msg.res 1) ++ u32Bytes (msg.res 2) ++
      u32Bytes (msg.res 3)) ++
    u32Bytes msg.crc ++ u32Bytes msg.payloadLen

/-- The memory image of the struct.  `stack` is what its memory held before the
fields were assigned, which the padding bytes still hold. -/
def image (dm : DataModel) (stack : Nat → UInt8) (msg : ReqMsg) : List UInt8 :=
  msg.fields ++ slice stack 36 (payloadBufOffset dm - 36) ++ leBytes dm.ptrSize msg.payloadBuf

/-- The first `PROV_MSG_HEADER_LEN` bytes of the image. -/
def header (dm : DataModel) (stack : Nat → UInt8) (msg : ReqMsg) : List UInt8 :=
  (msg.image dm stack).take (PROV_MSG_HEADER_LEN dm)

/-- The 32-bit word at an offset of a byte list. -/
def word (bs : List UInt8) (off : Nat) : UInt32 := u32OfBytes ((bs.drop off).take 4)

/-- The struct after its memory was cleared and `bs` was copied to its start.
The part of the pointer that `bs` does not reach stays zero. -/
def ofHeader (dm : DataModel) (bs : List UInt8) : ReqMsg where
  magic := word bs 0
  version := word bs 4
  crypto := word bs 8
  res i := word bs (12 + 4 * i.val)
  crc := word bs 28
  payloadLen := word bs 32
  payloadBuf := leNat (bs.drop (payloadBufOffset dm))

@[simp] theorem fields_length (msg : ReqMsg) : msg.fields.length = 36 := rfl

/-- The header is the fields and a tail that the fields do not determine.  On
the 32-bit target the tail is empty. -/
theorem header_eq (dm : DataModel) (stack : Nat → UInt8) (msg : ReqMsg) :
    msg.header dm stack = msg.fields ++
      (slice stack 36 (payloadBufOffset dm - 36) ++ leBytes dm.ptrSize msg.payloadBuf).take
        (PROV_MSG_HEADER_LEN dm - 36) := by
  have hle : msg.fields.length ≤ PROV_MSG_HEADER_LEN dm := headerLen_ge dm
  rw [header, image, List.append_assoc, List.take_append, List.take_of_length_le hle,
    fields_length]

theorem header_ilp32 (stack : Nat → UInt8) (msg : ReqMsg) :
    msg.header .ilp32 stack = msg.fields := by
  simp [header_eq]

@[simp] theorem header_length (dm : DataModel) (stack : Nat → UInt8) (msg : ReqMsg) :
    (msg.header dm stack).length = PROV_MSG_HEADER_LEN dm := by
  rw [header_eq]
  cases dm <;> simp [payloadBufOffset, DataModel.ptrSize]

/-- A word of the fields is the word of any list that starts with them. -/
theorem word_fields (msg : ReqMsg) (tail : List UInt8) :
    word (msg.fields ++ tail) 0 = msg.magic ∧ word (msg.fields ++ tail) 4 = msg.version ∧
      word (msg.fields ++ tail) 8 = msg.crypto ∧
      (∀ i : Fin 4, word (msg.fields ++ tail) (12 + 4 * i.val) = msg.res i) ∧
      word (msg.fields ++ tail) 28 = msg.crc ∧
      word (msg.fields ++ tail) 32 = msg.payloadLen := by
  refine ⟨u32OfBytes_u32Bytes _, u32OfBytes_u32Bytes _, u32OfBytes_u32Bytes _, ?_,
    u32OfBytes_u32Bytes _, u32OfBytes_u32Bytes _⟩
  intro i
  match i with
  | 0 => exact u32OfBytes_u32Bytes (msg.res 0)
  | 1 => exact u32OfBytes_u32Bytes (msg.res 1)
  | 2 => exact u32OfBytes_u32Bytes (msg.res 2)
  | 3 => exact u32OfBytes_u32Bytes (msg.res 3)

/-- The header gives the fields back, whatever follows them. -/
theorem ofHeader_append (dm : DataModel) (msg : ReqMsg) (tail : List UInt8) :
    ofHeader dm (msg.fields ++ tail) =
      { msg with payloadBuf := leNat ((msg.fields ++ tail).drop (payloadBufOffset dm)) } := by
  obtain ⟨h0, h4, h8, h12, h28, h32⟩ := word_fields msg tail
  simp only [ofHeader, h0, h4, h8, h12, h28, h32]

/-- Four consecutive bytes are the bytes of their word. -/
theorem u32Bytes_word {bs : List UInt8} {off : Nat} (h : off + 4 ≤ bs.length) :
    u32Bytes (word bs off) = (bs.drop off).take 4 :=
  u32Bytes_u32OfBytes (by simp; omega)

/-- A list of at least 36 bytes starts with the fields that are read from it. -/
theorem fields_ofHeader (dm : DataModel) (bs : List UInt8) (h : 36 ≤ bs.length) :
    (ofHeader dm bs).fields = bs.take 36 := by
  have hsplit : ∀ off, off + 4 ≤ 36 →
      (bs.drop off).take (36 - off) =
        u32Bytes (word bs off) ++ (bs.drop (off + 4)).take (36 - (off + 4)) := by
    intro off hoff
    rw [u32Bytes_word (by omega), ← List.drop_drop, show 36 - off = 4 + (36 - (off + 4)) by omega,
      List.take_add]
  have hfields : (ofHeader dm bs).fields =
      u32Bytes (word bs 0) ++ u32Bytes (word bs 4) ++ u32Bytes (word bs 8) ++
        (u32Bytes (word bs 12) ++ u32Bytes (word bs 16) ++ u32Bytes (word bs 20) ++
          u32Bytes (word bs 24)) ++
        u32Bytes (word bs 28) ++ u32Bytes (word bs 32) := rfl
  have htake : bs.take 36 = (bs.drop 0).take (36 - 0) := rfl
  rw [htake, hsplit 0 (by omega), hsplit (0 + 4) (by omega), hsplit (0 + 4 + 4) (by omega),
    hsplit (0 + 4 + 4 + 4) (by omega), hsplit (0 + 4 + 4 + 4 + 4) (by omega),
    hsplit (0 + 4 + 4 + 4 + 4 + 4) (by omega), hsplit (0 + 4 + 4 + 4 + 4 + 4 + 4) (by omega),
    hsplit (0 + 4 + 4 + 4 + 4 + 4 + 4 + 4) (by omega),
    hsplit (0 + 4 + 4 + 4 + 4 + 4 + 4 + 4 + 4) (by omega)]
  rw [hfields]
  simp

end ReqMsg

end CanbusAgent.ProvMsg

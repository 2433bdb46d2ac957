import CanbusAgent.Lib.Transition
import CanbusAgent.ProvMsg.Model

/-!
# Packed requests in packed requests

Both functions work in place and leave the new length in `*io_len`, so a program can pack
what is packed already and take the headers off again, in any order and as often as it
likes.  A call of `prov_msg_pack_req` may run out of memory in between.

`layersStep` is what such a buffer is for: a stack of headers over one payload.
`layers_come_off` says that the buffer refines it.
-/

namespace CanbusAgent.ProvMsg

open Region Transition

/-! ## The buffer -/

/-- A call on the buffer, with what it meets. -/
inductive BufferCall where
  | pack (env : PackEnv) (crypto crc : UInt32)
  /-- The arguments are what `*crypto` and `*crc` held before the call. -/
  | depack (crypto crc : UInt32)

/-- What a call gives back besides the buffer and its length. -/
inductive Reply where
  | packed (ret : Int)
  | depacked (ret : Int) (crypto crc : UInt32)
deriving DecidableEq

structure BufferState where
  args : MsgArgs
  replies : List Reply

/-- A call on the buffer and the length that the last call left. -/
def BufferState.call (dm : DataModel) (s : BufferState) : BufferCall → BufferState
  | .pack env crypto crc =>
    let (ret, args) := provMsgPackReq dm env crypto crc s.args
    { args, replies := s.replies ++ [Reply.packed ret] }
  | .depack crypto crc =>
    let (ret, args) := provMsgDepackReq dm { s.args with crypto, crc }
    { args := args.toMsgArgs, replies := s.replies ++ [Reply.depacked ret args.crypto args.crc] }

/-! ## The stack of headers -/

/-- What `prov_msg_depack_req` gives back of a header. -/
structure Layer where
  crypto : UInt32
  crc : UInt32

structure LayersState where
  layers : List Layer
  replies : List Reply

/-- A call as an operation of the stack, for a payload of `n` bytes in a buffer of `cap`
bytes.  The caller packs when there is room for one more header, and it depacks what it
packed. -/
def layersStep (dm : DataModel) (n cap : Nat) (s : LayersState) : BufferCall → Option LayersState
  | .pack env crypto crc =>
    if n + PROV_MSG_HEADER_LEN dm * (s.layers.length + 1) ≤ cap then
      match env.malloc with
      | none => some { s with replies := s.replies ++ [Reply.packed HAL_ERR_MEM_ERROR] }
      | some _ =>
        some { layers := ⟨crypto, crc⟩ :: s.layers, replies := s.replies ++ [Reply.packed 0] }
    else none
  | .depack _ _ =>
    match s.layers with
    | [] => none
    | l :: layers => some { layers, replies := s.replies ++ [Reply.depacked 0 l.crypto l.crc] }

/-- The bytes are the payload `p` behind these headers, the outermost one first. -/
inductive Wraps (dm : DataModel) (p : List UInt8) : List Layer → List UInt8 → Prop
  | payload : Wraps dm p [] p
  | header {layers : List Layer} {bs : List UInt8} (stack : Nat → UInt8) (addr : Nat) (l : Layer)
      (h : Wraps dm p layers bs) :
      Wraps dm p (l :: layers) (packedBytes dm stack l.crypto l.crc addr bs)

theorem Wraps.length {dm : DataModel} {p : List UInt8} {layers : List Layer} {bs : List UInt8}
    (h : Wraps dm p layers bs) : bs.length = p.length + PROV_MSG_HEADER_LEN dm * layers.length := by
  induction h with
  | payload => rfl
  | header stack addr l h ih =>
    rw [packedBytes_length, ih, List.length_cons, Nat.mul_succ]
    omega

/-! ## The refinement -/

/-- The buffer holds the payload behind the headers of the stack, and every call so far
stayed in the first `cap` bytes. -/
structure Layered (dm : DataModel) (p : List UInt8) (cap : Nat) (s : BufferState)
    (t : LayersState) : Prop where
  replies : s.replies = t.replies
  wraps : Wraps dm p t.layers (slice s.args.payload.bytes 0 s.args.ioLen)
  fits : s.args.ioLen ≤ cap
  loads : s.args.payload.LoadsBelow cap
  stores : s.args.payload.StoresBelow cap

section

variable {dm : DataModel} {p : List UInt8} {cap : Nat} {s : BufferState} {t : LayersState}

theorem Layered.ioLen (h : Layered dm p cap s t) :
    s.args.ioLen = p.length + PROV_MSG_HEADER_LEN dm * t.layers.length := by
  have hlen := h.wraps.length
  rwa [slice_length] at hlen

/-- Packing pushes a header. -/
theorem Layered.pack (h : Layered dm p cap s t) (hp : 0 < p.length) (hcap : cap < 2 ^ 32)
    {env : PackEnv} {addr : Nat} (hmalloc : env.malloc = some addr) (crypto crc : UInt32)
    (hroom : s.args.ioLen + PROV_MSG_HEADER_LEN dm ≤ cap) :
    Layered dm p cap (s.call dm (.pack env crypto crc))
      { layers := ⟨crypto, crc⟩ :: t.layers, replies := t.replies ++ [Reply.packed 0] } := by
  have hioLen := h.ioLen
  have hne : s.args.ioLen ≠ 0 := by omega
  have hmod : s.args.ioLen % 2 ^ 32 = s.args.ioLen := Nat.mod_eq_of_lt (by omega)
  obtain ⟨hret, hlen, hbytes⟩ := provMsgPackReq_eq dm crypto crc s.args hne hmalloc
  rw [hmod, DataModel.toSize_of_lt (lt_of_le_of_lt hroom (by cases dm <;> simp <;> omega))] at hlen
  have hbelow := provMsgPackReq_below dm crypto crc hne hmalloc
    (show PROV_MSG_HEADER_LEN dm + s.args.ioLen ≤ cap by omega) h.loads h.stores
  refine ⟨?_, ?_, ?_, hbelow.1, hbelow.2⟩
  · show s.replies ++ [Reply.packed (provMsgPackReq dm env crypto crc s.args).1] = _
    rw [hret, h.replies]
  · show Wraps dm p _ (slice (provMsgPackReq dm env crypto crc s.args).2.payload.bytes 0
      (provMsgPackReq dm env crypto crc s.args).2.ioLen)
    rw [hlen, hbytes, slice_overlay_of_length _ _ (by simp [Nat.add_comm])]
    exact .header env.stack addr ⟨crypto, crc⟩ h.wraps
  · show (provMsgPackReq dm env crypto crc s.args).2.ioLen ≤ cap
    omega

/-- Depacking pops a header. -/
theorem Layered.depack {l : Layer} {layers : List Layer} {replies : List Reply}
    (h : Layered dm p cap s ⟨l :: layers, replies⟩) (hcap : cap < 2 ^ 32) (crypto crc : UInt32) :
    Layered dm p cap (s.call dm (.depack crypto crc))
      ⟨layers, replies ++ [Reply.depacked 0 l.crypto l.crc]⟩ := by
  have hioLen := h.ioLen
  have hfits := h.fits
  have hwraps := h.wraps
  have hheaderLen := headerLen_ge dm
  rw [List.length_cons, Nat.mul_succ] at hioLen
  have hne : s.args.ioLen ≠ 0 := by omega
  generalize hwhole : slice s.args.payload.bytes 0 s.args.ioLen = whole at hwraps
  cases hwraps with
  | @header _ bs stack addr _ hinner =>
    have hlen := hinner.length
    have hsplit : s.args.ioLen = PROV_MSG_HEADER_LEN dm + bs.length := by omega
    rw [hsplit, slice_add, Nat.zero_add, packedBytes] at hwhole
    obtain ⟨hheader, hbytes⟩ := List.append_inj hwhole (by simp)
    obtain ⟨-, -, hcrypto, hcrc, hpl⟩ := headerAt_packed dm stack l.crypto l.crc addr hheader
    rw [Nat.mod_eq_of_lt (show bs.length < 2 ^ 32 by omega)] at hpl
    have hacc : Accepts dm s.args.payload.bytes s.args.ioLen := by
      rw [accepts_packed_iff dm stack l.crypto l.crc addr hheader,
        Nat.mod_eq_of_lt (show bs.length < 2 ^ 32 by omega)]
      omega
    have hbelow := provMsgDepackReq_below dm { s.args with crypto, crc } hne hacc
      (show _ + (headerAt dm s.args.payload.bytes).payloadLen.toNat ≤ cap by omega) h.loads h.stores
    have hdepack := provMsgDepackReq_of_accepts dm { s.args with crypto, crc } hne hacc
    refine ⟨?_, ?_, ?_, hbelow.1, hbelow.2⟩
    all_goals simp only [BufferState.call, hdepack]
    · rw [hcrypto, hcrc, h.replies]
    · rw [hpl, move_bytes, load_bytes, hbytes, slice_overlay_self]
      exact hinner
    · rw [hpl]
      omega

/-- The step lemma: a call of the buffer is the operation of the stack. -/
theorem Layered.call (h : Layered dm p cap s t) (hp : 0 < p.length) (hcap : cap < 2 ^ 32)
    {c : BufferCall} {t' : LayersState} (hstep : layersStep dm p.length cap t c = some t') :
    Layered dm p cap (s.call dm c) t' := by
  have hioLen := h.ioLen
  cases c with
  | pack env crypto crc =>
    simp only [layersStep] at hstep
    split_ifs at hstep with hroom
    rw [Nat.mul_succ] at hroom
    cases hmalloc : env.malloc with
    | none =>
      have hne : s.args.ioLen ≠ 0 := by omega
      have hpack := provMsgPackReq_malloc_fails dm crypto crc hne hmalloc
      rw [hmalloc] at hstep
      cases hstep
      refine ⟨?_, ?_, ?_, ?_, ?_⟩
      all_goals simp only [BufferState.call, hpack]
      · rw [h.replies]
      · exact h.wraps
      · exact h.fits
      · exact h.loads
      · exact h.stores
    | some addr =>
      rw [hmalloc] at hstep
      cases hstep
      exact h.pack hp hcap hmalloc crypto crc (by omega)
  | depack crypto crc =>
    obtain ⟨layers, replies⟩ := t
    cases layers with
    | nil => cases hstep
    | cons l layers =>
      cases hstep
      exact h.depack hcap crypto crc

end

/-- A buffer on which requests are packed in each other is a stack of headers.  Every call of
`prov_msg_depack_req` returns 0 with the `crypto` and the `crc` of the last header that is still
on, a failed call of `prov_msg_pack_req` changes nothing, no call leaves the capacity, and
when all headers are off the payload is back. -/
theorem layers_come_off (dm : DataModel) (m : Nat → UInt8) {n cap : Nat} (hn : 0 < n)
    (hle : n ≤ cap) (hcap : cap < 2 ^ 32) (calls : List BufferCall) {t : LayersState}
    (hrun : exec (layersStep dm n cap) ⟨[], []⟩ calls = some t) {s : BufferState}
    (hs : calls.foldl (BufferState.call dm) ⟨⟨fresh m, n⟩, []⟩ = s) :
    s.replies = t.replies ∧ s.args.ioLen = n + PROV_MSG_HEADER_LEN dm * t.layers.length ∧
      Wraps dm (slice m 0 n) t.layers (slice s.args.payload.bytes 0 s.args.ioLen) ∧
      (t.layers = [] → slice s.args.payload.bytes 0 n = slice m 0 n) ∧
      s.args.payload.LoadsBelow cap ∧ s.args.payload.StoresBelow cap := by
  have hlen : (slice m 0 n).length = n := slice_length m 0 n
  have hstart : Layered dm (slice m 0 n) cap ⟨⟨fresh m, n⟩, []⟩ ⟨[], []⟩ :=
    ⟨rfl, .payload, hle, by simp [fresh, LoadsBelow], by simp [fresh, StoresBelow]⟩
  have h := exec_refines (f := BufferState.call dm) (Layered dm (slice m 0 n) cap)
    (fun _ _ _ _ hinv hstep => hinv.call (hlen.symm ▸ hn) hcap (hlen.symm ▸ hstep)) hrun hstart
  rw [hs] at h
  have hioLen := h.ioLen
  rw [hlen] at hioLen
  refine ⟨h.replies, hioLen, h.wraps, fun hnil => ?_, h.loads, h.stores⟩
  have hwraps := h.wraps
  rw [hnil, List.length_nil, Nat.mul_zero, Nat.add_zero] at hioLen
  rw [hnil, hioLen] at hwraps
  generalize slice s.args.payload.bytes 0 n = bs at hwraps ⊢
  cases hwraps
  rfl

/-- Two layers on three bytes.  Between them `malloc` fails. -/
def twoLayers : List BufferCall :=
  [.pack ⟨some 0x1000, fun _ => 0xcc⟩ 1 0x6878f43a, .pack ⟨none, fun _ => 0⟩ 2 2,
    .pack ⟨some 0x2000, fun _ => 0⟩ 0 7, .depack 9 9, .depack 9 9]

theorem layers_come_off_two :
    (twoLayers.foldl (BufferState.call .lp64) ⟨⟨fresh fun i => UInt8.ofNat i, 3⟩, []⟩).replies =
      [.packed 0, .packed HAL_ERR_MEM_ERROR, .packed 0, .depacked 0 0 7,
        .depacked 0 1 0x6878f43a] :=
  (layers_come_off .lp64 (fun i => UInt8.ofNat i) (by decide) (show 3 ≤ 91 by decide) (by decide)
    twoLayers rfl rfl).1

end CanbusAgent.ProvMsg

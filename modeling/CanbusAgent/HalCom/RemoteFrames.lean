import CanbusAgent.HalCom.TimedRead

/-!
# Remote frames in the received stream

A remote frame asks another node for data.  It has `CAN_RTR_FLAG` in its id and the
length of the data that it asks for, but no data of its own.  Nothing in `hal_com.c`
looks at the flag, and the filter of a cleared context lets every frame pass, so a read
stores the data field of a remote frame like that of any other frame.

`reads_store_fields` says what a read stores, and when these are the transmitted bytes.
-/

namespace CanbusAgent.HalCom

open DrivenLoop Region

/-! ## What was transmitted -/

/-- `CAN_RTR_FLAG` of `linux/can.h`. -/
def CAN_RTR_FLAG : UInt32 := 0x40000000

def BusFrame.IsRemote (f : BusFrame) : Prop := f.canId &&& CAN_RTR_FLAG ≠ 0

instance (f : BusFrame) : Decidable f.IsRemote := inferInstanceAs (Decidable (_ ≠ _))

/-- The data bytes that came over the bus with a frame. -/
def BusFrame.transmitted (f : BusFrame) : List UInt8 := if f.IsRemote then [] else f.payload

def transmittedBytes (fs : List BusFrame) : List UInt8 := fs.flatMap (·.transmitted)

theorem transmittedBytes_cons (f : BusFrame) (fs : List BusFrame) :
    transmittedBytes (f :: fs) = f.transmitted ++ transmittedBytes fs := List.flatMap_cons

theorem transmittedBytes_length_le (fs : List BusFrame) :
    (transmittedBytes fs).length ≤ dataLen fs := by
  induction fs with
  | nil => exact Nat.le_refl 0
  | cons f fs ih =>
    have hf : f.transmitted.length ≤ f.dlc := by
      unfold BusFrame.transmitted
      split_ifs
      · exact Nat.zero_le _
      · exact f.payload_length.le
    rw [transmittedBytes_cons, List.length_append, dataLen_cons]
    omega

/-- The data fields are what was transmitted exactly when no remote frame has a length. -/
theorem dataBytes_eq_iff (fs : List BusFrame) :
    dataBytes fs = transmittedBytes fs ↔ ∀ f ∈ fs, f.IsRemote → f.dlc = 0 := by
  induction fs with
  | nil => simp [transmittedBytes]
  | cons f fs ih =>
    have hcons : dataBytes (f :: fs) = f.payload ++ dataBytes fs := List.flatMap_cons
    rw [hcons, transmittedBytes_cons, List.forall_mem_cons, ← ih, BusFrame.transmitted]
    by_cases hremote : f.IsRemote
    · rw [if_pos hremote, List.nil_append]
      constructor
      · intro h
        have hlen := congrArg List.length h
        have hle := transmittedBytes_length_le fs
        rw [List.length_append, BusFrame.payload_length, dataBytes_length] at hlen
        have hzero : f.dlc = 0 := by omega
        have hnil : f.payload = [] := List.eq_nil_of_length_eq_zero (f.payload_length.trans hzero)
        rw [hnil, List.nil_append] at h
        exact ⟨fun _ => hzero, h⟩
      · intro ⟨hzero, h⟩
        have hnil : f.payload = [] :=
          List.eq_nil_of_length_eq_zero (f.payload_length.trans (hzero hremote))
        rw [hnil, List.nil_append, h]
    · rw [if_neg hremote, List.append_cancel_left_eq]
      exact ⟨fun h => ⟨fun hr => absurd hr hremote, h⟩, fun h => h.2⟩

/-! ## What was stored -/

/-- The bytes `bs` were stored from the start of the buffer, and nothing else. -/
def Holds (m : Nat → UInt8) (bs : List UInt8) (buffer : Region UInt8) : Prop :=
  buffer.bytes = overlay m 0 bs ∧ ∀ n, buffer.StoresBelow n ↔ bs.length ≤ n

/-- A call of a read function has stored the bytes `bs`, and `*len` counts them when it
returns 0. -/
def Streams (m : Nat → UInt8) (bs : List UInt8) (call : Step ReadState ReadResult) : Prop :=
  call.Sat (fun s => Holds m bs s.buffer)
    fun r => Holds m bs r.buffer ∧ (r.ret = 0 → r.len = bs.length)

/-- What was stored determines the bytes. -/
theorem Holds.unique {m : Nat → UInt8} {bs cs : List UInt8} {buffer : Region UInt8}
    (hb : Holds m bs buffer) (hc : Holds m cs buffer) : bs = cs := by
  have hlen : bs.length = cs.length := by
    apply Nat.le_antisymm
    · rw [← hb.2, hc.2]
    · rw [← hc.2, hb.2]
  have hover : overlay m 0 bs = overlay m 0 cs := hb.1.symm.trans hc.1
  rw [← slice_overlay_self m 0 bs, hover, hlen, slice_overlay_self]

theorem Streams.unique {m : Nat → UInt8} {bs cs : List UInt8} {call : Step ReadState ReadResult}
    (hb : Streams m bs call) (hc : Streams m cs call) : bs = cs := by
  cases call with
  | again s => exact Holds.unique hb hc
  | done r => exact Holds.unique hb.1 hc.1

theorem fresh_holds (m : Nat → UInt8) : Holds m [] (fresh m) :=
  ⟨(overlay_nil m 0).symm, fun n => by simp [fresh, StoresBelow]⟩

/-- The loop has stored the data fields of its frames. -/
theorem holds_dataBytes {m : Nat → UInt8} {fs : List BusFrame} {buffer : Region UInt8}
    (hbytes : buffer.bytes = overlay m 0 (dataBytes fs))
    (hstores : ∀ n, buffer.StoresBelow n ↔ dataLen fs ≤ n ∧ (fresh m).StoresBelow n) :
    Holds m (dataBytes fs) buffer := by
  refine ⟨hbytes, fun n => ?_⟩
  rw [hstores, dataBytes_length, (fresh_holds m).2]
  simp

theorem Filled.streams {dm : DataModel} {ctx : HalComCtx} {m : Nat → UInt8} {len : Nat}
    {fs : List BusFrame} {s : ReadState} (h : Filled dm (readStart dm ctx (fresh m) len) fs s) :
    Streams m (dataBytes fs) (.again s) := holds_dataBytes h.bytes h.stores

theorem Delivered.streams {dm : DataModel} {ctx : HalComCtx} {m : Nat → UInt8} {len : Nat}
    {fs : List BusFrame} {r : ReadResult}
    (h : Delivered dm (readStart dm ctx (fresh m) len) fs r)
    (hle : dataLen fs ≤ dm.SSIZE_MAX + 16) : Streams m (dataBytes fs) (.done r) := by
  refine ⟨holds_dataBytes h.bytes h.stores, fun _ => ?_⟩
  rw [h.len, DataModel.toSize_of_le_add hle, dataBytes_length]

theorem Aborted.streams {dm : DataModel} {ctx : HalComCtx} {m : Nat → UInt8} {len : Nat}
    {fs : List BusFrame} {code : Int} {r : ReadResult} (hcode : code ≠ 0)
    (h : Aborted code (readStart dm ctx (fresh m) len) fs r) :
    Streams m (dataBytes fs) (.done r) :=
  ⟨holds_dataBytes h.bytes h.stores, fun hret => absurd (h.ret.symm.trans hret) hcode⟩

/-! ## The reads -/

/-- The frames before an answer are short of the request, so the total stays a `size_t`. -/
theorem dataLen_le_max {α : Type} {dm : DataModel} {len : Nat} {g : α → Option BusFrame}
    {us : List α} (hus : us ≠ [] → Short dm len (List.filterMap g) us) {more : Nat}
    (hmore : more ≤ 8) : dataLen (us.filterMap g) + more ≤ dm.SSIZE_MAX + 16 := by
  by_cases hnil : us = []
  · subst hnil
    rw [List.filterMap_nil, dataLen_nil]
    omega
  · obtain ⟨hlt, hfirst⟩ := hus hnil
    obtain ⟨a, us, rfl⟩ := List.exists_cons_of_ne_nil hnil
    have htake : (a :: us).take 1 = [a] := rfl
    have hone := dataLen_answer_le g a
    rw [htake] at hfirst
    omega

theorem halComRead_streams (dm : DataModel) (ctx : HalComCtx) (m : Nat → UInt8) (len : Nat)
    (sockopt : Int) (reads : List ReadAnswer) :
    ∃ used, reads = used ++ (halComRead dm ctx (fresh m) len sockopt reads).2 ∧
      Streams m (dataBytes (framesRead used))
        (halComRead dm ctx (fresh m) len sockopt reads).1 := by
  unfold halComRead
  split_ifs with h0 hneg
  · exact ⟨[], rfl, fresh_holds m, fun _ => h0⟩
  · exact ⟨[], rfl, fresh_holds m, fun hret => absurd hret HAL_ERR_FILE_IOCTL_ne_zero⟩
  obtain ⟨used, hused, hsat⟩ := halComReadLoop_spec dm ctx (fresh m) len reads
  refine ⟨used, hused, ?_⟩
  cases hrun : (run (halComReadStep dm) (readStart dm ctx (fresh m) len) reads).1 with
  | again s =>
    rw [hrun, Step.sat_again] at hsat
    exact hsat.2.1.streams
  | done r =>
    rw [hrun, Step.sat_done] at hsat
    obtain ⟨us, a, hsnoc, hshort, _, hdel⟩ := hsat
    apply hdel.streams
    rw [hsnoc, framesRead_append, dataLen_append]
    exact dataLen_le_max hshort (dataLen_answer_le _ a)

/-- A call of `hal_com_read_timeout` that ends, for a request of any length. -/
theorem AnyEnd.streams {dm : DataModel} {ctx : HalComCtx} {m : Nat → UInt8} {len : Nat}
    {used : List PollAnswer} {r : ReadResult}
    (h : AnyEnd dm (readStart dm ctx (fresh m) len) used r) :
    Streams m (dataBytes (framesPolled used)) (.done r) := by
  cases h with
  | @met s us a r hus ha hr hge =>
    apply hr.streams
    rw [framesPolled_append, dataLen_append]
    exact dataLen_le_max hus.short (dataLen_answer_le _ a)
  | timedOut hus hr =>
    rw [framesPolled_append, framesPolled_timeout, List.append_nil]
    exact hr.streams (dataLen_le_max hus.short (Nat.zero_le 8))
  | failed hus hr =>
    rw [framesPolled_append, framesPolled_fail, List.append_nil]
    exact hr.streams HAL_ERR_FILE_IOCTL_ne_zero

theorem halComReadTimeout_streams (dm : DataModel) (ctx : HalComCtx) (m : Nat → UInt8)
    (len : Nat) (sockopt : Int) (polls : List PollAnswer) :
    ∃ used, polls = used ++ (halComReadTimeout dm ctx (fresh m) len sockopt polls).2 ∧
      Streams m (dataBytes (framesPolled used))
        (halComReadTimeout dm ctx (fresh m) len sockopt polls).1 := by
  unfold halComReadTimeout
  split_ifs with h0 hneg
  · exact ⟨[], rfl, fresh_holds m, fun _ => h0⟩
  · exact ⟨[], rfl, fresh_holds m, fun hret => absurd hret HAL_ERR_FILE_IOCTL_ne_zero⟩
  obtain ⟨used, hused, hsat⟩ := halComReadTimeoutLoop_spec dm ctx (fresh m) len polls
  refine ⟨used, hused, ?_⟩
  cases hrun : (run (halComReadTimeoutStep dm) (readStart dm ctx (fresh m) len) polls).1 with
  | again s =>
    rw [hrun, Step.sat_again] at hsat
    exact hsat.2.filled.streams
  | done r =>
    rw [hrun, Step.sat_done] at hsat
    exact hsat.streams

/-- A call has stored what was transmitted exactly when no remote frame that it took has
a length. -/
theorem Streams.transmitted_iff {m : Nat → UInt8} {fs : List BusFrame}
    {call : Step ReadState ReadResult} (h : Streams m (dataBytes fs) call) :
    Streams m (transmittedBytes fs) call ↔ ∀ f ∈ fs, f.IsRemote → f.dlc = 0 := by
  rw [← dataBytes_eq_iff]
  constructor
  · exact fun ht => h.unique ht
  · intro heq
    rw [← heq]
    exact h

/-- A read stores the data fields of all frames that it takes.  These are the transmitted
bytes exactly when no remote frame among them has a length. -/
theorem reads_store_fields (dm : DataModel) (ctx : HalComCtx) (m : Nat → UInt8) (len : Nat)
    (sockopt : Int) :
    (∀ reads, ∃ used, reads = used ++ (halComRead dm ctx (fresh m) len sockopt reads).2 ∧
      Streams m (dataBytes (framesRead used)) (halComRead dm ctx (fresh m) len sockopt reads).1 ∧
      (Streams m (transmittedBytes (framesRead used))
          (halComRead dm ctx (fresh m) len sockopt reads).1 ↔
        ∀ f ∈ framesRead used, f.IsRemote → f.dlc = 0)) ∧
    (∀ polls, ∃ used, polls = used ++ (halComReadTimeout dm ctx (fresh m) len sockopt polls).2 ∧
      Streams m (dataBytes (framesPolled used))
        (halComReadTimeout dm ctx (fresh m) len sockopt polls).1 ∧
      (Streams m (transmittedBytes (framesPolled used))
          (halComReadTimeout dm ctx (fresh m) len sockopt polls).1 ↔
        ∀ f ∈ framesPolled used, f.IsRemote → f.dlc = 0)) := by
  constructor
  · intro reads
    obtain ⟨used, hused, hstreams⟩ := halComRead_streams dm ctx m len sockopt reads
    exact ⟨used, hused, hstreams, hstreams.transmitted_iff⟩
  · intro polls
    obtain ⟨used, hused, hstreams⟩ := halComReadTimeout_streams dm ctx m len sockopt polls
    exact ⟨used, hused, hstreams, hstreams.transmitted_iff⟩

/-- A remote frame with a length of eight in the place of a message of eight bytes. -/
theorem read_stores_remote :
    ¬ Streams (fun _ => 0) (transmittedBytes [dataFrame 0x40000001 8 0])
        (halComRead .ilp32 (openCtx 0) (fresh fun _ => 0) 8 0
          [.frame (dataFrame 0x40000001 8 0)]).1 ∧
      ¬ Streams (fun _ => 0) (transmittedBytes [dataFrame 0x40000001 8 0])
        (halComReadTimeout .ilp32 (openCtx 0) (fresh fun _ => 0) 8 0
          [.input (.frame (dataFrame 0x40000001 8 0))]).1 := by
  constructor
  · intro ⟨_, hlen⟩
    exact absurd (hlen rfl) (by decide)
  · intro ⟨_, hlen⟩
    exact absurd (hlen rfl) (by decide)

end CanbusAgent.HalCom

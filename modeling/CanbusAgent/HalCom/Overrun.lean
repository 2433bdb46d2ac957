import CanbusAgent.HalCom.Read

/-!
# How much a read delivers

A caller that asks for `L` bytes provides a buffer of `L` bytes.  Both read
functions compute the bound of the next copy from what is left and then replace
it by the length of the frame, so the last frame of a call is copied whole even
when fewer bytes were wanted.  `staysWithin_read_iff` and
`staysWithin_readTimeout_iff` say exactly when a call stays inside the request:
no frame that it takes outweighs what is left.
-/

namespace CanbusAgent.HalCom

open Chunks DrivenLoop Region

/-- All stores of a call so far are below offset `L`, and a call that returns 0
reports at most `L` bytes. -/
def StaysWithin (L : Nat) (call : Step ReadState ReadResult) : Prop :=
  call.Sat (fun s => s.buffer.StoresBelow L)
    (fun r => r.buffer.StoresBelow L ∧ (r.ret = 0 → r.len ≤ L))

instance (L : Nat) (call : Step ReadState ReadResult) : Decidable (StaysWithin L call) :=
  inferInstanceAs (Decidable (call.Sat _ _))

/-- A result stays within a request exactly when the frames behind it do. -/
theorem Delivered.staysWithin_iff {dm : DataModel} {ctx : HalComCtx} {m : Nat → UInt8}
    {L : Nat} {fs : List BusFrame} {r : ReadResult}
    (h : Delivered dm (readStart dm ctx (fresh m) L) fs r)
    (hfit : dm.toSize (dataLen fs) = dataLen fs) :
    StaysWithin L (.done r) ↔ dataLen fs ≤ L := by
  have hfresh : (readStart dm ctx (fresh m) L).buffer.StoresBelow L := by
    simp [readStart, fresh, StoresBelow]
  unfold StaysWithin
  rw [Step.sat_done, h.stores, h.len, hfit]
  constructor
  · exact fun hw => hw.1.1
  · exact fun hle => ⟨⟨hle, hfresh⟩, fun _ => hle⟩

/-- A call that is still short of the request has stayed within it. -/
theorem Filled.storesBelow {dm : DataModel} {ctx : HalComCtx} {m : Nat → UInt8} {L : Nat}
    {fs : List BusFrame} {s : ReadState} (h : Filled dm (readStart dm ctx (fresh m) L) fs s)
    (hlt : dataLen fs < L) : s.buffer.StoresBelow L := by
  rw [h.stores]
  exact ⟨by omega, by simp [readStart, fresh, StoresBelow]⟩

theorem staysWithin_read_iff (dm : DataModel) (ctx : HalComCtx) (m : Nat → UInt8) {L : Nat}
    (hL : 0 < L) (hmax : L ≤ dm.SSIZE_MAX) (sockopt : Int) (reads : List ReadAnswer) :
    StaysWithin L (halComRead dm ctx (fresh m) L sockopt reads).1 ↔
      (sockopt < 0 ∨ Fits BusFrame.dlc L (framesRead reads)) := by
  rcases Int.lt_or_le sockopt 0 with hneg | hsock
  · -- no frame was read, and the code is not 0
    have hne : L ≠ 0 := by omega
    unfold halComRead
    rw [if_neg hne, if_pos hneg]
    simp [StaysWithin, fresh, StoresBelow, HAL_ERR_FILE_IOCTL, hneg]
  · obtain ⟨used, hused, hsat⟩ := halComRead_spec dm ctx (fresh m) hL hmax hsock reads
    have hor : ∀ p : Prop, (sockopt < 0 ∨ p) ↔ p := fun p => by
      simp [Int.not_lt.mpr hsock]
    rw [hor]
    cases hcall : (halComRead dm ctx (fresh m) L sockopt reads).1 with
    | again s =>
      rw [hcall, Step.sat_again] at hsat
      obtain ⟨hrest, hfilled, hlt⟩ := hsat
      rw [hrest, List.append_nil] at hused
      subst hused
      exact iff_of_true (hfilled.storesBelow hlt) (fits_of_lt hlt)
    | done r =>
      rw [hcall, Step.sat_done] at hsat
      obtain ⟨us, f, rfl, hreach, hdel⟩ := hsat
      rw [framesRead_append, framesRead_frame] at hdel
      have hle := dataLen_le_of_reaches hreach
      rw [hdel.staysWithin_iff (DataModel.toSize_of_le_add (by omega)), hused,
        framesRead_append, framesRead_append, framesRead_frame, List.append_assoc,
        List.singleton_append, fits_iff_of_reaches hreach]
      simp

theorem staysWithin_readTimeout_iff (dm : DataModel) (ctx : HalComCtx) (m : Nat → UInt8)
    {L : Nat} (hL : 0 < L) (hmax : L ≤ dm.SSIZE_MAX) (sockopt : Int)
    (polls : List PollAnswer) :
    StaysWithin L (halComReadTimeout dm ctx (fresh m) L sockopt polls).1 ↔
      (sockopt < 0 ∨ Fits BusFrame.dlc L (framesPolled (beforeStop polls))) := by
  rcases Int.lt_or_le sockopt 0 with hneg | hsock
  · have hne : L ≠ 0 := by omega
    unfold halComReadTimeout
    rw [if_neg hne, if_pos hneg]
    simp [StaysWithin, fresh, StoresBelow, HAL_ERR_FILE_IOCTL, hneg]
  · obtain ⟨used, hused, hsat⟩ := halComReadTimeout_spec dm ctx (fresh m) hL hmax hsock polls
    have hor : ∀ p : Prop, (sockopt < 0 ∨ p) ↔ p := fun p => by
      simp [Int.not_lt.mpr hsock]
    rw [hor]
    cases hcall : (halComReadTimeout dm ctx (fresh m) L sockopt polls).1 with
    | again s =>
      rw [hcall, Step.sat_again] at hsat
      obtain ⟨hrest, hinv⟩ := hsat
      rw [hused, hrest, beforeStop_of_running hinv.running, beforeStop, List.takeWhile_nil,
        List.append_nil]
      exact iff_of_true (hinv.filled.storesBelow hinv.short) (fits_of_lt hinv.short)
    | done r =>
      rw [hcall, Step.sat_done] at hsat
      generalize (halComReadTimeout dm ctx (fresh m) L sockopt polls).2 = rest at hused
      cases hsat with
      | @reached us f r hus hreach hdel =>
        have hle := dataLen_le_of_reaches hreach
        rw [hdel.staysWithin_iff (DataModel.toSize_of_le_add (by omega)), hused,
          beforeStop_of_running (running_snoc hus rfl), framesPolled_append, framesPolled_append,
          framesPolled_input, framesRead_frame, List.append_assoc, List.singleton_append,
          fits_iff_of_reaches hreach]
        simp
      | @timedOut us r hus hlt hdel =>
        rw [hdel.staysWithin_iff (DataModel.toSize_of_le_add (by omega)), hused,
          List.append_assoc, beforeStop_of_running hus, List.singleton_append,
          beforeStop_of_stops rfl, List.append_nil]
        exact iff_of_true (by omega) (fits_of_lt hlt)
      | @failed us r hus hlt hab =>
        rw [hused, List.append_assoc, beforeStop_of_running hus, List.singleton_append,
          beforeStop_of_stops rfl, List.append_nil]
        refine iff_of_true ⟨?_, fun h0 => ?_⟩ (fits_of_lt hlt)
        · rw [hab.stores]
          exact ⟨by omega, by simp [readStart, fresh, StoresBelow]⟩
        · exact absurd h0 hab.ret_ne_zero

/-- When a read stays within its request.  Unless the filter cannot be set, both
functions stay within `buffer[0 .. L - 1]` exactly when no frame that arrives
before a time limit outweighs what is left of the request. -/
theorem reads_stay_within (dm : DataModel) (ctx : HalComCtx) (m : Nat → UInt8) {L : Nat}
    (hL : 0 < L) (hmax : L ≤ dm.SSIZE_MAX) (sockopt : Int) :
    (∀ reads, StaysWithin L (halComRead dm ctx (fresh m) L sockopt reads).1 ↔
      (sockopt < 0 ∨ Fits BusFrame.dlc L (framesRead reads))) ∧
    (∀ polls, StaysWithin L (halComReadTimeout dm ctx (fresh m) L sockopt polls).1 ↔
      (sockopt < 0 ∨ Fits BusFrame.dlc L (framesPolled (beforeStop polls)))) :=
  ⟨staysWithin_read_iff dm ctx m hL hmax sockopt,
    staysWithin_readTimeout_iff dm ctx m hL hmax sockopt⟩

/-- A request of ten bytes and frames of eight and two bytes. -/
theorem reads_stay_within_ten :
    StaysWithin 10 (halComRead .ilp32 (openCtx 0) (fresh fun _ => 0) 10 0
        [.frame (dataFrame 1 8 0xaa), .error, .frame (dataFrame 1 2 0xbb)]).1 ∧
      StaysWithin 10 (halComReadTimeout .ilp32 (openCtx 0) (fresh fun _ => 0) 10 0
        [.input (.frame (dataFrame 1 8 0xaa)), .timeout]).1 :=
  ⟨((reads_stay_within .ilp32 (openCtx 0) (fun _ => 0) (L := 10) (by decide) (by decide) 0).1
      [.frame (dataFrame 1 8 0xaa), .error, .frame (dataFrame 1 2 0xbb)]).mpr
        (Or.inr (by decide)),
    ((reads_stay_within .ilp32 (openCtx 0) (fun _ => 0) (L := 10) (by decide) (by decide) 0).2
      [.input (.frame (dataFrame 1 8 0xaa)), .timeout]).mpr (Or.inr (by decide))⟩

/-- A request of one byte and a frame of eight: both functions store eight bytes
and report eight. -/
theorem reads_overrun_request :
    ¬ StaysWithin 1 (halComRead .ilp32 (openCtx 0) (fresh fun _ => 0) 1 0
        [.frame (dataFrame 1 8 0xaa)]).1 ∧
      ¬ StaysWithin 1 (halComReadTimeout .ilp32 (openCtx 0) (fresh fun _ => 0) 1 0
        [.input (.frame (dataFrame 1 8 0xaa))]).1 := by
  decide

end CanbusAgent.HalCom

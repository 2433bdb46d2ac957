import CanbusAgent.HalCom.Model

/-!
# What the read loops do

`hal_com_read` and `hal_com_read_timeout` are two copies of one loop.  Both
collect frames until the requested length is reached.  `Filled` is the
invariant of both: after the frames `fs` the buffer holds their data bytes one
after the other, and the counters and the id field agree with that.

`halComRead_spec` and `halComReadTimeout_spec` are the results of the two loops
on any finite list of answers.  They say which answers were taken and what was
made of them.  Every later result about reading goes through them.
-/

namespace CanbusAgent.HalCom

open Chunks DrivenLoop Region

/-! ## Sequences of frames -/

/-- The data bytes of a sequence of frames. -/
def dataBytes (fs : List BusFrame) : List UInt8 := fs.flatMap (·.payload)

/-- The number of data bytes of a sequence of frames. -/
def dataLen (fs : List BusFrame) : Nat := weight BusFrame.dlc fs

@[simp] theorem weight_dlc (fs : List BusFrame) : weight BusFrame.dlc fs = dataLen fs := rfl

@[simp] theorem dataLen_nil : dataLen [] = 0 := rfl

@[simp] theorem dataLen_append (fs gs : List BusFrame) :
    dataLen (fs ++ gs) = dataLen fs + dataLen gs := weight_append BusFrame.dlc fs gs

@[simp] theorem dataLen_cons (f : BusFrame) (fs : List BusFrame) :
    dataLen (f :: fs) = f.dlc + dataLen fs := weight_cons BusFrame.dlc f fs

@[simp] theorem dataBytes_length (fs : List BusFrame) : (dataBytes fs).length = dataLen fs :=
  length_flatMap BusFrame.dlc _ BusFrame.payload_length fs

@[simp] theorem dataBytes_append (fs gs : List BusFrame) :
    dataBytes (fs ++ gs) = dataBytes fs ++ dataBytes gs := by
  simp [dataBytes]

@[simp] theorem dataBytes_nil : dataBytes [] = [] := rfl

theorem dataBytes_singleton (f : BusFrame) : dataBytes [f] = f.payload := by
  simp [dataBytes]

/-- The id of the last frame, or `id₀` when there is none. -/
def lastId (id₀ : UInt32) (fs : List BusFrame) : UInt32 :=
  (fs.getLast?.map (·.canId)).getD id₀

@[simp] theorem lastId_nil (id₀ : UInt32) : lastId id₀ [] = id₀ := rfl

@[simp] theorem lastId_append_singleton (id₀ : UInt32) (fs : List BusFrame) (f : BusFrame) :
    lastId id₀ (fs ++ [f]) = f.canId := by
  simp [lastId]

/-- The frames that a list of answers takes from the socket. -/
def framesRead (as : List ReadAnswer) : List BusFrame := as.filterMap (·.frame?)

/-- The frames that a list of answers takes from the socket. -/
def framesPolled (as : List PollAnswer) : List BusFrame := as.filterMap (·.frame?)

@[simp] theorem framesRead_append (as bs : List ReadAnswer) :
    framesRead (as ++ bs) = framesRead as ++ framesRead bs := by
  simp [framesRead]

@[simp] theorem framesPolled_append (as bs : List PollAnswer) :
    framesPolled (as ++ bs) = framesPolled as ++ framesPolled bs := by
  simp [framesPolled]

@[simp] theorem framesRead_nil : framesRead [] = [] := rfl
@[simp] theorem framesRead_error : framesRead [.error] = [] := rfl
@[simp] theorem framesRead_empty : framesRead [.empty] = [] := rfl
@[simp] theorem framesRead_frame (f : BusFrame) : framesRead [.frame f] = [f] := rfl

@[simp] theorem framesPolled_nil : framesPolled [] = [] := rfl
@[simp] theorem framesPolled_fail : framesPolled [.fail] = [] := rfl
@[simp] theorem framesPolled_timeout : framesPolled [.timeout] = [] := rfl
@[simp] theorem framesPolled_noInput : framesPolled [.noInput] = [] := rfl
@[simp] theorem framesPolled_input (a : ReadAnswer) :
    framesPolled [.input a] = framesRead [a] := by
  cases a <;> rfl

/-! ## The loop invariant -/

/-- The state `s` of a read loop that started in `s₀` and took the frames `fs`. -/
structure Filled (dm : DataModel) (s₀ : ReadState) (fs : List BusFrame) (s : ReadState) : Prop where
  ctx : s.ctx = { s₀.ctx with currentCanId := lastId s₀.ctx.currentCanId fs }
  bytes : s.buffer.bytes = overlay s₀.buffer.bytes 0 (dataBytes fs)
  stores : ∀ n, s.buffer.StoresBelow n ↔ dataLen fs ≤ n ∧ s₀.buffer.StoresBelow n
  left : s.left = dm.wrapSsize (s₀.left - dataLen fs)
  total : s.readTotalBytes = dataLen fs
  len : s.len = s₀.len

theorem Filled.start (dm : DataModel) (ctx : HalComCtx) (buffer : Region UInt8) (len : Nat) :
    Filled dm (readStart dm ctx buffer len) [] (readStart dm ctx buffer len) where
  ctx := by simp
  bytes := by simp
  stores := by simp
  left := by
    rw [dataLen_nil, Int.natCast_zero, Int.sub_zero]
    exact (dm.wrapSsize_toSsize len).symm
  total := rfl
  len := rfl

/-- The step lemma: one more frame. -/
theorem Filled.accept {dm : DataModel} {s₀ s : ReadState} {fs : List BusFrame}
    (h : Filled dm s₀ fs s) (f : BusFrame) : Filled dm s₀ (fs ++ [f]) (s.accept dm f) where
  ctx := by simp [ReadState.accept, h.ctx]
  bytes := by
    have happ := overlay_append s₀.buffer.bytes 0 (dataBytes fs) f.payload
    rw [dataBytes_length, Nat.zero_add] at happ
    simp [ReadState.accept, h.bytes, h.total, happ, dataBytes_singleton]
  stores n := by
    have hstores := h.stores n
    simp only [ReadState.accept, storesBelow_store, h.total, BusFrame.payload_length, hstores,
      dataLen_append, dataLen_cons, dataLen_nil]
    constructor
    · intro ⟨hlast, hle, hrest⟩
      exact ⟨by omega, hrest⟩
    · intro ⟨hle, hrest⟩
      exact ⟨by omega, by omega, hrest⟩
  left := by
    have happ : dataLen (fs ++ [f]) = dataLen fs + f.dlc := by simp
    rw [happ, Int.natCast_add, ← dm.wrapSsize_sub_sub, ← h.left]
    rfl
  total := by simp [ReadState.accept, h.total]
  len := h.len

/-- The result of a read function that ended well after the frames `fs`. -/
structure Delivered (dm : DataModel) (s₀ : ReadState) (fs : List BusFrame) (r : ReadResult) :
    Prop where
  ret : r.ret = 0
  ctx : r.ctx = { s₀.ctx with currentCanId := lastId s₀.ctx.currentCanId fs }
  bytes : r.buffer.bytes = overlay s₀.buffer.bytes 0 (dataBytes fs)
  stores : ∀ n, r.buffer.StoresBelow n ↔ dataLen fs ≤ n ∧ s₀.buffer.StoresBelow n
  len : r.len = dm.toSize (dataLen fs)

theorem Filled.finish {dm : DataModel} {s₀ s : ReadState} {fs : List BusFrame}
    (h : Filled dm s₀ fs s) : Delivered dm s₀ fs (s.finish dm) where
  ret := rfl
  ctx := h.ctx
  bytes := h.bytes
  stores := h.stores
  len := by rw [ReadState.finish, h.total]

/-- The result of a read function that left with an error code after the frames
`fs`. -/
structure Aborted (code : Int) (s₀ : ReadState) (fs : List BusFrame) (r : ReadResult) : Prop where
  ret : r.ret = code
  ctx : r.ctx = { s₀.ctx with currentCanId := lastId s₀.ctx.currentCanId fs }
  bytes : r.buffer.bytes = overlay s₀.buffer.bytes 0 (dataBytes fs)
  stores : ∀ n, r.buffer.StoresBelow n ↔ dataLen fs ≤ n ∧ s₀.buffer.StoresBelow n
  len : r.len = s₀.len

/-- A call that aborts with the code of a failed `poll` does not return 0. -/
theorem Aborted.ret_ne_zero {s₀ : ReadState} {fs : List BusFrame} {r : ReadResult}
    (h : Aborted HAL_ERR_FILE_IOCTL s₀ fs r) : r.ret ≠ 0 := by
  rw [h.ret]
  exact HAL_ERR_FILE_IOCTL_ne_zero

theorem Filled.abort {dm : DataModel} {s₀ s : ReadState} {fs : List BusFrame}
    (h : Filled dm s₀ fs s) (code : Int) : Aborted code s₀ fs (s.abort code) where
  ret := rfl
  ctx := h.ctx
  bytes := h.bytes
  stores := h.stores
  len := h.len

/-- The end of a pass that took the frame list from `fs` to `gs`.  Either the
loop goes on because bytes are missing, or it ends. -/
theorem Filled.next {dm : DataModel} {s₀ s : ReadState} {gs : List BusFrame}
    (h : Filled dm s₀ gs s) :
    (s.next dm).Sat (fun s' => Filled dm s₀ gs s' ∧ 0 < dm.wrapSsize (s₀.left - dataLen gs))
      (fun r => Delivered dm s₀ gs r ∧ ¬ 0 < dm.wrapSsize (s₀.left - dataLen gs)) := by
  rw [← h.left, ReadState.next]
  split_ifs with hpos
  · exact ⟨h, hpos⟩
  · exact ⟨h.finish, hpos⟩

/-! ## The loop condition -/

section

variable {α : Type}

/-- The loop is short of its request after the answers `as`, whose frames are `frames as`.
A request above `SSIZE_MAX` is negative as a `ssize_t`.  Then the loop goes on only when
its first frame has so many bytes that `left` wraps around to what is missing. -/
def Short (dm : DataModel) (len : Nat) (frames : List α → List BusFrame) (as : List α) : Prop :=
  dataLen (frames as) < dm.toSize len ∧
    dm.toSize len ≤ dm.SSIZE_MAX + dataLen (frames (as.take 1))

instance (dm : DataModel) (len : Nat) (frames : List α → List BusFrame) (as : List α) :
    Decidable (Short dm len frames as) :=
  inferInstanceAs (Decidable (_ ∧ _))

/-- For a request that is a positive `ssize_t` the first frame does not matter. -/
theorem short_iff {dm : DataModel} {L : Nat} (hmax : L ≤ dm.SSIZE_MAX)
    (frames : List α → List BusFrame) (as : List α) :
    Short dm L frames as ↔ dataLen (frames as) < L := by
  have hsize : dm.toSize L = L := DataModel.toSize_of_le_add (by omega)
  rw [Short, hsize]
  omega

/-- One answer brings at most eight bytes. -/
theorem dataLen_answer_le (g : α → Option BusFrame) (a : α) :
    dataLen ([a].filterMap g) ≤ 8 := by
  cases ha : g a with
  | none =>
    rw [List.filterMap_cons_none ha, List.filterMap_nil]
    exact Nat.zero_le 8
  | some f =>
    rw [List.filterMap_cons_some ha, List.filterMap_nil]
    exact f.dlc_le

/-- The loop was short of its request after every pass before. -/
theorem Short.of_append {dm : DataModel} {len : Nat} {g : α → Option BusFrame} {us bs : List α}
    (h : Short dm len (List.filterMap g) (us ++ bs)) (hne : us ≠ []) :
    Short dm len (List.filterMap g) us := by
  obtain ⟨hlt, hfirst⟩ := h
  rw [List.filterMap_append, dataLen_append] at hlt
  rw [List.take_append_of_le_length (List.length_pos_iff.mpr hne)] at hfirst
  exact ⟨by omega, hfirst⟩

/-- What one more answer does to the loop condition. -/
theorem left_pos_iff {dm : DataModel} {len : Nat} {g : α → Option BusFrame} {us : List α}
    (hus : us ≠ [] → Short dm len (List.filterMap g) us) (a : α) :
    0 < dm.wrapSsize (dm.toSsize len - dataLen ((us ++ [a]).filterMap g)) ↔
      Short dm len (List.filterMap g) (us ++ [a]) := by
  have hmore := dataLen_answer_le g a
  rw [Short]
  cases us with
  | nil => exact DataModel.wrapSsize_pos_iff (by rw [List.nil_append]; omega)
  | cons u us =>
    obtain ⟨hlt, hfirst⟩ := hus (List.cons_ne_nil u us)
    have hsplit : dataLen ((u :: us ++ [a]).filterMap g) =
        dataLen ((u :: us).filterMap g) + dataLen ([a].filterMap g) := by
      rw [List.filterMap_append, dataLen_append]
    have hhead : dataLen ((u :: us).filterMap g) =
        dataLen ([u].filterMap g) + dataLen (us.filterMap g) := by
      rw [← List.singleton_append, List.filterMap_append, dataLen_append]
    have htake : (u :: us ++ [a]).take 1 = [u] := rfl
    have htake' : (u :: us).take 1 = [u] := rfl
    rw [htake'] at hfirst
    rw [DataModel.wrapSsize_pos_iff (by omega), htake]
    exact and_congr_right fun _ => iff_of_true (by omega) hfirst

end

/-! ## `hal_com_read` -/

/-- The step lemma of `hal_com_read`. -/
theorem halComReadStep_sat {dm : DataModel} {s₀ s : ReadState} {h : List ReadAnswer}
    (a : ReadAnswer) (hs : Filled dm s₀ (framesRead h) s) :
    ∃ s', halComReadStep dm s a = s'.next dm ∧ Filled dm s₀ (framesRead (h ++ [a])) s' := by
  cases a with
  | error =>
    rw [framesRead_append, framesRead_error, List.append_nil]
    exact ⟨s, rfl, hs⟩
  | empty =>
    rw [framesRead_append, framesRead_empty, List.append_nil]
    exact ⟨s, rfl, hs⟩
  | frame f =>
    rw [framesRead_append, framesRead_frame]
    exact ⟨s.accept dm f, rfl, hs.accept f⟩

/-- The loop of `hal_com_read`, for a request of any length.  As long as it runs
it is short of the request, and it ends with the first answer after which it is not. -/
theorem halComReadLoop_spec (dm : DataModel) (ctx : HalComCtx) (buffer : Region UInt8)
    (len : Nat) (reads : List ReadAnswer) :
    ∃ used, reads = used ++ (run (halComReadStep dm) (readStart dm ctx buffer len) reads).2 ∧
      (run (halComReadStep dm) (readStart dm ctx buffer len) reads).1.Sat
        (fun s => (run (halComReadStep dm) (readStart dm ctx buffer len) reads).2 = [] ∧
          Filled dm (readStart dm ctx buffer len) (framesRead used) s ∧
          (used ≠ [] → Short dm len framesRead used))
        (fun r => ∃ us a, used = us ++ [a] ∧ (us ≠ [] → Short dm len framesRead us) ∧
          ¬ Short dm len framesRead used ∧
          Delivered dm (readStart dm ctx buffer len) (framesRead used) r) := by
  have hrun := run_sat (halComReadStep dm) (P := fun _ => True)
    (fun h s => Filled dm (readStart dm ctx buffer len) (framesRead h) s ∧
      (h ≠ [] → Short dm len framesRead h))
    (fun h r => ∃ us a, h = us ++ [a] ∧ (us ≠ [] → Short dm len framesRead us) ∧
      ¬ Short dm len framesRead h ∧
      Delivered dm (readStart dm ctx buffer len) (framesRead h) r)
    (h := []) (s := readStart dm ctx buffer len) ?_
    ⟨Filled.start dm ctx buffer len, fun h => absurd rfl h⟩ reads fun _ _ => trivial
  · simpa using hrun
  · intro h s a _ hinv
    obtain ⟨s', hstep, hs'⟩ := halComReadStep_sat a hinv.1
    have hleft := left_pos_iff hinv.2 a
    rw [hstep]
    apply hs'.next.imp
    · exact fun s'' hnext => ⟨hnext.1, fun _ => hleft.mp hnext.2⟩
    · exact fun r hend => ⟨h, a, rfl, hinv.2, mt hleft.mpr hend.2, hend.1⟩

/-- An answer that meets a request is a frame. -/
theorem exists_frame_of_reaches {q : Nat} {us : List ReadAnswer} {a : ReadAnswer}
    (hlt : dataLen (framesRead us) < q) (hge : q ≤ dataLen (framesRead (us ++ [a]))) :
    ∃ f, a = .frame f ∧ Reaches BusFrame.dlc q (framesRead us) f := by
  rw [framesRead_append, dataLen_append] at hge
  cases a with
  | error =>
    rw [framesRead_error, dataLen_nil] at hge
    omega
  | empty =>
    rw [framesRead_empty, dataLen_nil] at hge
    omega
  | frame f =>
    rw [framesRead_frame, dataLen_cons, dataLen_nil] at hge
    exact ⟨f, rfl, hlt, hge⟩

/-- What a call of `hal_com_read` does once the filter is set, for a request that
is a positive `ssize_t`.  It takes frames up to the one that reaches the
request, and it waits as long as there is none. -/
theorem halComRead_spec (dm : DataModel) (ctx : HalComCtx) (buffer : Region UInt8) {L : Nat}
    (hL : 0 < L) (hmax : L ≤ dm.SSIZE_MAX) {sockopt : Int} (hsock : 0 ≤ sockopt)
    (reads : List ReadAnswer) :
    ∃ used, reads = used ++ (halComRead dm ctx buffer L sockopt reads).2 ∧
      (halComRead dm ctx buffer L sockopt reads).1.Sat
        (fun s => (halComRead dm ctx buffer L sockopt reads).2 = [] ∧
          Filled dm (readStart dm ctx buffer L) (framesRead used) s ∧
          dataLen (framesRead used) < L)
        (fun r => ∃ us f, used = us ++ [.frame f] ∧ Reaches BusFrame.dlc L (framesRead us) f ∧
          Delivered dm (readStart dm ctx buffer L) (framesRead used) r) := by
  have hne : L ≠ 0 := by omega
  have hshort : ∀ us : List ReadAnswer, (us ≠ [] → Short dm L framesRead us) →
      dataLen (framesRead us) < L := by
    intro us hus
    rcases us with _ | ⟨a, us⟩
    · simpa using hL
    · exact (short_iff hmax framesRead _).mp (hus (by simp))
  unfold halComRead
  rw [if_neg hne, if_neg (by omega)]
  obtain ⟨used, hused, hsat⟩ := halComReadLoop_spec dm ctx buffer L reads
  refine ⟨used, hused, ?_⟩
  cases hrun : (run (halComReadStep dm) (readStart dm ctx buffer L) reads).1 with
  | again s =>
    rw [hrun, Step.sat_again] at hsat
    exact ⟨hsat.1, hsat.2.1, hshort used hsat.2.2⟩
  | done r =>
    rw [hrun, Step.sat_done] at hsat
    obtain ⟨us, a, rfl, hlt, hge, hdel⟩ := hsat
    rw [short_iff hmax, Nat.not_lt] at hge
    obtain ⟨f, rfl, hreach⟩ := exists_frame_of_reaches (hshort us hlt) hge
    exact ⟨us, f, rfl, hreach, hdel⟩

/-! ## `hal_com_read_timeout` -/

/-- The answers of `poll` that end the loop. -/
def PollAnswer.stops : PollAnswer → Bool
  | .fail => true
  | .timeout => true
  | _ => false

/-- One more answer that does not end the loop. -/
theorem running_snoc {us : List PollAnswer} {a : PollAnswer} (hus : ∀ b ∈ us, b.stops = false)
    (ha : a.stops = false) : ∀ b ∈ us ++ [a], b.stops = false :=
  List.forall_mem_append.mpr ⟨hus, List.forall_mem_singleton.mpr ha⟩

/-- A pass that does not stop ends with the loop condition. -/
theorem halComReadTimeoutStep_next {dm : DataModel} {s₀ s : ReadState} {h : List PollAnswer}
    {a : PollAnswer} (hs : Filled dm s₀ (framesPolled h) s) (ha : a.stops = false) :
    ∃ s', halComReadTimeoutStep dm s a = s'.next dm ∧
      Filled dm s₀ (framesPolled (h ++ [a])) s' := by
  rw [framesPolled_append]
  cases a with
  | fail => cases ha
  | timeout => cases ha
  | noInput =>
    rw [framesPolled_noInput, List.append_nil]
    exact ⟨s, rfl, hs⟩
  | input r =>
    rw [framesPolled_input]
    cases r with
    | error =>
      rw [framesRead_error, List.append_nil]
      exact ⟨s, rfl, hs⟩
    | empty =>
      rw [framesRead_empty, List.append_nil]
      exact ⟨s, rfl, hs⟩
    | frame f =>
      rw [framesRead_frame]
      exact ⟨s.accept dm f, rfl, hs.accept f⟩

/-- The answers before the first time limit or failure of `poll`. -/
def beforeStop (polls : List PollAnswer) : List PollAnswer :=
  polls.takeWhile fun a => !a.stops

theorem beforeStop_of_running {us : List PollAnswer} (hus : ∀ a ∈ us, a.stops = false)
    (rest : List PollAnswer) : beforeStop (us ++ rest) = us ++ beforeStop rest := by
  rw [beforeStop, beforeStop, List.takeWhile_append_of_pos]
  intro a ha
  rw [hus a ha]
  rfl

theorem beforeStop_of_stops {a : PollAnswer} (ha : a.stops = true) (rest : List PollAnswer) :
    beforeStop (a :: rest) = [] := by
  rw [beforeStop, List.takeWhile_cons_of_neg]
  simp [ha]

/-- What a call of `hal_com_read_timeout` guarantees when it returns after some
answers: the request was reached, or a time limit ended it with what was there,
or `poll` failed. -/
inductive TimedPost (dm : DataModel) (s₀ : ReadState) (L : Nat) :
    List PollAnswer → ReadResult → Prop where
  | reached {us : List PollAnswer} {f : BusFrame} {r : ReadResult}
      (hus : ∀ a ∈ us, a.stops = false) (hreach : Reaches BusFrame.dlc L (framesPolled us) f)
      (hr : Delivered dm s₀ (framesPolled us ++ [f]) r) :
      TimedPost dm s₀ L (us ++ [.input (.frame f)]) r
  | timedOut {us : List PollAnswer} {r : ReadResult}
      (hus : ∀ a ∈ us, a.stops = false) (hlt : dataLen (framesPolled us) < L)
      (hr : Delivered dm s₀ (framesPolled us) r) :
      TimedPost dm s₀ L (us ++ [.timeout]) r
  | failed {us : List PollAnswer} {r : ReadResult}
      (hus : ∀ a ∈ us, a.stops = false) (hlt : dataLen (framesPolled us) < L)
      (hr : Aborted HAL_ERR_FILE_IOCTL s₀ (framesPolled us) r) :
      TimedPost dm s₀ L (us ++ [.fail]) r

/-- The invariant of the loop of `hal_com_read_timeout` after the answers `h`. -/
structure TimedInv (dm : DataModel) (s₀ : ReadState) (L : Nat) (h : List PollAnswer)
    (s : ReadState) : Prop where
  filled : Filled dm s₀ (framesPolled h) s
  short : dataLen (framesPolled h) < L
  running : ∀ a ∈ h, a.stops = false

/-- A pass that takes no frame and does not stop keeps the invariant. -/
theorem TimedInv.idle {dm : DataModel} {s₀ s : ReadState} {L : Nat} {h : List PollAnswer}
    {a : PollAnswer} (hs : TimedInv dm s₀ L h s) (hframes : framesPolled [a] = [])
    (ha : a.stops = false) : TimedInv dm s₀ L (h ++ [a]) s := by
  have happ : framesPolled (h ++ [a]) = framesPolled h := by
    rw [framesPolled_append, hframes, List.append_nil]
  exact ⟨happ ▸ hs.filled, happ ▸ hs.short, running_snoc hs.running ha⟩

/-- The step lemma of `hal_com_read_timeout`. -/
theorem halComReadTimeoutStep_sat {dm : DataModel} {s₀ s : ReadState} {h : List PollAnswer}
    {L : Nat} (hmax : L ≤ dm.SSIZE_MAX) (hleft : s₀.left = L) (a : PollAnswer)
    (hs : TimedInv dm s₀ L h s) :
    (halComReadTimeoutStep dm s a).Sat (TimedInv dm s₀ L (h ++ [a]))
      (TimedPost dm s₀ L (h ++ [a])) := by
  -- a pass that takes no frame asks again
  have hidle : s.next dm = .again s := by
    have hshort := hs.short
    have hsleft := hs.filled.left
    rw [hleft, DataModel.wrapSsize_of_range (by omega) (by omega)] at hsleft
    rw [ReadState.next, if_pos (by omega)]
  cases a with
  | fail => exact .failed hs.running hs.short (hs.filled.abort HAL_ERR_FILE_IOCTL)
  | timeout => exact .timedOut hs.running hs.short hs.filled.finish
  | noInput =>
    rw [halComReadTimeoutStep, hidle]
    exact hs.idle framesPolled_noInput rfl
  | input r =>
    cases r with
    | error =>
      rw [halComReadTimeoutStep, hidle]
      exact hs.idle (framesPolled_input _) rfl
    | empty =>
      rw [halComReadTimeoutStep, hidle]
      exact hs.idle (framesPolled_input _) rfl
    | frame f =>
      have hframes : framesPolled (h ++ [.input (.frame f)]) = framesPolled h ++ [f] := by simp
      have hnext := (hs.filled.accept f).next
      have hshort := hs.short
      have hdlc : f.dlc ≤ 8 := f.dlc_le
      have hlen : dataLen (framesPolled h ++ [f]) = dataLen (framesPolled h) + f.dlc := by simp
      have hrange : dm.wrapSsize (s₀.left - dataLen (framesPolled h ++ [f])) =
          L - (dataLen (framesPolled h) + f.dlc : Nat) := by
        rw [hleft, hlen]
        have := dm.eight_le_SSIZE_MAX
        exact DataModel.wrapSsize_of_range (by omega) (by omega)
      rw [hrange] at hnext
      rw [halComReadTimeoutStep]
      cases hn : (s.accept dm f).next dm with
      | again s' =>
        rw [hn, Step.sat_again] at hnext
        refine ⟨hframes ▸ hnext.1, ?_, running_snoc hs.running rfl⟩
        rw [hframes, hlen]
        have := hnext.2
        omega
      | done r =>
        rw [hn, Step.sat_done] at hnext
        have hge := hnext.2
        exact .reached hs.running ⟨hs.short, by simp only [weight_dlc]; omega⟩ hnext.1

/-- What a call of `hal_com_read_timeout` does once the filter is set, for a
request that is a positive `ssize_t`. -/
theorem halComReadTimeout_spec (dm : DataModel) (ctx : HalComCtx) (buffer : Region UInt8)
    {L : Nat} (hL : 0 < L) (hmax : L ≤ dm.SSIZE_MAX) {sockopt : Int} (hsock : 0 ≤ sockopt)
    (polls : List PollAnswer) :
    ∃ used, polls = used ++ (halComReadTimeout dm ctx buffer L sockopt polls).2 ∧
      (halComReadTimeout dm ctx buffer L sockopt polls).1.Sat
        (fun s => (halComReadTimeout dm ctx buffer L sockopt polls).2 = [] ∧
          TimedInv dm (readStart dm ctx buffer L) L used s)
        (TimedPost dm (readStart dm ctx buffer L) L used) := by
  have hne : L ≠ 0 := by omega
  have hleft : (readStart dm ctx buffer L).left = L := DataModel.toSsize_of_le hmax
  unfold halComReadTimeout
  rw [if_neg hne, if_neg (by omega)]
  have hstart : TimedInv dm (readStart dm ctx buffer L) L [] (readStart dm ctx buffer L) :=
    ⟨Filled.start dm ctx buffer L, by simpa using hL, by simp⟩
  have hrun := run_sat (halComReadTimeoutStep dm) (P := fun _ => True)
    (TimedInv dm (readStart dm ctx buffer L) L) (TimedPost dm (readStart dm ctx buffer L) L)
    (fun h s a _ hinv => halComReadTimeoutStep_sat hmax hleft a hinv) hstart polls
    fun _ _ => trivial
  simpa using hrun

/-! ## The context after a call -/

/-- The context that a call of a read function has left so far. -/
def ctxAfter : Step ReadState ReadResult → HalComCtx
  | .again s => s.ctx
  | .done r => r.ctx

/-- Whatever length is asked for, `hal_com_read` changes the context only by
storing the ids of the frames that it takes. -/
theorem ctxAfter_read (dm : DataModel) (ctx : HalComCtx) (buffer : Region UInt8) (len : Nat)
    (sockopt : Int) (reads : List ReadAnswer) :
    ∃ used, reads = used ++ (halComRead dm ctx buffer len sockopt reads).2 ∧
      ctxAfter (halComRead dm ctx buffer len sockopt reads).1 =
        { ctx with currentCanId := lastId ctx.currentCanId (framesRead used) } := by
  unfold halComRead
  split_ifs
  · exact ⟨[], rfl, rfl⟩
  · exact ⟨[], rfl, rfl⟩
  obtain ⟨used, hused, hsat⟩ := halComReadLoop_spec dm ctx buffer len reads
  refine ⟨used, hused, ?_⟩
  cases hrun : (run (halComReadStep dm) (readStart dm ctx buffer len) reads).1 with
  | again s =>
    rw [hrun, Step.sat_again] at hsat
    exact hsat.2.1.ctx
  | done r =>
    rw [hrun, Step.sat_done] at hsat
    obtain ⟨_, _, _, _, _, hdel⟩ := hsat
    exact hdel.ctx

/-- One pass of `hal_com_read_timeout`, for a request of any length. -/
theorem halComReadTimeoutStep_ctx {dm : DataModel} {s₀ s : ReadState} {h : List PollAnswer}
    (a : PollAnswer) (hs : Filled dm s₀ (framesPolled h) s) :
    (halComReadTimeoutStep dm s a).Sat (Filled dm s₀ (framesPolled (h ++ [a])))
      fun r => r.ctx =
        { s₀.ctx with currentCanId := lastId s₀.ctx.currentCanId (framesPolled (h ++ [a])) } := by
  cases hstops : a.stops with
  | true =>
    rw [framesPolled_append]
    cases a with
    | fail =>
      rw [framesPolled_fail, List.append_nil]
      exact hs.ctx
    | timeout =>
      rw [framesPolled_timeout, List.append_nil]
      exact hs.ctx
    | noInput => cases hstops
    | input r => cases hstops
  | false =>
    obtain ⟨s', hstep, hs'⟩ := halComReadTimeoutStep_next hs hstops
    rw [hstep]
    exact hs'.next.imp (fun _ hagain => hagain.1) fun _ hdone => hdone.1.ctx

/-- The same for `hal_com_read_timeout`. -/
theorem ctxAfter_readTimeout (dm : DataModel) (ctx : HalComCtx) (buffer : Region UInt8)
    (len : Nat) (sockopt : Int) (polls : List PollAnswer) :
    ∃ used, polls = used ++ (halComReadTimeout dm ctx buffer len sockopt polls).2 ∧
      ctxAfter (halComReadTimeout dm ctx buffer len sockopt polls).1 =
        { ctx with currentCanId := lastId ctx.currentCanId (framesPolled used) } := by
  unfold halComReadTimeout
  split_ifs
  · exact ⟨[], rfl, rfl⟩
  · exact ⟨[], rfl, rfl⟩
  have hstart : Filled dm (readStart dm ctx buffer len) (framesPolled [])
      (readStart dm ctx buffer len) := Filled.start dm ctx buffer len
  obtain ⟨used, hused, hsat⟩ := run_sat (halComReadTimeoutStep dm) (P := fun _ => True)
    (fun h => Filled dm (readStart dm ctx buffer len) (framesPolled h))
    (fun h r => r.ctx = { ctx with currentCanId := lastId ctx.currentCanId (framesPolled h) })
    (fun _ _ a _ hinv => halComReadTimeoutStep_ctx a hinv) hstart polls fun _ _ => trivial
  refine ⟨used, hused, ?_⟩
  cases hrun : (run (halComReadTimeoutStep dm) (readStart dm ctx buffer len) polls).1 with
  | again s =>
    rw [hrun, Step.sat_again] at hsat
    exact hsat.2.ctx
  | done r =>
    rw [hrun, Step.sat_done] at hsat
    exact hsat

/-- A call of `hal_com_read_timeout` that has not returned has taken every answer. -/
theorem readTimeout_again_rest {dm : DataModel} {ctx : HalComCtx} {buffer : Region UInt8}
    {len : Nat} {sockopt : Int} {polls rest : List PollAnswer} {s : ReadState}
    (h : halComReadTimeout dm ctx buffer len sockopt polls = (.again s, rest)) : rest = [] := by
  unfold halComReadTimeout at h
  split_ifs at h
  · exact absurd (Prod.mk.inj h).1 (by simp)
  · exact absurd (Prod.mk.inj h).1 (by simp)
  · exact run_again_rest h

/-! ## Calls whose frames arrive -/

/-- What a read function does when the frames that it waits for arrive: it takes
exactly those up to the frame that reaches the request, and the next call finds
the others.  `frames` are the frames of a list of answers. -/
def Delivers {α : Type} (dm : DataModel)
    (call : HalComCtx → Region UInt8 → Nat → Int → List α → Step ReadState ReadResult × List α)
    (frames : List α → List BusFrame) : Prop :=
  ∀ (ctx : HalComCtx) (buffer : Region UInt8) (L : Nat) (sockopt : Int) (answers : List α)
    (fs gs : List BusFrame) (f : BusFrame), L ≤ dm.SSIZE_MAX → 0 ≤ sockopt →
    frames answers = fs ++ f :: gs → Reaches BusFrame.dlc L fs f →
    ∃ r rest, call ctx buffer L sockopt answers = (.done r, rest) ∧ frames rest = gs ∧
      Delivered dm (readStart dm ctx buffer L) (fs ++ [f]) r

/-- A frame that reaches a request brings at most seven bytes too many. -/
theorem dataLen_le_of_reaches {L : Nat} {fs : List BusFrame} {f : BusFrame}
    (h : Reaches BusFrame.dlc L fs f) : dataLen (fs ++ [f]) ≤ L + 7 := by
  have hdlc : f.dlc ≤ 8 := f.dlc_le
  have hlt : dataLen fs < L := h.1
  rw [dataLen_append, dataLen_cons, dataLen_nil]
  omega

/-- The frames up to the one that reaches a request weigh at least as much. -/
theorem le_dataLen_of_reaches {L : Nat} {fs : List BusFrame} {f : BusFrame}
    (h : Reaches BusFrame.dlc L fs f) (gs : List BusFrame) : L ≤ dataLen (fs ++ f :: gs) := by
  have hge : L ≤ dataLen fs + f.dlc := h.2
  rw [dataLen_append, dataLen_cons]
  omega

theorem halComRead_delivers (dm : DataModel) : Delivers dm (halComRead dm) framesRead := by
  intro ctx buffer L sockopt reads fs gs f hmax hsock hreads hreach
  have hL : 0 < L := Nat.lt_of_le_of_lt (Nat.zero_le _) hreach.1
  obtain ⟨used, hused, hsat⟩ := halComRead_spec dm ctx buffer hL hmax hsock reads
  generalize halComRead dm ctx buffer L sockopt reads = call at hused hsat ⊢
  obtain ⟨call, rest⟩ := call
  dsimp only at hused hsat
  have hge := le_dataLen_of_reaches hreach gs
  rw [← hreads, hused] at hge
  cases call with
  | again s =>
    -- a call that still waits has not seen enough frames
    rw [Step.sat_again] at hsat
    obtain ⟨hrest, _, hlt⟩ := hsat
    rw [hrest, List.append_nil] at hge
    omega
  | done r =>
    rw [Step.sat_done] at hsat
    obtain ⟨us, g, rfl, hreach', hdel⟩ := hsat
    rw [hused, framesRead_append, framesRead_append, framesRead_frame, List.append_assoc,
      List.singleton_append] at hreads
    obtain ⟨hfs, rfl, hgs⟩ := reaches_unique hreach' hreach hreads
    rw [framesRead_append, framesRead_frame, hfs] at hdel
    exact ⟨r, rest, rfl, hgs, hdel⟩

theorem halComReadTimeout_delivers (dm : DataModel) :
    Delivers dm (halComReadTimeout dm) fun polls => framesPolled (beforeStop polls) := by
  intro ctx buffer L sockopt polls fs gs f hmax hsock hpolls hreach
  have hL : 0 < L := Nat.lt_of_le_of_lt (Nat.zero_le _) hreach.1
  obtain ⟨used, hused, hsat⟩ := halComReadTimeout_spec dm ctx buffer hL hmax hsock polls
  generalize halComReadTimeout dm ctx buffer L sockopt polls = call at hused hsat ⊢
  obtain ⟨call, rest⟩ := call
  dsimp only at hused hsat
  have hge := le_dataLen_of_reaches hreach gs
  dsimp only at hpolls
  rw [← hpolls, hused] at hge
  cases call with
  | again s =>
    rw [Step.sat_again] at hsat
    obtain ⟨hrest, hinv⟩ := hsat
    have hlt := hinv.short
    rw [hrest, beforeStop_of_running hinv.running, beforeStop, List.takeWhile_nil,
      List.append_nil] at hge
    omega
  | done r =>
    rw [Step.sat_done] at hsat
    cases hsat with
    | @reached us g r hus hreach' hdel =>
      rw [hused, beforeStop_of_running (running_snoc hus rfl), framesPolled_append,
        framesPolled_append,
        framesPolled_input, framesRead_frame, List.append_assoc, List.singleton_append] at hpolls
      obtain ⟨hfs, rfl, hgs⟩ := reaches_unique hreach' hreach hpolls
      rw [hfs] at hdel
      exact ⟨r, rest, rfl, hgs, hdel⟩
    | @timedOut us r hus hlt =>
      rw [List.append_assoc, beforeStop_of_running hus, List.singleton_append,
        beforeStop_of_stops rfl, List.append_nil] at hge
      omega
    | @failed us r hus hlt =>
      rw [List.append_assoc, beforeStop_of_running hus, List.singleton_append,
        beforeStop_of_stops rfl, List.append_nil] at hge
      omega

end CanbusAgent.HalCom

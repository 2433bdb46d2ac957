import CanbusAgent.HalCom.Read

/-!
# The timed read next to the blocking one

`hal_com_read_timeout` is a copy of `hal_com_read` with a `poll` before each
`read`.  As long as no time limit ends it, it does what `hal_com_read` does on the
same results of `read`.  When `poll` fails after some frames, the frames are gone
and the caller learns nothing about them.
-/

namespace CanbusAgent.HalCom

open Chunks DrivenLoop Region

/-! ## Agreement -/

/-- The answer of `read` that comes with an answer of `poll`. -/
def PollAnswer.read? : PollAnswer → Option ReadAnswer
  | .input r => some r
  | _ => none

/-- The results of `read` in a schedule of `poll` and `read`. -/
def readsOf (polls : List PollAnswer) : List ReadAnswer := polls.filterMap (·.read?)

theorem framesRead_readsOf (polls : List PollAnswer) :
    framesRead (readsOf polls) = framesPolled polls := by
  unfold framesRead readsOf framesPolled
  rw [List.filterMap_filterMap]
  congr 1
  funext a
  cases a <;> rfl

/-- The loop only goes on while bytes are missing. -/
theorem ReadState.left_of_next {dm : DataModel} {s s' : ReadState} (h : s.next dm = .again s') :
    0 < s'.left := by
  unfold ReadState.next at h
  split at h
  · next hpos =>
    cases h
    exact hpos
  · cases h

theorem halComReadTimeoutStep_left {dm : DataModel} {s s' : ReadState} {a : PollAnswer}
    (h : halComReadTimeoutStep dm s a = .again s') : 0 < s'.left := by
  cases a with
  | fail => cases h
  | timeout => cases h
  | noInput => exact ReadState.left_of_next h
  | input r =>
    cases r with
    | error => exact ReadState.left_of_next h
    | empty => exact ReadState.left_of_next h
    | frame f => exact ReadState.left_of_next h

/-- When neither a time limit nor a failure ends the timed read, the blocking read
ends with the same result on the same results of `read`. -/
theorem halComRead_of_timeout {dm : DataModel} {ctx : HalComCtx} {buffer : Region UInt8} {L : Nat}
    (hL : 0 < L) (hmax : L ≤ dm.SSIZE_MAX) {sockopt : Int} (hsock : 0 ≤ sockopt)
    {used rest : List PollAnswer} (hused : ∀ a ∈ used, a.stops = false) {r : ReadResult}
    (h : halComReadTimeout dm ctx buffer L sockopt (used ++ rest) = (.done r, rest)) :
    halComRead dm ctx buffer L sockopt (readsOf (used ++ rest)) = (.done r, readsOf rest) := by
  have hne : L ≠ 0 := by omega
  have hstart : 0 < (readStart dm ctx buffer L).left := by
    show 0 < dm.toSsize L
    rw [DataModel.toSsize_of_le hmax]
    omega
  unfold halComReadTimeout at h
  rw [if_neg hne, if_neg (by omega)] at h
  unfold halComRead
  rw [if_neg hne, if_neg (by omega)]
  refine run_filterMap (·.read?) (fun s => 0 < s.left)
    (fun s a s' _ hs => halComReadTimeoutStep_left hs) ?_ ?_ hstart hused h
  · -- a wake-up without input asks again
    intro s a hs ha hnone
    cases a with
    | fail => cases ha
    | timeout => cases ha
    | noInput =>
      show s.next dm = .again s
      rw [ReadState.next, if_pos hs]
    | input r => cases hnone
  · intro s a k _ _ hsome
    cases a with
    | fail => cases hsome
    | timeout => cases hsome
    | noInput => cases hsome
    | input r =>
      cases hsome
      cases k <;> rfl

/-- What a timed read that returns after the answers `used` hands over.  The first
case of `taken` is the shortest run of frames that reaches the request, the second
is every frame before the first time limit. -/
structure TimedOutcome (ctx : HalComCtx) (m : Nat → UInt8) (L : Nat)
    (polls used : List PollAnswer) (r : ReadResult) : Prop where
  ret : r.ret = 0
  taken : (∃ fs f gs, framesPolled used = fs ++ [f] ∧ Reaches BusFrame.dlc L fs f ∧
      framesPolled (beforeStop polls) = fs ++ f :: gs) ∨
    (framesPolled used = framesPolled (beforeStop polls) ∧ dataLen (framesPolled used) < L)
  bytes : r.buffer.bytes = overlay m 0 (dataBytes (framesPolled used))
  stores : r.buffer.StoresBelow (L + 7)
  len : r.len = dataLen (framesPolled used)
  ctx : r.ctx = { ctx with currentCanId := lastId ctx.currentCanId (framesPolled used) }

theorem Delivered.timedOutcome {dm : DataModel} {ctx : HalComCtx} {m : Nat → UInt8} {L : Nat}
    {polls used : List PollAnswer} {r : ReadResult} (hmax : L ≤ dm.SSIZE_MAX)
    (h : Delivered dm (readStart dm ctx (fresh m) L) (framesPolled used) r)
    (hle : dataLen (framesPolled used) ≤ L + 7)
    (htaken : (∃ fs f gs, framesPolled used = fs ++ [f] ∧ Reaches BusFrame.dlc L fs f ∧
        framesPolled (beforeStop polls) = fs ++ f :: gs) ∨
      (framesPolled used = framesPolled (beforeStop polls) ∧ dataLen (framesPolled used) < L)) :
    TimedOutcome ctx m L polls used r where
  ret := h.ret
  taken := htaken
  bytes := h.bytes
  stores := by
    rw [h.stores]
    exact ⟨hle, by simp [readStart, fresh, StoresBelow]⟩
  len := by rw [h.len, DataModel.toSize_of_le_add (by omega)]
  ctx := h.ctx

/-- The timed and the blocking read agree.  A timed read in which no call fails
hands over the frames up to the request or the first time limit, and when
the frames before the first time limit reach the request, the blocking read on the
same results of `read` ends with the same result and takes the same frames. -/
theorem readTimeout_agrees (dm : DataModel) (ctx : HalComCtx) (m : Nat → UInt8) {L : Nat}
    (hL : 0 < L) (hmax : L ≤ dm.SSIZE_MAX) {sockopt : Int} (hsock : 0 ≤ sockopt)
    {polls rest : List PollAnswer} {r : ReadResult}
    (hret : halComReadTimeout dm ctx (fresh m) L sockopt polls = (.done r, rest))
    (hfail : ∀ used, polls = used ++ rest → .fail ∉ used) :
    ∃ used, polls = used ++ rest ∧ TimedOutcome ctx m L polls used r ∧
      (L ≤ dataLen (framesPolled (beforeStop polls)) →
        halComRead dm ctx (fresh m) L sockopt (readsOf polls) = (.done r, readsOf rest) ∧
          readsOf polls = readsOf used ++ readsOf rest ∧
          framesRead (readsOf used) = framesPolled used) := by
  obtain ⟨used, hused, hsat⟩ := halComReadTimeout_spec dm ctx (fresh m) hL hmax hsock polls
  rw [hret] at hused hsat
  dsimp only at hused hsat
  rw [Step.sat_done] at hsat
  have hreads : readsOf polls = readsOf used ++ readsOf rest := by
    rw [hused]
    exact List.filterMap_append
  refine ⟨used, hused, ?_⟩
  cases hsat with
  | @reached us f r hus hreach hdel =>
    have hframes : framesPolled (us ++ [.input (.frame f)]) = framesPolled us ++ [f] := by simp
    have hrunning : ∀ a ∈ us ++ [PollAnswer.input (.frame f)], a.stops = false :=
      running_snoc hus rfl
    rw [← hframes] at hdel
    refine ⟨hdel.timedOutcome hmax ?_ (.inl ⟨_, f, framesPolled (beforeStop rest), hframes, hreach,
      ?_⟩), fun _ => ⟨?_, hreads, framesRead_readsOf _⟩⟩
    · rw [hframes]
      exact dataLen_le_of_reaches hreach
    · rw [hused, beforeStop_of_running hrunning, framesPolled_append, hframes, List.append_assoc]
      rfl
    · rw [hused] at hret ⊢
      exact halComRead_of_timeout hL hmax hsock hrunning hret
  | @timedOut us r hus hlt hdel =>
    have hframes : framesPolled (us ++ [.timeout]) = framesPolled us := by simp
    have hbefore : beforeStop polls = us := by
      rw [hused, List.append_assoc, beforeStop_of_running hus, List.singleton_append,
        beforeStop_of_stops rfl, List.append_nil]
    rw [← hframes] at hdel hlt
    refine ⟨hdel.timedOutcome hmax (by omega) (.inr ⟨by rw [hframes, hbefore], hlt⟩), ?_⟩
    intro hge
    rw [hbefore, ← hframes] at hge
    omega
  | failed =>
    apply absurd _ (hfail _ hused)
    simp

/-- A spurious wake-up, a failing `read`, two frames and an empty result between
them; the time limit comes too late. -/
theorem readTimeout_agrees_eight :
    ∃ r, halComReadTimeout .ilp32 (openCtx 0) (fresh fun _ => 0) 6 0
        [.noInput, .input .error, .input (.frame (dataFrame 1 3 0xaa)), .input .empty,
          .input (.frame (dataFrame 2 5 0xbb)), .timeout] = (.done r, [.timeout]) ∧
      r.len = 8 ∧
      halComRead .ilp32 (openCtx 0) (fresh fun _ => 0) 6 0
        [.error, .frame (dataFrame 1 3 0xaa), .empty, .frame (dataFrame 2 5 0xbb)] =
          (.done r, []) := by
  refine ⟨_, rfl, rfl, ?_⟩
  have hret : halComReadTimeout .ilp32 (openCtx 0) (fresh fun _ => 0) 6 0
      [.noInput, .input .error, .input (.frame (dataFrame 1 3 0xaa)), .input .empty,
        .input (.frame (dataFrame 2 5 0xbb)), .timeout] = (.done _, [.timeout]) := rfl
  have hnone : PollAnswer.fail ∉ [.noInput, .input .error, .input (.frame (dataFrame 1 3 0xaa)),
      .input .empty, .input (.frame (dataFrame 2 5 0xbb)), .timeout] := by decide
  obtain ⟨_, _, _, hread⟩ := readTimeout_agrees .ilp32 (openCtx 0) (fun _ => 0)
    (by decide) (by decide) (Int.le_refl 0) hret
    fun used hused h => hnone (hused ▸ List.mem_append_left _ h)
  exact (hread (by decide)).1

/-! ## Failing calls -/

/-- A pass that does not stop, on an answer that leaves the call short of the
request. -/
theorem halComReadTimeoutStep_running {dm : DataModel} {s₀ s : ReadState} {h : List PollAnswer}
    {a : PollAnswer} (hleft : s₀.left = dm.toSsize s₀.len) (hs : Filled dm s₀ (framesPolled h) s)
    (ha : a.stops = false) (hshort : Short dm s₀.len framesPolled (h ++ [a])) :
    ∃ s', halComReadTimeoutStep dm s a = .again s' ∧
      Filled dm s₀ (framesPolled (h ++ [a])) s' := by
  obtain ⟨s', hstep, hs'⟩ := halComReadTimeoutStep_next hs ha
  have hpos := (left_pos_iff (fun hne => hshort.of_append hne) a).mpr hshort
  refine ⟨s', ?_, hs'⟩
  rw [hstep, ReadState.next, if_pos (by rw [hs'.left, hleft]; exact hpos)]

/-- A failure of `poll` while the call is short of the request. -/
theorem run_fail {dm : DataModel} {s₀ s : ReadState} {h us : List PollAnswer}
    (hleft : s₀.left = dm.toSsize s₀.len) (hs : Filled dm s₀ (framesPolled h) s)
    (hus : ∀ a ∈ us, a.stops = false) (hshort : Short dm s₀.len framesPolled (h ++ us))
    (rest : List PollAnswer) :
    ∃ r, run (halComReadTimeoutStep dm) s (us ++ .fail :: rest) = (.done r, rest) ∧
      Aborted HAL_ERR_FILE_IOCTL s₀ (framesPolled (h ++ us)) r := by
  induction us generalizing h s with
  | nil =>
    rw [List.append_nil]
    exact ⟨_, run_cons_done rfl rest, hs.abort HAL_ERR_FILE_IOCTL⟩
  | cons a us ih =>
    have ha : a.stops = false := hus a List.mem_cons_self
    have happ : h ++ a :: us = (h ++ [a]) ++ us := by simp
    rw [happ] at hshort ⊢
    obtain ⟨s', hstep, hs'⟩ :=
      halComReadTimeoutStep_running hleft hs ha (hshort.of_append (by simp))
    rw [List.cons_append, run_cons_again hstep]
    exact ih hs' (fun b hb => hus b (List.mem_cons_of_mem a hb)) hshort

/-- The invariant of the loop for a request of any length. -/
structure AnyInv (dm : DataModel) (s₀ : ReadState) (h : List PollAnswer) (s : ReadState) :
    Prop where
  filled : Filled dm s₀ (framesPolled h) s
  running : ∀ a ∈ h, a.stops = false
  short : h ≠ [] → Short dm s₀.len framesPolled h

/-- A result other than 0 comes from a failure of `poll` while the loop ran. -/
def AnyPost (dm : DataModel) (s₀ : ReadState) (h : List PollAnswer) (r : ReadResult) : Prop :=
  r.ret = 0 ∨ ∃ us, h = us ++ [.fail] ∧ (∀ a ∈ us, a.stops = false) ∧
    (us ≠ [] → Short dm s₀.len framesPolled us) ∧
    Aborted HAL_ERR_FILE_IOCTL s₀ (framesPolled us) r

/-- What a call that ends, for a request of any length, has seen and left: its last
answer met the request, or it was a time limit or a failure of `poll`. -/
inductive AnyEnd (dm : DataModel) (s₀ : ReadState) : List PollAnswer → ReadResult → Prop where
  | met {s : ReadState} {us : List PollAnswer} {a : PollAnswer} {r : ReadResult}
      (hus : AnyInv dm s₀ us s) (ha : a.stops = false)
      (hr : Delivered dm s₀ (framesPolled (us ++ [a])) r)
      (hge : ¬ Short dm s₀.len framesPolled (us ++ [a])) : AnyEnd dm s₀ (us ++ [a]) r
  | timedOut {s : ReadState} {us : List PollAnswer} {r : ReadResult} (hus : AnyInv dm s₀ us s)
      (hr : Delivered dm s₀ (framesPolled us) r) : AnyEnd dm s₀ (us ++ [.timeout]) r
  | failed {s : ReadState} {us : List PollAnswer} {r : ReadResult} (hus : AnyInv dm s₀ us s)
      (hr : Aborted HAL_ERR_FILE_IOCTL s₀ (framesPolled us) r) : AnyEnd dm s₀ (us ++ [.fail]) r

/-- The step lemma of `hal_com_read_timeout` for a request of any length. -/
theorem halComReadTimeoutStep_end {dm : DataModel} {s₀ s : ReadState} {h : List PollAnswer}
    (hleft : s₀.left = dm.toSsize s₀.len) (a : PollAnswer) (hs : AnyInv dm s₀ h s) :
    (halComReadTimeoutStep dm s a).Sat (AnyInv dm s₀ (h ++ [a])) (AnyEnd dm s₀ (h ++ [a])) := by
  cases ha : a.stops with
  | true =>
    cases a with
    | fail => exact .failed hs (hs.filled.abort HAL_ERR_FILE_IOCTL)
    | timeout => exact .timedOut hs hs.filled.finish
    | noInput => cases ha
    | input r => cases ha
  | false =>
    obtain ⟨s', hstep, hs'⟩ := halComReadTimeoutStep_next hs.filled ha
    have hpos := left_pos_iff hs.short a
    rw [← hleft] at hpos
    rw [hstep]
    apply hs'.next.imp
    · exact fun s'' hnext => ⟨hnext.1, running_snoc hs.running ha, fun _ => hpos.mp hnext.2⟩
    · exact fun r hend => .met hs ha hend.1 (mt hpos.mpr hend.2)

/-- The loop of `hal_com_read_timeout`, for a request of any length. -/
theorem halComReadTimeoutLoop_spec (dm : DataModel) (ctx : HalComCtx) (buffer : Region UInt8)
    (len : Nat) (polls : List PollAnswer) :
    ∃ used, polls =
        used ++ (run (halComReadTimeoutStep dm) (readStart dm ctx buffer len) polls).2 ∧
      (run (halComReadTimeoutStep dm) (readStart dm ctx buffer len) polls).1.Sat
        (fun s => (run (halComReadTimeoutStep dm) (readStart dm ctx buffer len) polls).2 = [] ∧
          AnyInv dm (readStart dm ctx buffer len) used s)
        (AnyEnd dm (readStart dm ctx buffer len) used) := by
  have hstart : AnyInv dm (readStart dm ctx buffer len) [] (readStart dm ctx buffer len) :=
    ⟨Filled.start dm ctx buffer len, by simp, fun hne => absurd rfl hne⟩
  have hrun := run_sat (halComReadTimeoutStep dm) (P := fun _ => True)
    (AnyInv dm (readStart dm ctx buffer len)) (AnyEnd dm (readStart dm ctx buffer len))
    (fun _ _ a _ hinv => halComReadTimeoutStep_end rfl a hinv) hstart polls
    fun _ _ => trivial
  simpa using hrun

theorem AnyEnd.post {dm : DataModel} {s₀ : ReadState} {h : List PollAnswer} {r : ReadResult}
    (hr : AnyEnd dm s₀ h r) : AnyPost dm s₀ h r := by
  cases hr with
  | met _ _ hdel => exact .inl hdel.ret
  | timedOut _ hdel => exact .inl hdel.ret
  | failed hus hab => exact .inr ⟨_, rfl, hus.running, hus.short, hab⟩

/-- What a call that returns a code other than 0 has seen, for a request of any
length: `setsockopt` failed, or `poll` did while the call was short of the request. -/
theorem halComReadTimeout_failed {dm : DataModel} {ctx : HalComCtx} {buffer : Region UInt8}
    {len : Nat} {sockopt : Int} {polls rest : List PollAnswer} {r : ReadResult}
    (h : halComReadTimeout dm ctx buffer len sockopt polls = (.done r, rest)) (hret : r.ret ≠ 0) :
    (rest = polls ∧ r = { ret := HAL_ERR_FILE_IOCTL, ctx, buffer, len }) ∨
      (0 ≤ sockopt ∧ ∃ us, polls = us ++ .fail :: rest ∧ (∀ a ∈ us, a.stops = false) ∧
        (us ≠ [] → Short dm len framesPolled us) ∧
        Aborted HAL_ERR_FILE_IOCTL (readStart dm ctx buffer len) (framesPolled us) r) := by
  unfold halComReadTimeout at h
  split_ifs at h with h0 hneg
  · obtain ⟨hr, _⟩ := Prod.mk.inj h
    cases hr
    exact absurd rfl hret
  · obtain ⟨hr, hrest⟩ := Prod.mk.inj h
    cases hr
    exact .inl ⟨hrest.symm, rfl⟩
  · obtain ⟨used, hused, hsat⟩ :=
      halComReadTimeoutLoop_spec dm ctx buffer len polls
    rw [h, Step.sat_done] at hsat
    rw [h] at hused
    rcases hsat.post with hzero | ⟨us, rfl, hus⟩
    · exact absurd hzero hret
    · exact .inr ⟨by omega, us, by rw [hused, List.append_assoc]; rfl, hus⟩

/-- The caller of a failing read can account for the frames that it took: there is
none and nothing has changed, or `*len` is the number of their data bytes. -/
def Accounted (ctx : HalComCtx) (buffer : Region UInt8) (len : Nat) (taken : List BusFrame)
    (r : ReadResult) : Prop :=
  (taken = [] ∧ r.len = len ∧ r.buffer.bytes = buffer.bytes ∧
    r.ctx.currentCanId = ctx.currentCanId) ∨ r.len = dataLen taken

/-- The schedules on which `poll` fails after a frame, while the call is still short
of its request. -/
def FailsAfterFrame (dm : DataModel) (len : Nat) (sockopt : Int) (polls : List PollAnswer) : Prop :=
  0 ≤ sockopt ∧ ∃ us rest, polls = us ++ .fail :: rest ∧ (∀ a ∈ us, a.stops = false) ∧
    framesPolled us ≠ [] ∧ Short dm len framesPolled us

/-- When a failing timed read swallows nothing: exactly when `poll` does not fail
after a frame. -/
theorem failing_read_accounted_iff (dm : DataModel) (ctx : HalComCtx) (buffer : Region UInt8)
    (len : Nat) (sockopt : Int) (polls : List PollAnswer) :
    (∀ r used rest, halComReadTimeout dm ctx buffer len sockopt polls = (.done r, rest) →
        polls = used ++ rest → r.ret ≠ 0 → Accounted ctx buffer len (framesPolled used) r) ↔
      ¬ FailsAfterFrame dm len sockopt polls := by
  constructor
  · rintro hacc ⟨hsock, us, rest, rfl, hus, hframe, hshort⟩
    have hlt : dataLen (framesPolled us) < len := Nat.lt_of_lt_of_le hshort.1 (Nat.mod_le _ _)
    have hne : len ≠ 0 := by omega
    obtain ⟨r, hrun, hab⟩ :=
      run_fail (h := []) rfl (Filled.start dm ctx buffer len) hus hshort rest
    have hcall : halComReadTimeout dm ctx buffer len sockopt (us ++ .fail :: rest) =
        (.done r, rest) := by
      unfold halComReadTimeout
      rw [if_neg hne, if_neg (by omega), hrun]
    have hret : r.ret ≠ 0 := hab.ret_ne_zero
    rw [List.nil_append] at hab
    have hframes : framesPolled (us ++ [.fail]) = framesPolled us := by simp
    have := hacc r (us ++ [.fail]) rest hcall (by simp) hret
    rw [hframes] at this
    rcases this with ⟨hnil, _⟩ | hlen
    · exact hframe hnil
    · -- `*len` still holds the request
      have hkept : r.len = len := hab.len
      omega
  · intro hok r used rest hcall hused hret
    rcases halComReadTimeout_failed hcall hret with
      ⟨hrest, rfl⟩ | ⟨hsock, us, hpolls, hus, hshort, hab⟩
    · have hnil : used = [] := by
        rw [hrest] at hused
        exact List.self_eq_append_left.mp hused
      rw [hnil]
      exact .inl ⟨rfl, rfl, rfl, rfl⟩
    · have heq : used = us ++ [.fail] := by
        have happ : used ++ rest = us ++ [.fail] ++ rest := by
          rw [← hused, hpolls, List.append_assoc]
          rfl
        exact List.append_cancel_right happ
      have hframes : framesPolled used = framesPolled us := by simp [heq]
      have hnone : framesPolled us = [] := by
        by_contra hframe
        have hne : us ≠ [] := by
          rintro rfl
          exact hframe rfl
        exact hok ⟨hsock, us, rest, hpolls, hus, hframe, hshort hne⟩
      rw [hframes]
      refine .inl ⟨hnone, hab.len, ?_, ?_⟩
      · rw [hab.bytes, hnone, dataBytes_nil, overlay_nil]
        rfl
      · rw [hab.ctx, hnone]
        rfl

/-- `poll` fails after a frame of four bytes: the frame is gone and `*len` still
holds the request. -/
theorem failing_read_swallows :
    ¬ ∀ r used rest,
      halComReadTimeout .ilp32 (openCtx 0) (fresh fun _ => 0) 16 0
        [.input (.frame (dataFrame 1 4 0xaa)), .fail] = (.done r, rest) →
      [.input (.frame (dataFrame 1 4 0xaa)), .fail] = used ++ rest → r.ret ≠ 0 →
        Accounted (openCtx 0) (fresh fun _ => 0) 16 (framesPolled used) r := by
  intro h
  rcases h _ [.input (.frame (dataFrame 1 4 0xaa)), .fail] [] rfl rfl (by decide) with hnil | hlen
  · exact absurd hnil.1 (by decide)
  · exact absurd hlen (by decide)

/-- A request above `SSIZE_MAX`.  The frame makes `left` wrap around, so the call goes on and
swallows it too. -/
example : FailsAfterFrame .ilp32 0x80000000 0 [.input (.frame (dataFrame 1 3 0xaa)), .fail] :=
  ⟨by decide, [.input (.frame (dataFrame 1 3 0xaa))], [], rfl, by simp [PollAnswer.stops],
    by decide, by decide⟩

end CanbusAgent.HalCom

import CanbusAgent.HalCom.TimedRead

/-!
# Reading from a dead socket

Both read loops go back to their condition when `read` fails, and `poll` reports an
error on a socket as an event, not as a failure.  The condition looks at nothing but
the number of bytes that are missing.  So a call that is still short of its request
when the socket dies stays in its loop.

`dead_socket_iff` says for which calls the dying socket comes too late to matter.
-/

namespace CanbusAgent.HalCom

open DrivenLoop Region

/-- `read` on a dead socket. -/
def ReadAnswer.Dead : ReadAnswer → Prop
  | .error => True
  | .empty => True
  | .frame _ => False

/-- `poll` on a dead socket reports an event, without input or with one that `read`
then does not give. -/
def PollAnswer.Dead : PollAnswer → Prop
  | .fail => False
  | .timeout => False
  | .noInput => True
  | .input r => r.Dead

/-- A call that still runs after the first `n` answers of an endless sequence returns
a code other than 0 after some more of them. -/
def ReturnsError {α : Type} (call : List α → Step ReadState ReadResult × List α)
    (stream : Nat → α) (n : Nat) : Prop :=
  ∀ s, (call (answers stream n)).1 = .again s →
    ∃ k r, (call (answers stream (n + k))).1 = .done r ∧ r.ret ≠ 0

/-- A call still runs after the first `n` answers and after any number of further ones. -/
def NeverReturns {α : Type} (call : List α → Step ReadState ReadResult × List α)
    (stream : Nat → α) (n : Nat) : Prop :=
  ∀ k, ∃ s, (call (answers stream (n + k))).1 = .again s

/-! ## Dead answers -/

theorem halComReadStep_dead (dm : DataModel) (s : ReadState) {a : ReadAnswer} (ha : a.Dead) :
    halComReadStep dm s a = s.next dm := by
  cases a with
  | error => rfl
  | empty => rfl
  | frame f => exact ha.elim

theorem halComReadTimeoutStep_dead (dm : DataModel) (s : ReadState) {a : PollAnswer}
    (ha : a.Dead) : halComReadTimeoutStep dm s a = s.next dm := by
  cases a with
  | fail => exact ha.elim
  | timeout => exact ha.elim
  | noInput => rfl
  | input r =>
    cases r with
    | error => rfl
    | empty => rfl
    | frame f => exact ha.elim

section

variable {α : Type} {step : ReadState → α → Step ReadState ReadResult} {dm : DataModel}
  {P : α → Prop}

/-- On dead answers a loop stays where it is while bytes are missing. -/
theorem run_dead_again (hdead : ∀ s a, P a → step s a = s.next dm) {s : ReadState}
    (hleft : 0 < s.left) {as : List α} (has : ∀ a ∈ as, P a) : (run step s as).1 = .again s := by
  induction as with
  | nil => rfl
  | cons a as ih =>
    have hstep : step s a = s.next dm := hdead s a (has a List.mem_cons_self)
    rw [ReadState.next, if_pos hleft] at hstep
    rw [run_cons_again hstep]
    exact ih fun b hb => has b (List.mem_cons_of_mem a hb)

/-- When nothing is missing, it returns 0 with the first one. -/
theorem run_dead_done (hdead : ∀ s a, P a → step s a = s.next dm) {s : ReadState}
    (hleft : ¬ 0 < s.left) {a : α} (ha : P a) (as : List α) :
    run step s (a :: as) = (.done (s.finish dm), as) := by
  have hstep : step s a = s.next dm := hdead s a ha
  rw [ReadState.next, if_neg hleft] at hstep
  exact run_cons_done hstep as

variable {call : List α → Step ReadState ReadResult × List α} {stream : Nat → α} {n : Nat}
  {s : ReadState}

theorem dead_rest (hstream : ∀ i, n ≤ i → P (stream i)) (k : Nat) :
    ∀ a ∈ answers (fun i => stream (n + i)) k, P a := by
  intro a ha
  obtain ⟨i, _, hi⟩ := mem_answers.mp ha
  rw [← hi]
  exact hstream (n + i) (Nat.le_add_right n i)

/-- A call that is still running when the socket dies does not return an error. -/
theorem not_returnsError (hdead : ∀ s a, P a → step s a = s.next dm)
    (hstream : ∀ i, n ≤ i → P (stream i)) (hrunning : (call (answers stream n)).1 = .again s)
    (happend : ∀ bs, call (answers stream n ++ bs) = run step s bs) :
    ¬ ReturnsError call stream n := by
  intro h
  obtain ⟨k, r, hcall, hret⟩ := h s hrunning
  have hrest := dead_rest hstream k
  rw [answers_add, happend] at hcall
  by_cases hleft : 0 < s.left
  · rw [run_dead_again hdead hleft hrest] at hcall
    cases hcall
  · cases hanswers : answers (fun i => stream (n + i)) k with
    | nil =>
      rw [hanswers] at hcall
      cases hcall
    | cons a as =>
      rw [hanswers] at hcall hrest
      rw [run_dead_done hdead hleft (hrest a List.mem_cons_self)] at hcall
      cases hcall
      exact hret rfl

/-- A call that is still running when the socket dies never returns exactly when bytes are
missing then. -/
theorem neverReturns_iff_left (hdead : ∀ s a, P a → step s a = s.next dm)
    (hstream : ∀ i, n ≤ i → P (stream i))
    (happend : ∀ bs, call (answers stream n ++ bs) = run step s bs) :
    NeverReturns call stream n ↔ 0 < s.left := by
  constructor
  · intro hnever
    by_contra hleft
    obtain ⟨s', hs'⟩ := hnever 1
    have hfirst : answers (fun i => stream (n + i)) 1 = [stream n] := rfl
    rw [answers_add, happend, hfirst,
      run_dead_done hdead hleft (hstream n (Nat.le_refl n))] at hs'
    cases hs'
  · intro hleft k
    refine ⟨s, ?_⟩
    rw [answers_add, happend]
    exact run_dead_again hdead hleft (dead_rest hstream k)

/-- What becomes of a call whose socket dies after `n` answers.  `more` says that bytes are
missing whenever the call still runs then. -/
theorem dead_iff {ended more : Prop} (hdead : ∀ s a, P a → step s a = s.next dm)
    (hstream : ∀ i, n ≤ i → P (stream i))
    (hended : ended ↔ ¬ ∃ s, (call (answers stream n)).1 = .again s)
    (happend : ∀ s, (call (answers stream n)).1 = .again s →
      ∀ bs, call (answers stream n ++ bs) = run step s bs)
    (hmore : ∀ s, (call (answers stream n)).1 = .again s → (0 < s.left ↔ more)) :
    (ReturnsError call stream n ↔ ended) ∧ (NeverReturns call stream n ↔ ¬ ended ∧ more) := by
  rw [hended, not_not]
  refine ⟨⟨?_, fun hover s hs => absurd ⟨s, hs⟩ hover⟩, ?_, ?_⟩
  · intro herror ⟨s, hs⟩
    exact not_returnsError hdead hstream hs (happend s hs) herror
  · intro hnever
    obtain ⟨s, hs⟩ := hnever 0
    exact ⟨⟨s, hs⟩, (hmore s hs).mp
      ((neverReturns_iff_left hdead hstream (happend s hs)).mp hnever)⟩
  · intro ⟨⟨s, hs⟩, h⟩
    exact (neverReturns_iff_left hdead hstream (happend s hs)).mpr ((hmore s hs).mpr h)

/-- After a pass that goes on bytes are missing. -/
theorem run_left (hleft : ∀ s a s', step s a = .again s' → 0 < s'.left) {s' : ReadState}
    {as : List α} (h : (run step s as).1 = .again s') :
    0 < s'.left ↔ as ≠ [] ∨ 0 < s.left := by
  induction as generalizing s with
  | nil =>
    cases h
    simp
  | cons a as ih =>
    cases hstep : step s a with
    | again s₁ =>
      rw [run_cons_again hstep] at h
      have hpos := hleft s a s₁ hstep
      exact iff_of_true ((ih h).mpr (.inr hpos)) (.inl (List.cons_ne_nil a as))
    | done r =>
      rw [run_cons_done hstep] at h
      cases h

end

/-! ## Calls that are still running -/

/-- `hal_com_read` still runs after some answers exactly when it has started its loop and
their frames are short of the request. -/
theorem halComRead_running_iff (dm : DataModel) (ctx : HalComCtx) (buffer : Region UInt8)
    (len : Nat) (sockopt : Int) (reads : List ReadAnswer) :
    (∃ s, (halComRead dm ctx buffer len sockopt reads).1 = .again s) ↔
      len ≠ 0 ∧ 0 ≤ sockopt ∧
        (reads = [] ∨ Short dm len framesRead reads) := by
  unfold halComRead
  split_ifs with h0 hneg
  · exact iff_of_false (by simp) (fun h => h.1 h0)
  · exact iff_of_false (by simp) (fun h => by omega)
  obtain ⟨used, hused, hsat⟩ := halComReadLoop_spec dm ctx buffer len reads
  cases hrun : (run (halComReadStep dm) (readStart dm ctx buffer len) reads).1 with
  | again s =>
    rw [hrun, Step.sat_again] at hsat
    obtain ⟨hrest, _, hshort⟩ := hsat
    rw [hrest, List.append_nil] at hused
    refine iff_of_true ⟨s, rfl⟩ ⟨h0, by omega, ?_⟩
    rw [hused]
    by_cases hnil : used = []
    · exact .inl hnil
    · exact .inr (hshort hnil)
  | done r =>
    rw [hrun, Step.sat_done] at hsat
    obtain ⟨us, a, hsnoc, _, hge, _⟩ := hsat
    refine iff_of_false (by simp) ?_
    intro ⟨_, _, hshort⟩
    rw [hused] at hshort
    have hne : used ≠ [] := by simp [hsnoc]
    rcases hshort with hnil | hshort
    · exact hne (List.append_eq_nil_iff.mp hnil).1
    · exact hge (hshort.of_append hne)

/-- The same for `hal_com_read_timeout`, which a time limit or a failure of `poll` ends
too. -/
theorem halComReadTimeout_running_iff (dm : DataModel) (ctx : HalComCtx) (buffer : Region UInt8)
    (len : Nat) (sockopt : Int) (polls : List PollAnswer) :
    (∃ s, (halComReadTimeout dm ctx buffer len sockopt polls).1 = .again s) ↔
      len ≠ 0 ∧ 0 ≤ sockopt ∧ (∀ a ∈ polls, a.stops = false) ∧
        (polls = [] ∨ Short dm len framesPolled polls) := by
  unfold halComReadTimeout
  split_ifs with h0 hneg
  · exact iff_of_false (by simp) (fun h => h.1 h0)
  · exact iff_of_false (by simp) (fun h => by omega)
  obtain ⟨used, hused, hsat⟩ := halComReadTimeoutLoop_spec dm ctx buffer len polls
  cases hrun : (run (halComReadTimeoutStep dm) (readStart dm ctx buffer len) polls).1 with
  | again s =>
    rw [hrun, Step.sat_again] at hsat
    obtain ⟨hrest, hinv⟩ := hsat
    rw [hrest, List.append_nil] at hused
    rw [hused]
    refine iff_of_true ⟨s, rfl⟩ ⟨h0, by omega, hinv.running, ?_⟩
    by_cases hnil : used = []
    · exact .inl hnil
    · exact .inr (hinv.short hnil)
  | done r =>
    rw [hrun, Step.sat_done] at hsat
    refine iff_of_false (by simp) ?_
    intro ⟨_, _, hrunning, hshort⟩
    rw [hused] at hrunning hshort
    cases hsat with
    | met _ _ _ hge =>
      rcases hshort with hnil | hshort
      · simp at hnil
      · exact hge (hshort.of_append (by simp))
    | timedOut => exact absurd (hrunning .timeout (by simp)) (by decide)
    | failed => exact absurd (hrunning .fail (by simp)) (by decide)

/-! ## Dead sockets -/

/-- `hal_com_read` is over after these answers. -/
def ReadEnded (dm : DataModel) (len : Nat) (sockopt : Int) (reads : List ReadAnswer) : Prop :=
  len = 0 ∨ sockopt < 0 ∨ (reads ≠ [] ∧ ¬ Short dm len framesRead reads)

/-- `hal_com_read_timeout` is over after these answers. -/
def TimedEnded (dm : DataModel) (len : Nat) (sockopt : Int) (polls : List PollAnswer) : Prop :=
  len = 0 ∨ sockopt < 0 ∨ (∃ a ∈ polls, a.stops = true) ∨
    (polls ≠ [] ∧ ¬ Short dm len framesPolled polls)

theorem readEnded_iff (dm : DataModel) (ctx : HalComCtx) (buffer : Region UInt8)
    (len : Nat) (sockopt : Int) (reads : List ReadAnswer) :
    ReadEnded dm len sockopt reads ↔
      ¬ ∃ s, (halComRead dm ctx buffer len sockopt reads).1 = .again s := by
  rw [halComRead_running_iff, ReadEnded, not_and_or, not_and_or, not_or, not_not, Int.not_le]

theorem timedEnded_iff (dm : DataModel) (ctx : HalComCtx) (buffer : Region UInt8)
    (len : Nat) (sockopt : Int) (polls : List PollAnswer) :
    TimedEnded dm len sockopt polls ↔
      ¬ ∃ s, (halComReadTimeout dm ctx buffer len sockopt polls).1 = .again s := by
  have hstops : (∃ a ∈ polls, a.stops = true) ↔ ¬ ∀ a ∈ polls, a.stops = false := by simp
  rw [halComReadTimeout_running_iff, TimedEnded, hstops, not_and_or, not_and_or, not_and_or, not_or,
    not_not, Int.not_le]

/-- A call that waits for more answers has started its loop. -/
theorem halComRead_append {dm : DataModel} {ctx : HalComCtx} {buffer : Region UInt8} {len : Nat}
    {sockopt : Int} {reads : List ReadAnswer} {s : ReadState}
    (h : (halComRead dm ctx buffer len sockopt reads).1 = .again s) (more : List ReadAnswer) :
    halComRead dm ctx buffer len sockopt (reads ++ more) = run (halComReadStep dm) s more := by
  unfold halComRead at h ⊢
  split_ifs at h ⊢
  exact run_append h more

theorem halComReadTimeout_append {dm : DataModel} {ctx : HalComCtx} {buffer : Region UInt8}
    {len : Nat} {sockopt : Int} {polls : List PollAnswer} {s : ReadState}
    (h : (halComReadTimeout dm ctx buffer len sockopt polls).1 = .again s)
    (more : List PollAnswer) :
    halComReadTimeout dm ctx buffer len sockopt (polls ++ more) =
      run (halComReadTimeoutStep dm) s more := by
  unfold halComReadTimeout at h ⊢
  split_ifs at h ⊢
  exact run_append h more

theorem halComReadStep_left {dm : DataModel} {s s' : ReadState} {a : ReadAnswer}
    (h : halComReadStep dm s a = .again s') : 0 < s'.left := by
  cases a with
  | error => exact ReadState.left_of_next h
  | empty => exact ReadState.left_of_next h
  | frame f => exact ReadState.left_of_next h

/-- Bytes are missing in every pass but the first one, and in that one when the request is
a positive `ssize_t`. -/
theorem halComRead_left {dm : DataModel} {ctx : HalComCtx} {buffer : Region UInt8} {len : Nat}
    {sockopt : Int} {reads : List ReadAnswer} {s : ReadState}
    (h : (halComRead dm ctx buffer len sockopt reads).1 = .again s) :
    0 < s.left ↔ reads ≠ [] ∨ 0 < dm.toSsize len := by
  unfold halComRead at h
  split_ifs at h
  exact run_left (fun _ _ _ => halComReadStep_left) h

theorem halComReadTimeout_left {dm : DataModel} {ctx : HalComCtx} {buffer : Region UInt8}
    {len : Nat} {sockopt : Int} {polls : List PollAnswer} {s : ReadState}
    (h : (halComReadTimeout dm ctx buffer len sockopt polls).1 = .again s) :
    0 < s.left ↔ polls ≠ [] ∨ 0 < dm.toSsize len := by
  unfold halComReadTimeout at h
  split_ifs at h
  exact run_left (fun _ _ _ => halComReadTimeoutStep_left) h

/-- A read returns an error after its socket has died exactly when it was over before.
Otherwise it never returns, unless it has not seen an answer yet and its request is no
positive `ssize_t`. -/
theorem dead_socket_iff (dm : DataModel) (ctx : HalComCtx) (buffer : Region UInt8) (len : Nat)
    (sockopt : Int) (n : Nat) :
    (∀ reads : Nat → ReadAnswer, (∀ i, n ≤ i → (reads i).Dead) →
      (ReturnsError (halComRead dm ctx buffer len sockopt) reads n ↔
        ReadEnded dm len sockopt (answers reads n)) ∧
      (NeverReturns (halComRead dm ctx buffer len sockopt) reads n ↔
        ¬ ReadEnded dm len sockopt (answers reads n) ∧ (0 < n ∨ 0 < dm.toSsize len))) ∧
    (∀ polls : Nat → PollAnswer, (∀ i, n ≤ i → (polls i).Dead) →
      (ReturnsError (halComReadTimeout dm ctx buffer len sockopt) polls n ↔
        TimedEnded dm len sockopt (answers polls n)) ∧
      (NeverReturns (halComReadTimeout dm ctx buffer len sockopt) polls n ↔
        ¬ TimedEnded dm len sockopt (answers polls n) ∧ (0 < n ∨ 0 < dm.toSsize len))) := by
  constructor
  · intro reads hreads
    refine dead_iff (P := ReadAnswer.Dead) (fun s _ => halComReadStep_dead dm s) hreads
      (readEnded_iff dm ctx buffer len sockopt _) (fun _ hs => halComRead_append hs) ?_
    intro s hs
    rw [halComRead_left hs, answers_ne_nil]
  · intro polls hpolls
    refine dead_iff (P := PollAnswer.Dead) (fun s _ => halComReadTimeoutStep_dead dm s) hpolls
      (timedEnded_iff dm ctx buffer len sockopt _) (fun _ hs => halComReadTimeout_append hs) ?_
    intro s hs
    rw [halComReadTimeout_left hs, answers_ne_nil]

/-- The socket dies right after the frame that meets the request, and one frame too early. -/
theorem dead_socket_iff_late :
    ReturnsError (halComRead .ilp32 (openCtx 0) (fresh fun _ => 0) 8 0)
        (fun i => if i = 0 then .frame (dataFrame 1 8 0xaa) else .error) 1 ∧
      NeverReturns (halComRead .ilp32 (openCtx 0) (fresh fun _ => 0) 9 0)
        (fun i => if i = 0 then .frame (dataFrame 1 8 0xaa) else .error) 1 := by
  have hdead : ∀ i, 1 ≤ i →
      (if i = 0 then ReadAnswer.frame (dataFrame 1 8 0xaa) else .error).Dead := by
    intro i hi
    rw [if_neg (by omega)]
    trivial
  constructor
  · refine (((dead_socket_iff .ilp32 (openCtx 0) (fresh fun _ => 0) 8 0 1).1 _ hdead).1).mpr ?_
    exact .inr (.inr ⟨by decide, by decide⟩)
  · refine (((dead_socket_iff .ilp32 (openCtx 0) (fresh fun _ => 0) 9 0 1).1 _ hdead).2).mpr ?_
    refine ⟨?_, .inl Nat.one_pos⟩
    rintro (hlen | hsock | ⟨_, hmet⟩)
    · exact absurd hlen (by decide)
    · exact absurd hsock (by decide)
    · exact absurd hmet (by decide)

/-- `read` fails from the start, and `poll` reports nothing but an error. -/
theorem dead_socket_spins :
    ¬ ReturnsError (halComRead .ilp32 (openCtx 0) (fresh fun _ => 0) 8 0) (fun _ => .error) 0 ∧
      ¬ ReturnsError (halComReadTimeout .ilp32 (openCtx 0) (fresh fun _ => 0) 8 0)
        (fun _ => .noInput) 0 := by
  constructor
  · exact not_returnsError (P := ReadAnswer.Dead) (fun s _ => halComReadStep_dead .ilp32 s)
      (fun _ _ => trivial) rfl (halComRead_append rfl)
  · exact not_returnsError (P := PollAnswer.Dead) (fun s _ => halComReadTimeoutStep_dead .ilp32 s)
      (fun _ _ => trivial) rfl (halComReadTimeout_append rfl)

/-- A request above `SSIZE_MAX`: after the frame `left` has wrapped around, and the call
waits for the other bytes. -/
example : ¬ ReadEnded .ilp32 0x80000000 0 [.frame (dataFrame 1 3 0xaa), .error] := by
  rintro (hlen | hsock | ⟨_, hmet⟩)
  · exact absurd hlen (by decide)
  · exact absurd hsock (by decide)
  · exact absurd hmet (by decide)

end CanbusAgent.HalCom

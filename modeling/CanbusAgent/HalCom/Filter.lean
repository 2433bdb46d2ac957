import CanbusAgent.HalCom.Lifecycle
import CanbusAgent.HalCom.Read
import CanbusAgent.Lib.Transition

/-!
# Which filter a read obeys

`hal_com_set_config` stores a filter in the context, the read functions install the
stored filter in the kernel when they start, and the kernel tests a frame when it
arrives.  Frames that match wait in a queue, and nothing empties it.

`Net` is a context with its socket and any number of calls in progress.  The steps are
the arrival of a frame, a call of `hal_com_set_config`, the start of a read and one
answer of the kernel to a read, in any order.  `delivered_matched` says which filter a
delivered frame has passed.
-/

namespace CanbusAgent.HalCom

open DrivenLoop Region Transition

/-! ## The socket and its callers -/

/-- The test of the kernel. -/
def CanFilter.Matches (filter : CanFilter) (f : BusFrame) : Prop :=
  f.canId &&& filter.canMask = filter.canId &&& filter.canMask

instance (filter : CanFilter) (f : BusFrame) : Decidable (filter.Matches f) :=
  inferInstanceAs (Decidable (_ = _))

/-- A step of the system.  `t` names a caller, `m` is what its buffer holds. -/
inductive NetEvent where
  | setConfig (config : HalComConfig)
  | arrive (f : BusFrame)
  /-- The start of `hal_com_read_timeout`, or of `hal_com_read`. -/
  | start (t : Nat) (timed : Bool) (m : Nat → UInt8) (len : Nat) (sockopt : Int)
  /-- One answer to the read of `t`. -/
  | answer (t : Nat) (a : PollAnswer)

/-- A frame in the queue, with the number of steps before its arrival. -/
structure Queued where
  index : Nat
  frame : BusFrame
deriving DecidableEq

/-- A read in progress.  `since` is the number of steps before its start, and `taken`
are the frames that it took. -/
structure Reading where
  timed : Bool
  since : Nat
  m : Nat → UInt8
  state : ReadState
  taken : List Queued

/-- A read that has returned. -/
structure Returned where
  since : Nat
  m : Nat → UInt8
  result : ReadResult
  taken : List Queued

/-- `returned` and `events` record what happened. -/
structure Net where
  com : HalComCtx
  installed : CanFilter
  queue : List Queued
  reading : Nat → Option Reading
  returned : List Returned
  events : List NetEvent

/-- After `hal_com_init`, which installs the filter of the cleared context. -/
def netStart (answers : ComAnswers) : Net where
  com := (halComInit answers).2
  installed := (halComInit answers).2.config.rfilter
  queue := []
  reading := fun _ => none
  returned := []
  events := []

/-- A read before its first answer. -/
def startRead (dm : DataModel) (timed : Bool) (com : HalComCtx) (m : Nat → UInt8) (len : Nat)
    (sockopt : Int) : Step ReadState ReadResult :=
  if timed then (halComReadTimeout dm com (fresh m) len sockopt []).1
  else (halComRead dm com (fresh m) len sockopt []).1

/-- One pass of a read, on the context that all callers share.  `hal_com_read` does not
call `poll`. -/
def Reading.step (dm : DataModel) (com : HalComCtx) (rd : Reading) (a : PollAnswer) :
    Option (Step ReadState ReadResult) :=
  if rd.timed then some (halComReadTimeoutStep dm { rd.state with ctx := com } a)
  else
    match a with
    | .input r => some (halComReadStep dm { rd.state with ctx := com } r)
    | _ => none

/-- What an answer takes from the queue, and what is left: `read` gives the first frame. -/
def takeAnswer (a : PollAnswer) (queue : List Queued) : Option (List Queued × List Queued) :=
  match a.frame?, queue with
  | none, queue => some ([], queue)
  | some _, [] => none
  | some f, q :: queue => if q.frame = f then some ([q], queue) else none

/-- The reads in progress after one of them has changed. -/
def setReading (reading : Nat → Option Reading) (t : Nat) (rd : Option Reading) :
    Nat → Option Reading :=
  fun u => if u = t then rd else reading u

def netStep (dm : DataModel) (net : Net) (e : NetEvent) : Option Net :=
  let events := net.events ++ [e]
  match e with
  | .setConfig config => some { net with com := (halComSetConfig net.com config).2, events }
  | .arrive f =>
    if net.installed.Matches f then
      some { net with queue := net.queue ++ [⟨net.events.length, f⟩], events }
    else some { net with events }
  | .start t timed m len sockopt =>
    match net.reading t with
    | some _ => none
    | none =>
      match startRead dm timed net.com m len sockopt with
      | .done result =>
        let r : Returned := { since := net.events.length, m, result, taken := [] }
        some { net with returned := net.returned ++ [r], events }
      | .again state =>
        let rd : Reading := { timed, since := net.events.length, m, state, taken := [] }
        some { net with
          installed := net.com.config.rfilter
          reading := setReading net.reading t (some rd)
          events }
  | .answer t a =>
    match net.reading t, takeAnswer a net.queue with
    | some rd, some (got, queue) =>
      match rd.step dm net.com a with
      | none => none
      | some (.again state) =>
        let rd := { rd with state, taken := rd.taken ++ got }
        some { net with
          com := state.ctx
          queue
          reading := setReading net.reading t (some rd)
          events }
      | some (.done result) =>
        let r : Returned := { since := rd.since, m := rd.m, result, taken := rd.taken ++ got }
        some { net with
          com := result.ctx
          queue
          reading := setReading net.reading t none
          returned := net.returned ++ [r]
          events }
    | _, _ => none

/-! ## What the steps so far say -/

def acceptAll : CanFilter := { canId := 0, canMask := 0 }

def NetEvent.config? : NetEvent → Option HalComConfig
  | .setConfig config => some config
  | _ => none

/-- The start of a read that gets as far as `setsockopt` and succeeds there. -/
def NetEvent.installs : NetEvent → Bool
  | .start _ _ _ len sockopt => len ≠ 0 && 0 ≤ sockopt
  | _ => false

/-- The filter of the last `hal_com_set_config`, or accept-all when there was none. -/
def lastConfig (events : List NetEvent) : CanFilter :=
  ((events.filterMap (·.config?)).getLast?.map (·.rfilter)).getD acceptAll

/-- The filter that was the last one set when the last read started, or accept-all when no
read has started. -/
def governing (events : List NetEvent) : CanFilter :=
  match events.reverse.dropWhile fun e => !e.installs with
  | [] => acceptAll
  | _ :: before => lastConfig before.reverse

theorem lastConfig_snoc (events : List NetEvent) (e : NetEvent) :
    lastConfig (events ++ [e]) = (e.config?.map (·.rfilter)).getD (lastConfig events) := by
  unfold lastConfig
  rw [List.filterMap_append]
  cases h : e.config? with
  | none => simp [h]
  | some c => simp [h]

theorem governing_snoc (events : List NetEvent) (e : NetEvent) :
    governing (events ++ [e]) = if e.installs then lastConfig events else governing events := by
  unfold governing
  rw [List.reverse_append, List.reverse_singleton, List.singleton_append]
  cases h : e.installs with
  | false => rw [List.dropWhile_cons_of_pos (by simp [h])]; rfl
  | true => rw [List.dropWhile_cons_of_neg (by simp [h])]; simp

/-- The frame `q` arrived at its index and passed the filter that governed then. -/
def Arrived (events : List NetEvent) (q : Queued) : Prop :=
  events[q.index]? = some (.arrive q.frame) ∧
    (governing (events.take q.index)).Matches q.frame

/-- What is recorded about an arrival does not change later. -/
theorem Arrived.snoc {events : List NetEvent} {q : Queued} (h : Arrived events q) (e : NetEvent) :
    Arrived (events ++ [e]) q := by
  have hlt : q.index < events.length := by
    by_contra hge
    rw [Arrived, List.getElem?_eq_none (by omega)] at h
    exact absurd h.1 (by simp)
  rw [Arrived, List.getElem?_append_left hlt, List.take_append_of_le_length (by omega)]
  exact h

/-! ## What one answer does -/

/-- The local variables after an answer, before the loop condition is tested. -/
def ReadState.after (dm : DataModel) (s : ReadState) (a : PollAnswer) : ReadState :=
  match a.frame? with
  | none => s
  | some f => s.accept dm f

theorem ReadState.next_sat (dm : DataModel) (s : ReadState) :
    (s.next dm).Sat (· = s) fun r => r.ctx = s.ctx ∧ r.buffer = s.buffer := by
  unfold ReadState.next
  split_ifs
  · rfl
  · exact ⟨rfl, rfl⟩

theorem halComReadTimeoutStep_after (dm : DataModel) (s : ReadState) (a : PollAnswer) :
    (halComReadTimeoutStep dm s a).Sat (· = s.after dm a)
      fun r => r.ctx = (s.after dm a).ctx ∧ r.buffer = (s.after dm a).buffer := by
  cases a with
  | fail => exact ⟨rfl, rfl⟩
  | timeout => exact ⟨rfl, rfl⟩
  | noInput => exact s.next_sat dm
  | input r =>
    cases r with
    | error => exact s.next_sat dm
    | empty => exact s.next_sat dm
    | frame f => exact (s.accept dm f).next_sat dm

/-- Both loops do the same with an answer that they can get. -/
theorem Reading.step_sat {dm : DataModel} {com : HalComCtx} {rd : Reading} {a : PollAnswer}
    {call : Step ReadState ReadResult} (h : rd.step dm com a = some call) :
    call.Sat (· = { rd.state with ctx := com }.after dm a)
      fun r => r.ctx = ({ rd.state with ctx := com }.after dm a).ctx ∧
        r.buffer = ({ rd.state with ctx := com }.after dm a).buffer := by
  have hstep : call = halComReadTimeoutStep dm { rd.state with ctx := com } a := by
    unfold Reading.step at h
    split at h
    · exact (Option.some.inj h).symm
    · cases a with
      | fail => cases h
      | timeout => cases h
      | noInput => cases h
      | input r =>
        rw [← Option.some.inj h]
        cases r <;> rfl
  rw [hstep]
  exact halComReadTimeoutStep_after dm _ a

/-- A read starts its loop exactly when its step installs the filter. -/
theorem startRead_cases (dm : DataModel) (t : Nat) (timed : Bool) (com : HalComCtx)
    (m : Nat → UInt8) (len : Nat) (sockopt : Int) :
    ((NetEvent.start t timed m len sockopt).installs = false ∧
        ∃ r, startRead dm timed com m len sockopt = .done r ∧ r.buffer = fresh m) ∨
      ((NetEvent.start t timed m len sockopt).installs = true ∧
        startRead dm timed com m len sockopt = .again (readStart dm com (fresh m) len)) := by
  unfold startRead halComReadTimeout halComRead
  by_cases hlen : len = 0
  · refine .inl ⟨by simp [NetEvent.installs, hlen],
      { ret := 0, ctx := com, buffer := fresh m, len }, ?_, rfl⟩
    rw [if_pos hlen, if_pos hlen, ite_self]
  by_cases hsock : sockopt < 0
  · refine .inl ⟨by simp [NetEvent.installs, hsock],
      { ret := HAL_ERR_FILE_IOCTL, ctx := com, buffer := fresh m, len }, ?_, rfl⟩
    rw [if_neg hlen, if_pos hsock, if_neg hlen, if_pos hsock, ite_self]
  · refine .inr ⟨by simp [NetEvent.installs, hlen, Int.not_lt.mp hsock], ?_⟩
    rw [if_neg hlen, if_neg hsock, if_neg hlen, if_neg hsock]
    exact ite_self _

theorem ReadState.config_after (dm : DataModel) (s : ReadState) (a : PollAnswer) :
    (s.after dm a).ctx.config = s.ctx.config := by
  unfold ReadState.after
  split <;> rfl

/-- The frame of an answer is the first one of the queue. -/
theorem takeAnswer_cases {a : PollAnswer} {queue got rest : List Queued}
    (h : takeAnswer a queue = some (got, rest)) :
    queue = got ++ rest ∧ got.map (·.frame) = a.frame?.toList := by
  unfold takeAnswer at h
  split at h
  · next hnone =>
    cases h
    rw [hnone]
    exact ⟨rfl, rfl⟩
  · cases h
  · next f q queue hsome =>
    split at h
    · next hq =>
      cases h
      rw [hsome, List.map_singleton, hq]
      exact ⟨rfl, rfl⟩
    · cases h

/-! ## The invariant -/

/-- The bytes that a read stored are those of the frames that it took, and all of these
have arrived. -/
structure Collects (events : List NetEvent) (m : Nat → UInt8) (taken : List Queued)
    (buffer : Region UInt8) : Prop where
  bytes : buffer.bytes = overlay m 0 (dataBytes (taken.map (·.frame)))
  arrived : ∀ q ∈ taken, Arrived events q

theorem Collects.snoc {events : List NetEvent} {m : Nat → UInt8} {taken : List Queued}
    {buffer : Region UInt8} (h : Collects events m taken buffer) (e : NetEvent) :
    Collects (events ++ [e]) m taken buffer :=
  ⟨h.bytes, fun q hq => (h.arrived q hq).snoc e⟩

/-- A read in progress has installed its filter and collects frames. -/
structure ReadingInv (events : List NetEvent) (rd : Reading) : Prop where
  collects : Collects events rd.m rd.taken rd.state.buffer
  total : rd.state.readTotalBytes = dataLen (rd.taken.map (·.frame))
  begun : ∃ e, events[rd.since]? = some e ∧ e.installs = true

theorem ReadingInv.snoc {events : List NetEvent} {rd : Reading} (h : ReadingInv events rd)
    (e : NetEvent) : ReadingInv (events ++ [e]) rd := by
  obtain ⟨e₀, hget, hinstalls⟩ := h.begun
  refine ⟨h.collects.snoc e, h.total, e₀, ?_, hinstalls⟩
  rw [List.getElem?_append_left (List.getElem?_eq_some_iff.mp hget).1, hget]

/-- A read that has returned, early or after some frames. -/
structure ReturnedInv (events : List NetEvent) (r : Returned) : Prop where
  collects : Collects events r.m r.taken r.result.buffer
  begun : r.taken ≠ [] → ∃ e, events[r.since]? = some e ∧ e.installs = true

theorem ReturnedInv.snoc {events : List NetEvent} {r : Returned} (h : ReturnedInv events r)
    (e : NetEvent) : ReturnedInv (events ++ [e]) r := by
  refine ⟨h.collects.snoc e, fun hne => ?_⟩
  obtain ⟨e₀, hget, hinstalls⟩ := h.begun hne
  exact ⟨e₀, by rw [List.getElem?_append_left (List.getElem?_eq_some_iff.mp hget).1, hget],
    hinstalls⟩

/-- The context holds the filter that was set last, the kernel the one that governs, and
what waits in the queue has passed the filter of its arrival. -/
structure NetInv (net : Net) : Prop where
  config : net.com.config.rfilter = lastConfig net.events
  installed : net.installed = governing net.events
  queue : ∀ q ∈ net.queue, Arrived net.events q
  reading : ∀ t rd, net.reading t = some rd → ReadingInv net.events rd
  returned : ∀ r ∈ net.returned, ReturnedInv net.events r

theorem netInv_start (answers : ComAnswers) : NetInv (netStart answers) where
  config := by
    rw [netStart, halComInit_snd]
    rfl
  installed := by
    rw [netStart, halComInit_snd]
    rfl
  queue := by simp [netStart]
  reading := by simp [netStart]
  returned := by simp [netStart]

/-- The step lemma of a read in progress: the bytes of the frames that an answer brings
go behind those before. -/
theorem ReadingInv.after {events : List NetEvent} {rd : Reading} (h : ReadingInv events rd)
    (dm : DataModel) (com : HalComCtx) {a : PollAnswer} {got : List Queued}
    (hgot : ∀ q ∈ got, Arrived events q)
    (hframes : got.map (·.frame) = a.frame?.toList) :
    Collects events rd.m (rd.taken ++ got) ({ rd.state with ctx := com }.after dm a).buffer ∧
      ({ rd.state with ctx := com }.after dm a).readTotalBytes =
        dataLen ((rd.taken ++ got).map (·.frame)) := by
  have harrived : ∀ q ∈ rd.taken ++ got, Arrived events q :=
    List.forall_mem_append.mpr ⟨h.collects.arrived, hgot⟩
  have hmap : (rd.taken ++ got).map (·.frame) = rd.taken.map (·.frame) ++ a.frame?.toList := by
    rw [List.map_append, hframes]
  unfold ReadState.after
  cases hf : a.frame? with
  | none =>
    have hsame : (rd.taken ++ got).map (·.frame) = rd.taken.map (·.frame) := by
      rw [hmap, hf]
      exact List.append_nil _
    exact ⟨⟨by rw [hsame]; exact h.collects.bytes, harrived⟩, by rw [hsame]; exact h.total⟩
  | some f =>
    have hmore : (rd.taken ++ got).map (·.frame) = rd.taken.map (·.frame) ++ [f] := by
      rw [hmap, hf]
      rfl
    refine ⟨⟨?_, harrived⟩, ?_⟩
    · have happ := overlay_append rd.m 0 (dataBytes (rd.taken.map (·.frame))) f.payload
      rw [dataBytes_length, Nat.zero_add] at happ
      show overlay rd.state.buffer.bytes rd.state.readTotalBytes f.payload = _
      rw [h.collects.bytes, h.total, happ, hmore, dataBytes_append, dataBytes_singleton]
    · show rd.state.readTotalBytes + f.dlc = _
      rw [h.total, hmore, dataLen_append, dataLen_cons, dataLen_nil, Nat.add_zero]

/-- The reads in progress after one of them has changed. -/
theorem setReading_cases {reading : Nat → Option Reading} {t u : Nat} {new : Option Reading}
    {rd : Reading} (h : setReading reading t new u = some rd) :
    new = some rd ∨ reading u = some rd := by
  unfold setReading at h
  split at h
  · exact .inl h
  · exact .inr h

/-- What has been recorded stays when a step changes nothing but the context. -/
theorem NetInv.idle {net : Net} (h : NetInv net) (e : NetEvent) (hinstalls : e.installs = false)
    {com : HalComCtx} (hcom : com.config.rfilter = lastConfig (net.events ++ [e])) :
    NetInv { net with com, events := net.events ++ [e] } where
  config := hcom
  installed := by
    rw [governing_snoc, hinstalls]
    exact h.installed
  queue q hq := (h.queue q hq).snoc e
  reading t rd hrd := (h.reading t rd hrd).snoc e
  returned r hr := (h.returned r hr).snoc e

theorem NetInv.arrive {dm : DataModel} {net net' : Net} {f : BusFrame} (h : NetInv net)
    (hstep : netStep dm net (.arrive f) = some net') : NetInv net' := by
  have hconfig : net.com.config.rfilter = lastConfig (net.events ++ [.arrive f]) := by
    rw [lastConfig_snoc]
    exact h.config
  have hidle := h.idle (.arrive f) rfl hconfig
  unfold netStep at hstep
  dsimp only at hstep
  split at hstep
  · next hmatch =>
    cases hstep
    have hnew : Arrived (net.events ++ [.arrive f]) ⟨net.events.length, f⟩ := by
      unfold Arrived
      rw [List.getElem?_concat_length, List.take_left, ← h.installed]
      exact ⟨rfl, hmatch⟩
    exact ⟨hidle.config, hidle.installed,
      List.forall_mem_append.mpr ⟨hidle.queue, List.forall_mem_singleton.mpr hnew⟩,
      hidle.reading, hidle.returned⟩
  · cases hstep
    exact hidle

theorem NetInv.start {dm : DataModel} {net net' : Net} {t : Nat} {timed : Bool}
    {m : Nat → UInt8} {len : Nat} {sockopt : Int} (h : NetInv net)
    (hstep : netStep dm net (.start t timed m len sockopt) = some net') : NetInv net' := by
  have hconfig : net.com.config.rfilter =
      lastConfig (net.events ++ [.start t timed m len sockopt]) := by
    rw [lastConfig_snoc]
    exact h.config
  unfold netStep at hstep
  dsimp only at hstep
  split at hstep
  · cases hstep
  rcases startRead_cases dm t timed net.com m len sockopt with
    ⟨hinstalls, r, hcall, hbuffer⟩ | ⟨hinstalls, hcall⟩
  · rw [hcall] at hstep
    cases hstep
    have hidle := h.idle _ hinstalls hconfig
    have hempty : ReturnedInv (net.events ++ [.start t timed m len sockopt])
        { since := net.events.length, m, result := r, taken := [] } := by
      refine ⟨⟨?_, by simp⟩, fun hne => absurd rfl hne⟩
      rw [hbuffer]
      exact (overlay_nil m 0).symm
    exact ⟨hidle.config, hidle.installed, hidle.queue, hidle.reading,
      List.forall_mem_append.mpr ⟨hidle.returned, List.forall_mem_singleton.mpr hempty⟩⟩
  · rw [hcall] at hstep
    cases hstep
    refine ⟨hconfig, ?_, fun q hq => (h.queue q hq).snoc _, ?_,
      fun r hr => (h.returned r hr).snoc _⟩
    · -- the kernel gets what the context holds
      rw [governing_snoc, hinstalls]
      exact h.config
    · intro u rd hrd
      rcases setReading_cases hrd with hnew | hold
      · cases hnew
        refine ⟨⟨(overlay_nil m 0).symm, by simp⟩, rfl, _, ?_, hinstalls⟩
        exact List.getElem?_concat_length
      · exact (h.reading u rd hold).snoc _

theorem NetInv.answer {dm : DataModel} {net net' : Net} {t : Nat} {a : PollAnswer}
    (h : NetInv net) (hstep : netStep dm net (.answer t a) = some net') : NetInv net' := by
  unfold netStep at hstep
  dsimp only at hstep
  split at hstep
  swap
  · cases hstep
  next rd got rest hrd htake =>
    obtain ⟨hqueue, hframes⟩ := takeAnswer_cases htake
    have hgot : ∀ q ∈ got, Arrived net.events q :=
      fun q hq => h.queue q (hqueue ▸ List.mem_append_left rest hq)
    have hrest : ∀ q ∈ rest, Arrived (net.events ++ [.answer t a]) q :=
      fun q hq => (h.queue q (hqueue ▸ List.mem_append_right got hq)).snoc _
    have hold := h.reading t rd hrd
    obtain ⟨hcollects, htotal⟩ := hold.after dm net.com hgot hframes
    have hconfig : ({ rd.state with ctx := net.com }.after dm a).ctx.config.rfilter =
        lastConfig (net.events ++ [.answer t a]) := by
      rw [ReadState.config_after, lastConfig_snoc]
      exact h.config
    have hidle := h.idle (.answer t a) rfl hconfig
    split at hstep
    · cases hstep
    · next state hcall =>
      have hsat := Reading.step_sat hcall
      rw [Step.sat_again] at hsat
      cases hstep
      refine ⟨by rw [hsat]; exact hidle.config, hidle.installed, hrest, ?_, hidle.returned⟩
      intro u rd' hrd'
      rcases setReading_cases hrd' with hnew | hother
      · cases hnew
        have hnext : ReadingInv net.events { rd with
            state := { rd.state with ctx := net.com }.after dm a
            taken := rd.taken ++ got } := ⟨hcollects, htotal, hold.begun⟩
        rw [hsat]
        exact hnext.snoc _
      · exact hidle.reading u rd' hother
    · next result hcall =>
      have hsat := Reading.step_sat hcall
      rw [Step.sat_done] at hsat
      cases hstep
      have hend : ReturnedInv net.events
          { since := rd.since, m := rd.m, result, taken := rd.taken ++ got } := by
        refine ⟨?_, fun _ => hold.begun⟩
        rw [hsat.2]
        exact hcollects
      refine ⟨by rw [hsat.1]; exact hidle.config, hidle.installed, hrest, ?_,
        List.forall_mem_append.mpr
          ⟨hidle.returned, List.forall_mem_singleton.mpr (hend.snoc _)⟩⟩
      intro u rd' hrd'
      rcases setReading_cases hrd' with hnew | hother
      · cases hnew
      · exact hidle.reading u rd' hother

/-- The step lemma. -/
theorem netInv_step {dm : DataModel} {net net' : Net} {e : NetEvent} (h : NetInv net)
    (hstep : netStep dm net e = some net') : NetInv net' := by
  cases e with
  | setConfig config =>
    cases hstep
    apply h.idle (.setConfig config) rfl
    rw [lastConfig_snoc]
    rfl
  | arrive f => exact h.arrive hstep
  | start t timed m len sockopt => exact h.start hstep
  | answer t a => exact h.answer hstep

/-- The invariant holds after every run. -/
theorem netInv_run {dm : DataModel} {answers : ComAnswers} {is : List NetEvent} {net : Net}
    (hrun : exec (netStep dm) (netStart answers) is = some net) : NetInv net :=
  exec_inv (P := fun _ => True) NetInv (fun _ _ _ _ hinv hstep => netInv_step hinv hstep) hrun
    (netInv_start answers) fun _ _ => trivial

theorem events_of_step {dm : DataModel} {net net' : Net} {e : NetEvent}
    (h : netStep dm net e = some net') : net'.events = net.events ++ [e] := by
  unfold netStep at h
  dsimp only at h
  split at h
  · cases h
    rfl
  · split at h <;> cases h <;> rfl
  · split at h
    · cases h
    · split at h <;> cases h <;> rfl
  · split at h
    · split at h
      · cases h
      · cases h
        rfl
      · cases h
        rfl
    · cases h

/-- A run records its steps. -/
theorem events_of_run {dm : DataModel} {net net' : Net} {is : List NetEvent}
    (hrun : exec (netStep dm) net is = some net') : net'.events = net.events ++ is := by
  induction is generalizing net with
  | nil =>
    rw [exec_nil, Option.some.injEq] at hrun
    rw [hrun, List.append_nil]
  | cons e es ih =>
    obtain ⟨next, hstep, hrest⟩ := exec_cons.mp hrun
    rw [ih hrest, events_of_step hstep, List.append_assoc, List.singleton_append]

/-! ## Delivered frames -/

/-- Between the start of a read and an arrival no other read starts. -/
def Undisturbed (events : List NetEvent) (since index : Nat) : Prop :=
  since < index ∧ ∀ j e, since < j → j < index → events[j]? = some e → e.installs = false

/-- The filter that governs an arrival is the one that the read installed, unless
another read started in between. -/
theorem governing_of_undisturbed {events : List NetEvent} {since index : Nat} {e : NetEvent}
    (hget : events[since]? = some e) (hinstalls : e.installs = true)
    (h : Undisturbed events since index) (hindex : index ≤ events.length) :
    governing (events.take index) = lastConfig (events.take since) := by
  obtain ⟨hlt, hnone⟩ := h
  induction index with
  | zero => omega
  | succ i ih =>
    have hi : events[i]? = some events[i] := List.getElem?_eq_getElem (by omega)
    have hsnoc : events.take (i + 1) = events.take i ++ [events[i]] := by
      rw [List.take_add_one, hi]
      rfl
    rw [hsnoc, governing_snoc]
    by_cases hfirst : i = since
    · -- the step that started the read
      subst hfirst
      have hsame : events[i] = e := by
        rw [hi] at hget
        exact Option.some.inj hget
      rw [hsame, hinstalls, if_pos rfl]
    · have hlater : since < i := by omega
      have hquiet : events[i].installs = false := hnone i events[i] hlater (by omega) hi
      rw [hquiet]
      exact ih (by omega) hlater fun j e' hj hji => hnone j e' hj (by omega)

/-- What a read delivers.  The bytes are those of frames that arrived, and each of them
matched the filter that governed when it arrived.  For a frame that arrived during the read
this is the filter that was set last before the read. -/
structure Obeys (events : List NetEvent) (since : Nat) (m : Nat → UInt8) (taken : List Queued)
    (buffer : Region UInt8) : Prop where
  bytes : buffer.bytes = overlay m 0 (dataBytes (taken.map (·.frame)))
  arrived : ∀ q ∈ taken, events[q.index]? = some (.arrive q.frame)
  governed : ∀ q ∈ taken, (governing (events.take q.index)).Matches q.frame
  own : ∀ q ∈ taken, Undisturbed events since q.index →
    (lastConfig (events.take since)).Matches q.frame

theorem Collects.obeys {events : List NetEvent} {since : Nat} {m : Nat → UInt8}
    {taken : List Queued} {buffer : Region UInt8} (h : Collects events m taken buffer)
    (hbegun : taken ≠ [] → ∃ e, events[since]? = some e ∧ e.installs = true) :
    Obeys events since m taken buffer where
  bytes := h.bytes
  arrived q hq := (h.arrived q hq).1
  governed q hq := (h.arrived q hq).2
  own q hq hundisturbed := by
    obtain ⟨e, hget, hinstalls⟩ := hbegun (List.ne_nil_of_mem hq)
    obtain ⟨harrive, hmatch⟩ := h.arrived q hq
    have hindex := (List.getElem?_eq_some_iff.mp harrive).1
    rw [← governing_of_undisturbed hget hinstalls hundisturbed hindex.le]
    exact hmatch

/-- Every read of every run, returned or still in progress, delivers bytes of frames that
matched the filter governing their arrival. -/
theorem delivered_matched (dm : DataModel) (answers : ComAnswers) (is : List NetEvent)
    (net : Net) (hrun : exec (netStep dm) (netStart answers) is = some net) :
    (∀ r ∈ net.returned, Obeys is r.since r.m r.taken r.result.buffer) ∧
      ∀ t rd, net.reading t = some rd → Obeys is rd.since rd.m rd.taken rd.state.buffer := by
  have hinv := netInv_run hrun
  have hevents : net.events = is := events_of_run hrun
  constructor
  · intro r hr
    have hr := hinv.returned r hr
    rw [hevents] at hr
    exact hr.collects.obeys hr.begun
  · intro t rd hrd
    have hrd := hinv.reading t rd hrd
    rw [hevents] at hrd
    exact hrd.collects.obeys fun _ => hrd.begun

/-- The calls of an open transport on descriptor 3. -/
def openAnswers : ComAnswers := { socket := 3, ioctl := 0, bind := 0, setsockopt := 0 }

/-- Only frames with the id `0x200`. -/
def only200 : HalComConfig := { rfilter := { canId := 0x200, canMask := 0x7ff } }

/-- A frame that does not match, and then one that does, arrive during a read under
`only200`. -/
def duringRead : List NetEvent :=
  [.setConfig only200, .start 0 true (fun _ => 0) 8 0, .arrive (dataFrame 0x100 8 0xaa),
    .arrive (dataFrame 0x200 8 0xbb), .answer 0 (.input (.frame (dataFrame 0x200 8 0xbb)))]

theorem delivered_matched_during :
    ∃ net r, exec (netStep .ilp32) (netStart openAnswers) duringRead = some net ∧
      net.returned = [r] ∧ r.taken.map (·.index) = [3] ∧
        Obeys duringRead r.since r.m r.taken r.result.buffer :=
  ⟨_, _, rfl, rfl, rfl,
    (delivered_matched .ilp32 openAnswers duringRead _ rfl).1 _ List.mem_cons_self⟩

/-- A frame arrives while every frame is accepted, and a read under `only200` takes it. -/
def queuedBefore : List NetEvent :=
  [.arrive (dataFrame 0x100 8 0xaa), .setConfig only200, .start 0 false (fun _ => 0) 8 0,
    .answer 0 (.input (.frame (dataFrame 0x100 8 0xaa)))]

/-- Nothing empties the queue when the filter changes, so a frame from before the change
is delivered. -/
theorem delivered_unmatched :
    ¬ ∀ net, exec (netStep .ilp32) (netStart openAnswers) queuedBefore = some net →
      ∀ r ∈ net.returned, ∀ q ∈ r.taken, 0 < q.frame.dlc →
        (lastConfig (queuedBefore.take r.since)).Matches q.frame := by
  intro h
  have hmatch := h _ rfl _ List.mem_cons_self _ List.mem_cons_self (by decide)
  exact absurd hmatch (by decide)

end CanbusAgent.HalCom

import CanbusAgent.Agent.Console
import CanbusAgent.Agent.Sender

/-!
# A sender, a bus and a receive thread

`test_hal_com_write` on one node and `canbus_recv_msg` on another one run side by side.
Between them is the bus with the queue of the receiving socket: a frame that `write`
took goes in at the end, and the frames that `hal_com_read_timeout` reads come out in
front.  The filter of the receiver accepts every frame, as `hal_com_init` leaves it.

A step is one answer of `write` or one call of the receive thread.  A call of
`hal_com_read_timeout` stands where it ends, so the sender may go on while it waits.

`network_log_faithful` holds for every interleaving: the byte with index `j` in the log
of the receiver is the one that the sender sends at that place.
-/

namespace CanbusAgent.Agent

open Chunks DrivenLoop HalCom Lines Region Transition Utils

/-! ## The network -/

structure NetworkState where
  sender : Step SenderState SenderResult
  bus : List BusFrame
  agent : RecvState

inductive NetworkInput where
  /-- What the `write` of the sender returns. -/
  | write (writeBytes : Int)
  /-- A call of the receive thread. -/
  | agent (i : Input)

/-- The frames that a call of the receive thread takes from the socket. -/
def Input.frames : Input → List BusFrame
  | .readTimeout _ polls => framesPolled polls
  | _ => []

def networkStep (dm : DataModel) (stack : Nat → CanFrame) (s : NetworkState) :
    NetworkInput → Option NetworkState
  | .write writeBytes =>
    match s.sender with
    | .done _ => none
    | .again t =>
      let sender := senderStep dm stack t writeBytes
      if writeBytes = canFrameSize then
        let frame := (framesOut sender).getLast?.bind busFrame?
        some { s with sender, bus := s.bus ++ frame.toList }
      else some { s with sender }
  | .agent i =>
    if i.frames <+: s.bus then do
      let agent ← recvStep dm s.agent i
      some { s with agent, bus := s.bus.drop i.frames.length }
    else none

/-- A node whose kernel answers `answers` to `hal_com_init`, an empty bus, and a receive
thread. -/
def networkStart (dm : DataModel) (stack : Nat → CanFrame) (answers : ComAnswers) (com : HalComCtx)
    (m : Nat → UInt8) : NetworkState where
  sender := (testHalComWrite dm stack answers []).1
  bus := []
  agent := recvStart com m

def networkRun (dm : DataModel) (stack : Nat → CanFrame) (answers : ComAnswers) (com : HalComCtx)
    (m : Nat → UInt8) (is : List NetworkInput) : Option NetworkState :=
  exec (networkStep dm stack) (networkStart dm stack answers com m) is

/-! ## One step of each side -/

/-- A pass of `hal_com_write` is one more frame. -/
theorem halComWriteStep_sent (buffer : Nat → UInt8) (s : WriteState) (w : Int) :
    ∃ f, (halComWriteStep buffer s w).Sat (fun s' => s'.sent = s.sent ++ [f])
      (fun r => r.sent = s.sent ++ [f]) := by
  unfold halComWriteStep
  dsimp only
  split_ifs
  all_goals exact ⟨_, rfl⟩

/-- A pass of the sender is one more frame. -/
theorem framesOut_senderStep (dm : DataModel) (stack : Nat → CanFrame) (t : SenderState)
    (w : Int) : ∃ f, framesOut (senderStep dm stack t w) = framesOut (.again t) ++ [f] := by
  obtain ⟨f, hf⟩ := halComWriteStep_sent txBuffer t.call w
  refine ⟨f, ?_⟩
  have hframes : framesOut (.again t) ++ [f] = t.passed ++ (t.call.sent ++ [f]) :=
    List.append_assoc ..
  unfold senderStep
  cases hcall : halComWriteStep txBuffer t.call w with
  | again call =>
    rw [hcall, Step.sat_again] at hf
    rw [hframes, ← hf]
    rfl
  | done r =>
    rw [hcall, Step.sat_done] at hf
    rw [hframes, ← hf]
    dsimp only
    split_ifs
    · rfl
    · rw [senderNext_eq]
      exact List.append_nil _

/-- What a call of the receive thread adds to the frames that were read. -/
theorem consumed_recvStep {dm : DataModel} {s s' : RecvState} {i : Input}
    (h : recvStep dm s i = some s') : s'.consumed = s.consumed ++ i.frames := by
  cases move_of_recvStep h with
  | epollFails => exact (List.append_nil _).symm
  | epollReports => exact (List.append_nil _).symm
  | read _ _ _ _ hs' =>
    rcases afterRead_cases hs' with ⟨_, _, _, rfl⟩ | ⟨_, _, rfl⟩
    · rfl
    · rfl
  | @handOver rest =>
    rcases Nat.eq_zero_or_pos s.nbytes with h0 | hpos
    · rw [handOver_of_eq rest h0]
      exact (List.append_nil _).symm
    · rw [handOver_of_ne rest (Nat.ne_of_gt hpos)]
      exact (List.append_nil _).symm
  | owner => exact (List.append_nil _).symm

/-! ## The bytes that are sent -/

/-- The byte with index `j` of what the sender sends. -/
def txByte (j : Nat) : UInt8 := txBuffer (j % txLen)

/-- The number of bytes in the first `k` frames. -/
def txCount (k : Nat) : Nat := txLen * (k / txFrames) + min txLen (CAN_MAX_DLEN * (k % txFrames))

/-- The data bytes of the first `k` frames. -/
theorem flatMap_txFrame (k : Nat) :
    (List.range k).flatMap (fun i => (txFrame i).2) = slice txByte 0 (txCount k) := by
  have hframes : txFrames = 128 := rfl
  have hlen : txLen = 1021 := rfl
  have hdlen : CAN_MAX_DLEN = 8 := rfl
  induction k with
  | zero => rfl
  | succ k ih =>
    -- the frame `k` goes on where the frames before it stop
    have hslice : (txFrame k).2 =
        slice txByte (txCount k) (min CAN_MAX_DLEN (txLen - CAN_MAX_DLEN * (k % txFrames))) := by
      rw [txFrame, txMessage, chunk_slice]
      apply slice_congr
      intro i hi
      rw [txByte, txCount]
      rw [hframes, hlen, hdlen] at hi ⊢
      congr 1
      omega
    have hcount : txCount (k + 1) =
        txCount k + min CAN_MAX_DLEN (txLen - CAN_MAX_DLEN * (k % txFrames)) := by
      rw [txCount, txCount, hframes, hlen, hdlen]
      omega
    rw [List.range_succ, List.flatMap_append, ih, List.flatMap_singleton, hslice, hcount,
      slice_add, Nat.zero_add]

/-- The frames of the sender carry these bytes. -/
theorem Emits.bytes {fs : List BusFrame} (h : Emits (fs.map (·.toCanFrame))) :
    dataBytes fs = slice txByte 0 (txCount fs.length) := by
  have hpayloads := congrArg (List.map Prod.snd) h.1
  rw [List.map_map, List.map_map, List.length_map, List.map_map] at hpayloads
  rw [← flatMap_txFrame, List.flatMap_def, dataBytes, List.flatMap_def]
  exact congrArg List.flatten hpayloads

/-- The first frames of the sender are the first ones of `txFrame`. -/
theorem Emits.of_prefix {fs gs : List CanFrame} (h : Emits gs) (hfs : fs <+: gs) : Emits fs := by
  obtain ⟨hs, rfl⟩ := hfs
  refine ⟨?_, fun f hf => h.2 f (List.mem_append_left _ hf)⟩
  have hmap := h.1
  rw [List.map_append, List.length_append, List.range_add, List.map_append] at hmap
  exact (List.append_inj hmap (by simp)).1

theorem txCount_mono {j k : Nat} (h : j ≤ k) : txCount j ≤ txCount k := by
  have hframes : txFrames = 128 := rfl
  have hlen : txLen = 1021 := rfl
  have hdlen : CAN_MAX_DLEN = 8 := rfl
  rw [txCount, txCount, hframes, hlen, hdlen]
  omega

/-! ## The invariant -/

/-- The sender stands where its answers have led it.  The frames that were read and
those on the bus are the frames that it passed to `write`, without the one that was
not taken. -/
structure NetworkInv (dm : DataModel) (stack : Nat → CanFrame) (answers : ComAnswers)
    (s : NetworkState) : Prop where
  sender : ∃ writes, testHalComWrite dm stack answers writes = (s.sender, [])
  frames : (s.agent.consumed ++ s.bus).map (·.toCanFrame) <+: framesOut s.sender
  running : ∀ t, s.sender = .again t →
    (s.agent.consumed ++ s.bus).map (·.toCanFrame) = framesOut s.sender
  recv : RecvInv s.agent
  logged : Logged s.agent

theorem networkInv_start (dm : DataModel) (stack : Nat → CanFrame) (answers : ComAnswers)
    (com : HalComCtx) (m : Nat → UInt8) :
    NetworkInv dm stack answers (networkStart dm stack answers com m) := by
  have hrest : (testHalComWrite dm stack answers []).2 = [] := by
    by_cases hopens : answers.Opens
    · rw [testHalComWrite_run dm stack hopens]
      rfl
    · rw [testHalComWrite_closed dm stack hopens]
  refine ⟨⟨[], Prod.ext rfl hrest⟩, List.nil_prefix, ?_, recvInv_start com m, List.nil_prefix⟩
  intro t ht
  by_cases hopens : answers.Opens
  · show [] = framesOut (testHalComWrite dm stack answers []).1
    rw [testHalComWrite_run dm stack hopens]
    rfl
  · change (testHalComWrite dm stack answers []).1 = _ at ht
    rw [testHalComWrite_closed dm stack hopens] at ht
    exact absurd ht (by simp)

/-- A run of the sender goes on with one more answer. -/
theorem testHalComWrite_snoc {dm : DataModel} {stack : Nat → CanFrame} {answers : ComAnswers}
    {writes : List Int} {t : SenderState}
    (h : testHalComWrite dm stack answers writes = (.again t, [])) (w : Int) :
    testHalComWrite dm stack answers (writes ++ [w]) = (senderStep dm stack t w, []) := by
  have hopens : answers.Opens := by
    by_contra hopens
    rw [testHalComWrite_closed dm stack hopens] at h
    exact absurd (Prod.mk.inj h).1 (by simp)
  rw [testHalComWrite_run dm stack hopens] at h ⊢
  rw [run_append (congrArg Prod.fst h)]
  cases hstep : senderStep dm stack t w with
  | again t' => rw [run_cons_again hstep]; rfl
  | done r => rw [run_cons_done hstep]

/-- A `write` that does not take the frame ends the sender. -/
theorem senderStep_failed (dm : DataModel) (stack : Nat → CanFrame) (t : SenderState) {w : Int}
    (hw : w ≠ canFrameSize) : ∃ r, senderStep dm stack t w = .done r := by
  have hne : HAL_ERR_SEND_ERROR ≠ 0 := by decide
  unfold senderStep halComWriteStep
  dsimp only
  rw [if_pos hw]
  exact ⟨_, if_pos hne⟩

/-- A pass of the sender keeps the invariant. -/
theorem NetworkInv.write {dm : DataModel} {stack : Nat → CanFrame} {answers : ComAnswers}
    {s s' : NetworkState} {w : Int} (h : NetworkInv dm stack answers s)
    (hstep : networkStep dm stack s (.write w) = some s') : NetworkInv dm stack answers s' := by
  obtain ⟨writes, hwrites⟩ := h.sender
  simp only [networkStep] at hstep
  split at hstep
  case h_1 => exact absurd hstep (by simp)
  case h_2 t ht =>
    have hsame := h.running t ht
    rw [ht] at hwrites hsame
    have hsnoc := testHalComWrite_snoc hwrites w
    have hemits := emits_framesOut dm stack answers (writes ++ [w])
    rw [hsnoc] at hemits
    obtain ⟨f, hf⟩ := framesOut_senderStep dm stack t w
    dsimp only at hemits
    rw [hf] at hemits
    have hdlc : f.canDlc.toNat ≤ CAN_MAX_DLEN := hemits.2 f (by simp)
    split_ifs at hstep with hw
    · -- the frame goes on the bus
      rw [hf, List.getLast?_concat, Option.bind_some, busFrame?_eq hdlc] at hstep
      cases hstep
      have hall : (s.agent.consumed ++ (s.bus ++ [({ f with dlc_le := hdlc } : BusFrame)])).map
          (·.toCanFrame) = framesOut (senderStep dm stack t w) := by
        rw [← List.append_assoc, List.map_append, hsame, hf]
        rfl
      exact ⟨⟨_, hsnoc⟩, hall ▸ List.prefix_refl _, fun _ _ => hall, h.recv, h.logged⟩
    · cases hstep
      obtain ⟨r, hr⟩ := senderStep_failed dm stack t hw
      refine ⟨⟨_, hsnoc⟩, ?_, ?_, h.recv, h.logged⟩
      · show _ <+: framesOut (senderStep dm stack t w)
        rw [hf, hsame]
        exact List.prefix_append _ _
      · intro t' ht'
        change senderStep dm stack t w = _ at ht'
        rw [hr] at ht'
        exact absurd ht' (by simp)

/-- A call of the receive thread keeps the invariant. -/
theorem NetworkInv.agent {dm : DataModel} {stack : Nat → CanFrame} {answers : ComAnswers}
    {s s' : NetworkState} {i : Input} (h : NetworkInv dm stack answers s)
    (hstep : networkStep dm stack s (.agent i) = some s') : NetworkInv dm stack answers s' := by
  simp only [networkStep] at hstep
  split_ifs at hstep with hbus
  obtain ⟨agent, hagent, hs'⟩ := Option.bind_eq_some_iff.mp hstep
  cases hs'
  have hall : agent.consumed ++ s.bus.drop i.frames.length = s.agent.consumed ++ s.bus := by
    obtain ⟨rest, hrest⟩ := hbus
    rw [consumed_recvStep hagent, ← hrest, List.drop_left, List.append_assoc]
  refine ⟨h.sender, ?_, ?_, recvInv_step h.recv hagent, logged_step h.recv h.logged hagent⟩
  · show (agent.consumed ++ _).map _ <+: _
    rw [hall]
    exact h.frames
  · intro t ht
    show (agent.consumed ++ _).map _ = _
    rw [hall]
    exact h.running t ht

theorem networkInv_run {dm : DataModel} {stack : Nat → CanFrame} {answers : ComAnswers}
    {com : HalComCtx} {m : Nat → UInt8} {is : List NetworkInput} {s : NetworkState}
    (h : networkRun dm stack answers com m is = some s) : NetworkInv dm stack answers s := by
  refine exec_inv (P := fun _ => True) (NetworkInv dm stack answers) ?_ h
    (networkInv_start dm stack answers com m) fun _ _ => trivial
  intro s i s' _ hinv hstep
  cases i with
  | write w => exact hinv.write hstep
  | agent i => exact hinv.agent hstep

/-! ## The log -/

/-- The bytes of some first frames are the first ones that are sent. -/
theorem Emits.bytes_prefix {fs : List BusFrame} {gs : List CanFrame} (h : Emits gs)
    (hfs : fs.map (·.toCanFrame) <+: gs) : dataBytes fs <+: slice txByte 0 (txCount gs.length) := by
  have hle := hfs.length_le
  rw [List.length_map] at hle
  rw [(h.of_prefix hfs).bytes, ← slice_take txByte 0 (txCount_mono hle)]
  exact List.take_prefix _ _

/-- The log of the receiver is faithful to the sender for every interleaving of the two
and all calls that fail on either side.  Its byte with index `j` is the byte `txByte j`.
While the sender runs and the receiver waits for an event, the bytes that are not in the
log are those that are on the bus. -/
theorem network_log_faithful (dm : DataModel) (stack : Nat → CanFrame) (answers : ComAnswers)
    (com : HalComCtx) (m : Nat → UInt8) (is : List NetworkInput) (s : NetworkState)
    (hrun : networkRun dm stack answers com m is = some s) (items : List Printed)
    (hblocks : blocksOf items = s.agent.handed)
    (hlines : ∀ line, .log line ∈ items → '\n' ∉ line) :
    ∃ cs reports, consoleText dm items = some cs ∧ readLog cs = some reports ∧
      bytesOf reports <+: slice txByte 0 (txCount (framesOut s.sender).length) ∧
      ∀ rest t, s.agent.place = .loop rest → s.sender = .again t →
        bytesOf reports ++ dataBytes s.bus =
          slice txByte 0 (txCount (framesOut s.sender).length) := by
  have hinv := networkInv_run hrun
  obtain ⟨writes, hwrites⟩ := hinv.sender
  have hemits := emits_framesOut dm stack answers writes
  rw [hwrites] at hemits
  obtain ⟨cs, hcs, hread⟩ := hinv.recv.readLog dm hblocks hlines
  refine ⟨cs, _, hcs, hread, ?_, ?_⟩
  · have hconsumed : s.agent.consumed.map (·.toCanFrame) <+: framesOut s.sender := by
      refine List.IsPrefix.trans ?_ hinv.frames
      rw [List.map_append]
      exact List.prefix_append _ _
    exact (hinv.logged.bytesOf hinv.recv).trans (hemits.bytes_prefix hconsumed)
  · intro rest t hplace ht
    have hsame := hinv.running t ht
    have hbytes : dataBytes (s.agent.consumed ++ s.bus) = _ := Emits.bytes (hsame ▸ hemits)
    rw [← hsame, List.length_map, ← hbytes, dataBytes_append, hinv.recv.bytesOf_loop hplace]

/-- The first two frames of the sender. -/
def firstTxFrames : List BusFrame :=
  (framesOut (testHalComWrite .ilp32 (fun _ => (dataFrame 0 0 0).toCanFrame) ⟨3, 0, 0, 0⟩
    [canFrameSize, canFrameSize]).1).filterMap busFrame?

/-- Both are taken, and the receiver reads one of them. -/
def twoWrites : List NetworkInput :=
  [.write canFrameSize, .agent (.epollWait (some [true])), .write canFrameSize,
   .agent (.readTimeout 0
     ((firstTxFrames.take 1).map (fun f => PollAnswer.input (.frame f)) ++ [.timeout])),
   .agent .getPortnum]

theorem network_log_faithful_twoWrites :
    ∃ s cs reports,
      networkRun .ilp32 (fun _ => (dataFrame 0 0 0).toCanFrame) ⟨3, 0, 0, 0⟩ (openCtx 0)
        (fun _ => 0) twoWrites = some s ∧
      consoleText .ilp32 (s.agent.handed.map .frame) = some cs ∧ readLog cs = some reports ∧
      bytesOf reports ++ dataBytes s.bus = slice txByte 0 16 := by
  obtain ⟨s, hs⟩ : ∃ s, networkRun .ilp32 (fun _ => (dataFrame 0 0 0).toCanFrame) ⟨3, 0, 0, 0⟩
      (openCtx 0) (fun _ => 0) twoWrites = some s := Option.isSome_iff_exists.mp (by decide)
  have hplace : (networkRun .ilp32 (fun _ => (dataFrame 0 0 0).toCanFrame) ⟨3, 0, 0, 0⟩
      (openCtx 0) (fun _ => 0) twoWrites).map (·.agent.place) = some (.loop []) := by decide
  have hcount : (networkRun .ilp32 (fun _ => (dataFrame 0 0 0).toCanFrame) ⟨3, 0, 0, 0⟩
      (openCtx 0) (fun _ => 0) twoWrites).map (fun s => (framesOut s.sender).length) =
        some 2 := by decide
  have hsender : (networkRun .ilp32 (fun _ => (dataFrame 0 0 0).toCanFrame) ⟨3, 0, 0, 0⟩
      (openCtx 0) (fun _ => 0) twoWrites).map (fun s => s.sender.Sat (fun _ => True)
        (fun _ => False)) = some True := rfl
  rw [hs, Option.map_some, Option.some.injEq] at hplace hcount hsender
  obtain ⟨t, ht⟩ : ∃ t, s.sender = .again t := by
    cases hout : s.sender with
    | again t => exact ⟨t, rfl⟩
    | done r => simp [hout] at hsender
  have hblocks : blocksOf (s.agent.handed.map .frame) = s.agent.handed := by simp [blocksOf]
  obtain ⟨cs, reports, hcs, hread, -, hall⟩ := network_log_faithful .ilp32
    (fun _ => (dataFrame 0 0 0).toCanFrame) ⟨3, 0, 0, 0⟩ (openCtx 0) (fun _ => 0) twoWrites s hs
    (s.agent.handed.map .frame) hblocks (by simp)
  have hbytes := hall [] t hplace ht
  rw [hcount] at hbytes
  exact ⟨s, cs, reports, hs, hcs, hread, hbytes⟩

end CanbusAgent.Agent

import CanbusAgent.Agent.Model

/-!
# What the receive thread hands over

`RecvInv` is the invariant of the receive thread.  Between two events the
request is a whole block and the frames that carry data are exactly those that
were handed over; between a read and its handover the block is in the buffer.
It holds in every run, also when a call fails, because a failed call ends the
loop.  `recv_loses_nothing` reads the stream of bytes off it.
-/

namespace CanbusAgent.Agent

open Chunks DrivenLoop HalCom Region Transition

/-! ## Frames that carry data -/

/-- The frames of a list that carry data. -/
def carriers (fs : List BusFrame) : List BusFrame := fs.filter fun f => f.dlc ≠ 0

@[simp] theorem carriers_append (fs gs : List BusFrame) :
    carriers (fs ++ gs) = carriers fs ++ carriers gs :=
  List.filter_append fs gs

theorem payload_eq_nil {f : BusFrame} (h : f.dlc = 0) : f.payload = [] :=
  List.eq_nil_of_length_eq_zero (f.payload_length.trans h)

/-- Empty frames bring no bytes. -/
theorem dataBytes_carriers (fs : List BusFrame) : dataBytes (carriers fs) = dataBytes fs := by
  induction fs with
  | nil => rfl
  | cons f fs ih =>
    have hcons : ∀ gs : List BusFrame, dataBytes (f :: gs) = f.payload ++ dataBytes gs :=
      fun gs => by rw [← List.singleton_append, dataBytes_append, dataBytes_singleton]
    rcases Nat.eq_zero_or_pos f.dlc with h0 | hpos
    · rw [carriers, List.filter_cons_of_neg (by simp [h0]), hcons, payload_eq_nil h0,
        List.nil_append]
      exact ih
    · rw [carriers, List.filter_cons_of_pos (by simp; omega), hcons, hcons]
      exact congrArg (f.payload ++ ·) ih

theorem carriers_eq_nil {fs : List BusFrame} (h : dataLen fs = 0) : carriers fs = [] := by
  rw [carriers, List.filter_eq_nil_iff]
  intro f hf
  simp [weight_eq_zero BusFrame.dlc h f hf]

/-! ## The invariant -/

/-- The frames behind all payloads so far. -/
def framesOf (handed : List Handed) : List BusFrame := handed.flatMap (·.frames)

/-- All payloads so far. -/
def payloadsOf (handed : List Handed) : List UInt8 := handed.flatMap (·.payload)

/-- A call of `canrecive` passes the data bytes of its frames, at least one and
at most seven more than a block. -/
structure Handed.Sound (d : Handed) : Prop where
  payload : d.payload = dataBytes d.frames
  pos : 1 ≤ d.payload.length
  le : d.payload.length ≤ HAL_COM_DATA_BLOCK_SIZE + 7

/-- What holds at a place of the loop. -/
def AtPlace (s : RecvState) : Place → Prop
  | .loop _ => s.nbytes = HAL_COM_DATA_BLOCK_SIZE ∧
      carriers (framesOf s.handed) = carriers s.consumed
  | .hasRead _ => s.nbytes = dataLen s.batch ∧
      s.nbytes ≤ HAL_COM_DATA_BLOCK_SIZE + 7 ∧
      slice s.buffer.bytes 0 s.nbytes = dataBytes s.batch ∧
      carriers (framesOf s.handed) ++ carriers s.batch = carriers s.consumed
  | .reading => True
  | .finished => True

/-- The invariant of the receive thread. -/
structure RecvInv (s : RecvState) : Prop where
  stores : s.buffer.StoresBelow (HAL_COM_DATA_BLOCK_SIZE + 7)
  handed : ∀ d ∈ s.handed, d.Sound
  place : AtPlace s s.place

theorem recvInv_start (com : HalComCtx) (m : Nat → UInt8) : RecvInv (recvStart com m) where
  stores := by simp [recvStart, fresh, StoresBelow]
  handed := by simp [recvStart]
  place := ⟨rfl, rfl⟩

/-- A call of `hal_com_read_timeout` keeps the invariant. -/
theorem RecvInv.read {dm : DataModel} {s s' : RecvState} {events rest : List Bool}
    {sockopt : Int} {polls : List PollAnswer} (h : RecvInv s) (hplace : s.place = .loop events)
    (hs' : afterRead s rest polls
      (halComReadTimeout dm s.com s.buffer s.nbytes sockopt polls) = some s') : RecvInv s' := by
  have hloop := h.place
  rw [hplace] at hloop
  obtain ⟨hblock, hhanded⟩ := hloop
  rw [hblock] at hs'
  have hstores := readBlock_stores dm s.com h.stores sockopt polls
  rcases afterRead_cases hs' with ⟨call, left, hcall, rfl⟩ | ⟨r, hcall, rfl⟩
  · rw [hcall, Step.sat_again] at hstores
    exact ⟨hstores, h.handed, trivial⟩
  · rw [hcall, Step.sat_done] at hstores
    refine ⟨hstores, h.handed, ?_⟩
    dsimp only
    split_ifs with hret
    · trivial
    obtain ⟨hdel, hle⟩ := readBlock_delivers hcall (Decidable.of_not_not hret)
    have hlen : r.len = dataLen (framesPolled polls) :=
      hdel.len.trans (DataModel.toSize_of_le_add (by have := HAL_COM_DATA_BLOCK_SIZE_le dm; omega))
    have hdata : (dataBytes (framesPolled polls)).length = dataLen (framesPolled polls) :=
      dataBytes_length _
    refine ⟨hlen, by rw [hlen]; exact hle, ?_, ?_⟩
    · show slice r.buffer.bytes 0 r.len = _
      rw [hlen, hdel.bytes]
      exact slice_overlay_of_length s.buffer.bytes 0 hdata
    · show _ = carriers (s.consumed ++ framesPolled polls)
      rw [carriers_append, hhanded]

/-- The handover keeps the invariant. -/
theorem RecvInv.handOver {s : RecvState} {rest : List Bool} (h : RecvInv s)
    (hplace : s.place = .hasRead rest) : RecvInv (handOver s rest) := by
  have hread := h.place
  rw [hplace] at hread
  obtain ⟨hlen, hle, hbytes, hframes⟩ := hread
  rcases Nat.eq_zero_or_pos s.nbytes with h0 | hpos
  · -- nothing was read, so no frame of the batch carries data
    rw [handOver_of_eq rest h0]
    refine ⟨h.stores, h.handed, rfl, ?_⟩
    rw [carriers_eq_nil (hlen.symm.trans h0), List.append_nil] at hframes
    exact hframes
  · rw [handOver_of_ne rest (Nat.ne_of_gt hpos)]
    refine ⟨h.stores, List.forall_mem_append.mpr ⟨h.handed, List.forall_mem_singleton.mpr ?_⟩,
      rfl, ?_⟩
    · exact ⟨hbytes, by rw [slice_length]; exact hpos, by rw [slice_length]; exact hle⟩
    · rw [framesOf, List.flatMap_append, carriers_append]
      simpa [framesOf] using hframes

/-- The step lemma of the receive thread. -/
theorem recvInv_step {dm : DataModel} {s s' : RecvState} {i : Input} (h : RecvInv s)
    (hstep : recvStep dm s i = some s') : RecvInv s' := by
  cases move_of_recvStep hstep with
  | epollFails => exact ⟨h.stores, h.handed, trivial⟩
  | epollReports hplace =>
    have hloop := h.place
    rw [hplace] at hloop
    exact ⟨h.stores, h.handed, hloop⟩
  | read hplace _ _ _ hs' => exact h.read hplace hs'
  | handOver hplace => exact h.handOver hplace
  | owner =>
    refine ⟨h.stores, h.handed, ?_⟩
    have hsame := h.place
    cases hplace : s.place <;> rw [hplace] at hsame <;> exact hsame

/-- The run lemma: the invariant holds in every state that the thread reaches. -/
theorem recvInv_run {dm : DataModel} {com : HalComCtx} {m : Nat → UInt8} {is : List Input}
    {s : RecvState} (h : recvRun dm com m is = some s) : RecvInv s :=
  exec_inv (P := fun _ => True) RecvInv (fun _ _ _ _ hinv hstep => recvInv_step hinv hstep) h
    (recvInv_start com m) fun _ _ => trivial

/-! ## The stream of bytes -/

/-- The payloads are the data bytes of their frames. -/
theorem payloadsOf_eq {handed : List Handed} (h : ∀ d ∈ handed, d.Sound) :
    payloadsOf handed = dataBytes (framesOf handed) := by
  induction handed with
  | nil => rfl
  | cons d ds ih =>
    rw [payloadsOf, framesOf, List.flatMap_cons, List.flatMap_cons, dataBytes_append,
      (h d List.mem_cons_self).payload]
    exact congrArg (dataBytes d.frames ++ ·) (ih fun e he => h e (List.mem_cons_of_mem d he))

/-- No call of `epoll_wait`, `setsockopt` or `poll` fails. -/
def Input.Succeeds : Input → Prop
  | .epollWait events => events ≠ none
  | .readTimeout sockopt polls => 0 ≤ sockopt ∧ .fail ∉ polls
  | .getPortnum => True
  | .setPortnum _ => True

/-- A thread whose calls succeed stays in its loop. -/
theorem place_ne_finished {dm : DataModel} {s s' : RecvState} {i : Input} (hi : i.Succeeds)
    (hinv : RecvInv s) (h : s.place ≠ .finished) (hstep : recvStep dm s i = some s') :
    s'.place ≠ .finished := by
  cases move_of_recvStep hstep with
  | epollFails => exact absurd rfl hi
  | epollReports => exact Place.noConfusion
  | @read events rest hplace _ sockopt polls _ hs' =>
    have hloop := hinv.place
    rw [hplace] at hloop
    rw [hloop.1] at hs'
    rcases afterRead_cases hs' with ⟨_, _, _, rfl⟩ | ⟨r, hcall, rfl⟩
    · exact Place.noConfusion
    · dsimp only
      rw [if_neg (not_not.mpr (readBlock_ret hi.1 hi.2 hcall))]
      exact Place.noConfusion
  | handOver =>
    rcases Nat.eq_zero_or_pos s.nbytes with h0 | hpos
    · rw [handOver_of_eq _ h0]
      exact Place.noConfusion
    · rw [handOver_of_ne _ (Nat.ne_of_gt hpos)]
      exact Place.noConfusion
  | owner => exact h

/-- The receive thread loses, repeats and overruns nothing.  Every request is
for a whole block, every payload has at least one byte and at most seven more
than a block, every store is inside the array, and the payloads are the data of
the frames that were read, up to the block that waits for its handover. -/
theorem recv_loses_nothing (dm : DataModel) (com : HalComCtx) (m : Nat → UInt8) (is : List Input)
    (hok : ∀ i ∈ is, i.Succeeds) (s : RecvState) (hrun : recvRun dm com m is = some s) :
    (∀ rest, s.place = .loop rest →
      s.nbytes = HAL_COM_DATA_BLOCK_SIZE ∧ payloadsOf s.handed = dataBytes s.consumed) ∧
    (∀ rest, s.place = .hasRead rest →
      payloadsOf s.handed ++ slice s.buffer.bytes 0 s.nbytes = dataBytes s.consumed) ∧
    (∀ d ∈ s.handed, 1 ≤ d.payload.length ∧ d.payload.length ≤ HAL_COM_DATA_BLOCK_SIZE + 7) ∧
    s.buffer.StoresBelow CAN_AGENT_RECV_BUFFER_SIZE ∧
    s.place ≠ .finished := by
  have hinv := recvInv_run hrun
  have hpayloads : payloadsOf s.handed = dataBytes (carriers (framesOf s.handed)) := by
    rw [payloadsOf_eq hinv.handed, dataBytes_carriers]
  refine ⟨?_, ?_, fun d hd => ⟨(hinv.handed d hd).pos, (hinv.handed d hd).le⟩,
    hinv.stores.mono (by decide), ?_⟩
  · intro rest hplace
    have hloop := hinv.place
    rw [hplace] at hloop
    exact ⟨hloop.1, by rw [hpayloads, hloop.2, dataBytes_carriers]⟩
  · intro rest hplace
    have hread := hinv.place
    rw [hplace] at hread
    obtain ⟨_, _, hbytes, hframes⟩ := hread
    rw [hpayloads, hbytes, ← dataBytes_carriers s.batch, ← dataBytes_append, hframes,
      dataBytes_carriers]
  · have hboth := exec_inv (P := Input.Succeeds) (fun s => RecvInv s ∧ s.place ≠ .finished)
      (fun _ _ _ hi hs hstep => ⟨recvInv_step hs.1 hstep, place_ne_finished hi hs.1 hs.2 hstep⟩)
      hrun ⟨recvInv_start com m, Place.noConfusion⟩ hok
    exact hboth.2

/-- Two events: a block that a time limit ends after a frame, and one without
frames. -/
def twoEvents : List Input :=
  [.epollWait (some [true, false, true]),
   .readTimeout 0 [.input (.frame (dataFrame 7 3 0xaa)), .input .error, .timeout],
   .setPortnum 9,
   .getPortnum,
   .readTimeout 0 [.timeout],
   .getPortnum]

theorem recv_loses_nothing_twoEvents :
    ∃ s, recvRun .ilp32 (openCtx 0) (fun _ => 0) twoEvents = some s ∧
      payloadsOf s.handed = [0xaa, 0xaa, 0xaa] ∧ s.nbytes = 128 := by
  obtain ⟨s, hs⟩ : ∃ s, recvRun .ilp32 (openCtx 0) (fun _ => 0) twoEvents = some s :=
    Option.isSome_iff_exists.mp (by decide)
  have hplace : (recvRun .ilp32 (openCtx 0) (fun _ => 0) twoEvents).map (·.place) =
      some (.loop []) := by decide
  have hconsumed : (recvRun .ilp32 (openCtx 0) (fun _ => 0) twoEvents).map (·.consumed) =
      some [dataFrame 7 3 0xaa] := by decide
  rw [hs, Option.map_some, Option.some.injEq] at hplace hconsumed
  have hok : ∀ i ∈ twoEvents, i.Succeeds := by
    simp [twoEvents, Input.Succeeds]
  have h := recv_loses_nothing .ilp32 (openCtx 0) (fun _ => 0) twoEvents hok s hs
  refine ⟨s, hs, ?_, (h.1 [] hplace).1⟩
  rw [(h.1 [] hplace).2, hconsumed]
  decide

end CanbusAgent.Agent

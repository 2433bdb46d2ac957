import CanbusAgent.HalCom.Read
import CanbusAgent.Lib.Transition

/-!
# The receive thread

`canbus_recv_msg` waits for events on the socket and handles each of them with
one call of `hal_com_read_timeout` and one of `hal_com_get_portnum`.  What was
read goes to `canrecive`, which prints it.  The owner of the agent may call
`hal_com_set_portnum` on the same context between these calls.

`recvStep` is the thread as a machine that makes one call per step.  An input
is a call together with what its environment answers, and an input that does not
fit the place in the loop is refused.  A call of `hal_com_read_timeout` that did
not get enough answers to return is the last step of a run.

Three fields of the state are not variables of the program but a record of what
happened: `handed` has the calls of `canrecive`, `batch` the frames that the
last read took and `consumed` all frames that were read so far.
-/

namespace CanbusAgent.Agent

open DrivenLoop HalCom Region Transition

def HAL_COM_DATA_BLOCK_SIZE : Nat := 128

def CAN_AGENT_RECV_BUFFER_SIZE : Nat := 1024

/-- A call of `canrecive`, with the frames that its payload was read from. -/
structure Handed where
  canId : Int32
  payload : List UInt8
  frames : List BusFrame

/-- A place in the loops of `canbus_recv_msg`.  `rest` are the events that
`epoll_wait` reported and that were not looked at yet: whether each of them has
the bit `EPOLLIN`. -/
inductive Place where
  /-- Before the next pass of the `for` loop. -/
  | loop (rest : List Bool)
  /-- `hal_com_read_timeout` was called and has not returned. -/
  | reading
  /-- `hal_com_read_timeout` has returned 0. -/
  | hasRead (rest : List Bool)
  /-- Past the label `finish`. -/
  | finished
deriving DecidableEq

structure RecvState where
  com : HalComCtx
  nbytes : Nat
  buffer : Region UInt8
  frameid : Int32
  place : Place
  handed : List Handed
  batch : List BusFrame
  consumed : List BusFrame

/-- A call, with the answers of its environment. -/
inductive Input where
  /-- `epoll_wait`: a negative result, or the reported events. -/
  | epollWait (events : Option (List Bool))
  | readTimeout (sockopt : Int) (polls : List PollAnswer)
  | getPortnum
  /-- A call of the owner. -/
  | setPortnum (port : Int32)

/-- The events that are left after the next one with `EPOLLIN`.  The `for` loop
passes over the others. -/
def nextReady : List Bool → Option (List Bool)
  | [] => none
  | true :: rest => some rest
  | false :: rest => nextReady rest

/-- The state at the start of `canbus_recv_msg`.  The array `buffer` is not
initialised. -/
def recvStart (com : HalComCtx) (m : Nat → UInt8) : RecvState where
  com := com
  nbytes := HAL_COM_DATA_BLOCK_SIZE
  buffer := fresh m
  frameid := 0
  place := .loop []
  handed := []
  batch := []
  consumed := []

/-- The end of a call of `hal_com_read_timeout`, if it has returned.  The call
has to have taken all its answers. -/
def afterRead (s : RecvState) (rest : List Bool) (polls : List PollAnswer) :
    Step ReadState ReadResult × List PollAnswer → Option RecvState
  | (.again call, _) =>
    some { s with
      com := call.ctx
      buffer := call.buffer
      place := .reading
      batch := framesPolled polls
      consumed := s.consumed ++ framesPolled polls }
  | (.done _, _ :: _) => none
  | (.done r, []) =>
    some { s with
      com := r.ctx
      buffer := r.buffer
      nbytes := r.len
      place := if r.ret ≠ 0 then .finished else .hasRead rest
      batch := framesPolled polls
      consumed := s.consumed ++ framesPolled polls }

/-- The part of the loop body from `hal_com_get_portnum` on. -/
def handOver (s : RecvState) (rest : List Bool) : RecvState :=
  let (ret, frameid) := halComGetPortnum s.com
  if ret ≠ 0 then { s with frameid, place := .finished }
  else if s.nbytes ≠ 0 then
    let (payload, buffer) := s.buffer.load 0 s.nbytes
    { s with
      frameid
      buffer
      nbytes := HAL_COM_DATA_BLOCK_SIZE
      place := .loop rest
      handed := s.handed ++ [{ canId := frameid, payload, frames := s.batch }] }
  else { s with frameid, nbytes := HAL_COM_DATA_BLOCK_SIZE, place := .loop rest }

def recvStep (dm : DataModel) (s : RecvState) : Input → Option RecvState
  | .epollWait events =>
    match s.place with
    | .loop rest =>
      match nextReady rest, events with
      | some _, _ => none
      | none, none => some { s with place := .finished }
      | none, some ready => some { s with place := .loop ready }
    | _ => none
  | .readTimeout sockopt polls =>
    match s.place with
    | .loop events =>
      match nextReady events with
      | none => none
      | some rest =>
        afterRead s rest polls (halComReadTimeout dm s.com s.buffer s.nbytes sockopt polls)
    | _ => none
  | .getPortnum =>
    match s.place with
    | .hasRead rest => some (handOver s rest)
    | _ => none
  | .setPortnum port =>
    match s.place with
    | .reading => none
    | _ => some { s with com := (halComSetPortnum s.com port).2 }

/-- A run of the thread from its start. -/
def recvRun (dm : DataModel) (com : HalComCtx) (m : Nat → UInt8) (is : List Input) :
    Option RecvState :=
  exec (recvStep dm) (recvStart com m) is

/-! ## What one step does -/

/-- The steps of the thread, each with the condition under which it is made. -/
inductive Move (dm : DataModel) (s : RecvState) : Input → RecvState → Prop where
  | epollFails {rest : List Bool} (hplace : s.place = .loop rest) (hrest : nextReady rest = none) :
      Move dm s (.epollWait none) { s with place := .finished }
  | epollReports {rest : List Bool} (hplace : s.place = .loop rest) (hrest : nextReady rest = none)
      (ready : List Bool) : Move dm s (.epollWait (some ready)) { s with place := .loop ready }
  | read {events rest : List Bool} (hplace : s.place = .loop events)
      (hrest : nextReady events = some rest) (sockopt : Int) (polls : List PollAnswer)
      {s' : RecvState}
      (hs' : afterRead s rest polls
        (halComReadTimeout dm s.com s.buffer s.nbytes sockopt polls) = some s') :
      Move dm s (.readTimeout sockopt polls) s'
  | handOver {rest : List Bool} (hplace : s.place = .hasRead rest) :
      Move dm s .getPortnum (handOver s rest)
  | owner (hplace : s.place ≠ .reading) (port : Int32) :
      Move dm s (.setPortnum port) { s with com := (halComSetPortnum s.com port).2 }

/-- The inversion of `recvStep`. -/
theorem move_of_recvStep {dm : DataModel} {s s' : RecvState} {i : Input}
    (h : recvStep dm s i = some s') : Move dm s i s' := by
  cases i with
  | epollWait events =>
    simp only [recvStep] at h
    split at h
    case h_1 rest hplace =>
      split at h
      case h_1 => exact absurd h (by simp)
      case h_2 hrest => exact Option.some.inj h ▸ .epollFails hplace hrest
      case h_3 ready hrest => exact Option.some.inj h ▸ .epollReports hplace hrest ready
    case h_2 => exact absurd h (by simp)
  | readTimeout sockopt polls =>
    simp only [recvStep] at h
    split at h
    case h_1 events hplace =>
      split at h
      case h_1 => exact absurd h (by simp)
      case h_2 rest hrest => exact .read hplace hrest sockopt polls h
    case h_2 => exact absurd h (by simp)
  | getPortnum =>
    simp only [recvStep] at h
    split at h
    case h_1 rest hplace => exact Option.some.inj h ▸ .handOver hplace
    case h_2 => exact absurd h (by simp)
  | setPortnum port =>
    simp only [recvStep] at h
    split at h
    case h_1 => exact absurd h (by simp)
    case h_2 hplace => exact Option.some.inj h ▸ .owner hplace port

/-- A call of `hal_com_read_timeout` still waits, or it has returned and taken
every answer. -/
theorem afterRead_cases {s s' : RecvState} {rest : List Bool} {polls : List PollAnswer}
    {outcome : Step ReadState ReadResult × List PollAnswer}
    (h : afterRead s rest polls outcome = some s') :
    (∃ call left, outcome = (.again call, left) ∧ s' = { s with
      com := call.ctx
      buffer := call.buffer
      place := .reading
      batch := framesPolled polls
      consumed := s.consumed ++ framesPolled polls }) ∨
    ∃ r, outcome = (.done r, []) ∧ s' = { s with
      com := r.ctx
      buffer := r.buffer
      nbytes := r.len
      place := if r.ret ≠ 0 then .finished else .hasRead rest
      batch := framesPolled polls
      consumed := s.consumed ++ framesPolled polls } := by
  obtain ⟨call | r, left⟩ := outcome
  · exact Or.inl ⟨call, left, rfl, (Option.some.inj h).symm⟩
  · cases left with
    | nil => exact Or.inr ⟨r, rfl, (Option.some.inj h).symm⟩
    | cons a as => exact absurd h (by simp [afterRead])

/-- The handover of a block with data. -/
theorem handOver_of_ne {s : RecvState} (rest : List Bool) (h : s.nbytes ≠ 0) :
    handOver s rest = { s with
      frameid := s.com.currentCanId.toInt32
      buffer := (s.buffer.load 0 s.nbytes).2
      nbytes := HAL_COM_DATA_BLOCK_SIZE
      place := .loop rest
      handed := s.handed ++
        [{ canId := s.com.currentCanId.toInt32
           payload := slice s.buffer.bytes 0 s.nbytes
           frames := s.batch }] } := by
  simp [handOver, halComGetPortnum, HAL_SUCCESS, h]

/-- An empty block is not handed over. -/
theorem handOver_of_eq {s : RecvState} (rest : List Bool) (h : s.nbytes = 0) :
    handOver s rest = { s with
      frameid := s.com.currentCanId.toInt32
      nbytes := HAL_COM_DATA_BLOCK_SIZE
      place := .loop rest } := by
  simp [handOver, halComGetPortnum, HAL_SUCCESS, h]

/-! ## One block -/

theorem HAL_COM_DATA_BLOCK_SIZE_pos : 0 < HAL_COM_DATA_BLOCK_SIZE := Nat.zero_lt_succ 127

theorem HAL_COM_DATA_BLOCK_SIZE_le (dm : DataModel) : HAL_COM_DATA_BLOCK_SIZE ≤ dm.SSIZE_MAX := by
  cases dm <;> decide

/-- A block overshoots its size by at most seven bytes, whatever ends it, and
nothing is stored behind them. -/
theorem readBlock_stores (dm : DataModel) (com : HalComCtx) {buffer : Region UInt8}
    (hbuffer : buffer.StoresBelow (HAL_COM_DATA_BLOCK_SIZE + 7)) (sockopt : Int)
    (polls : List PollAnswer) :
    (halComReadTimeout dm com buffer HAL_COM_DATA_BLOCK_SIZE sockopt polls).1.Sat
      (fun call => call.buffer.StoresBelow (HAL_COM_DATA_BLOCK_SIZE + 7))
      (fun r => r.buffer.StoresBelow (HAL_COM_DATA_BLOCK_SIZE + 7)) := by
  rcases Int.lt_or_le sockopt 0 with hneg | hsock
  · unfold halComReadTimeout
    rw [if_neg (by decide), if_pos hneg]
    exact hbuffer
  obtain ⟨used, _, hsat⟩ := halComReadTimeout_spec dm com buffer
    HAL_COM_DATA_BLOCK_SIZE_pos (HAL_COM_DATA_BLOCK_SIZE_le dm) hsock polls
  cases hcall : (halComReadTimeout dm com buffer HAL_COM_DATA_BLOCK_SIZE sockopt polls).1 with
  | again call =>
    rw [hcall, Step.sat_again] at hsat
    have hshort := hsat.2.short
    rw [Step.sat_again, hsat.2.filled.stores]
    exact ⟨by omega, hbuffer⟩
  | done r =>
    rw [hcall, Step.sat_done] at hsat
    rw [Step.sat_done]
    cases hsat with
    | @reached us f r _ hreach hdel =>
      rw [hdel.stores]
      exact ⟨dataLen_le_of_reaches hreach, hbuffer⟩
    | timedOut _ hlt hdel =>
      rw [hdel.stores]
      exact ⟨by omega, hbuffer⟩
    | failed _ hlt hab =>
      rw [hab.stores]
      exact ⟨by omega, hbuffer⟩

/-- A block that was read without an error has at most seven bytes more than its
size, and it is what its frames carry. -/
theorem readBlock_delivers {dm : DataModel} {com : HalComCtx} {buffer : Region UInt8}
    {sockopt : Int} {polls : List PollAnswer} {r : ReadResult}
    (hcall : halComReadTimeout dm com buffer HAL_COM_DATA_BLOCK_SIZE sockopt polls = (.done r, []))
    (hret : r.ret = 0) :
    Delivered dm (readStart dm com buffer HAL_COM_DATA_BLOCK_SIZE) (framesPolled polls) r ∧
      dataLen (framesPolled polls) ≤ HAL_COM_DATA_BLOCK_SIZE + 7 := by
  rcases Int.lt_or_le sockopt 0 with hneg | hsock
  · -- the filter was not set, and the code is not 0
    unfold halComReadTimeout at hcall
    rw [if_neg (by decide), if_pos hneg] at hcall
    obtain ⟨hr, -⟩ := Prod.mk.inj hcall
    rw [← Step.done.inj hr] at hret
    exact absurd hret HAL_ERR_FILE_IOCTL_ne_zero
  obtain ⟨used, hused, hsat⟩ := halComReadTimeout_spec dm com buffer
    HAL_COM_DATA_BLOCK_SIZE_pos (HAL_COM_DATA_BLOCK_SIZE_le dm) hsock polls
  rw [hcall, List.append_nil] at hused
  rw [hcall, Step.sat_done] at hsat
  subst hused
  cases hsat with
  | @reached us f r _ hreach hdel =>
    rw [framesPolled_append, framesPolled_input, framesRead_frame]
    exact ⟨hdel, dataLen_le_of_reaches hreach⟩
  | timedOut _ hlt hdel =>
    rw [framesPolled_append, framesPolled_timeout, List.append_nil]
    exact ⟨hdel, by omega⟩
  | failed _ _ hab => exact absurd hret hab.ret_ne_zero

/-- A block is read without an error when no call fails. -/
theorem readBlock_ret {dm : DataModel} {com : HalComCtx} {buffer : Region UInt8}
    {sockopt : Int} {polls left : List PollAnswer} {r : ReadResult} (hsock : 0 ≤ sockopt)
    (hpolls : .fail ∉ polls)
    (hcall : halComReadTimeout dm com buffer HAL_COM_DATA_BLOCK_SIZE sockopt polls =
      (.done r, left)) : r.ret = 0 := by
  obtain ⟨used, hused, hsat⟩ := halComReadTimeout_spec dm com buffer
    HAL_COM_DATA_BLOCK_SIZE_pos (HAL_COM_DATA_BLOCK_SIZE_le dm) hsock polls
  rw [hcall] at hused hsat
  rw [Step.sat_done] at hsat
  cases hsat with
  | reached _ _ hdel => exact hdel.ret
  | timedOut _ _ hdel => exact hdel.ret
  | failed => exact absurd (by simp [hused]) hpolls

end CanbusAgent.Agent

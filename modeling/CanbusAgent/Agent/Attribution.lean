import CanbusAgent.Agent.Stream

/-!
# The id that received bytes are reported under

`canbus_recv_msg` prints a whole block under one id: the one that the context
holds after the read.  This is the id of the last frame of the block, or the
port that the owner has set since.  `Unmixed` is the condition on a run that
makes it the id of every frame that brought data, and
`recv_attributes_ids` says that nothing weaker is enough.
-/

namespace CanbusAgent.Agent

open Chunks DrivenLoop HalCom Region Transition

/-! ## What should be reported -/

/-- Every frame that brought data to a payload carries the id that the payload
is reported under. -/
def Handed.Attributed (d : Handed) : Prop :=
  ∀ f ∈ d.frames, f.dlc ≠ 0 → f.canId.toInt32 = d.canId

instance (d : Handed) : Decidable d.Attributed :=
  inferInstanceAs (Decidable (∀ f ∈ d.frames, _))

/-- The data bytes of the frames with a given id. -/
def streamOf (id : UInt32) (fs : List BusFrame) : List UInt8 :=
  dataBytes (fs.filter fun f => f.canId = id)

/-- The payloads that were reported under a given id. -/
def reportedFor (id : UInt32) (handed : List Handed) : List UInt8 :=
  payloadsOf (handed.filter fun d => d.canId = id.toInt32)

/-- All bytes so far were reported under the id that sent them.  Between two
events nothing is missing: what was reported for an id is what it sent. -/
def Attributed (s : RecvState) : Prop :=
  (∀ d ∈ s.handed, d.Attributed) ∧
    ∀ rest, s.place = .loop rest → ∀ id, reportedFor id s.handed = streamOf id s.consumed

/-! ## When it is -/

/-- Whenever a block is handed over, the id in the context is the id of every
frame that brought data to it.  `batch` are the frames that the last read took,
and `id` is the id in the context. -/
def Unmixed : List BusFrame → UInt32 → List Input → Prop
  | _, _, [] => True
  | batch, id, .epollWait _ :: is => Unmixed batch id is
  | _, id, .readTimeout _ polls :: is =>
    Unmixed (framesPolled polls) (lastId id (framesPolled polls)) is
  | batch, id, .getPortnum :: is =>
    (∀ f ∈ batch, f.dlc ≠ 0 → f.canId = id) ∧ Unmixed batch id is
  | batch, _, .setPortnum port :: is => Unmixed batch port.toUInt32 is

theorem toInt32_inj {a b : UInt32} : a.toInt32 = b.toInt32 ↔ a = b := by
  constructor
  · intro h
    rw [← a.toUInt32_toInt32, h, b.toUInt32_toInt32]
  · rintro rfl
    rfl

/-- What a call of `hal_com_read_timeout` leaves to the handover. -/
theorem afterRead_ids {dm : DataModel} {s s' : RecvState} {rest : List Bool} {sockopt : Int}
    {polls : List PollAnswer}
    (hs' : afterRead s rest polls
      (halComReadTimeout dm s.com s.buffer s.nbytes sockopt polls) = some s') :
    s'.handed = s.handed ∧ s'.batch = framesPolled polls ∧
      s'.com.currentCanId = lastId s.com.currentCanId (framesPolled polls) := by
  obtain ⟨used, hused, hctx⟩ := ctxAfter_readTimeout dm s.com s.buffer s.nbytes sockopt polls
  rcases afterRead_cases hs' with ⟨call, left, hcall, rfl⟩ | ⟨r, hcall, rfl⟩
  · rw [hcall] at hused hctx
    rw [readTimeout_again_rest hcall, List.append_nil] at hused
    rw [hused]
    exact ⟨rfl, rfl, congrArg HalComCtx.currentCanId hctx⟩
  · rw [hcall] at hused hctx
    rw [List.append_nil] at hused
    rw [hused]
    exact ⟨rfl, rfl, congrArg HalComCtx.currentCanId hctx⟩

/-- The handover adds a payload whose frames are the batch. -/
theorem handOver_attributed_iff {s : RecvState} {rest : List Bool} (hinv : RecvInv s)
    (hplace : s.place = .hasRead rest) :
    (∀ d ∈ (handOver s rest).handed, d.Attributed) ↔
      (∀ d ∈ s.handed, d.Attributed) ∧
        ∀ f ∈ s.batch, f.dlc ≠ 0 → f.canId = s.com.currentCanId := by
  have hread := hinv.place
  rw [hplace] at hread
  rcases Nat.eq_zero_or_pos s.nbytes with h0 | hpos
  · -- no frame of the batch brought data
    have hempty := weight_eq_zero BusFrame.dlc (hread.1.symm.trans h0)
    rw [handOver_of_eq rest h0]
    exact ⟨fun h => ⟨h, fun f hf hne => absurd (hempty f hf) hne⟩, fun h => h.1⟩
  · rw [handOver_of_ne rest (Nat.ne_of_gt hpos)]
    simp only [List.forall_mem_append, List.forall_mem_singleton, Handed.Attributed, toInt32_inj]

/-- The induction over a run. -/
theorem attributed_iff_unmixed {dm : DataModel} {s s' : RecvState} {is : List Input}
    (hinv : RecvInv s) (hrun : exec (recvStep dm) s is = some s') :
    (∀ d ∈ s'.handed, d.Attributed) ↔
      (∀ d ∈ s.handed, d.Attributed) ∧ Unmixed s.batch s.com.currentCanId is := by
  induction is generalizing s with
  | nil =>
    rw [exec_nil, Option.some.injEq] at hrun
    subst hrun
    simp [Unmixed]
  | cons i is ih =>
    obtain ⟨s₁, hstep, hrest⟩ := exec_cons.mp hrun
    have hnext := ih (recvInv_step hinv hstep) hrest
    rw [hnext]
    cases move_of_recvStep hstep with
    | epollFails => rw [Unmixed]
    | epollReports => rw [Unmixed]
    | read _ _ _ _ hs' =>
      obtain ⟨hhanded, hbatch, hid⟩ := afterRead_ids hs'
      rw [Unmixed, hhanded, hbatch, hid]
    | @handOver rest hplace =>
      have hsame : (handOver s rest).batch = s.batch ∧ (handOver s rest).com = s.com := by
        rcases Nat.eq_zero_or_pos s.nbytes with h0 | hpos
        · rw [handOver_of_eq rest h0]
          exact ⟨rfl, rfl⟩
        · rw [handOver_of_ne rest (Nat.ne_of_gt hpos)]
          exact ⟨rfl, rfl⟩
      rw [Unmixed, handOver_attributed_iff hinv hplace, hsame.1, hsame.2, and_assoc]
    | owner => rw [Unmixed, halComSetPortnum]

/-! ## The stream of one id -/

theorem streamOf_append (id : UInt32) (fs gs : List BusFrame) :
    streamOf id (fs ++ gs) = streamOf id fs ++ streamOf id gs := by
  rw [streamOf, List.filter_append, dataBytes_append]
  rfl

/-- Empty frames bring nothing to the stream of an id. -/
theorem streamOf_carriers (id : UInt32) (fs : List BusFrame) :
    streamOf id (carriers fs) = streamOf id fs := by
  rw [streamOf, streamOf, ← dataBytes_carriers (fs.filter _), carriers, carriers,
    List.filter_comm]

/-- Frames whose data comes from one id are its stream, and they bring nothing to
the stream of another id. -/
theorem streamOf_eq {id : UInt32} {fs : List BusFrame} (id' : UInt32)
    (h : ∀ f ∈ fs, f.dlc ≠ 0 → f.canId = id) :
    streamOf id' fs = if id = id' then dataBytes fs else [] := by
  have hids : ∀ f ∈ carriers fs, f.canId = id := by
    intro f hf
    obtain ⟨hmem, hdlc⟩ := List.mem_filter.mp hf
    exact h f hmem (by simpa using hdlc)
  rw [← streamOf_carriers, ← dataBytes_carriers fs]
  split_ifs with heq
  · rw [streamOf, List.filter_eq_self.mpr]
    intro f hf
    simp [hids f hf, heq]
  · rw [streamOf, List.filter_eq_nil_iff.mpr, dataBytes_nil]
    intro f hf
    simp [hids f hf, heq]

/-- When every payload is attributed, what was reported for an id is the stream
of this id among the frames behind the payloads. -/
theorem reportedFor_eq {handed : List Handed} (hsound : ∀ d ∈ handed, d.Sound)
    (hattr : ∀ d ∈ handed, d.Attributed) (id : UInt32) :
    reportedFor id handed = streamOf id (framesOf handed) := by
  induction handed with
  | nil => rfl
  | cons d ds ih =>
    have hrest := ih (fun e he => hsound e (List.mem_cons_of_mem d he))
      fun e he => hattr e (List.mem_cons_of_mem d he)
    have hframes : ∀ f ∈ d.frames, f.dlc ≠ 0 → f.canId = d.canId.toUInt32 := by
      intro f hf hdlc
      rw [← hattr d List.mem_cons_self f hf hdlc, UInt32.toUInt32_toInt32]
    have hid : d.canId = id.toInt32 ↔ d.canId.toUInt32 = id := by
      constructor
      · intro h
        rw [h, UInt32.toUInt32_toInt32]
      · rintro rfl
        rw [Int32.toInt32_toUInt32]
    have hcons : framesOf (d :: ds) = d.frames ++ framesOf ds := List.flatMap_cons
    rw [hcons, streamOf_append, streamOf_eq id hframes, ← hrest, reportedFor, reportedFor,
      ← (hsound d List.mem_cons_self).payload]
    split_ifs with heq
    · rw [List.filter_cons_of_pos (by simpa using hid.mpr heq)]
      rfl
    · rw [List.filter_cons_of_neg (by simpa using fun h => heq (hid.mp h)), List.nil_append]

/-! ## The exact condition -/

/-- In every run, all received bytes are attributed to the id that sent them
exactly when no block is handed over that mixes the data of two ids, or whose id
the owner has replaced since it was read. -/
theorem recv_attributes_ids (dm : DataModel) (com : HalComCtx) (m : Nat → UInt8)
    (is : List Input) (s : RecvState) (hrun : recvRun dm com m is = some s) :
    Attributed s ↔ Unmixed [] com.currentCanId is := by
  have hinv := recvInv_run hrun
  have hiff : (∀ d ∈ s.handed, d.Attributed) ↔ Unmixed [] com.currentCanId is := by
    have h := attributed_iff_unmixed (recvInv_start com m) hrun
    simpa [recvStart] using h
  unfold Attributed
  rw [← hiff]
  refine ⟨fun h => h.1, fun hattr => ⟨hattr, ?_⟩⟩
  intro rest hplace id
  have hloop := hinv.place
  rw [hplace] at hloop
  rw [reportedFor_eq hinv.handed hattr, ← streamOf_carriers, hloop.2, streamOf_carriers]

/-- Two blocks of different senders, each read on its own. -/
def separateBlocks : List Input :=
  [.epollWait (some [true, true]),
   .readTimeout 0 [.input (.frame (dataFrame 1 8 0xaa)), .timeout],
   .getPortnum,
   .readTimeout 0 [.input (.frame (dataFrame 2 8 0xbb)), .timeout],
   .getPortnum]

theorem recv_attributes_ids_separate :
    ∃ s, recvRun .ilp32 (openCtx 0) (fun _ => 0) separateBlocks = some s ∧ Attributed s := by
  obtain ⟨s, hs⟩ : ∃ s, recvRun .ilp32 (openCtx 0) (fun _ => 0) separateBlocks = some s :=
    Option.isSome_iff_exists.mp (by decide)
  have hunmixed : Unmixed [] (openCtx 0).currentCanId separateBlocks := by
    simp only [separateBlocks, Unmixed]
    decide
  exact ⟨s, hs, (recv_attributes_ids .ilp32 (openCtx 0) (fun _ => 0) separateBlocks s hs).mpr
    hunmixed⟩

/-- A frame of sender 1 and a frame of sender 2 in one block. -/
def mixedBlock : List Input :=
  [.epollWait (some [true]),
   .readTimeout 0
     [.input (.frame (dataFrame 1 8 0xaa)), .input (.frame (dataFrame 2 8 0xbb)), .timeout],
   .getPortnum]

/-- A block of sender 1, and the owner sets the port 9 before it is handed over. -/
def replacedId : List Input :=
  [.epollWait (some [true]),
   .readTimeout 0 [.input (.frame (dataFrame 1 8 0xaa)), .timeout],
   .setPortnum 9,
   .getPortnum]

/-- A run that hands over a payload with the data of another id. -/
theorem exists_not_attributed {is : List Input}
    (h : (recvRun .ilp32 (openCtx 0) (fun _ => 0) is).map
      (fun s => decide (∀ d ∈ s.handed, d.Attributed)) = some false) :
    ∃ s, recvRun .ilp32 (openCtx 0) (fun _ => 0) is = some s ∧ ¬ Attributed s := by
  obtain ⟨s, hs, hfalse⟩ := Option.map_eq_some_iff.mp h
  exact ⟨s, hs, fun hattr => of_decide_eq_false hfalse hattr.1⟩

/-- Sixteen bytes are reported under the id 2 although the first eight are from
sender 1, and eight bytes of sender 1 are reported under the port of the owner. -/
theorem recv_misattributes :
    (∃ s, recvRun .ilp32 (openCtx 0) (fun _ => 0) mixedBlock = some s ∧ ¬ Attributed s) ∧
      ∃ s, recvRun .ilp32 (openCtx 0) (fun _ => 0) replacedId = some s ∧ ¬ Attributed s :=
  ⟨exists_not_attributed (by decide), exists_not_attributed (by decide)⟩

end CanbusAgent.Agent

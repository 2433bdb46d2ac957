import CanbusAgent.HalCom.Read
import CanbusAgent.HalCom.Write

/-!
# The id under which a context transmits

A context has one id field.  `hal_com_set_portnum` stores the id for the next
messages in it, and the read functions store the id of every received frame in
it, where `hal_com_get_portnum` finds it.  `hal_com_write` takes the id of its
frames from this field too.

A sequence of calls on one context leaves a trace of the ports that were set,
the frames that were received and the frames that were emitted.  `emitted_canId`
says which id an emitted frame carries.
-/

namespace CanbusAgent.HalCom

open DrivenLoop Region

/-- A call on a context, with its arguments and the answers of the socket. -/
inductive Op where
  | setPortnum (port : Int32)
  | setConfig (config : HalComConfig)
  | getPortnum
  | read (buffer : Region UInt8) (len : Nat) (sockopt : Int) (reads : List ReadAnswer)
  | readTimeout (buffer : Region UInt8) (len : Nat) (sockopt : Int) (polls : List PollAnswer)
  | write (stack : CanFrame) (buffer : Nat → UInt8) (len : Nat) (writes : List Int)

/-- What concerns the id field in a sequence of calls. -/
inductive Event where
  | port (port : Int32)
  | received (f : BusFrame)
  | emitted (f : CanFrame)
deriving DecidableEq

/-- The answers that were taken when `rest` is left. -/
def taken {α : Type} (answers rest : List α) : List α :=
  answers.take (answers.length - rest.length)

theorem taken_eq {α : Type} {answers used rest : List α} (h : answers = used ++ rest) :
    taken answers rest = used := by
  simp [taken, h]

/-- The context after a call, or `none` when the call did not return. -/
def ctxReturned : Step ReadState ReadResult → Option HalComCtx
  | .again _ => none
  | .done r => some r.ctx

/-- The same for a call of `hal_com_write`. -/
def ctxWritten : Step WriteState WriteResult → Option HalComCtx
  | .again _ => none
  | .done r => some r.ctx

/-- A call, with its part of the trace. -/
def perform (dm : DataModel) (ctx : HalComCtx) : Op → List Event × Option HalComCtx
  | .setPortnum port => ([.port port], some (halComSetPortnum ctx port).2)
  | .setConfig config => ([], some (halComSetConfig ctx config).2)
  | .getPortnum => ([], some ctx)
  | .read buffer len sockopt reads =>
    let (call, rest) := halComRead dm ctx buffer len sockopt reads
    ((framesRead (taken reads rest)).map .received, ctxReturned call)
  | .readTimeout buffer len sockopt polls =>
    let (call, rest) := halComReadTimeout dm ctx buffer len sockopt polls
    ((framesPolled (taken polls rest)).map .received, ctxReturned call)
  | .write stack buffer len writes =>
    let (call, _) := halComWrite ctx stack buffer len writes
    ((sentBy call).map .emitted, ctxWritten call)

/-- The trace of a sequence of calls.  A call that does not return is the last. -/
def trace (dm : DataModel) : HalComCtx → List Op → List Event
  | _, [] => []
  | ctx, op :: ops =>
    let (events, next) := perform dm ctx op
    events ++
      match next with
      | none => []
      | some ctx => trace dm ctx ops

/-! ## The id after a trace -/

/-- The id that an event puts into the context. -/
def Event.stores : Event → Option UInt32
  | .port p => some p.toUInt32
  | .received f => some f.canId
  | .emitted _ => none

/-- The id of the latest port that was set or frame that was received, and `id₀`
when there was none. -/
def idAfter (id₀ : UInt32) (events : List Event) : UInt32 :=
  ((events.filterMap (·.stores)).getLast?).getD id₀

@[simp] theorem idAfter_nil (id₀ : UInt32) : idAfter id₀ [] = id₀ := rfl

theorem idAfter_append (id₀ : UInt32) (as bs : List Event) :
    idAfter id₀ (as ++ bs) = idAfter (idAfter id₀ as) bs := by
  rw [idAfter, idAfter, idAfter, List.filterMap_append, List.getLast?_append]
  cases (bs.filterMap (·.stores)).getLast? <;> rfl

theorem idAfter_received (id₀ : UInt32) (fs : List BusFrame) :
    idAfter id₀ (fs.map .received) = lastId id₀ fs := by
  have hids : (fs.map Event.received).filterMap (·.stores) = fs.map (·.canId) := by
    induction fs with
    | nil => rfl
    | cons f fs ih => simp [Event.stores] at ih ⊢
  rw [idAfter, lastId, hids, List.getLast?_map]

theorem idAfter_emitted (id₀ : UInt32) (fs : List CanFrame) :
    idAfter id₀ (fs.map .emitted) = id₀ := by
  have hids : (fs.map Event.emitted).filterMap (·.stores) = [] := by
    induction fs with
    | nil => rfl
    | cons f fs ih => simp [Event.stores] at ih ⊢
  rw [idAfter, hids]
  rfl

/-- A port that was set stays until a frame is received or another port is set. -/
theorem idAfter_port (id₀ : UInt32) (pre : List Event) (port : Int32) (fs : List CanFrame) :
    idAfter id₀ (pre ++ .port port :: fs.map .emitted) = port.toUInt32 := by
  rw [idAfter_append, ← List.singleton_append, idAfter_append, idAfter_emitted]
  rfl

/-! ## The trace of one call -/

/-- Every emitted frame of a trace carries the id that the events before it left
behind. -/
def EmitsIdAfter (id₀ : UInt32) (events : List Event) : Prop :=
  ∀ pre f post, events = pre ++ .emitted f :: post → f.canId = idAfter id₀ pre

theorem EmitsIdAfter.append {id₀ : UInt32} {as bs : List Event} (ha : EmitsIdAfter id₀ as)
    (hb : EmitsIdAfter (idAfter id₀ as) bs) : EmitsIdAfter id₀ (as ++ bs) := by
  intro pre f post h
  rcases List.append_eq_append_iff.mp h with ⟨mid, rfl, hbs⟩ | ⟨mid, rfl, hmid⟩
  · rw [hb mid f post hbs, idAfter_append]
  · rcases mid with _ | ⟨e, mid⟩
    · rw [List.nil_append] at hmid
      rw [hb [] f post hmid.symm, List.append_nil, idAfter_nil]
    · rw [List.cons_append] at hmid
      obtain ⟨rfl, -⟩ := List.cons.inj hmid
      exact ha pre f mid rfl

theorem emitsIdAfter_of_forall {id₀ : UInt32} {events : List Event}
    (h : ∀ f, Event.emitted f ∉ events) : EmitsIdAfter id₀ events := by
  rintro pre f post rfl
  exact absurd (by simp) (h f)

/-- The frames of one `hal_com_write` all carry the id of the context. -/
theorem emitsIdAfter_emitted {id₀ : UInt32} {fs : List CanFrame} (h : ∀ f ∈ fs, f.canId = id₀) :
    EmitsIdAfter id₀ (fs.map .emitted) := by
  intro pre f post hfs
  obtain ⟨fs₁, fs₂, rfl, rfl, htail⟩ := List.map_eq_append_iff.mp hfs
  obtain ⟨g, gs, rfl, hg, -⟩ := List.map_eq_cons_iff.mp htail
  rw [← Event.emitted.inj hg, h g (by simp), idAfter_emitted]

theorem ctxReturned_eq {call : Step ReadState ReadResult} {ctx' : HalComCtx}
    (h : ctxReturned call = some ctx') : ctxAfter call = ctx' := by
  cases call with
  | again s => exact absurd h (by simp [ctxReturned])
  | done r => exact Option.some.inj h

theorem ctxWritten_eq {call : Step WriteState WriteResult} {ctx' : HalComCtx}
    (h : ctxWritten call = some ctx') : ctxAfterWrite call = ctx' := by
  cases call with
  | again s => exact absurd h (by simp [ctxWritten])
  | done r => exact Option.some.inj h

/-- The step lemma: the trace of one call, and the id that it leaves in the
context. -/
theorem perform_sound (dm : DataModel) (ctx : HalComCtx) (op : Op) :
    EmitsIdAfter ctx.currentCanId (perform dm ctx op).1 ∧
      ∀ ctx', (perform dm ctx op).2 = some ctx' →
        ctx'.currentCanId = idAfter ctx.currentCanId (perform dm ctx op).1 := by
  cases op with
  | setPortnum port =>
    refine ⟨emitsIdAfter_of_forall (by simp [perform]), ?_⟩
    rintro ctx' ⟨⟩
    rfl
  | setConfig config =>
    refine ⟨emitsIdAfter_of_forall (by simp [perform]), ?_⟩
    rintro ctx' ⟨⟩
    rfl
  | getPortnum =>
    refine ⟨emitsIdAfter_of_forall (by simp [perform]), ?_⟩
    rintro ctx' ⟨⟩
    rfl
  | read buffer len sockopt reads =>
    refine ⟨emitsIdAfter_of_forall (by simp [perform]), ?_⟩
    intro ctx' hctx
    obtain ⟨used, hused, hid⟩ := ctxAfter_read dm ctx buffer len sockopt reads
    have hctx' : ctxAfter (halComRead dm ctx buffer len sockopt reads).1 = ctx' :=
      ctxReturned_eq hctx
    show ctx'.currentCanId = idAfter _ ((framesRead (taken reads
      (halComRead dm ctx buffer len sockopt reads).2)).map .received)
    rw [taken_eq hused, idAfter_received, ← hctx', hid]
  | readTimeout buffer len sockopt polls =>
    refine ⟨emitsIdAfter_of_forall (by simp [perform]), ?_⟩
    intro ctx' hctx
    obtain ⟨used, hused, hid⟩ := ctxAfter_readTimeout dm ctx buffer len sockopt polls
    have hctx' : ctxAfter (halComReadTimeout dm ctx buffer len sockopt polls).1 = ctx' :=
      ctxReturned_eq hctx
    show ctx'.currentCanId = idAfter _ ((framesPolled (taken polls
      (halComReadTimeout dm ctx buffer len sockopt polls).2)).map .received)
    rw [taken_eq hused, idAfter_received, ← hctx', hid]
  | write stack buffer len writes =>
    refine ⟨emitsIdAfter_emitted (canId_sentBy ctx stack buffer len writes), ?_⟩
    intro ctx' hctx
    have hctx' : ctxAfterWrite (halComWrite ctx stack buffer len writes).1 = ctx' :=
      ctxWritten_eq hctx
    rw [← hctx', ctxAfterWrite_eq]
    exact (idAfter_emitted _ _).symm

/-! ## The trace of a sequence of calls -/

/-- The run lemma: the induction over the calls. -/
theorem trace_sound (dm : DataModel) (ctx : HalComCtx) (ops : List Op) :
    EmitsIdAfter ctx.currentCanId (trace dm ctx ops) := by
  induction ops generalizing ctx with
  | nil => exact emitsIdAfter_of_forall (by simp [trace])
  | cons op ops ih =>
    obtain ⟨hemits, hnext⟩ := perform_sound dm ctx op
    rw [trace]
    cases hp : (perform dm ctx op).2 with
    | none => simpa [hp] using hemits
    | some ctx' =>
      have hrest := ih ctx'
      rw [hnext ctx' hp] at hrest
      simpa only [hp] using hemits.append hrest

/-- The id of an emitted frame.  It is the port of the latest
`hal_com_set_portnum`, unless a frame was received after it: then it is the id
of the last frame that was received. -/
theorem emitted_canId (dm : DataModel) (ctx : HalComCtx) (ops : List Op) (pre post : List Event)
    (f : CanFrame) (h : trace dm ctx ops = pre ++ .emitted f :: post) :
    f.canId = idAfter ctx.currentCanId pre ∧
      ∀ (before : List Event) (port : Int32) (fs : List CanFrame),
        pre = before ++ .port port :: fs.map .emitted →
        f.canId = port.toUInt32 := by
  have hid : f.canId = idAfter ctx.currentCanId pre := trace_sound dm ctx ops pre f post h
  refine ⟨hid, ?_⟩
  rintro before port fs rfl
  rw [hid, idAfter_port]

/-- Set the port 5, read a frame with the id 7, write one byte. -/
def portReadWrite : List Op :=
  [.setPortnum 5,
   .read (fresh fun _ => 0) 8 0 [.frame (dataFrame 7 8 0xaa)],
   .write (dataFrame 0 0 0).toCanFrame (fun _ => 0xbb) 1 [16]]

/-- The frame that `portReadWrite` emits. -/
def emittedFrame : CanFrame :=
  { canId := 7, canDlc := 1, pad := 0, res0 := 0, res1 := 0,
    data := ⟨#[0xbb, 0, 0, 0, 0, 0, 0, 0], rfl⟩ }

theorem emitted_canId_after_read :
    emittedFrame.canId =
      idAfter 0 [.port 5, .received (dataFrame 7 8 0xaa)] :=
  (emitted_canId .ilp32 (openCtx 0) portReadWrite [.port 5, .received (dataFrame 7 8 0xaa)] []
    emittedFrame (by decide)).1

/-- The port 5 was set and no other, and the frame is emitted under the id 7 of
the frame that was received. -/
theorem emitted_under_received_id :
    trace .ilp32 (openCtx 0) portReadWrite =
        [.port 5, .received (dataFrame 7 8 0xaa), .emitted emittedFrame] ∧
      emittedFrame.canId ≠ Int32.toUInt32 5 := by
  decide

end CanbusAgent.HalCom

import CanbusAgent.Agent.Stream
import CanbusAgent.Utils.Print

/-!
# What the receive thread prints

`canbus_recv_msg` hands every block to `canrecive`, which prints it.  Between two
blocks there are lines of `UTILS_LOG` and `UTILS_ERR`, which start with a prompt.
`readLog` takes such an output apart line by line.  It finds exactly the blocks that
were printed (`readLog_consoleText`), so the printed log holds every byte that was
handed over.

What the log lines say is left open, and so is where they stand, as long as they
are not in the middle of a block.
-/

namespace CanbusAgent.Agent

open Chunks HalCom Lines Region Utils

/-! ## Printing -/

/-- `canrecive`, with what it prints.  Its `int` becomes a `size_t` again. -/
def canrecive (dm : DataModel) (canId : Int32) (buf : List UInt8) (bufLen : Int) :
    Option (List Char) :=
  utilsPrintRcvFrame buf (dm.ofSsize bufLen) canId

/-- What a call of `canrecive` prints.  Its argument `nbytes` is passed for an `int`. -/
def Handed.printed (dm : DataModel) (d : Handed) : Option (List Char) :=
  canrecive dm d.canId d.payload (intOfSize d.payload.length)

/-- `_PROMPT`. -/
def PROMPT : List Char := "[canbus_agent]".toList

/-- `UTILS_LOG` or `UTILS_ERR` with a line of text. -/
def utilsLog (line : List Char) : List Char := PROMPT ++ line ++ ['\n']

/-- Something that the thread prints. -/
inductive Printed where
  | log (line : List Char)
  | frame (d : Handed)

/-- The output of the thread. -/
def consoleText (dm : DataModel) : List Printed → Option (List Char)
  | [] => some []
  | .log line :: items => do
    let rest ← consoleText dm items
    some (utilsLog line ++ rest)
  | .frame d :: items => do
    let block ← d.printed dm
    let rest ← consoleText dm items
    some (block ++ rest)

/-- The blocks among the output. -/
def blocksOf (items : List Printed) : List Handed :=
  items.filterMap fun
    | .log _ => none
    | .frame d => some d

/-! ## Reading -/

/-- A block as it is read from the log. -/
structure Report where
  canId : Int32
  payload : List UInt8
deriving DecidableEq

def Handed.report (d : Handed) : Report := { canId := d.canId, payload := d.payload }

/-- What the next line has to be. -/
inductive Expect where
  /-- The first line of a block, or a line with the prompt. -/
  | header
  | title (canId : Int32) (len : Nat)
  /-- A row of the dump, or the empty line behind it. -/
  | rows (canId : Int32) (todo : Nat) (payload : List UInt8)
  /-- The empty line at the end of a block. -/
  | last (canId : Int32) (payload : List UInt8)
deriving DecidableEq

structure Reader where
  reports : List Report
  expect : Expect
deriving DecidableEq

/-- The id and the length in the first line of a block. -/
def readHeader (line : List Char) : Option (Int32 × Nat) := do
  let (id, line) ← field "ID=".toList line
  let (len, _) ← field "DLC=".toList line
  let id ← Hex.readNat id
  let len ← readDecimal len
  some ((UInt32.ofNat id).toInt32, len)

def readLine (r : Reader) (line : List Char) : Option Reader :=
  match r.expect with
  | .header =>
    if PROMPT.isPrefixOf line then some r
    else do
      let (canId, len) ← readHeader line
      some { r with expect := .title canId len }
  | .title canId len =>
    if line = titleLine "payload".toList len then
      some { r with expect := .rows canId (chunkCount 16 len) [] }
    else none
  | .rows canId (todo + 1) payload =>
    some { r with expect := .rows canId todo (payload ++ readRow line) }
  | .rows canId 0 payload =>
    if line = [] then some { r with expect := .last canId payload } else none
  | .last canId payload =>
    if line = [] then some { reports := r.reports ++ [{ canId, payload }], expect := .header }
    else none

/-- The blocks of a log that ends with a whole block or a line with the prompt. -/
def readLog (cs : List Char) : Option (List Report) := do
  let r ← (lines cs).foldlM readLine { reports := [], expect := .header }
  if r.expect = .header then some r.reports else none

/-! ## A block -/

/-- The lines of a block. -/
def blockLines (d : Handed) : List (List Char) :=
  frameHeader d.canId d.payload.length :: titleLine "payload".toList d.payload.length ::
    (dumpLines d.payload ++ [[], []])

theorem ofSsize_intOfSize (dm : DataModel) {n : Nat} (h : n ≤ INT_MAX) :
    dm.ofSsize (intOfSize n) = n := by
  have hmax : INT_MAX = 2147483647 := rfl
  have hmod : INT_MAX < dm.sizeMod := by cases dm <;> decide
  rw [intOfSize_of_le h, DataModel.ofSsize, ← Int.natCast_emod, Int.toNat_natCast]
  exact Nat.mod_eq_of_lt (by omega)

/-- A block whose length is an `int` is printed, line by line. -/
theorem printed_eq (dm : DataModel) {d : Handed} (h : d.payload.length ≤ INT_MAX) :
    d.printed dm = some (text (blockLines d)) := by
  obtain ⟨rows, hrows, hflat⟩ := bioDump_size d.payload
  rw [intOfSize_of_le h, Int.toNat_natCast, List.take_length] at hflat
  rw [Handed.printed, canrecive, ofSsize_intOfSize dm h, utilsPrintRcvFrame, utilsPrintArray, hrows]
  simp only [Option.bind_eq_bind, Option.bind_some]
  rw [hflat, blockLines, text_cons, text_cons, text_append]
  simp [text]

/-- Every line of a block is one line. -/
theorem newline_not_mem_blockLines (d : Handed) : ∀ line ∈ blockLines d, '\n' ∉ line := by
  have hid : '\n' ∉ Hex.upper d.canId.toUInt32.toNat :=
    Hex.not_mem_upper (fun _ hv => Hex.toUpper_ne_newline hv) _
  have hlen : '\n' ∉ decimal d.payload.length := not_mem_decimal rfl _
  have hheader : '\n' ∉ frameHeader d.canId d.payload.length := by
    simp [frameHeader, hid, hlen]
  have htitle : '\n' ∉ titleLine "payload".toList d.payload.length := by
    simp [titleLine, hlen]
  unfold blockLines
  rw [List.forall_mem_cons, List.forall_mem_cons, List.forall_mem_append]
  exact ⟨hheader, htitle, newline_not_mem_dumpLines _, by simp⟩

/-! ## Reading a block -/

/-- The id and the length are read back. -/
theorem readHeader_frameHeader (canId : Int32) (len : Nat) :
    readHeader (frameHeader canId len) = some (canId, len) := by
  have hid : ' ' ∉ Hex.upper canId.toUInt32.toNat :=
    Hex.not_mem_upper (fun _ hv => Hex.toUpper_ne_space hv) _
  have hlen : ' ' ∉ decimal len := not_mem_decimal rfl _
  have hsplit : frameHeader canId len = "ID=".toList ++ (Hex.upper canId.toUInt32.toNat ++ ' ' ::
      ("DLC=".toList ++ (decimal len ++ ' ' :: []))) := by
    simp [frameHeader]
  unfold readHeader
  simp only [hsplit, field_append _ hid, field_append _ hlen, Option.bind_eq_bind, Option.bind_some,
    Hex.readNat_upper, readDecimal_decimal, UInt32.ofNat_toNat, Int32.toInt32_toUInt32]

/-- The first line of a block is none of the prompt. -/
theorem prompt_not_prefix (canId : Int32) (len : Nat) :
    PROMPT.isPrefixOf (frameHeader canId len) = false := rfl

/-- The rows of a dump are read one by one. -/
theorem foldlM_rows (reports : List Report) (canId : Int32) (payload : List UInt8)
    (rows more : List (List Char)) :
    (rows ++ more).foldlM readLine { reports, expect := .rows canId rows.length payload } =
      more.foldlM readLine
        { reports, expect := .rows canId 0 (payload ++ rows.flatMap readRow) } := by
  induction rows generalizing payload with
  | nil => simp
  | cons row rows ih =>
    rw [List.cons_append, List.foldlM_cons, List.length_cons]
    show (rows ++ more).foldlM readLine
      { reports, expect := .rows canId rows.length (payload ++ readRow row) } = _
    rw [ih, List.flatMap_cons, List.append_assoc]

/-- A block is read back. -/
theorem foldlM_blockLines (reports : List Report) (d : Handed) (more : List (List Char)) :
    (blockLines d ++ more).foldlM readLine { reports, expect := .header } =
      more.foldlM readLine { reports := reports ++ [d.report], expect := .header } := by
  have hheader : readLine { reports, expect := .header } (frameHeader d.canId d.payload.length) =
      some { reports, expect := .title d.canId d.payload.length } := by
    simp only [readLine, prompt_not_prefix, readHeader_frameHeader]
    rfl
  have htitle : readLine { reports, expect := .title d.canId d.payload.length }
      (titleLine "payload".toList d.payload.length) =
      some { reports, expect := .rows d.canId (dumpLines d.payload).length [] } := by
    rw [dumpLines_length]
    exact if_pos rfl
  rw [blockLines, List.cons_append, List.foldlM_cons, hheader, Option.bind_eq_bind,
    Option.bind_some, List.cons_append, List.foldlM_cons, htitle, Option.bind_eq_bind,
    Option.bind_some, List.append_assoc, foldlM_rows, readRow_dumpLines]
  rfl

/-- A line with the prompt changes nothing. -/
theorem foldlM_log (reports : List Report) (line : List Char) (more : List (List Char)) :
    ((PROMPT ++ line) :: more).foldlM readLine { reports, expect := .header } =
      more.foldlM readLine { reports, expect := .header } := by
  rw [List.foldlM_cons]
  rfl

/-! ## The whole log -/

/-- The lines of the output. -/
def consoleLines (items : List Printed) : List (List Char) :=
  items.flatMap fun
    | .log line => [PROMPT ++ line]
    | .frame d => blockLines d

theorem consoleLines_log (line : List Char) (items : List Printed) :
    consoleLines (.log line :: items) = (PROMPT ++ line) :: consoleLines items := rfl

theorem consoleLines_frame (d : Handed) (items : List Printed) :
    consoleLines (.frame d :: items) = blockLines d ++ consoleLines items := rfl

/-- A log line is one line, and the length of a block is an `int`. -/
def Printed.Ok : Printed → Prop
  | .log line => '\n' ∉ line
  | .frame d => d.payload.length ≤ INT_MAX

theorem consoleText_eq (dm : DataModel) {items : List Printed} (h : ∀ x ∈ items, x.Ok) :
    consoleText dm items = some (text (consoleLines items)) := by
  induction items with
  | nil => rfl
  | cons x items ih =>
    obtain ⟨hx, hitems⟩ := List.forall_mem_cons.mp h
    cases x with
    | log line =>
      rw [consoleText, ih hitems, consoleLines_log, text_cons]
      simp [utilsLog]
    | frame d =>
      rw [consoleText, ih hitems, printed_eq dm hx, consoleLines_frame, text_append]
      rfl

theorem newline_not_mem_consoleLines {items : List Printed} (h : ∀ x ∈ items, x.Ok) :
    ∀ line ∈ consoleLines items, '\n' ∉ line := by
  intro line hline
  obtain ⟨x, hx, hmem⟩ := List.mem_flatMap.mp hline
  cases x with
  | log l =>
    have hl : '\n' ∉ l := h _ hx
    rw [List.mem_singleton.mp hmem, List.mem_append, not_or]
    exact ⟨by decide, hl⟩
  | frame d => exact newline_not_mem_blockLines d line hmem

theorem foldlM_consoleLines (reports : List Report) (items : List Printed) :
    (consoleLines items).foldlM readLine { reports, expect := .header } =
      some { reports := reports ++ (blocksOf items).map Handed.report, expect := .header } := by
  induction items generalizing reports with
  | nil => simp [consoleLines, blocksOf]
  | cons x items ih =>
    cases x with
    | log line =>
      rw [consoleLines_log, foldlM_log, ih]
      rfl
    | frame d =>
      rw [consoleLines_frame, foldlM_blockLines, ih]
      simp [blocksOf]

/-- The log is defined, and exactly the blocks that were printed are read from it. -/
theorem readLog_consoleText (dm : DataModel) {items : List Printed} (h : ∀ x ∈ items, x.Ok) :
    ∃ cs, consoleText dm items = some cs ∧
      readLog cs = some ((blocksOf items).map Handed.report) := by
  refine ⟨_, consoleText_eq dm h, ?_⟩
  rw [readLog, lines_text (newline_not_mem_consoleLines h), foldlM_consoleLines]
  rfl

/-! ## The log of a run -/

/-- The frames behind the blocks that were printed are the first ones with data. -/
def Logged (s : RecvState) : Prop := carriers (framesOf s.handed) <+: carriers s.consumed

/-- Only the handover adds to the log, and it leaves nothing out. -/
theorem logged_step {dm : DataModel} {s s' : RecvState} {i : Input} (hinv : RecvInv s)
    (h : Logged s) (hstep : recvStep dm s i = some s') : Logged s' := by
  have hnext := recvInv_step hinv hstep
  cases move_of_recvStep hstep with
  | epollFails => exact h
  | epollReports => exact h
  | @read events rest _ _ _ polls _ hs' =>
    have hmore : carriers (framesOf s.handed) <+:
        carriers (s.consumed ++ framesPolled polls) := by
      rw [carriers_append]
      exact h.trans (List.prefix_append _ _)
    rcases afterRead_cases hs' with ⟨_, _, _, rfl⟩ | ⟨_, _, rfl⟩
    · exact hmore
    · exact hmore
  | @handOver rest hplace =>
    have hloop := hnext.place
    rcases Nat.eq_zero_or_pos s.nbytes with h0 | hpos
    · rw [handOver_of_eq rest h0]
      exact h
    · rw [handOver_of_ne rest (Nat.ne_of_gt hpos)] at hloop ⊢
      exact ⟨[], (List.append_nil _).trans hloop.2⟩
  | owner => exact h

theorem logged_run {dm : DataModel} {com : HalComCtx} {m : Nat → UInt8} {is : List Input}
    {s : RecvState} (h : recvRun dm com m is = some s) : Logged s := by
  have hboth := Transition.exec_inv (P := fun _ => True) (fun s => RecvInv s ∧ Logged s)
    (fun _ _ _ _ hs hstep => ⟨recvInv_step hs.1 hstep, logged_step hs.1 hs.2 hstep⟩) h
    ⟨recvInv_start com m, List.nil_prefix⟩ fun _ _ => trivial
  exact hboth.2

theorem dataBytes_prefix {fs gs : List BusFrame} (h : fs <+: gs) :
    dataBytes fs <+: dataBytes gs := by
  obtain ⟨hs, rfl⟩ := h
  rw [dataBytes_append]
  exact List.prefix_append _ _

/-- The payloads that are read from a log. -/
def bytesOf (reports : List Report) : List UInt8 := reports.flatMap (·.payload)

theorem bytesOf_report (handed : List Handed) :
    bytesOf (handed.map Handed.report) = payloadsOf handed := List.flatMap_map ..

/-- The blocks of a state are printed, and they are read back. -/
theorem RecvInv.readLog {s : RecvState} (h : RecvInv s) (dm : DataModel) {items : List Printed}
    (hblocks : blocksOf items = s.handed) (hlines : ∀ line, .log line ∈ items → '\n' ∉ line) :
    ∃ cs, consoleText dm items = some cs ∧ readLog cs = some (s.handed.map Handed.report) := by
  have hok : ∀ x ∈ items, x.Ok := by
    intro x hx
    cases x with
    | log line => exact hlines line hx
    | frame d =>
      have hd : d ∈ s.handed := by
        rw [← hblocks, blocksOf, List.mem_filterMap]
        exact ⟨.frame d, hx, rfl⟩
      exact (h.handed d hd).le.trans (by decide)
  rw [← hblocks]
  exact readLog_consoleText dm hok

/-- The bytes of the blocks. -/
theorem RecvInv.bytesOf {s : RecvState} (h : RecvInv s) :
    bytesOf (s.handed.map Handed.report) = dataBytes (carriers (framesOf s.handed)) := by
  rw [bytesOf_report, payloadsOf_eq h.handed, dataBytes_carriers]

theorem Logged.bytesOf {s : RecvState} (h : Logged s) (hinv : RecvInv s) :
    Agent.bytesOf (s.handed.map Handed.report) <+: dataBytes s.consumed := by
  rw [hinv.bytesOf, ← dataBytes_carriers s.consumed]
  exact dataBytes_prefix h

theorem RecvInv.bytesOf_loop {s : RecvState} (h : RecvInv s) {rest : List Bool}
    (hplace : s.place = .loop rest) :
    Agent.bytesOf (s.handed.map Handed.report) = dataBytes s.consumed := by
  have hloop := h.place
  rw [hplace] at hloop
  rw [h.bytesOf, hloop.2, dataBytes_carriers]

/-- The log of the thread is faithful in every run.  Whatever calls fail, the output
is defined, and the blocks that are read from it are those that were handed over.
Their bytes are the first ones that the frames brought, and all of them whenever
the thread waits for its next event. -/
theorem recv_log_faithful (dm : DataModel) (com : HalComCtx) (m : Nat → UInt8)
    (is : List Input) (s : RecvState) (hrun : recvRun dm com m is = some s)
    (items : List Printed) (hblocks : blocksOf items = s.handed)
    (hlines : ∀ line, .log line ∈ items → '\n' ∉ line) :
    ∃ cs, consoleText dm items = some cs ∧ readLog cs = some (s.handed.map Handed.report) ∧
      bytesOf (s.handed.map Handed.report) <+: dataBytes s.consumed ∧
      ∀ rest, s.place = .loop rest →
        bytesOf (s.handed.map Handed.report) = dataBytes s.consumed := by
  have hinv := recvInv_run hrun
  obtain ⟨cs, hcs, hread⟩ := hinv.readLog dm hblocks hlines
  exact ⟨cs, hcs, hread, (logged_run hrun).bytesOf hinv, fun _ hplace => hinv.bytesOf_loop hplace⟩

/-- The log of `twoEvents`, with the line that each call of `hal_com_read_timeout`
leaves in it. -/
def twoEventsLog (handed : List Handed) : List Printed :=
  Printed.log "leave the hal_com_read_timeout!!!".toList :: handed.map Printed.frame ++
    [Printed.log "leave the hal_com_read_timeout!!!".toList]

theorem recv_log_faithful_twoEvents :
    ∃ s cs, recvRun .ilp32 (openCtx 0) (fun _ => 0) twoEvents = some s ∧
      consoleText .ilp32 (twoEventsLog s.handed) = some cs ∧
      readLog cs = some [{ canId := 9, payload := [0xaa, 0xaa, 0xaa] }] := by
  obtain ⟨s, hs⟩ : ∃ s, recvRun .ilp32 (openCtx 0) (fun _ => 0) twoEvents = some s :=
    Option.isSome_iff_exists.mp (by decide)
  have hhanded : (recvRun .ilp32 (openCtx 0) (fun _ => 0) twoEvents).map
      (·.handed.map Handed.report) = some [{ canId := 9, payload := [0xaa, 0xaa, 0xaa] }] := by
    decide
  rw [hs, Option.map_some, Option.some.injEq] at hhanded
  have hblocks : blocksOf (twoEventsLog s.handed) = s.handed := by
    simp [blocksOf, twoEventsLog]
  have hlines : ∀ line, .log line ∈ twoEventsLog s.handed → '\n' ∉ line := by
    simp [twoEventsLog]
  obtain ⟨cs, hcs, hread, -⟩ := recv_log_faithful .ilp32 (openCtx 0) (fun _ => 0) twoEvents s hs
    (twoEventsLog s.handed) hblocks hlines
  exact ⟨s, cs, hs, hcs, hread.trans (congrArg some hhanded)⟩

end CanbusAgent.Agent

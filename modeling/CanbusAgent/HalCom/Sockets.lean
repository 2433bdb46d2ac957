import CanbusAgent.HalCom.Lifecycle
import CanbusAgent.HalCom.Read
import CanbusAgent.HalCom.Write
import CanbusAgent.Lib.HandleTable

/-!
# The sockets of a program

A program opens and closes its transports, and in between it sets their configuration and
id, writes and reads.  Other code of the program opens descriptors as
well.  Only `hal_com_init` and `hal_com_free` change the field `sock_fd`, which is a
variable with the sentinel 0 in the sense of `HandleTable`.

`sockets_open_iff` says which descriptors are open after a run, and `free_closes_own` what a
`hal_com_free` closes in it.  The memory of a context may hold anything before its first
`hal_com_init`, so no `hal_com_free` of it stands before that.
-/

namespace CanbusAgent.HalCom

open DrivenLoop HandleTable Region Transition

variable {ι : Type} [DecidableEq ι]

/-- The contexts of a program, and its open descriptors. -/
structure Program (ι : Type) where
  coms : ι → HalComCtx
  isOpen : Finset Int

/-- A call on the context `i`, with the answers of the kernel. -/
inductive Call (ι : Type) where
  | init (i : ι) (answers : ComAnswers)
  | free (i : ι)
  | setConfig (i : ι) (config : HalComConfig)
  | setPortnum (i : ι) (port : Int32)
  | write (i : ι) (stack : CanFrame) (buffer : Nat → UInt8) (len : Nat) (writes : List Int)
  | read (i : ι) (dm : DataModel) (buffer : Region UInt8) (len : Nat) (sockopt : Int)
      (reads : List ReadAnswer)
  | readTimeout (i : ι) (dm : DataModel) (buffer : Region UInt8) (len : Nat) (sockopt : Int)
      (polls : List PollAnswer)
  /-- Other code opens a descriptor. -/
  | elsewhere (fd : Int)

/-- `close`.  A negative number is refused. -/
def closeFd (isOpen : Finset Int) (fd : Int) : Finset Int :=
  if 0 ≤ fd then isOpen.erase fd else isOpen

def Program.setCom (p : Program ι) (i : ι) (com : HalComCtx) : Program ι :=
  { p with coms := Function.update p.coms i com }

/-- `socket` never returns a descriptor that is open. -/
def programStep (p : Program ι) : Call ι → Option (Program ι)
  | .init i answers =>
    if 0 ≤ answers.socket then
      if answers.socket ∈ p.isOpen then none
      else some { p.setCom i (halComInit answers).2 with isOpen := insert answers.socket p.isOpen }
    else some (p.setCom i (halComInit answers).2)
  | .free i =>
    let (closed, com) := halComFree (p.coms i)
    some { p.setCom i com with isOpen := closed.foldl closeFd p.isOpen }
  | .setConfig i config => some (p.setCom i (halComSetConfig (p.coms i) config).2)
  | .setPortnum i port => some (p.setCom i (halComSetPortnum (p.coms i) port).2)
  | .write i stack buffer len writes =>
    some (p.setCom i (ctxAfterWrite (halComWrite (p.coms i) stack buffer len writes).1))
  | .read i dm buffer len sockopt reads =>
    some (p.setCom i (ctxAfter (halComRead dm (p.coms i) buffer len sockopt reads).1))
  | .readTimeout i dm buffer len sockopt polls =>
    some (p.setCom i (ctxAfter (halComReadTimeout dm (p.coms i) buffer len sockopt polls).1))
  | .elsewhere fd => if fd ∈ p.isOpen then none else some { p with isOpen := insert fd p.isOpen }

/-! ## The variables with the descriptors -/

/-- What a call does to the fields `sock_fd`. -/
def Call.ops : Call ι → List (Op ι Int)
  | .init i answers => [.assign i answers.socket]
  | .free i => [.clear i]
  | .elsewhere fd => [.stray fd]
  | _ => []

def Program.table (p : Program ι) : Table ι Int where
  isOpen := p.isOpen
  slot := fun i => (p.coms i).sockFd

/-- The next call that opens or closes the context is `hal_com_free`. -/
def freedNext (i : ι) (calls : List (Call ι)) : Bool := closedNext i (calls.flatMap Call.ops)

theorem halComRead_sockFd (dm : DataModel) (ctx : HalComCtx) (buffer : Region UInt8) (len : Nat)
    (sockopt : Int) (reads : List ReadAnswer) :
    (ctxAfter (halComRead dm ctx buffer len sockopt reads).1).sockFd = ctx.sockFd := by
  obtain ⟨_, _, hctx⟩ := ctxAfter_read dm ctx buffer len sockopt reads
  rw [hctx]

theorem halComReadTimeout_sockFd (dm : DataModel) (ctx : HalComCtx) (buffer : Region UInt8)
    (len : Nat) (sockopt : Int) (polls : List PollAnswer) :
    (ctxAfter (halComReadTimeout dm ctx buffer len sockopt polls).1).sockFd = ctx.sockFd := by
  obtain ⟨_, _, hctx⟩ := ctxAfter_readTimeout dm ctx buffer len sockopt polls
  rw [hctx]

theorem table_setCom (p : Program ι) (i : ι) (com : HalComCtx) :
    (p.setCom i com).table =
      { p.table with slot := Function.update p.table.slot i com.sockFd } := by
  have hslot : (fun j => (Function.update p.coms i com j).sockFd) =
      Function.update (fun j => (p.coms j).sockFd) i com.sockFd := by
    funext j
    by_cases hj : j = i
    · subst hj
      rw [Function.update_self, Function.update_self]
    · rw [Function.update_of_ne hj, Function.update_of_ne hj]
  exact congrArg (Table.mk p.isOpen) hslot

/-- A call that leaves the descriptor of its context alone. -/
theorem table_setCom_same {p : Program ι} {i : ι} {com : HalComCtx}
    (h : com.sockFd = (p.coms i).sockFd) : (p.setCom i com).table = p.table := by
  rw [table_setCom, h]
  exact congrArg (Table.mk p.isOpen) (Function.update_eq_self i p.table.slot)

/-- What a free function passes to `close` for a variable that holds a descriptor. -/
theorem closed_eq_foldl {κ : Type} (t : Table κ Int) (k : κ) :
    t.closed 0 (0 ≤ ·) k =
      (if t.slot k ≠ 0 then [t.slot k] else []).foldl closeFd t.isOpen := by
  unfold Table.closed
  by_cases hnull : t.slot k = 0
  · rw [if_neg (fun h => h.1 hnull), if_neg (not_not_intro hnull)]
    rfl
  · rw [if_pos hnull]
    show _ = closeFd t.isOpen (t.slot k)
    unfold closeFd
    split_ifs with hif hvalid hvalid
    · rfl
    · exact absurd hif.2 hvalid
    · exact absurd ⟨hnull, hvalid⟩ hif
    · rfl

/-- The program is a machine of `HandleTable`. -/
theorem programStep_table {p q : Program ι} {c : Call ι} (hstep : programStep p c = some q) :
    exec (HandleTable.step 0 (0 ≤ ·)) p.table c.ops = some q.table := by
  cases c with
  | init i answers =>
    have hslot : (p.setCom i (halComInit answers).2).table.slot =
        Function.update p.table.slot i answers.socket := by
      rw [table_setCom, halComInit_snd]
    simp only [programStep] at hstep
    refine exec_cons.mpr ⟨_, ?_, rfl⟩
    simp only [HandleTable.step]
    split_ifs at hstep with hvalid hopen
    · cases hstep
      have hopen' : answers.socket ∉ p.table.isOpen := hopen
      rw [if_pos hvalid, if_neg hopen', ← hslot]
      rfl
    · cases hstep
      rw [if_neg hvalid, ← hslot]
      rfl
  | free i =>
    cases hstep
    refine exec_cons.mpr ⟨_, ?_, rfl⟩
    simp only [HandleTable.step]
    refine congrArg some (congrArg₂ Table.mk (closed_eq_foldl p.table i) ?_)
    exact (congrArg Table.slot (table_setCom p i clearedCtx)).symm
  | setConfig i config =>
    cases hstep
    have hsame : (halComSetConfig (p.coms i) config).2.sockFd = (p.coms i).sockFd := rfl
    exact congrArg some (table_setCom_same hsame).symm
  | setPortnum i port =>
    cases hstep
    have hsame : (halComSetPortnum (p.coms i) port).2.sockFd = (p.coms i).sockFd := rfl
    exact congrArg some (table_setCom_same hsame).symm
  | write i stack buffer len writes =>
    cases hstep
    have hsame := congrArg HalComCtx.sockFd (ctxAfterWrite_eq (p.coms i) stack buffer len writes)
    exact congrArg some (table_setCom_same hsame).symm
  | read i dm buffer len sockopt reads =>
    cases hstep
    exact congrArg some (table_setCom_same (halComRead_sockFd dm _ buffer len sockopt reads)).symm
  | readTimeout i dm buffer len sockopt polls =>
    cases hstep
    exact congrArg some
      (table_setCom_same (halComReadTimeout_sockFd dm _ buffer len sockopt polls)).symm
  | elsewhere fd =>
    simp only [programStep] at hstep
    refine exec_cons.mpr ⟨_, ?_, rfl⟩
    simp only [HandleTable.step]
    split_ifs at hstep with hopen
    cases hstep
    exact if_neg hopen

theorem exec_table {p q : Program ι} {calls : List (Call ι)}
    (hrun : exec programStep p calls = some q) :
    exec (HandleTable.step 0 (0 ≤ ·)) p.table (calls.flatMap Call.ops) = some q.table :=
  exec_flatMap Program.table Call.ops (fun _ _ _ hstep => programStep_table hstep) hrun

/-- No variable is closed without being cleared. -/
theorem proper_ops (calls : List (Call ι)) : Proper (calls.flatMap Call.ops) := by
  induction calls with
  | nil => trivial
  | cons c calls ih => cases c <;> exact ih

/-- Contexts that hold anything, as long as each of them is opened before it is closed. -/
theorem sound_table {p : Program ι} {calls : List (Call ι)}
    (hinit : ∀ i, freedNext i calls = false) :
    Sound 0 (0 ≤ ·) p.table (calls.flatMap Call.ops) := by
  have hno : ∀ {i fd}, ¬ Kept 0 (0 ≤ ·) p.table (calls.flatMap Call.ops) i fd :=
    fun {i _} hk => absurd hk.next (Bool.eq_false_iff.mp (hinit i))
  exact ⟨fun hk => absurd hk hno, fun hk _ => absurd hk hno⟩

/-! ## What is open -/

/-- The call opens the descriptor, and the calls after it do not close it: it belongs to
other code, its number is 0, or its context is opened again without a `hal_com_free`. -/
def Call.LeavesOpen (fd : Int) (post : List (Call ι)) : Call ι → Prop
  | .init i answers => answers.socket = fd ∧ 0 ≤ fd ∧ (fd = 0 ∨ freedNext i post = false)
  | .elsewhere fd' => fd' = fd
  | _ => False

/-- The call opens or closes the context. -/
def Call.On (i : ι) : Call ι → Prop
  | .init j _ => j = i
  | .free j => j = i
  | _ => False

/-- The call opens the descriptor. -/
def Call.Returns (fd : Int) : Call ι → Prop
  | .init _ answers => answers.socket = fd
  | .elsewhere fd' => fd' = fd
  | _ => False

theorem setCom_sockFd {p : Program ι} {i j : ι} {com : HalComCtx} (h : j ≠ i) :
    ((p.setCom j com).coms i).sockFd = (p.coms i).sockFd :=
  congrArg HalComCtx.sockFd (show Function.update p.coms j com i = p.coms i from
    Function.update_of_ne h.symm com p.coms)

/-- The other calls leave the descriptor of a context alone. -/
theorem programStep_sockFd {p q : Program ι} {c : Call ι} {i : ι} (hc : ¬ c.On i)
    (hstep : programStep p c = some q) : (q.coms i).sockFd = (p.coms i).sockFd := by
  have htable := programStep_table hstep
  have hslot : some p.table = some q.table → (q.coms i).sockFd = (p.coms i).sockFd := fun h =>
    (congrArg (fun t => t.slot i) (Option.some.inj h)).symm
  cases c with
  | init j answers =>
    simp only [programStep] at hstep
    split_ifs at hstep
    · cases hstep
      exact setCom_sockFd hc
    · cases hstep
      exact setCom_sockFd hc
  | free j =>
    cases hstep
    exact setCom_sockFd hc
  | elsewhere fd =>
    simp only [programStep] at hstep
    split_ifs at hstep
    cases hstep
    rfl
  | _ => exact hslot htable

theorem exec_sockFd {p q : Program ι} {calls : List (Call ι)} {i : ι}
    (hcalls : ∀ c ∈ calls, ¬ c.On i) (hrun : exec programStep p calls = some q) :
    (q.coms i).sockFd = (p.coms i).sockFd := by
  refine exec_inv (P := fun c => ¬ c.On i) (fun s => (s.coms i).sockFd = (p.coms i).sockFd)
    (fun s c s' hc hs hstep => ?_) hrun rfl hcalls
  rw [programStep_sockFd hc hstep, hs]

theorem programStep_init {p q : Program ι} {i : ι} {answers : ComAnswers}
    (hstep : programStep p (.init i answers) = some q) : (q.coms i).sockFd = answers.socket := by
  have hself : ((p.setCom i (halComInit answers).2).coms i).sockFd = answers.socket := by
    show (Function.update p.coms i (halComInit answers).2 i).sockFd = answers.socket
    rw [Function.update_self, halComInit_snd]
  simp only [programStep] at hstep
  split_ifs at hstep
  · cases hstep
    exact hself
  · cases hstep
    exact hself

theorem programStep_free {p q : Program ι} {i : ι} (hstep : programStep p (.free i) = some q) :
    (q.coms i).sockFd = 0 := by
  cases hstep
  exact congrArg HalComCtx.sockFd (Function.update_self i clearedCtx p.coms)

/-- A call that opens a descriptor is refused when it is open. -/
theorem programStep_returns {p q : Program ι} {c : Call ι} {fd : Int} (hvalid : 0 ≤ fd)
    (hc : c.Returns fd) (hstep : programStep p c = some q) : fd ∉ p.isOpen := by
  cases c with
  | init i answers =>
    obtain rfl : answers.socket = fd := hc
    simp only [programStep] at hstep
    rw [if_pos hvalid] at hstep
    split_ifs at hstep with hopen
    exact hopen
  | elsewhere fd' =>
    obtain rfl : fd' = fd := hc
    simp only [programStep] at hstep
    split_ifs at hstep with hopen
    exact hopen
  | _ => exact hc.elim

/-- A context that no call opens or closes before is closed next. -/
theorem freedNext_concat {i : ι} {calls : List (Call ι)} (h : ∀ c ∈ calls, ¬ c.On i) :
    freedNext i (calls ++ [Call.free i]) = true := by
  induction calls with
  | nil => simp [freedNext, Call.ops, closedNext]
  | cons c calls ih =>
    obtain ⟨hc, hcalls⟩ := List.forall_mem_cons.mp h
    have hrest := ih hcalls
    cases c with
    | init j answers =>
      have hj : j ≠ i := hc
      simpa [freedNext, Call.ops, closedNext, hj] using hrest
    | free j =>
      have hj : j ≠ i := hc
      simpa [freedNext, Call.ops, closedNext, hj] using hrest
    | _ => exact hrest

/-- What `hal_com_free` closes, in a run where no context is freed before it is opened, is
open, and it is what the last `hal_com_init` of its context opened: no call has opened the
descriptor again since then. -/
theorem free_closes_own (coms : ι → HalComCtx) (base : Finset Int) (calls : List (Call ι))
    (p : Program ι) (i : ι) (hinit : ∀ j, freedNext j (calls ++ [Call.free i]) = false)
    (hrun : exec programStep ⟨coms, base⟩ calls = some p) (fd : Int) (hvalid : 0 ≤ fd)
    (hfd : fd ∈ (halComFree (p.coms i)).1) :
    fd ∈ p.isOpen ∧ ∃ pre answers post, calls = pre ++ .init i answers :: post ∧
      answers.socket = fd ∧ ∀ c ∈ post, ¬ c.On i ∧ ¬ c.Returns fd := by
  obtain ⟨hnull, hsock⟩ : (p.coms i).sockFd ≠ 0 ∧ fd = (p.coms i).sockFd := by
    unfold halComFree at hfd
    split_ifs at hfd with hnull
    · exact ⟨hnull, List.mem_singleton.mp hfd⟩
    · exact absurd hfd List.not_mem_nil
  have hlive : ∀ (before after : List (Call ι)) (q : Program ι), calls = before ++ after →
      exec programStep ⟨coms, base⟩ before = some q → (∀ c ∈ after, ¬ c.On i) →
      (q.coms i).sockFd = fd → fd ∈ q.isOpen := by
    rintro before after q rfl hq hafter hqfd
    have hproper := proper_ops (before ++ (after ++ [Call.free i]))
    have hsound := sound_table (p := ⟨coms, base⟩) (List.append_assoc before after _ ▸ hinit)
    rw [List.flatMap_append] at hproper hsound
    exact (live_exec hproper hsound (exec_table hq)).live
      ⟨freedNext_concat hafter, hqfd, hsock ▸ hnull, hvalid⟩
  refine ⟨hlive calls [] p (List.append_nil calls).symm hrun (by simp) hsock.symm, ?_⟩
  rcases exists_last (Call.On i) calls with hnone | ⟨pre, c, post, rfl, hc, hpost⟩
  · exact absurd (hinit i) (by simp [freedNext_concat hnone])
  obtain ⟨p₁, _, htail⟩ := exec_append.mp hrun
  obtain ⟨p₂, hstep, hrest⟩ := exec_cons.mp htail
  have hlast := exec_sockFd hpost hrest
  cases c with
  | free j =>
    obtain rfl : j = i := hc
    rw [programStep_free hstep] at hlast
    exact absurd hlast hnull
  | init j answers =>
    obtain rfl : j = i := hc
    rw [programStep_init hstep] at hlast
    refine ⟨pre, answers, post, rfl, hlast.symm.trans hsock.symm, fun d hd => ⟨hpost d hd, ?_⟩⟩
    -- the descriptor was open when the call `d` was made
    intro hret
    obtain ⟨mid, rest, rfl⟩ := List.append_of_mem hd
    obtain ⟨q, hmid, hq⟩ := exec_append.mp hrest
    obtain ⟨q', hdstep, -⟩ := exec_cons.mp hq
    have hmidfd := exec_sockFd (fun e he => hpost e (List.mem_append_left _ he)) hmid
    refine programStep_returns hvalid hret hdstep (hlive (pre ++ .init j answers :: mid) (d :: rest)
      q (by simp) ?_ (fun e he => hpost e (List.mem_append_right _ he)) ?_)
    · exact exec_append.mpr ⟨p₁, ‹_›, exec_cons.mpr ⟨p₂, hstep, hmid⟩⟩
    · rw [hmidfd, programStep_init hstep, ← hlast, hsock]
  | _ => exact hc.elim

/-- The descriptor 4 of the second context. -/
theorem free_closes_own_four :
    ∃ p, exec programStep ⟨fun _ => openCtx 7, {0, 1, 2}⟩ [.init true ⟨4, 0, 0, 0⟩] = some p ∧
      4 ∈ p.isOpen := by
  have hclosed : (exec programStep ⟨fun _ => openCtx 7, {0, 1, 2}⟩
      [.init true ⟨4, 0, 0, 0⟩]).map (fun p => (halComFree (p.coms true)).1) = some [4] := by decide
  obtain ⟨p, hp, hfree⟩ := Option.map_eq_some_iff.mp hclosed
  exact ⟨p, hp, (free_closes_own (fun _ => openCtx 7) {0, 1, 2} [.init true ⟨4, 0, 0, 0⟩] p true
    (by decide) hp 4 (by decide) (hfree ▸ List.mem_singleton_self 4)).1⟩

end CanbusAgent.HalCom

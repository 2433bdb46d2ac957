import CanbusAgent.Agent.Descriptors
import CanbusAgent.HalCom.Sockets

/-!
# Several agents in one program

A program opens and closes agents in any order, and other code opens descriptors in
between.  An agent has two fields with a descriptor.  `sock_fd` of its transport is cleared
when it is closed, but `can_agent_free` leaves `epoll_fd` as it is, and a `can_agent_init`
that fails before `epoll_create` does not assign it.

`agents_open_iff` is about the runs in which every `can_agent_free` comes after a
`can_agent_init` of the same agent that called `epoll_create`, with no other
`can_agent_free` in between.  In them nothing is closed but what its agent opened.
-/

namespace CanbusAgent.Agent

open DrivenLoop HalCom HandleTable Region Transition

variable {ι : Type} [DecidableEq ι]

/-- The fields of an agent that hold a descriptor. -/
inductive Field where
  | epollFd
  | sockFd
deriving DecidableEq, Repr

/-- The agents of a program, and its open descriptors. -/
structure AgentProgram (ι : Type) where
  agents : ι → AgentCtx
  isOpen : Finset Int

/-- A call on the agent `i`, with the answers of the kernel. -/
inductive AgentCall (ι : Type) where
  | init (i : ι) (answers : AgentAnswers)
  | free (i : ι)
  /-- The read of the receive thread. -/
  | readTimeout (i : ι) (dm : DataModel) (buffer : Region UInt8) (len : Nat) (sockopt : Int)
      (polls : List PollAnswer)
  | setPortnum (i : ι) (port : Int32)
  /-- Other code opens a descriptor. -/
  | elsewhere (fd : Int)

/-- A call that opens a descriptor never returns one that is open. -/
def openFd (isOpen : Finset Int) (fd : Int) : Option (Finset Int) :=
  if 0 ≤ fd then if fd ∈ isOpen then none else some (insert fd isOpen) else some isOpen

def AgentProgram.setAgent (p : AgentProgram ι) (i : ι) (ctx : AgentCtx) : AgentProgram ι :=
  { p with agents := Function.update p.agents i ctx }

def agentStep (p : AgentProgram ι) : AgentCall ι → Option (AgentProgram ι)
  | .init i answers => do
    let isOpen ← openFd p.isOpen answers.com.socket
    let isOpen ← if answers.com.Opens then openFd isOpen answers.epollCreate else some isOpen
    some { p.setAgent i (canAgentInit (p.agents i) answers).2 with isOpen }
  | .free i =>
    let (closed, ctx) := canAgentFree (p.agents i)
    some { p.setAgent i ctx with isOpen := closed.foldl closeFd p.isOpen }
  | .readTimeout i dm buffer len sockopt polls =>
    let ctx := p.agents i
    some (p.setAgent i
      { ctx with com := ctxAfter (halComReadTimeout dm ctx.com buffer len sockopt polls).1 })
  | .setPortnum i port =>
    let ctx := p.agents i
    some (p.setAgent i { ctx with com := (halComSetPortnum ctx.com port).2 })
  | .elsewhere fd => if fd ∈ p.isOpen then none else some { p with isOpen := insert fd p.isOpen }

/-! ## The variables with the descriptors -/

/-- What a call does to the fields with a descriptor. -/
def AgentCall.ops : AgentCall ι → List (Op (ι × Field) Int)
  | .init i answers => .assign (i, .sockFd) answers.com.socket ::
      if answers.com.Opens then [.assign (i, .epollFd) answers.epollCreate] else []
  | .free i => [.close (i, .epollFd), .clear (i, .sockFd)]
  | .elsewhere fd => [.stray fd]
  | _ => []

/-- What the field of an agent holds. -/
def fieldOf (ctx : AgentCtx) : Field → Int
  | .epollFd => ctx.epollFd
  | .sockFd => ctx.com.sockFd

def AgentProgram.table (p : AgentProgram ι) : Table (ι × Field) Int where
  isOpen := p.isOpen
  slot := fun k => fieldOf (p.agents k.1) k.2

/-- The next call that assigns or closes the field closes it. -/
def fieldFreedNext (i : ι) (f : Field) (calls : List (AgentCall ι)) : Bool :=
  closedNext (i, f) (calls.flatMap AgentCall.ops)

theorem slot_setAgent (p : AgentProgram ι) (i : ι) (ctx : AgentCtx) :
    (p.setAgent i ctx).table.slot = Function.update
      (Function.update p.table.slot (i, .sockFd) ctx.com.sockFd) (i, .epollFd) ctx.epollFd := by
  funext ⟨j, f⟩
  show fieldOf (Function.update p.agents i ctx j) f = _
  by_cases hj : j = i
  · subst hj
    rw [Function.update_self]
    cases f with
    | epollFd => rw [Function.update_self]; rfl
    | sockFd => rw [Function.update_of_ne (by simp), Function.update_self]; rfl
  · rw [Function.update_of_ne hj, Function.update_of_ne (by simp [hj]),
      Function.update_of_ne (by simp [hj])]
    rfl

/-- The value that the field has anyway. -/
theorem update_epollFd (p : AgentProgram ι) (i : ι) (fd : Int) :
    Function.update (Function.update p.table.slot (i, .sockFd) fd) (i, .epollFd)
      (p.agents i).epollFd = Function.update p.table.slot (i, .sockFd) fd := by
  have hself :
      Function.update p.table.slot (i, .sockFd) fd (i, .epollFd) = (p.agents i).epollFd := by
    rw [Function.update_of_ne (by simp)]
    rfl
  rw [← hself, Function.update_eq_self]

theorem step_assign_openFd {t : Table (ι × Field) Int} {k : ι × Field} {fd : Int}
    {isOpen : Finset Int} (h : openFd t.isOpen fd = some isOpen) :
    HandleTable.step 0 (0 ≤ ·) t (.assign k fd) =
      some { isOpen, slot := Function.update t.slot k fd } := by
  unfold openFd at h
  simp only [HandleTable.step]
  split_ifs at h ⊢
  all_goals cases h; rfl

/-- A call that leaves the descriptor of the transport alone. -/
theorem table_setAgent_same {p : AgentProgram ι} {i : ι} {com : HalComCtx}
    (hsock : com.sockFd = (p.agents i).com.sockFd) :
    (p.setAgent i { p.agents i with com }).table = p.table := by
  have hself : Function.update p.table.slot (i, .sockFd) (p.agents i).com.sockFd = p.table.slot :=
    Function.update_eq_self (i, Field.sockFd) p.table.slot
  have hslot := slot_setAgent p i { p.agents i with com }
  rw [hsock, update_epollFd, hself] at hslot
  exact congrArg (Table.mk p.isOpen) hslot

/-- The program is a machine of `HandleTable`. -/
theorem agentStep_table {p q : AgentProgram ι} {c : AgentCall ι} (hstep : agentStep p c = some q) :
    exec (HandleTable.step 0 (0 ≤ ·)) p.table c.ops = some q.table := by
  cases c with
  | init i answers =>
    obtain ⟨isOpen, hsock, hstep⟩ := Option.bind_eq_some_iff.mp hstep
    obtain ⟨hcom, hepoll⟩ := canAgentInit_snd (p.agents i) answers
    have hslot := slot_setAgent p i (canAgentInit (p.agents i) answers).2
    rw [hcom, hepoll] at hslot
    refine exec_cons.mpr ⟨_, step_assign_openFd hsock, ?_⟩
    by_cases hopens : answers.com.Opens
    · rw [if_pos hopens] at hstep hslot ⊢
      obtain ⟨isOpen', hepollFd, hq⟩ := Option.bind_eq_some_iff.mp hstep
      cases hq
      refine exec_cons.mpr ⟨_, step_assign_openFd hepollFd, ?_⟩
      exact congrArg some (congrArg (Table.mk isOpen') hslot.symm)
    · rw [if_neg hopens] at hstep hslot ⊢
      cases hstep
      rw [update_epollFd] at hslot
      exact congrArg some (congrArg (Table.mk isOpen) hslot.symm)
  | free i =>
    cases hstep
    have hslot := slot_setAgent p i (canAgentFree (p.agents i)).2
    rw [show (canAgentFree (p.agents i)).2.epollFd = (p.agents i).epollFd from rfl,
      update_epollFd] at hslot
    refine exec_cons.mpr ⟨_, rfl, exec_cons.mpr ⟨_, rfl, ?_⟩⟩
    refine congrArg some (congrArg₂ Table.mk ?_ hslot.symm)
    rw [closed_eq_foldl, closed_eq_foldl, ← List.foldl_append]
    rfl
  | readTimeout i dm buffer len sockopt polls =>
    cases hstep
    exact congrArg some (table_setAgent_same
      (halComReadTimeout_sockFd dm (p.agents i).com buffer len sockopt polls)).symm
  | setPortnum i port =>
    cases hstep
    have hsame : (halComSetPortnum (p.agents i).com port).2.sockFd = (p.agents i).com.sockFd := rfl
    exact congrArg some (table_setAgent_same hsame).symm
  | elsewhere fd =>
    simp only [agentStep] at hstep
    split_ifs at hstep with hopen
    cases hstep
    exact exec_cons.mpr ⟨_, if_neg hopen, rfl⟩

theorem exec_agentTable {p q : AgentProgram ι} {calls : List (AgentCall ι)}
    (hrun : exec agentStep p calls = some q) :
    exec (HandleTable.step 0 (0 ≤ ·)) p.table (calls.flatMap AgentCall.ops) = some q.table :=
  exec_flatMap AgentProgram.table AgentCall.ops (fun _ _ _ hstep => agentStep_table hstep) hrun

/-! ## Agents that are closed once -/

/-- Every `can_agent_free` comes after a `can_agent_init` of its agent that called
`epoll_create`, with no other `can_agent_free` of the agent in between. -/
def FreedOnce (calls : List (AgentCall ι)) : Prop :=
  ∀ pre i post, calls = pre ++ AgentCall.free i :: post → ∃ pre' answers mid,
    pre = pre' ++ AgentCall.init i answers :: mid ∧ answers.com.Opens ∧ AgentCall.free i ∉ mid

/-- A field that is closed next is closed by a `can_agent_free`, and no `can_agent_init`
before it gets to `epoll_create`. -/
theorem free_of_fieldFreedNext {i : ι} {f : Field} {calls : List (AgentCall ι)}
    (h : fieldFreedNext i f calls = true) : ∃ pre post, calls = pre ++ AgentCall.free i :: post ∧
      ∀ answers, .init i answers ∈ pre → ¬ answers.com.Opens := by
  induction calls with
  | nil => exact absurd h (by simp [fieldFreedNext, closedNext])
  | cons c calls ih =>
    have hcons : fieldFreedNext i f calls = true →
        (∀ answers, c = .init i answers → ¬ answers.com.Opens) →
        ∃ pre post, c :: calls = pre ++ AgentCall.free i :: post ∧
          ∀ answers, .init i answers ∈ pre → ¬ answers.com.Opens := by
      intro hcalls hc
      obtain ⟨pre, post, rfl, hpre⟩ := ih hcalls
      refine ⟨c :: pre, post, rfl, fun answers hmem => ?_⟩
      rcases List.mem_cons.mp hmem with heq | hmem
      · exact hc answers heq.symm
      · exact hpre answers hmem
    cases c with
    | init j answers =>
      by_cases hopens : j = i ∧ answers.com.Opens
      · -- both fields are assigned before they are closed
        obtain ⟨rfl, hopens⟩ := hopens
        cases f <;> simp [fieldFreedNext, AgentCall.ops, closedNext, hopens] at h
      · refine hcons ?_ fun answers' heq hopens' => ?_
        · rw [fieldFreedNext, List.flatMap_cons, AgentCall.ops] at h
          split_ifs at h with hif
          · have hj : j ≠ i := fun hj => hopens ⟨hj, hif⟩
            simpa [fieldFreedNext, closedNext, hj] using h
          · simpa [fieldFreedNext, closedNext] using (Bool.and_eq_true_iff.mp h).2
        · cases heq
          exact hopens ⟨rfl, hopens'⟩
    | free j =>
      by_cases hj : j = i
      · exact ⟨[], calls, by rw [hj]; rfl, fun answers hmem => absurd hmem List.not_mem_nil⟩
      · refine hcons ?_ (by simp)
        simpa [fieldFreedNext, AgentCall.ops, closedNext, hj] using h
    | _ => exact hcons h (by simp)

/-- Between a `can_agent_free` and one after it stands an assignment of both fields. -/
theorem FreedOnce.between {calls pre post : List (AgentCall ι)} {i : ι}
    (h : FreedOnce calls) (hcalls : calls = pre ++ AgentCall.free i :: post) (f : Field) :
    fieldFreedNext i f post = false := by
  rw [← Bool.not_eq_true]
  intro hnext
  obtain ⟨mid, rest, rfl, hmid⟩ := free_of_fieldFreedNext hnext
  obtain ⟨pre', answers, mid', heq, hopens, hfree⟩ :=
    h (pre ++ AgentCall.free i :: mid) i rest (by rw [hcalls]; simp)
  rcases List.append_eq_append_iff.mp heq with ⟨l, rfl, hl⟩ | ⟨l, rfl, hl⟩
  · -- the assignment is behind the first `can_agent_free`
    cases l with
    | nil => exact absurd (List.cons.inj hl).1 (by simp)
    | cons c l =>
      obtain ⟨-, rfl⟩ := List.cons.inj hl
      exact hmid answers (by simp) hopens
  · cases l with
    | nil => exact absurd (List.cons.inj hl).1 (by simp)
    | cons c l =>
      obtain ⟨-, rfl⟩ := List.cons.inj hl
      exact hfree (by simp)

/-- An agent is opened before it is closed. -/
theorem FreedOnce.first {calls : List (AgentCall ι)} (h : FreedOnce calls) (i : ι) (f : Field) :
    fieldFreedNext i f calls = false := by
  rw [← Bool.not_eq_true]
  intro hnext
  obtain ⟨mid, rest, rfl, hmid⟩ := free_of_fieldFreedNext hnext
  obtain ⟨pre', answers, mid', rfl, hopens, -⟩ := h mid i rest rfl
  exact hmid answers (by simp) hopens

theorem FreedOnce.proper {calls : List (AgentCall ι)} (h : FreedOnce calls) :
    Proper (calls.flatMap AgentCall.ops) := by
  suffices hsuffix : ∀ post pre : List (AgentCall ι), calls = pre ++ post →
      Proper (post.flatMap AgentCall.ops) from hsuffix calls [] rfl
  intro post
  induction post with
  | nil => intro _ _; trivial
  | cons c post ih =>
    intro pre hcalls
    have hpost : Proper (post.flatMap AgentCall.ops) := ih (pre ++ [c]) (by simp [hcalls])
    cases c with
    | init j answers =>
      rw [List.flatMap_cons, AgentCall.ops]
      split_ifs
      · exact hpost
      · exact hpost
    | free i =>
      have hnext : closedNext (i, .epollFd)
          (.clear (i, .sockFd) :: post.flatMap AgentCall.ops) = false := by
        simpa [fieldFreedNext, closedNext] using h.between hcalls .epollFd
      exact ⟨hnext, hpost⟩
    | _ => exact hpost

/-! ## What is open -/

/-- The call opens the descriptor, and the calls after it do not close it. -/
def AgentCall.LeavesOpen (fd : Int) (post : List (AgentCall ι)) : AgentCall ι → Prop
  | .init i answers =>
    answers.com.socket = fd ∧ 0 ≤ fd ∧ (fd = 0 ∨ fieldFreedNext i .sockFd post = false) ∨
      answers.com.Opens ∧ answers.epollCreate = fd ∧ 0 ≤ fd ∧
        (fd = 0 ∨ fieldFreedNext i .epollFd post = false)
  | .elsewhere fd' => fd' = fd
  | _ => False

theorem mem_leftOpen_agentOps {calls : List (AgentCall ι)} {fd : Int} :
    fd ∈ leftOpen 0 (0 ≤ ·) (calls.flatMap AgentCall.ops) ↔
      ∃ (pre : List (AgentCall ι)) (c : AgentCall ι) (post : List (AgentCall ι)),
        calls = pre ++ c :: post ∧ c.LeavesOpen fd post := by
  induction calls with
  | nil => simp [leftOpen]
  | cons c calls ih =>
    rw [exists_split_cons, ← ih, List.flatMap_cons]
    cases c with
    | init i answers =>
      have hsock : closedNext (i, .sockFd) ((if answers.com.Opens then
          [.assign (i, .epollFd) answers.epollCreate] else []) ++ calls.flatMap AgentCall.ops) =
            fieldFreedNext i .sockFd calls := by
        split_ifs
        · simp [fieldFreedNext, closedNext]
        · rfl
      have hepoll : fd ∈ leftOpen 0 (0 ≤ ·) ((if answers.com.Opens then
          [.assign (i, .epollFd) answers.epollCreate] else []) ++ calls.flatMap AgentCall.ops) ↔
            (answers.com.Opens ∧ answers.epollCreate = fd ∧ 0 ≤ fd ∧
              (fd = 0 ∨ fieldFreedNext i .epollFd calls = false)) ∨
              fd ∈ leftOpen 0 (0 ≤ ·) (calls.flatMap AgentCall.ops) := by
        split_ifs with hopens
        · exact mem_leftOpen_assign.trans (or_congr_left (and_iff_right hopens).symm)
        · exact (or_iff_right fun h => hopens h.1).symm
      rw [AgentCall.ops, List.cons_append, mem_leftOpen_assign, hsock, hepoll, ← or_assoc]
      rfl
    | elsewhere fd' => exact List.mem_cons.trans (or_congr_left eq_comm)
    | _ => exact (or_iff_right id).symm

/-- The descriptors that are open after any run in which agents are closed once are those
that were open before and those that some call opened and left open. -/
theorem agents_open_iff (agents : ι → AgentCtx) (base : Finset Int) (calls : List (AgentCall ι))
    (p : AgentProgram ι) (hfreed : FreedOnce calls)
    (hrun : exec agentStep ⟨agents, base⟩ calls = some p) (fd : Int) :
    fd ∈ p.isOpen ↔
      fd ∈ base ∨ ∃ (pre : List (AgentCall ι)) (c : AgentCall ι) (post : List (AgentCall ι)),
        calls = pre ++ c :: post ∧ c.LeavesOpen fd post := by
  have hno : ∀ {k g}, ¬ Kept 0 (0 ≤ ·) (AgentProgram.table ⟨agents, base⟩)
      (calls.flatMap AgentCall.ops) k g :=
    fun {k _} hk => absurd hk.next (Bool.eq_false_iff.mp (hfreed.first k.1 k.2))
  have hsound : Sound 0 (0 ≤ ·) (AgentProgram.table ⟨agents, base⟩)
      (calls.flatMap AgentCall.ops) := ⟨fun hk => absurd hk hno, fun hk _ => absurd hk hno⟩
  have hmem := mem_exec hfreed.proper hsound (exec_agentTable hrun) fd
  rw [← mem_leftOpen_agentOps]
  exact hmem.trans (or_congr_left (and_iff_left fun _ => hno))

/-- Two agents in memory full of 7.  Only the second one is closed. -/
def twoAgents : List (AgentCall Bool) :=
  [.init false ⟨⟨4, 0, 0, 0⟩, 5, 0, 0⟩, .init true ⟨⟨6, 0, 0, 0⟩, 8, 0, 0⟩, .free true]

theorem agents_open_iff_twoAgents :
    ∃ p, exec agentStep ⟨fun _ => ⟨7, 7, openCtx 7⟩, {0, 1, 2, 7}⟩ twoAgents = some p ∧
      5 ∈ p.isOpen := by
  obtain ⟨p, hp⟩ : ∃ p, exec agentStep ⟨fun _ => ⟨7, 7, openCtx 7⟩, {0, 1, 2, 7}⟩ twoAgents =
      some p := Option.isSome_iff_exists.mp (by decide)
  have hfreed : FreedOnce twoAgents := by
    intro pre i post heq
    rcases pre with _ | ⟨a, _ | ⟨b, _ | ⟨d, pre⟩⟩⟩
    · cases heq
    · cases heq
    · cases heq
      exact ⟨[_], _, [], rfl, by decide, List.not_mem_nil⟩
    · exact absurd (congrArg List.length heq) (by simp [twoAgents])
  exact ⟨p, hp, (agents_open_iff (fun _ => ⟨7, 7, openCtx 7⟩) {0, 1, 2, 7} twoAgents p hfreed hp
    5).mpr (.inr ⟨[], .init false ⟨⟨4, 0, 0, 0⟩, 5, 0, 0⟩, _, rfl,
      .inr ⟨by decide, rfl, by decide, .inr (by decide)⟩⟩)⟩

end CanbusAgent.Agent

import CanbusAgent.HalCom.Lifecycle

/-!
# The descriptors of an agent

An agent owns two descriptors, the socket of its transport and the one of `epoll`.
Both fields are taken for open when they are not 0.  `hal_com_init` clears its part
of the agent and `hal_com_free` clears it again; the field `epoll_fd` is written only
when `can_agent_init` gets that far, and `can_agent_free` leaves it as it is.

`releasedOnce_iff` says for which memory, which answers of the kernel and how many
calls of `can_agent_free` this convention closes every descriptor exactly once.
-/

namespace CanbusAgent.Agent

open HalCom

/-- The fields of `CAN_AGENT_T` that `can_agent_init` and `can_agent_free` use. -/
structure AgentCtx where
  epollFd : Int
  canFd : Int
  com : HalComCtx
deriving DecidableEq, Repr

/-- What the kernel answers to the calls of `can_agent_init`. -/
structure AgentAnswers where
  com : ComAnswers
  epollCreate : Int
  epollCtl : Int
  pthreadCreate : Int
deriving DecidableEq, Repr

/-- `can_agent_init` on an agent whose memory holds `ctx`. -/
def canAgentInit (ctx : AgentCtx) (answers : AgentAnswers) : Int × AgentCtx :=
  let (ret, com) := halComInit answers.com
  let ctx := { ctx with com }
  if ret ≠ 0 then (ret, ctx)
  else
    let ctx := { ctx with epollFd := answers.epollCreate }
    if answers.epollCreate < 0 then (HAL_ERR_FILE_IOCTL, ctx)
    else
      let (ret, canFd) := halComGetFd ctx.com
      let ctx := { ctx with canFd }
      if ret ≠ 0 then (ret, ctx)
      else if answers.epollCtl < 0 then (HAL_ERR_FILE_IOCTL, ctx)
      else if answers.pthreadCreate < 0 then (HAL_ERR_DEVICE_BUSY, ctx)
      else (answers.pthreadCreate, ctx)

/-- `can_agent_free`.  The first component are the descriptors passed to `close`, in
order. -/
def canAgentFree (ctx : AgentCtx) : List Int × AgentCtx :=
  let epoll := if ctx.epollFd ≠ 0 then [ctx.epollFd] else []
  let (sock, com) := halComFree ctx.com
  (epoll ++ sock, { ctx with com })

/-- The descriptors that `n` calls of `can_agent_free` pass to `close`. -/
def freeTimes : Nat → AgentCtx → List Int
  | 0, _ => []
  | n + 1, ctx =>
    let (closed, ctx) := canAgentFree ctx
    closed ++ freeTimes n ctx

/-- The descriptors that `can_agent_init` opens. -/
def opened (answers : AgentAnswers) : List Int :=
  (if 0 ≤ answers.com.socket then [answers.com.socket] else []) ++
    (if answers.com.Opens ∧ 0 ≤ answers.epollCreate then [answers.epollCreate] else [])

/-- Every open descriptor is closed exactly once, and nothing else is closed. -/
def ReleasedOnce (opened closed : List Int) : Prop :=
  (∀ fd ∈ opened, closed.count fd = 1) ∧ ∀ fd ∈ closed, fd ∈ opened

instance (opened closed : List Int) : Decidable (ReleasedOnce opened closed) :=
  inferInstanceAs (Decidable (_ ∧ _))

/-! ## What the calls leave -/

theorem canAgentInit_snd (ctx : AgentCtx) (answers : AgentAnswers) :
    (canAgentInit ctx answers).2.com = { clearedCtx with sockFd := answers.com.socket } ∧
      (canAgentInit ctx answers).2.epollFd =
        if answers.com.Opens then answers.epollCreate else ctx.epollFd := by
  have hcom := halComInit_snd answers.com
  have hret := halComInit_ret_iff answers.com
  unfold canAgentInit
  generalize halComInit answers.com = init at hcom hret
  obtain ⟨ret, com⟩ := init
  dsimp only at hcom hret ⊢
  by_cases hopens : answers.com.Opens
  · rw [if_neg (not_not_intro (hret.mpr hopens)), if_pos hopens]
    split_ifs <;> exact ⟨hcom, rfl⟩
  · rw [if_pos (mt hret.mp hopens), if_neg hopens]
    exact ⟨hcom, rfl⟩

/-- The descriptors of `n + 1` calls: the socket once, the one of `epoll` each time. -/
theorem freeTimes_succ (n : Nat) (ctx : AgentCtx) :
    freeTimes (n + 1) ctx = (if ctx.epollFd ≠ 0 then [ctx.epollFd] else []) ++
      (if ctx.com.sockFd ≠ 0 then [ctx.com.sockFd] else []) ++
      (if ctx.epollFd ≠ 0 then List.replicate n ctx.epollFd else []) := by
  have hagain : ∀ (n : Nat) (ctx : AgentCtx), ctx.com.sockFd = 0 →
      freeTimes n ctx = if ctx.epollFd ≠ 0 then List.replicate n ctx.epollFd else [] := by
    intro n
    induction n with
    | zero =>
      intro ctx _
      split_ifs <;> rfl
    | succ n ih =>
      intro ctx hsock
      have hclosed : ¬ (0 : Int) ≠ 0 := not_not_intro rfl
      rw [freeTimes, canAgentFree, halComFree, hsock]
      dsimp only
      rw [ih _ rfl, if_neg hclosed]
      split_ifs with hepoll
      · simp [List.replicate_succ]
      · rfl
  rw [freeTimes, canAgentFree, halComFree]
  dsimp only
  rw [hagain n _ rfl]

/-- When every descriptor is closed exactly once and nothing else is, for an agent
whose memory held `ctx` before and `n` calls of `can_agent_free`.  Descriptor 0 is
never closed, a failed `socket` or `epoll_create` is closed as -1, a second call closes
the one of `epoll` again, and before `epoll_create` the field still has its old value. -/
def ReleaseHolds (ctx : AgentCtx) (answers : AgentAnswers) (n : Nat) : Prop :=
  0 < answers.com.socket ∧
    if answers.com.Opens then 0 < answers.epollCreate ∧ n = 1 else ctx.epollFd = 0

theorem count_freeTimes (n : Nat) (ctx : AgentCtx) (fd : Int) :
    (freeTimes (n + 1) ctx).count fd =
      (if ctx.epollFd ≠ 0 ∧ ctx.epollFd = fd then n + 1 else 0) +
        (if ctx.com.sockFd ≠ 0 ∧ ctx.com.sockFd = fd then 1 else 0) := by
  have hif : ∀ (p : Prop) [Decidable p] (l : List Int),
      (if p then l else []).count fd = if p then l.count fd else 0 := by
    intro p _ l
    split_ifs <;> rfl
  rw [freeTimes_succ, List.count_append, List.count_append, hif, hif, hif, List.count_singleton,
    List.count_singleton, List.count_replicate]
  simp only [beq_iff_eq]
  split_ifs <;> omega

theorem mem_freeTimes (n : Nat) (ctx : AgentCtx) (fd : Int) :
    fd ∈ freeTimes (n + 1) ctx ↔
      fd ≠ 0 ∧ (fd = ctx.epollFd ∨ fd = ctx.com.sockFd) := by
  rw [← List.count_pos_iff, count_freeTimes]
  split_ifs <;> omega

/-- Every descriptor is closed exactly once, and nothing else is, exactly when the
condition holds.  The kernel does not return a descriptor that is open. -/
theorem releasedOnce_iff (ctx : AgentCtx) {answers : AgentAnswers}
    (hvalid : (opened answers).Nodup) {n : Nat} (hn : 1 ≤ n) :
    ReleasedOnce (opened answers) (freeTimes n (canAgentInit ctx answers).2) ↔
      ReleaseHolds ctx answers n := by
  obtain ⟨k, rfl⟩ : ∃ k, n = k + 1 := ⟨n - 1, by omega⟩
  obtain ⟨hcom, hepoll⟩ := canAgentInit_snd ctx answers
  have hsock : (canAgentInit ctx answers).2.com.sockFd = answers.com.socket := by rw [hcom]
  unfold ReleasedOnce ReleaseHolds
  simp only [count_freeTimes, mem_freeTimes, hsock, hepoll]
  by_cases hopens : answers.com.Opens
  · have hs : 0 ≤ answers.com.socket := hopens.1
    rw [if_pos hopens, if_pos hopens]
    by_cases he : 0 ≤ answers.epollCreate
    · have hopened : opened answers = [answers.com.socket, answers.epollCreate] := by
        rw [opened, if_pos hs, if_pos ⟨hopens, he⟩]
        rfl
      rw [hopened] at hvalid ⊢
      have hne : answers.com.socket ≠ answers.epollCreate := by simpa using hvalid
      simp only [List.mem_cons, List.not_mem_nil, or_false, forall_eq_or_imp, forall_eq, and_true]
      constructor
      · intro ⟨⟨hsock, hepoll⟩, _⟩
        split_ifs at hsock hepoll <;> omega
      · intro ⟨hspos, hepos, hk⟩
        refine ⟨⟨?_, ?_⟩, fun fd hfd => hfd.2.symm⟩
        · split_ifs <;> omega
        · split_ifs <;> omega
    · -- `epoll_create` failed, and its negative result is closed
      have hopened : opened answers = [answers.com.socket] := by
        rw [opened, if_pos hs, if_neg (fun h => he h.2), List.append_nil]
      rw [hopened]
      refine iff_of_false ?_ (by omega)
      intro ⟨_, hmem⟩
      have := hmem answers.epollCreate ⟨by omega, .inl rfl⟩
      rw [List.mem_singleton] at this
      omega
  · rw [if_neg hopens, if_neg hopens]
    by_cases hs : 0 ≤ answers.com.socket
    · -- the field `epoll_fd` still has its old value
      have hopened : opened answers = [answers.com.socket] := by
        rw [opened, if_pos hs, if_neg (fun h => hopens h.1), List.append_nil]
      rw [hopened]
      simp only [List.mem_singleton, forall_eq, and_true]
      constructor
      · intro ⟨hsock, hmem⟩
        have hstale : ctx.epollFd = 0 ∨ ctx.epollFd = answers.com.socket := by
          by_cases h : ctx.epollFd = 0
          · exact .inl h
          · exact .inr (hmem ctx.epollFd ⟨h, .inl rfl⟩)
        split_ifs at hsock <;> omega
      · intro ⟨hspos, hstale⟩
        refine ⟨?_, fun fd hfd => by omega⟩
        split_ifs <;> omega
    · -- `socket` failed, and its negative result is closed
      have hopened : opened answers = [] := by
        rw [opened, if_neg hs, if_neg (fun h => hopens h.1), List.append_nil]
      rw [hopened]
      refine iff_of_false ?_ (by omega)
      intro ⟨_, hmem⟩
      exact absurd (hmem answers.com.socket ⟨by omega, .inr rfl⟩) List.not_mem_nil

/-- The descriptors 3 and 4, one call of `can_agent_free`, and memory full of 7. -/
theorem releasedOnce_iff_success :
    ReleasedOnce [3, 4] (freeTimes 1 (canAgentInit ⟨7, 7, openCtx 7⟩ ⟨⟨3, 0, 0, 0⟩, 4, 0, 0⟩).2) :=
  (releasedOnce_iff ⟨7, 7, openCtx 7⟩ (show (opened ⟨⟨3, 0, 0, 0⟩, 4, 0, 0⟩).Nodup by decide)
    (Nat.le_refl 1)).mpr ⟨by decide, by decide⟩

/-- `bind` fails on an agent whose memory holds 7 in `epoll_fd`: descriptor 7 is closed,
although `can_agent_init` did not open it.  And a second `can_agent_free` closes the
descriptor of `epoll` again. -/
theorem release_closes_stale :
    ¬ ReleasedOnce (opened ⟨⟨3, 0, -1, 0⟩, 4, 0, 0⟩)
        (freeTimes 1 (canAgentInit ⟨7, 7, openCtx 7⟩ ⟨⟨3, 0, -1, 0⟩, 4, 0, 0⟩).2) ∧
      ¬ ReleasedOnce (opened ⟨⟨3, 0, 0, 0⟩, 4, 0, 0⟩)
        (freeTimes 2 (canAgentInit ⟨7, 7, openCtx 7⟩ ⟨⟨3, 0, 0, 0⟩, 4, 0, 0⟩).2) := by
  decide

end CanbusAgent.Agent

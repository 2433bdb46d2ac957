import CanbusAgent.HalCom.Model

/-!
# Opening and closing a transport

`hal_com_init` clears the context, opens the socket and installs the filter of the
cleared configuration, which accepts every frame.  It leaves a socket open when a
later call fails.  `hal_com_free` closes the socket unless its number is 0.
-/

namespace CanbusAgent.HalCom

/-- What the kernel answers to the calls of `hal_com_init`. -/
structure ComAnswers where
  socket : Int
  ioctl : Int
  bind : Int
  setsockopt : Int
deriving DecidableEq, Repr

/-- A context after `memset (ctx, 0, sizeof (HAL_COM_T))`. -/
def clearedCtx : HalComCtx :=
  { sockFd := 0, currentCanId := 0, config := { rfilter := { canId := 0, canMask := 0 } } }

/-- `hal_com_init`.  Whatever the context held before is cleared. -/
def halComInit (answers : ComAnswers) : Int × HalComCtx :=
  let ctx := { clearedCtx with sockFd := answers.socket }
  if answers.socket < 0 then (HAL_ERR_FILE_ACCESS, ctx)
  else if answers.ioctl < 0 then (HAL_ERR_FILE_IOCTL, ctx)
  else if answers.bind < 0 then (HAL_ERR_FILE_IOCTL, ctx)
  else if answers.setsockopt < 0 then (HAL_ERR_FILE_IOCTL, ctx)
  else (answers.setsockopt, ctx)

/-- `hal_com_free`.  The first component are the descriptors passed to `close`. -/
def halComFree (ctx : HalComCtx) : List Int × HalComCtx :=
  (if ctx.sockFd ≠ 0 then [ctx.sockFd] else [], clearedCtx)

/-- The second component is `*fd`. -/
def halComGetFd (ctx : HalComCtx) : Int × Int := (0, ctx.sockFd)

/-- The calls that lead to an open transport. -/
def ComAnswers.Opens (answers : ComAnswers) : Prop :=
  0 ≤ answers.socket ∧ 0 ≤ answers.ioctl ∧ 0 ≤ answers.bind ∧ answers.setsockopt = 0

instance (answers : ComAnswers) : Decidable answers.Opens :=
  inferInstanceAs (Decidable (_ ∧ _ ∧ _ ∧ _))

theorem halComInit_snd (answers : ComAnswers) :
    (halComInit answers).2 = { clearedCtx with sockFd := answers.socket } := by
  unfold halComInit
  split_ifs <;> rfl

theorem halComInit_ret_iff (answers : ComAnswers) :
    (halComInit answers).1 = 0 ↔ answers.Opens := by
  have haccess : HAL_ERR_FILE_ACCESS ≠ 0 := by decide
  unfold halComInit ComAnswers.Opens
  split_ifs
  · exact iff_of_false haccess (by omega)
  · exact iff_of_false HAL_ERR_FILE_IOCTL_ne_zero (by omega)
  · exact iff_of_false HAL_ERR_FILE_IOCTL_ne_zero (by omega)
  · exact iff_of_false HAL_ERR_FILE_IOCTL_ne_zero (by omega)
  · show answers.setsockopt = 0 ↔ _
    omega

end CanbusAgent.HalCom

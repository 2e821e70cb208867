import Cmgroups.Kernel.Object

/-!
# Binding of cmgroups to event sources

Attaching a cmgroup to an epoll (`ep_attach_cmgroup`) or an AIO context (`io_set_cmgroup`),
detaching it when the event source is destroyed (`cmgroup_detach`), and the construction and
teardown of event sources as far as they touch the binding. The tasklet is locked out while
the pointers of the group change.
-/

namespace Cmgroups

open Function (update)

variable {ι κ : Type} [DecidableEq ι]

/-- Code after the `ep->lock` section of `ep_attach_cmgroup`. -/
def endAttachEpoll (g : GroupId) (e : EpollId) (error : ℤ) : Code ι :=
  [Instr.lock (.unlock (.epoll e)), .bind (.unlockoutClear g), .lock (.mtxUnlock g)] ++
    (if error = 0 then [] else [Instr.obj (.unref g false)]) ++ [Instr.obj (.ret error)]

/-- Code after the `ctx_lock` section of `io_set_cmgroup`. -/
def endAttachAio (g : GroupId) (c : CtxId) (error : ℤ) : Code ι :=
  [Instr.bind (.unlockoutClear g), .lock (.mtxUnlock g), .lock (.ctxPut c)] ++
    (if error = 0 then [] else [Instr.obj (.unref g false)]) ++ [Instr.obj (.ret error)]

/-- Binding micro-steps. -/
def execBind (actor : Actor ι κ) (choice : Choice) (s : Shared ι κ) : BindStep → Outcome ι κ
  | .attachEpoll e fd =>
    match fd with
    | .bad => some (s, [.obj (.ret ebadf)])
    | .other => some (s, [.obj (.ret einval)])
    | .cm g =>
      if s.files g = 0 then some (s, [.obj (.ret ebadf)])
      else some ({ s with kref := update s.kref g (s.kref g + 1) },
        [.lock (.mtxLock g), .bind (.beginEpoll g e)])
  | .beginEpoll g e =>
    if s.attachedEpoll g = some e then
      some (s, [.lock (.mtxUnlock g), .obj (.unref g false), .obj (.ret 0)])
    else if s.attachedAio g ≠ none ∨ s.attachedEpoll g ≠ none then
      some (s, [.lock (.mtxUnlock g), .obj (.unref g false), .obj (.ret ebusy)])
    else some (s, lockoutTasklet g ++ [.lock (.lock (.epoll e)), .bind (.storeEpoll g e)])
  | .lockoutCas g =>
    if s.taskletActive g = true then some (s, napThen actor (.bind (.lockoutCas g)))
    else some ({ s with taskletActive := update s.taskletActive g true }, [])
  | .storeEpoll g e =>
    if s.epCmgroup e = none then
      some ({ s with
        epCmgroup := update s.epCmgroup e (some g)
        attachedEpoll := update s.attachedEpoll g (some e)
        lockPtr := update s.lockPtr g (some e)
        wqPtr := update s.wqPtr g (some e) },
        (if s.queue (.epoll e) = [] then [] else [.lock (.wakeAll (.epoll e))]) ++
          endAttachEpoll g e 0)
    else some (s, endAttachEpoll g e ebusy)
  | .unlockoutClear g =>
    some ({ s with taskletActive := update s.taskletActive g false },
      [.obj (.fire g .unlockout)])
  | .setAio c fd =>
    match fd with
    | .bad => some (s, [.obj (.ret ebadf)])
    | .other => some (s, [.obj (.ret einval)])
    | .cm g =>
      if s.files g = 0 then some (s, [.obj (.ret ebadf)])
      else some ({ s with kref := update s.kref g (s.kref g + 1) }, [.bind (.lookupAio g c)])
  | .lookupAio g c =>
    if s.ctxStage c = .published then
      some ({ s with users := update s.users c (s.users c + 1) },
        [.lock (.mtxLock g), .bind (.beginAio g c)])
    else some (s, [.obj (.unref g false), .obj (.ret einval)])
  | .beginAio g c =>
    if s.attachedAio g = some c then
      some (s, [.lock (.mtxUnlock g), .lock (.ctxPut c), .obj (.unref g false), .obj (.ret 0)])
    else if s.attachedAio g ≠ none ∨ s.attachedEpoll g ≠ none then
      some (s, [.lock (.mtxUnlock g), .lock (.ctxPut c), .obj (.unref g false),
        .obj (.ret ebusy)])
    else some (s, lockoutTasklet g ++ [.bind (.storeAio g c)])
  | .storeAio g c =>
    if s.ctxCmgroup c = none then
      some ({ s with ctxCmgroup := update s.ctxCmgroup c (some g) }, [.bind (.doAttachAio g c)])
    else some (s, endAttachAio g c ebusy)
  | .doAttachAio g c =>
    some ({ s with attachedAio := update s.attachedAio g (some c) }, endAttachAio g c 0)
  | .detachQueue g =>
    if s.wqPtr g = none then
      some (s, [.lock (.lockVia g .mutex), .bind (.detachDrain g)])
    else some (s, [.lock (.lockVia g .mutex), .lock (.unlockVia g .mutex)])
  | .detachDrain g =>
    if s.queue (s.wqOf g) = [] then some (s, [.lock (.unlockVia g .mutex)])
    else some (s, [.lock (.wakeAll (s.wqOf g)), .lock (.unlockVia g .mutex)] ++
      napThen actor (.lock (.lockVia g .mutex)) ++ [.bind (.detachDrain g)])
  | .detachStore g _ =>
    some ({ s with
      attachedEpoll := update s.attachedEpoll g none
      attachedAio := update s.attachedAio g none
      lockPtr := update s.lockPtr g none
      wqPtr := update s.wqPtr g none
      action := update s.action g .wakeAll }, [])
  | .epKfree e => some ({ s with epStage := update s.epStage e .freed }, [])
  | .ctxKfree c => some ({ s with ctxStage := update s.ctxStage c .freed }, [])
  | .addTable c =>
    -- `choice.flag`: the table could not be grown, the context is freed unseen
    if choice.flag then
      some ({ s with ctxStage := update s.ctxStage c .freed }, [.obj (.ret enfile)])
    else some ({ s with ctxStage := update s.ctxStage c .published },
      [.bind (.clearCtx c), .bind (.setupDone c), .lock (.ctxPut c)])
  | .clearCtx c => some ({ s with ctxCmgroup := update s.ctxCmgroup c none }, [])
  | .setupDone c =>
    -- `choice.flag`: `put_user` failed
    some (s, if choice.flag then [.bind (.kill c), .obj (.ret efault)] else [.obj (.ret 0)])
  | .kill c =>
    if s.ctxStage c = .published then
      some ({ s with
        ctxStage := update s.ctxStage c .killed
        users := update s.users c (s.users c - 1) }, [])
    else some (s, [])

end Cmgroups

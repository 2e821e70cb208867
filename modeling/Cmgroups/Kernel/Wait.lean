import Cmgroups.Kernel.Tasklet

/-!
# `io_getevents` and `cmgroup_wait`

`io_getevents` reads events, associates the caller with the context's cmgroup and, when the
read did not return zero, waits in `cmgroup_wait` for an opening. Reading events is generic
code: it may sleep any number of times and returns any value. The time left of the timeout is
whatever the timer reports. `cmgroup_wait` takes and returns its `ret` as an `int`, so the
value that passes through it is reduced to 32 bits.
-/

namespace Cmgroups

open Function (update)

variable {ι κ : Type} [DecidableEq ι]

/-- `io_getevents` and `cmgroup_wait` micro-steps. -/
def execWait (choice : Choice) (s : Shared ι κ) : WaitStep ι → Outcome ι κ
  | .read t c ptr slack =>
    -- `choice.flag`: no event yet, sleep on `ctx->wait`
    if choice.flag then
      some (s, [.sched (.setState t .interruptible), .sched (.schedule t),
        .sched (.setState t .running), .wait (.read t c ptr slack)])
    else some (s, [.wait (.gate t c choice.value
      (if ptr then some choice.other else none) (if ptr then some choice.third else none) slack)])
  | .gate t c ret timeout rem slack =>
    match s.ctxCmgroup c with
    | none => some (s, [.lock (.ctxPut c), .obj (.ret ret)])
    | some g =>
      some (s, (if s.cmgroup t ≠ some g then [.acct (.associate t g true false)] else []) ++
        (if ret ≠ 0 then [.wait (.enter t c g (Word32.wrap ret) timeout rem slack)] else []) ++
        [.lock (.ctxPut c), .obj (.ret (Word32.wrap ret))])
  | .enter t c g ret timeout rem slack =>
    if s.wqPtr g ≠ none ∨ s.lockPtr g ≠ none then some (s, [])
    else if ret = 0 ∨ ret = eintr ∨ ret = erestartsys then some (s, [])
    else if timeout = some 0 then some (s, [])
    else if timeout = some ktimeMax then some (s, [.wait (.loop t c g none slack)])
    else some (s, [.wait (.loop t c g rem slack)])
  | .loop t c g rem slack =>
    if s.sig t = true then some (s, [.wait (.done t g slack .signal)])
    else some (s, [.wait (.fast t c g rem slack)])
  | .fast t c g rem slack =>
    if 0 ≤ s.available g then some (s, [.wait (.done t g slack (.available (s.available g)))])
    else some (s, [.wait (.begin t c g rem slack)])
  | .begin t c g rem slack =>
    match rem with
    | some left =>
      if left ≤ slack then some (s, [.wait (.done t g slack (.expired left))])
      else some (s, [.lock (.lockVia g (.waiter c)), .wait (.check t c g rem slack)])
    | none => some (s, [.lock (.lockVia g (.waiter c)), .wait (.check t c g rem slack)])
  | .check t c g rem slack =>
    if 0 ≤ s.available g then
      some (s, [.lock (.unlockVia g (.waiter c)),
        .wait (.done t g slack (.available (s.available g)))])
    else some (s, [.wait (.add t c g rem slack)])
  | .add t c g rem slack =>
    some ({ s with
      queue := update s.queue (s.wqOf g) (s.queue (s.wqOf g) ++ [t])
      state := update s.state t .interruptible },
      [.lock (.unlockVia g (.waiter c)), .wait (.signal t c g rem slack)])
  | .signal t c g rem slack =>
    if s.sig t = true then
      some (s, [.wait (.finish t g), .wait (.done t g slack .signal)])
    else some (s, [.sched (.schedule t), .wait (.woken t c g rem slack)])
  | .woken t c g rem slack =>
    -- `choice.value` is `hrtimer_get_remaining`
    match rem with
    | none => some (s, [.wait (.finish t g), .wait (.loop t c g none slack)])
    | some _ =>
      some (s, [.wait (.finish t g)] ++
        if slack < choice.value then [.wait (.loop t c g (some choice.value) slack)]
        else [.wait (.done t g slack (.expired choice.value))])
  | .finish t g =>
    some ({ s with state := update s.state t .running },
      if t ∈ s.queue (s.wqOf g) then
        [.lock (.lock (s.wqOf g)), .lock (.unlink t (s.wqOf g)), .lock (.unlock (s.wqOf g))]
      else [])
  | .done _ _ _ _ => some (s, [])

end Cmgroups

import Cmgroups.Kernel.Wait

/-!
# Epoll

`ep_poll` with `ep_cmgroup_wait_available` (`fs/eventpoll.c`), label by label, the two
`ep->lock` sections of `ep_scan_ready_list`, `ep_wake_wq`, and the places that put items on the
ready list. Ready items are counted; which items a scan delivers, drops or puts back is left
open. Timers may expire at any time when the call has a finite timeout.
-/

namespace Cmgroups

open Function (update)

variable {ι κ : Type} [DecidableEq ι]

/-- `if (current->cmgroup != cmgroup) cmgroup_associate(current, cmgroup, true)`. -/
def associateCurrent (s : Shared ι κ) (t : ι) (group : Option GroupId) : Code ι :=
  if s.cmgroup t = group then []
  else match group with
    | some g => [.acct (.associate t g true true)]
    | none => [.ep .oops]

/-- `ep_poll`. -/
def execPoll (choice : Choice) (s : Shared ι κ) (t : ι) (e : EpollId) (locals : EpLocals) :
    EpPc → Outcome ι κ
  | .zero =>
    match s.epCmgroup e with
    | none => some (s, [.ep (.poll t e .check locals)])
    | some g => some (s, associateCurrent s t (some g) ++
        [.ep (.poll t e .check { locals with cmgroup := some g })])
  | .fetch =>
    if locals.cmgroup = s.epCmgroup e then
      some (s, [.ep (.poll t e .cmcheck { locals with gate := none })])
    else some (s, associateCurrent s t (s.epCmgroup e) ++
      [.ep (.poll t e .cmcheck { locals with cmgroup := s.epCmgroup e, gate := none })])
  | .cmcheck =>
    match locals.cmgroup with
    | none => some (s, [.ep (.poll t e .events locals)])
    | some g =>
      if s.available g < 0 then some (s, [.ep (.poll t e .waitAdd locals)])
      else some (s, [.ep (.poll t e .events { locals with gate := some (s.available g) })])
  | .waitAdd =>
    some ({ s with queue := update s.queue (.epoll e) (t :: s.queue (.epoll e)) },
      [.ep (.poll t e .waitAvail locals)])
  | .waitAvail =>
    match s.epCmgroup e with
    | none => some (s, [.ep .oops, .ep (.poll t e .waitAvail locals)])
    | some g =>
      if 0 ≤ s.available g then
        some (s, [.ep (.poll t e (.waitDone false) { locals with gate := some (s.available g) })])
      else some (s, [.ep (.poll t e .waitSet locals)])
  | .waitSet =>
    match s.epCmgroup e with
    | none => some (s, [.ep .oops, .ep (.poll t e .waitSet locals)])
    | some g =>
      if s.sig t = true then
        some ({ s with state := update s.state t .interruptible },
          [.ep (.poll t e (.waitDone false) locals)])
      else some ({ s with
          state := update s.state t .interruptible
          action := update s.action g .resetWakeOne },
        [.lock (.unlock (.epoll e)), .ep (.poll t e .waitSleep locals)])
  | .waitSleep =>
    -- `choice.flag`: the timer has expired before `schedule()`
    if choice.flag = true ∧ locals.timeout = .finite then
      some ({ s with state := update s.state t .running },
        [.lock (.lock (.epoll e)), .ep (.poll t e (.waitBack true) locals)])
    else some (s, [.sched (.schedule t), .ep (.poll t e .waitWoken locals)])
  | .waitWoken =>
    -- `choice.flag`: the timer has expired
    some ({ s with state := update s.state t .running },
      [.lock (.lock (.epoll e)),
        .ep (.poll t e (.waitBack (choice.flag && locals.timeout = .finite)) locals)])
  | .waitBack timedOut =>
    match s.epCmgroup e with
    | none => some (s, [.ep .oops, .ep (.poll t e (.waitBack timedOut) locals)])
    | some g =>
      some ({ s with action := update s.action g .neutral },
        [.ep (.poll t e (if timedOut then .waitDone true else .waitAvail)
          { locals with gate := none })])
  | .waitDone timedOut =>
    some ({ s with
        state := update s.state t .running
        queue := update s.queue (.epoll e) ((s.queue (.epoll e)).erase t) },
      [.ep (.poll t e (if timedOut then .check else .events)
        { locals with timedOut := timedOut })])
  | .events =>
    if s.epEventsAvailable e then some (s, [.ep (.poll t e .check locals)])
    else some ({ s with queue := update s.queue (.epoll e) (t :: s.queue (.epoll e)) },
      [.ep (.poll t e .loop { locals with slept := false })])
  | .loop =>
    let set := { s with state := update s.state t .interruptible }
    if s.epEventsAvailable e ∨ locals.timedOut = true then
      some (set, [.ep (.poll t e .leave locals)])
    else if s.sig t = true then some (set, [.ep (.poll t e .leave { locals with res := eintr })])
    else some (set, [.lock (.unlock (.epoll e)), .ep (.poll t e .sleep locals)])
  | .sleep =>
    if choice.flag = true ∧ locals.timeout = .finite then
      some ({ s with state := update s.state t .running },
        [.lock (.lock (.epoll e)), .ep (.poll t e .back { locals with timedOut := true })])
    else some (s, [.sched (.schedule t), .ep (.poll t e .woken locals)])
  | .woken =>
    some ({ s with state := update s.state t .running },
      [.lock (.lock (.epoll e)), .ep (.poll t e .back
        { locals with timedOut := locals.timedOut || (choice.flag && locals.timeout = .finite) })])
  | .back =>
    if locals.cmgroup = s.epCmgroup e then
      some (s, [.ep (.poll t e .loop { locals with slept := true, gate := none })])
    else some (s, associateCurrent s t (s.epCmgroup e) ++
      [.ep (.poll t e (if locals.timedOut then .loop else .rejoin)
        { locals with slept := true, cmgroup := s.epCmgroup e, gate := none })])
  | .rejoin =>
    some ({ s with
        state := update s.state t .running
        queue := update s.queue (.epoll e) ((s.queue (.epoll e)).erase t) },
      [.ep (.poll t e .cmcheck locals)])
  | .leave =>
    some ({ s with
        state := update s.state t .running
        queue := update s.queue (.epoll e) ((s.queue (.epoll e)).erase t) },
      [.ep (.poll t e .slept locals)])
  | .slept =>
    match locals.cmgroup with
    | none => some (s, [.ep (.poll t e .check locals)])
    | some g =>
      if locals.timedOut = true ∨ locals.slept = false then
        some (s, [.ep (.poll t e .check locals)])
      else if s.available g < 0 then some (s, [.ep (.poll t e .waitAdd locals)])
      else some (s, [.ep (.poll t e .check { locals with gate := some (s.available g) })])
  | .check =>
    some (s, [.lock (.unlock (.epoll e)), .ep (.poll t e (.after (s.epEventsAvailable e)) locals)])
  | .after eavail =>
    if locals.res = 0 ∧ eavail = true then
      some (s, epScanReadyList e ++ [.ep (.poll t e .sent locals)])
    else some (s, [.lock (.epPut e), .obj (.ret locals.res)])
  | .sent =>
    -- `choice.value` is the result of `ep_send_events`
    if choice.value = 0 ∧ locals.timedOut = false then
      some (s, [.lock (.lock (.epoll e)), .ep (.poll t e .fetch locals)])
    else some (s, [.lock (.epPut e), .obj (.ret choice.value)])

/-- Epoll micro-steps. -/
def execEp (actor : Actor ι κ) (choice : Choice) (s : Shared ι κ) : EpStep ι → Outcome ι κ
  | .poll t e pc locals => execPoll choice s t e locals pc
  | .oops => none
  | .scanBegin e =>
    some ({ s with
      txlist := update s.txlist e (s.rdllist e)
      rdllist := update s.rdllist e 0
      ovflist := update s.ovflist e (some 0) }, [])
  | .scanProc e =>
    -- `choice.value` items stay on `txlist`, `choice.other` are put back on the ready list
    if choice.flag then some (s, napThen actor (.ep (.scanProc e)))
    else if choice.value.toNat + choice.other.toNat ≤ s.txlist e then
      some ({ s with
        txlist := update s.txlist e choice.value.toNat
        rdllist := update s.rdllist e (s.rdllist e + choice.other.toNat) }, [])
    else none
  | .scanEnd e =>
    -- `choice.value` chained items are not on a list yet
    if choice.value.toNat ≤ (s.ovflist e).getD 0 then
      some ({ s with
        rdllist := update s.rdllist e (s.rdllist e + choice.value.toNat + s.txlist e)
        txlist := update s.txlist e 0
        ovflist := update s.ovflist e none },
        if s.rdllist e + choice.value.toNat + s.txlist e = 0 then [] else [.ep (.wakeWq e)])
    else none
  | .wakeWq e =>
    if s.queue (.epoll e) = [] then some (s, [])
    else match s.epCmgroup e with
      | none => some (s, [.lock (.wakeOne (.epoll e))])
      | some g => some (s, [.ep (.wakeWqAvail e g)])
  | .wakeWqAvail e g =>
    if s.available g ≤ 0 then some (s, [.ep (.wakeWqRequest e g)])
    else some (s, [.lock (.wakeOne (.epoll e))])
  | .wakeWqRequest _ g => some ({ s with action := update s.action g .resetWakeOne }, [])
  | .callback e =>
    -- `choice.flag`: not an event of the item; `choice.value = 0`: the item is linked already
    if choice.flag then some (s, [])
    else match s.ovflist e with
      | some chained =>
        let longer := if choice.value = 0 then chained else chained + 1
        some ({ s with ovflist := update s.ovflist e (some longer) }, [])
      | none =>
        if choice.value = 0 ∧ 0 < s.rdllist e then some (s, [.ep (.wakeWq e)])
        else some ({ s with rdllist := update s.rdllist e (s.rdllist e + 1) }, [.ep (.wakeWq e)])
  | .insert e =>
    -- `choice.flag`: the file is ready and the item not linked yet
    if choice.flag then
      some ({ s with rdllist := update s.rdllist e (s.rdllist e + 1) }, [.ep (.wakeWq e)])
    else some (s, [])
  | .remove e =>
    -- `choice.flag`: the item is linked
    if choice.flag then
      some ({ s with rdllist := update s.rdllist e (s.rdllist e - 1) }, [])
    else some (s, [])

end Cmgroups

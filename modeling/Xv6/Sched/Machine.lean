import Xv6.Sched.Policy

/-!
# The process table under several harts

The code that moves a process between its states, at the granularity of its single stores. A
hart has the process it runs, `c->proc`, and a place in that code; what `kfork` remembers between
two locked sections is kept with the allocated slot as `forker`. `dispatch` may go for any slot,
as a `pick_next` that reads the table without locks may return any slot.

`wakeup` and `kkill` visit the slots in any order, each in a locked section of its own. Interrupt
handlers wake processes up too, so `wakeup` needs no current process.
-/

namespace Xv6.Sched

/-- The callers of `mark_runnable`; `kkill` continues as `wakeup` does. -/
inductive Caller where
  | yield
  | wakeup
  | kfork
  deriving DecidableEq, Repr

inductive Pc (n : Nat) where
  | free
  | dispatchLocked (next : Fin n)
  | dispatchStored (next : Fin n)
  | dispatchCounted (next : Fin n)
  | dispatchAccounted (next : Fin n)
  | entered (p : Fin n)
  | markSeq (p : Fin n) (caller : Caller)
  | markCounter (p : Fin n) (caller : Caller)
  | markTick (p : Fin n) (caller : Caller)
  | markState (p : Fin n) (caller : Caller)
  | sleepLocked (p : Fin n) (chan : Nat)
  | sleepState (p : Fin n)
  | exitLocked (p : Fin n)
  | left (p : Fin n)
  | wakeupLocked (p : Fin n) (chan : Nat)
  | killLocked (p : Fin n) (pid : Int)
  | waitLocked (p : Fin n)
  | allocLocked (p : Fin n)
  | allocUsed (p : Fin n)
  | allocated (p : Fin n)
  | releasing (p : Fin n)
  deriving DecidableEq, Repr

namespace Pc

variable {n : Nat}

def held : Pc n → Option (Fin n)
  | free => none
  | dispatchLocked p | dispatchStored p | dispatchCounted p
  | dispatchAccounted p | entered p | markSeq p _ | markCounter p _
  | markTick p _ | markState p _ | sleepLocked p _ | sleepState p
  | exitLocked p | left p | wakeupLocked p _ | killLocked p _
  | waitLocked p | allocLocked p | allocUsed p | allocated p
  | releasing p => some p

/-- Between the counter update and the state store, in either order. -/
def inFlight : Pc n → Bool
  | dispatchStored _ | markTick _ _ | markState _ _ => true
  | _ => false

end Pc

inductive Resume where
  | forkret
  | yield
  | sleep
  deriving DecidableEq, Repr

structure Cpu (n : Nat) where
  proc : Option (Fin n) := none
  pc : Pc n := .free
  deriving DecidableEq, Repr

structure Slot (Hart : Type) (n : Nat) where
  proc : Proc := {}
  lock : Option Hart := none
  forker : Option (Fin n) := none
  resume : Resume := .forkret

structure Machine (Hart : Type) (n : Nat) where
  slot : Fin n → Slot Hart n
  cpu : Hart → Cpu n
  gLsRunnableCount : Int
  nextSeq : BitVec 64
  nextPid : Int
  ticks : BitVec 32

section Steps

variable {Hart : Type} {n : Nat}

namespace Slot

def setProc (s : Slot Hart n) (update : Proc → Proc) : Slot Hart n :=
  { s with proc := update s.proc }

def acquire (s : Slot Hart n) (h : Hart) : Slot Hart n := { s with lock := some h }

def release (s : Slot Hart n) : Slot Hart n := { s with lock := none }

section

variable (s : Slot Hart n)
include s

@[simp]
theorem setProc_proc (update : Proc → Proc) : (s.setProc update).proc = update s.proc := rfl

@[simp]
theorem setProc_lock (update : Proc → Proc) : (s.setProc update).lock = s.lock := rfl

@[simp]
theorem acquire_proc (h : Hart) : (s.acquire h).proc = s.proc := rfl

@[simp]
theorem release_proc : s.release.proc = s.proc := rfl

end

end Slot

/-- The part of `freeproc` that concerns these fields. -/
def freeproc (p : Proc) : Proc := { p with pid := 0, chan := 0, killed := false, state := .unused }

/-- The wait accounting of `dispatch`: the difference is taken in 32 bits. -/
def closeWait (ticks : BitVec 32) (p : Proc) : Proc :=
  let w : BitVec 64 := (ticks - p.schedReadyTick.setWidth 32).setWidth 64
  { p with
    waitTicksTotal := p.waitTicksTotal + w
    waitTicksMax := if w > p.waitTicksMax then w else p.waitTicksMax }

/-- `1` for a LatencySensitive process, the amount by which it moves the counter. -/
def lsWeight (p : Proc) : Int :=
  if p.priority = .latencySensitive then 1 else 0

/-- The place after the state store of `mark_runnable`. -/
def Caller.next (p : Fin n) : Caller → Pc n
  | .yield => .left p
  | .wakeup | .kfork => .releasing p

namespace Machine

variable [DecidableEq Hart]

def put (m : Machine Hart n) (h : Hart) (cpu : Cpu n) (q : Fin n)
    (slot : Slot Hart n) : Machine Hart n :=
  { m with
    slot := Function.update m.slot q slot
    cpu := Function.update m.cpu h cpu }

/-- Advance a hart whose current process stays the same. -/
def go (m : Machine Hart n) (h : Hart) (pc : Pc n) (q : Fin n)
    (slot : Slot Hart n) : Machine Hart n :=
  m.put h { m.cpu h with pc := pc } q slot

@[simp]
theorem go_gLsRunnableCount (m : Machine Hart n) (h : Hart) (pc : Pc n)
    (q : Fin n) (slot : Slot Hart n) :
    (m.go h pc q slot).gLsRunnableCount = m.gLsRunnableCount := rfl

/-- The state that `userinit` leaves, before the other harts are started: one
process in slot `p`, made RUNNABLE. -/
def boot (p : Fin n) : Machine Hart n where
  slot := Function.update (fun _ => {}) p
      { proc := { state := .runnable, pid := 1, arrivalSeq := 1 } }
  cpu := fun _ => {}
  gLsRunnableCount := 0
  nextSeq := 2
  nextPid := 2
  ticks := 0

end Machine

variable [DecidableEq Hart]

/-- One store or atomic operation of one hart. -/
inductive Step (m : Machine Hart n) : Machine Hart n → Prop
  | dispatchAcquire (h : Hart) (next : Fin n)
      (scheduler : m.cpu h = {})
      (unlocked : (m.slot next).lock = none) :
      Step m (m.go h (.dispatchLocked next) next ((m.slot next).acquire h))
  | dispatchSkip (h : Hart) (next : Fin n)
      (at_ : (m.cpu h).pc = .dispatchLocked next)
      (stale : (m.slot next).proc.state ≠ .runnable) :
      Step m (m.go h .free next (m.slot next).release)
  | dispatchStore (h : Hart) (next : Fin n)
      (at_ : (m.cpu h).pc = .dispatchLocked next)
      (runnable : (m.slot next).proc.state = .runnable) :
      Step m (m.go h (.dispatchStored next) next
        ((m.slot next).setProc ({ · with state := .running })))
  | dispatchCount (h : Hart) (next : Fin n)
      (at_ : (m.cpu h).pc = .dispatchStored next) :
      Step m
        { m.go h (.dispatchCounted next) next (m.slot next) with
          gLsRunnableCount :=
            m.gLsRunnableCount - lsWeight (m.slot next).proc }
  | dispatchAccount (h : Hart) (next : Fin n)
      (at_ : (m.cpu h).pc = .dispatchCounted next) :
      Step m (m.go h (.dispatchAccounted next) next ((m.slot next).setProc (closeWait m.ticks)))
  | dispatchSwtch (h : Hart) (next : Fin n)
      (at_ : (m.cpu h).pc = .dispatchAccounted next) :
      Step m (m.put h { proc := some next, pc := .entered next } next (m.slot next))
  | resume (h : Hart) (p : Fin n)
      (at_ : (m.cpu h).pc = .entered p) :
      Step m (m.go h .free p ((m.slot p).setProc fun proc =>
          if (m.slot p).resume = .sleep then { proc with chan := 0 } else proc).release)
  | markSeq (h : Hart) (p : Fin n) (caller : Caller)
      (at_ : (m.cpu h).pc = .markSeq p caller) :
      Step m
        { m.go h (.markCounter p caller) p
            ((m.slot p).setProc ({ · with arrivalSeq := m.nextSeq })) with
          nextSeq := m.nextSeq + 1 }
  | markCounter (h : Hart) (p : Fin n) (caller : Caller)
      (at_ : (m.cpu h).pc = .markCounter p caller) :
      Step m
        { m.go h (.markTick p caller) p (m.slot p) with
          gLsRunnableCount := m.gLsRunnableCount + lsWeight (m.slot p).proc }
  | markTick (h : Hart) (p : Fin n) (caller : Caller)
      (at_ : (m.cpu h).pc = .markTick p caller) :
      Step m (m.go h (.markState p caller) p
        ((m.slot p).setProc ({ · with schedReadyTick := m.ticks.setWidth 64 })))
  | markState (h : Hart) (p : Fin n) (caller : Caller)
      (at_ : (m.cpu h).pc = .markState p caller) :
      Step m (m.go h (caller.next p) p
        { (m.slot p).setProc ({ · with state := .runnable }) with
          resume := if caller = .yield then .yield else (m.slot p).resume })
  | yieldAcquire (h : Hart) (p : Fin n)
      (current : m.cpu h = { proc := some p })
      (unlocked : (m.slot p).lock = none) :
      Step m (m.go h (.markSeq p .yield) p ((m.slot p).acquire h))
  | sleepAcquire (h : Hart) (p : Fin n) (chan : Nat)
      (current : m.cpu h = { proc := some p })
      (unlocked : (m.slot p).lock = none) :
      Step m (m.go h (.sleepLocked p chan) p ((m.slot p).acquire h))
  | sleepChan (h : Hart) (p : Fin n) (chan : Nat)
      (at_ : (m.cpu h).pc = .sleepLocked p chan) :
      Step m (m.go h (.sleepState p) p ((m.slot p).setProc ({ · with chan := chan })))
  | sleepState (h : Hart) (p : Fin n)
      (at_ : (m.cpu h).pc = .sleepState p) :
      Step m (m.go h (.left p) p
        { (m.slot p).setProc ({ · with state := .sleeping }) with resume := .sleep })
  | exitAcquire (h : Hart) (p : Fin n)
      (current : m.cpu h = { proc := some p })
      (unlocked : (m.slot p).lock = none) :
      Step m (m.go h (.exitLocked p) p ((m.slot p).acquire h))
  | exitState (h : Hart) (p : Fin n)
      (at_ : (m.cpu h).pc = .exitLocked p) :
      Step m (m.go h (.left p) p ((m.slot p).setProc ({ · with state := .zombie })))
  | leave (h : Hart) (p : Fin n)
      (at_ : (m.cpu h).pc = .left p) :
      Step m (m.put h {} p (m.slot p).release)
  | wakeupAcquire (h : Hart) (p : Fin n) (chan : Nat)
      (free : (m.cpu h).pc = .free)
      (other : (m.cpu h).proc ≠ some p)
      (unlocked : (m.slot p).lock = none) :
      Step m (m.go h (.wakeupLocked p chan) p ((m.slot p).acquire h))
  | wakeupMark (h : Hart) (p : Fin n) (chan : Nat)
      (at_ : (m.cpu h).pc = .wakeupLocked p chan)
      (asleep : (m.slot p).proc.state = .sleeping ∧ (m.slot p).proc.chan = chan) :
      Step m (m.go h (.markSeq p .wakeup) p (m.slot p))
  | wakeupSkip (h : Hart) (p : Fin n) (chan : Nat)
      (at_ : (m.cpu h).pc = .wakeupLocked p chan)
      (awake : ¬ ((m.slot p).proc.state = .sleeping ∧ (m.slot p).proc.chan = chan)) :
      Step m (m.go h (.releasing p) p (m.slot p))
  | killAcquire (h : Hart) (p : Fin n) (pid : Int)
      (free : (m.cpu h).pc = .free)
      (unlocked : (m.slot p).lock = none) :
      Step m (m.go h (.killLocked p pid) p ((m.slot p).acquire h))
  | killMark (h : Hart) (p : Fin n) (pid : Int)
      (at_ : (m.cpu h).pc = .killLocked p pid)
      (match_ : (m.slot p).proc.pid = pid)
      (asleep : (m.slot p).proc.state = .sleeping) :
      Step m (m.go h (.markSeq p .wakeup) p ((m.slot p).setProc ({ · with killed := true })))
  | killFlag (h : Hart) (p : Fin n) (pid : Int)
      (at_ : (m.cpu h).pc = .killLocked p pid)
      (match_ : (m.slot p).proc.pid = pid)
      (awake : (m.slot p).proc.state ≠ .sleeping) :
      Step m (m.go h (.releasing p) p ((m.slot p).setProc ({ · with killed := true })))
  | killSkip (h : Hart) (p : Fin n) (pid : Int)
      (at_ : (m.cpu h).pc = .killLocked p pid)
      (differs : (m.slot p).proc.pid ≠ pid) :
      Step m (m.go h (.releasing p) p (m.slot p))
  | waitAcquire (h : Hart) (p : Fin n)
      (free : (m.cpu h).pc = .free)
      (unlocked : (m.slot p).lock = none) :
      Step m (m.go h (.waitLocked p) p ((m.slot p).acquire h))
  | waitReap (h : Hart) (p : Fin n)
      (at_ : (m.cpu h).pc = .waitLocked p)
      (exited : (m.slot p).proc.state = .zombie) :
      Step m (m.go h (.releasing p) p ((m.slot p).setProc freeproc))
  | waitSkip (h : Hart) (p : Fin n)
      (at_ : (m.cpu h).pc = .waitLocked p) :
      Step m (m.go h (.releasing p) p (m.slot p))
  | allocAcquire (h : Hart) (p : Fin n)
      (free : (m.cpu h).pc = .free)
      (unlocked : (m.slot p).lock = none) :
      Step m (m.go h (.allocLocked p) p ((m.slot p).acquire h))
  | allocUse (h : Hart) (p : Fin n)
      (at_ : (m.cpu h).pc = .allocLocked p)
      (unused : (m.slot p).proc.state = .unused) :
      Step m
        { m.go h (.allocUsed p) p
            ((m.slot p).setProc ({ · with pid := m.nextPid, state := .used })) with
          nextPid := m.nextPid + 1 }
  | allocSkip (h : Hart) (p : Fin n)
      (at_ : (m.cpu h).pc = .allocLocked p)
      (taken : (m.slot p).proc.state ≠ .unused) :
      Step m (m.go h (.releasing p) p (m.slot p))
  | allocReset (h : Hart) (p : Fin n)
      (at_ : (m.cpu h).pc = .allocUsed p) :
      Step m (m.go h (.allocated p) p
        { (m.slot p).setProc
            ({ · with priority := .normal, waitTicksTotal := 0, waitTicksMax := 0 }) with
          resume := .forkret })
  | allocFail (h : Hart) (p : Fin n)
      (at_ : (m.cpu h).pc = .allocUsed p ∨ (m.cpu h).pc = .allocated p) :
      Step m (m.go h (.releasing p) p ((m.slot p).setProc freeproc))
  | forkRelease (h : Hart) (parent p : Fin n)
      (at_ : m.cpu h = { proc := some parent, pc := .allocated p }) :
      Step m (m.go h .free p { (m.slot p).release with forker := some parent })
  | forkAcquire (h : Hart) (parent p : Fin n)
      (current : m.cpu h = { proc := some parent })
      (np : (m.slot p).forker = some parent)
      (unlocked : (m.slot p).lock = none) :
      Step m (m.go h (.markSeq p .kfork) p { (m.slot p).acquire h with forker := none })
  | release (h : Hart) (p : Fin n)
      (at_ : (m.cpu h).pc = .releasing p) :
      Step m (m.go h .free p (m.slot p).release)
  | setpriority (h : Hart) (p : Fin n) (level : Priority)
      (current : m.cpu h = { proc := some p }) :
      Step m (m.go h .free p ((m.slot p).setProc ({ · with priority := level })))
  | clockintr :
      Step m { m with ticks := m.ticks + 1 }

/-- The states of every run from boot, whatever the harts do. -/
def Reachable (m : Machine Hart n) : Prop := ∃ p, Relation.ReflTransGen Step (Machine.boot p) m

end Steps

end Xv6.Sched

import Xv6.Sched.Counter

/-!
# Condition locks

A sleeper holds the lock of its condition from the test of the condition to the `release` in
`sleep`. A waker makes a condition true and calls `wakeup`, in either order, in one critical
section of that lock. A hart that executes `sched` holds no spinlock but that of its process.

A counter for each channel says how often its condition has been made true, and a sleeper
remembers the value at its test.
-/

namespace Xv6.Sched

open Function

variable {Hart L : Type} {n : Nat}

/-- A call of `wakeup`: its channel, the slot it is at, and whether it is in its visit. -/
structure Scan where
  chan : Nat
  next : Nat
  inside : Bool
  deriving DecidableEq, Repr

/-- How far a process is on its way to sleep, with the channel and the counter at its test. -/
inductive Phase where
  | awake
  /-- The condition was false, and the lock is still held. -/
  | tested (chan seen : Nat)
  /-- `sleep` has released the lock. -/
  | asleep (chan seen : Nat)
  deriving DecidableEq, Repr

structure World (Hart L : Type) (n : Nat) where
  machine : Machine Hart n
  holder : L → Option Hart
  scan : Hart → Option Scan
  phase : Fin n → Phase
  /-- How often the condition has been made true. -/
  changes : Nat → Nat
  /-- How often in critical sections that are over. -/
  settled : Nat → Nat
  /-- How many slots a `wakeup` of the present critical section has visited. -/
  progress : Nat → Nat

/-- The places where `sleep` and the visits of `wakeup` begin. -/
def Pc.Begins : Pc n → Prop
  | .sleepLocked _ _ | .sleepState _ | .wakeupLocked _ _ => True
  | _ => False

/-- The places before the state store of `mark_runnable` and the switch in `sched`. -/
def Pc.Ends : Pc n → Prop
  | .markState _ _ | .left _ => True
  | _ => False

/-- A step that begins no `sleep` and no visit, wakes no process up and leaves none. -/
structure Uncoupled (m m' : Machine Hart n) : Prop where
  begins : ∀ h, (m'.cpu h).pc.Begins → m'.cpu h = m.cpu h
  ends : ∀ h, (m.cpu h).pc.Ends → m'.cpu h = m.cpu h

/-- The tests of some conditions are forgotten. -/
def Phase.forget (drop : Nat → Bool) : Phase → Phase
  | .tested c seen => if drop c then .awake else .tested c seen
  | phase => phase

namespace World

variable [DecidableEq Hart] [DecidableEq L] (lk : Nat → L)

def forget (w : World Hart L n) (h : Hart) (drop : Nat → Bool) (p : Fin n) : Phase :=
  if (w.machine.cpu h).proc = some p then (w.phase p).forget drop else w.phase p

def unlock (w : World Hart L n) (l : L) : World Hart L n :=
  { w with
    holder := update w.holder l none
    settled := fun c => if lk c = l then w.changes c else w.settled c }

/-- `wakeup` goes on to the next slot. -/
def advance (w : World Hart L n) (h : Hart) (s : Scan) : World Hart L n :=
  { w with
    scan := update w.scan h (some { s with next := s.next + 1, inside := false })
    progress := update w.progress s.chan (max (w.progress s.chan) (s.next + 1)) }

/-- Every condition that was made true in the critical section has had its `wakeup`. -/
def Served (w : World Hart L n) (l : L) : Prop :=
  ∀ c, lk c = l → w.changes c = w.settled c ∨ w.progress c = n

inductive WorldStep (w : World Hart L n) : World Hart L n → Prop
  /-- Any other code; a hart in `wakeup` is between the two ends of a visit. -/
  | code {m' : Machine Hart n} (step : Step w.machine m') (uncoupled : Uncoupled w.machine m')
      (busy : ∀ h, w.scan h ≠ none → (w.machine.cpu h).pc = .free → m'.cpu h = w.machine.cpu h) :
      WorldStep w { w with machine := m' }
  | acquire (h : Hart) (l : L) (place : (w.machine.cpu h).pc = .free)
      (outside : w.scan h = none) (free : w.holder l = none) :
      WorldStep w
        { w with
          holder := update w.holder l (some h)
          progress := fun c => if lk c = l then 0 else w.progress c }
  | release (h : Hart) (l : L) (held : w.holder l = some h) (outside : w.scan h = none)
      (other : ∀ p c, (w.machine.cpu h).pc = .sleepLocked p c → lk c ≠ l)
      (served : w.Served lk l) :
      WorldStep w { w.unlock lk l with phase := w.forget h fun c => lk c = l }
  | test (h : Hart) (p : Fin n) (c : Nat) (current : w.machine.cpu h = { proc := some p })
      (held : w.holder (lk c) = some h) :
      WorldStep w { w with phase := update w.phase p (.tested c (w.changes c)) }
  | makeTrue (h : Hart) (c : Nat) (place : (w.machine.cpu h).pc = .free)
      (held : w.holder (lk c) = some h) :
      WorldStep w
        { w with
          changes := update w.changes c (w.changes c + 1)
          phase := w.forget h (· = c) }
  | sleepAcquire (h : Hart) (p : Fin n) (c seen : Nat)
      (current : w.machine.cpu h = { proc := some p }) (outside : w.scan h = none)
      (tested : w.phase p = .tested c seen) (unlocked : (w.machine.slot p).lock = none) :
      WorldStep w
        { w with
          machine := w.machine.go h (.sleepLocked p c) p ((w.machine.slot p).acquire h) }
  | sleepRelease (h : Hart) (p : Fin n) (c seen : Nat)
      (at_ : (w.machine.cpu h).pc = .sleepLocked p c) (tested : w.phase p = .tested c seen)
      (held : w.holder (lk c) = some h) (served : w.Served lk (lk c)) :
      WorldStep w { w.unlock lk (lk c) with phase := update w.phase p (.asleep c seen) }
  | sleepChan (h : Hart) (p : Fin n) (c seen : Nat)
      (at_ : (w.machine.cpu h).pc = .sleepLocked p c) (asleep : w.phase p = .asleep c seen) :
      WorldStep w
        { w with
          machine := w.machine.go h (.sleepState p) p
            ((w.machine.slot p).setProc ({ · with chan := c })) }
  | sched (h : Hart) (p : Fin n) (at_ : (w.machine.cpu h).pc = .left p)
      (only : ∀ l, w.holder l ≠ some h) :
      WorldStep w { w with machine := w.machine.put h {} p (w.machine.slot p).release }
  | markState (h : Hart) (p : Fin n) (caller : Caller)
      (at_ : (w.machine.cpu h).pc = .markState p caller) :
      WorldStep w
        { w with
          machine := w.machine.go h (caller.next p) p
            { (w.machine.slot p).setProc ({ · with state := .runnable }) with
              resume := if caller = .yield then .yield else (w.machine.slot p).resume }
          phase := update w.phase p .awake }
  | wakeup (h : Hart) (c : Nat) (place : (w.machine.cpu h).pc = .free)
      (outside : w.scan h = none) (held : w.holder (lk c) = some h) :
      WorldStep w
        { w with
          scan := update w.scan h (some { chan := c, next := 0, inside := false }) }
  | visit (h : Hart) (s : Scan) (q : Fin n) (scan : w.scan h = some s)
      (before : s.inside = false) (next : q.val = s.next)
      (place : (w.machine.cpu h).pc = .free) (other : (w.machine.cpu h).proc ≠ some q)
      (unlocked : (w.machine.slot q).lock = none) :
      WorldStep w
        { w with
          machine := w.machine.go h (.wakeupLocked q s.chan) q ((w.machine.slot q).acquire h)
          scan := update w.scan h (some { s with inside := true }) }
  | visited (h : Hart) (s : Scan) (scan : w.scan h = some s) (inside : s.inside = true)
      (place : (w.machine.cpu h).pc = .free) :
      WorldStep w (w.advance h s)
  /-- `wakeup` leaves out `myproc()`. -/
  | skip (h : Hart) (s : Scan) (q : Fin n) (scan : w.scan h = some s)
      (before : s.inside = false) (next : q.val = s.next)
      (self : (w.machine.cpu h).proc = some q) :
      WorldStep w (w.advance h s)
  | finish (h : Hart) (s : Scan) (scan : w.scan h = some s) (before : s.inside = false)
      (last : s.next = n) :
      WorldStep w { w with scan := update w.scan h none }

def boot (p : Fin n) : World Hart L n where
  machine := Machine.boot p
  holder := fun _ => none
  scan := fun _ => none
  phase := fun _ => .awake
  changes := fun _ => 0
  settled := fun _ => 0
  progress := fun _ => 0

def Reachable (w : World Hart L n) : Prop := ∃ p, Relation.ReflTransGen (WorldStep lk) (boot p) w

theorem WorldStep.base {lk : Nat → L} {w w' : World Hart L n} (step : WorldStep lk w w') :
    w'.machine = w.machine ∨ Step w.machine w'.machine := by
  cases step
  case code step _ _ => exact .inr step
  case sleepAcquire h p c seen current _ _ unlocked =>
    exact .inr (.sleepAcquire h p c current unlocked)
  case sleepChan h p c seen at_ _ => exact .inr (.sleepChan h p c at_)
  case sched h p at_ _ => exact .inr (.leave h p at_)
  case markState h p caller at_ => exact .inr (.markState h p caller at_)
  case visit h s q _ _ _ place other unlocked =>
    exact .inr (.wakeupAcquire h q s.chan place other unlocked)
  all_goals exact .inl rfl

theorem Reachable.machine {lk : Nat → L} {w : World Hart L n} (reach : w.Reachable lk) :
    Sched.Reachable w.machine := by
  obtain ⟨p, run⟩ := reach
  refine ⟨p, run.lift' World.machine fun _ _ step => ?_⟩
  rcases step.base with same | next
  · rw [onFun, same]
  · exact .single next

end World

end Xv6.Sched

import Xv6.Sched.CounterAgreement
import Xv6.Sched.Effects
import Xv6.Sched.OneCpu

/-!
# One hart under a policy

The loop of `dispatch` on a machine with a single hart, and the two trap handlers in which a
timer interrupt ends. From the call of the policy to the `acquire` of the slot, or to `wfi`,
nothing else can happen on the hart. `usertrap` asks the policy whether a process gives up the
hart at a timer interrupt, and `kerneltrap` does not.
-/

namespace Xv6.Sched

/-- `concept SchedulerPolicy` of `kernel/sched_policy.hpp`. -/
structure SchedulerPolicy where
  Object : Type
  initial : Object
  pickNext : Object → (Nat → Proc) → Nat → Int → Option Nat × Object
  shouldPreempt : Proc → Bool

def priorityPreempt (useCounter : Bool) : SchedulerPolicy where
  Object := PriorityPreempt
  initial := {}
  pickNext := PriorityPreempt.pickNext useCounter
  shouldPreempt := PriorityPreempt.shouldPreempt

def prioritySelectOnly (useCounter : Bool) : SchedulerPolicy where
  Object := PrioritySelectOnly
  initial := {}
  pickNext := PrioritySelectOnly.pickNext useCounter
  shouldPreempt := PrioritySelectOnly.shouldPreempt

variable {n : Nat}

/-- Where the loop of `dispatch` is; `on` is also everything outside of it. -/
inductive Loop (n : Nat) where
  | on
  | off
  | picked (next : Fin n)
  | idle
  deriving DecidableEq, Repr

/-- What a process executes, or will execute when it has its hart again. -/
inductive Mode where
  | user
  | kernel
  | userTick
  | userYield
  | kernelTick
  | kernelYield
  deriving DecidableEq, Repr

structure OneHart (P : SchedulerPolicy) (n : Nat) where
  machine : Machine Unit n
  loop : Loop n
  policy : P.Object
  mode : Fin n → Mode

/-- The code of `dispatch` and `yield` begins at these places. -/
def Pc.Entry : Pc n → Prop
  | .dispatchLocked _ => True
  | .markSeq _ .yield => True
  | _ => False

/-! ## The hart -/

@[simp]
theorem Machine.go_cpu (m : Machine Unit n) (h : Unit) (pc : Pc n) (q : Fin n)
    (slot : Slot Unit n) : (m.go h pc q slot).cpu () = { m.cpu () with pc := pc } := by
  cases h
  exact Function.update_self () _ m.cpu

@[simp]
theorem Machine.put_cpu (m : Machine Unit n) (h : Unit) (cpu : Cpu n) (q : Fin n)
    (slot : Slot Unit n) : (m.put h cpu q slot).cpu () = cpu := by
  cases h
  exact Function.update_self () _ m.cpu

theorem Machine.go_acquire_proc (m : Machine Unit n) (pc : Pc n) (p q : Fin n) :
    ((m.go () pc p ((m.slot p).acquire ())).slot q).proc = (m.slot q).proc := by
  simp only [Machine.go, Machine.put, Function.update_apply]
  split
  · rename_i same
    rw [same]
    rfl
  · rfl

namespace OneHart

variable {P : SchedulerPolicy}

def cpu (u : OneHart P n) : Cpu n := u.machine.cpu ()

def proc (u : OneHart P n) (q : Fin n) : Proc := (u.machine.slot q).proc

def setMode (u : OneHart P n) (p : Fin n) (mode : Mode) : OneHart P n :=
  { u with mode := Function.update u.mode p mode }

@[simp]
theorem setMode_self (u : OneHart P n) (p : Fin n) (mode : Mode) :
    (u.setMode p mode).mode p = mode := by
  simp only [setMode, Function.update_self]

theorem setMode_of_ne (u : OneHart P n) {p q : Fin n} (apart : q ≠ p) (mode : Mode) :
    (u.setMode p mode).mode q = u.mode q := by
  simp only [setMode, Function.update_of_ne apart]

def yieldAcquire (m : Machine Unit n) (p : Fin n) : Machine Unit n :=
  m.go () (.markSeq p .yield) p ((m.slot p).acquire ())

/-- A new process starts in `forkret`, which is kernel code. -/
def boot (P : SchedulerPolicy) (p : Fin n) : OneHart P n where
  machine := Machine.boot p
  loop := .on
  policy := P.initial
  mode := fun _ => .kernel

inductive HartStep (u : OneHart P n) : OneHart P n → Prop
  /-- Kernel code of a process, an interrupt handler, or the rest of a locked section. -/
  | code {m' : Machine Unit n} (step : Step u.machine m') (on : u.loop = .on)
      (kernel : ∀ p, u.cpu = { proc := some p } → u.mode p = .kernel)
      (inside : ¬(m'.cpu ()).pc.Entry) :
      HartStep u { u with machine := m' }
  /-- A system call, a fault or a device interrupt. -/
  | enter (p : Fin n) (current : u.cpu = { proc := some p }) (mode : u.mode p = .user) :
      HartStep u (u.setMode p .kernel)
  | prepareReturn (p : Fin n) (current : u.cpu = { proc := some p })
      (mode : u.mode p = .kernel ∨ u.mode p = .userYield) :
      HartStep u (u.setMode p .user)
  /-- A timer interrupt in user mode: `usertrap` with `which_dev == 2`. -/
  | usertrap (p : Fin n) (current : u.cpu = { proc := some p }) (mode : u.mode p = .user) :
      HartStep u (u.setMode p .userTick)
  /-- A timer interrupt in the kernel: `kerneltrap` with `which_dev == 2`. -/
  | kerneltrap (p : Fin n) (current : u.cpu = { proc := some p }) (mode : u.mode p = .kernel) :
      HartStep u (u.setMode p .kernelTick)
  | clockintr (p : Fin n) (current : u.cpu = { proc := some p })
      (mode : u.mode p = .userTick ∨ u.mode p = .kernelTick) :
      HartStep u { u with machine := { u.machine with ticks := u.machine.ticks + 1 } }
  | clockintrWakeup (p q : Fin n) (chan : Nat) (current : u.cpu = { proc := some p })
      (mode : u.mode p = .userTick ∨ u.mode p = .kernelTick) (other : p ≠ q)
      (unlocked : (u.machine.slot q).lock = none) :
      HartStep u
        { u with
          machine := u.machine.go () (.wakeupLocked q chan) q ((u.machine.slot q).acquire ()) }
  | usertrapKilled (p : Fin n) (current : u.cpu = { proc := some p })
      (mode : u.mode p = .userTick) (killed : (u.proc p).killed = true) :
      HartStep u (u.setMode p .kernel)
  | usertrapKeep (p : Fin n) (current : u.cpu = { proc := some p })
      (mode : u.mode p = .userTick) (alive : (u.proc p).killed = false)
      (keep : P.shouldPreempt (u.proc p) = false) :
      HartStep u (u.setMode p .user)
  | usertrapYield (p : Fin n) (current : u.cpu = { proc := some p })
      (mode : u.mode p = .userTick) (alive : (u.proc p).killed = false)
      (preempt : P.shouldPreempt (u.proc p) = true)
      (unlocked : (u.machine.slot p).lock = none) :
      HartStep u { u.setMode p .userYield with machine := yieldAcquire u.machine p }
  | kerneltrapYield (p : Fin n) (current : u.cpu = { proc := some p })
      (mode : u.mode p = .kernelTick) (unlocked : (u.machine.slot p).lock = none) :
      HartStep u { u.setMode p .kernelYield with machine := yieldAcquire u.machine p }
  | kerneltrapReturn (p : Fin n) (current : u.cpu = { proc := some p })
      (mode : u.mode p = .kernelYield) :
      HartStep u (u.setMode p .kernel)
  | intrOff (scheduler : u.cpu = {}) (on : u.loop = .on) :
      HartStep u { u with loop := .off }
  | pickNext (next : Fin n) (policy : P.Object) (off : u.loop = .off)
      (picked : P.pickNext u.policy u.machine.call.procs n u.machine.gLsRunnableCount =
        (some next.val, policy)) :
      HartStep u { u with loop := .picked next, policy := policy }
  | pickNextNull (policy : P.Object) (off : u.loop = .off)
      (picked : P.pickNext u.policy u.machine.call.procs n u.machine.gLsRunnableCount =
        (none, policy)) :
      HartStep u { u with loop := .idle, policy := policy }
  | acquire (next : Fin n) (picked : u.loop = .picked next) (scheduler : u.cpu = {})
      (unlocked : (u.machine.slot next).lock = none) :
      HartStep u
        { u with
          machine := u.machine.go () (.dispatchLocked next) next ((u.machine.slot next).acquire ())
          loop := .on }
  | wfi (idle : u.loop = .idle) :
      HartStep u { u with loop := .on }

def Reachable (u : OneHart P n) : Prop := ∃ p, Relation.ReflTransGen HartStep (boot P p) u

variable {u : OneHart P n}

theorem HartStep.locked {m' : Machine Unit n} (step : Step u.machine m')
    (on : u.loop = .on := by rfl) (busy : u.cpu.pc ≠ .free := by nofun)
    (inside : ¬(m'.cpu ()).pc.Entry := by nofun) : HartStep u { u with machine := m' } :=
  .code step on (fun _ current => absurd (congrArg Cpu.pc current) busy) inside

theorem HartStep.base {u' : OneHart P n} (step : HartStep u u') :
    u'.machine = u.machine ∨ Step u.machine u'.machine := by
  cases step
  case code step _ _ _ => exact .inr step
  case clockintr => exact .inr .clockintr
  case clockintrWakeup p q chan current _ other unlocked =>
    have place : u.machine.cpu () = { proc := some p } := current
    refine .inr (.wakeupAcquire () q chan (by rw [place]) ?_ unlocked)
    rw [place]
    exact fun same => other (Option.some.inj same)
  case usertrapYield p current _ _ _ unlocked | kerneltrapYield p current _ unlocked =>
    exact .inr (.yieldAcquire () p current unlocked)
  case acquire next _ scheduler unlocked =>
    exact .inr (.dispatchAcquire () next scheduler unlocked)
  all_goals exact .inl rfl

theorem Reachable.machine (reach : u.Reachable) : Sched.Reachable u.machine := by
  obtain ⟨p, run⟩ := reach
  refine ⟨p, run.lift' OneHart.machine fun _ _ step => ?_⟩
  rcases step.base with same | next
  · rw [Function.onFun, same]
  · exact .single next

end OneHart

end Xv6.Sched

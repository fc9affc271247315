import Xv6.ProcTable.Threads

/-!
# What one step of a thread can do

A quiet step moves a process between SLEEPING, RUNNABLE and RUNNING or sets `killed`. The other
steps are those of `kfork`, `kexit` and `kwait`, each with the machine it leads to.
-/

namespace Xv6.ProcTable

open Sched (ProcState)
open Function

variable {Mem : Type} {p : Proc Mem} {shown : Output Mem} {frame : Option Trapframe}
    {table copied : Option Mem}
variable {guard : Prop} {parent : Proc Mem} {e : Event Mem}

/-- Whether a slot holds a process that can still run. -/
def Alive : ProcState → Prop
  | .sleeping | .runnable | .running => True
  | .unused | .used | .zombie => False

instance : DecidablePred Alive := fun state => by
  cases state <;> unfold Alive <;> infer_instance

/-! ## Quiet steps -/

/-- The steps that change no family. -/
def Event.IsQuiet : Event Mem → Prop
  | .sleep .. | .setkilled _ | .setpriority .. | .store .. | .load _ | .yield _
  | .countRunTick _ | .wakeup .. | .kkill .. | .pickNext | .dispatch _ | .schedStats ..
  | .clockintr => True
  | .kfork .. | .kforkParent .. | .kforkRunnable .. | .kexitClose .. | .kexitReparent ..
  | .kexitZombie .. | .kwait .. => False

/-- What a quiet step does to the state, the channel and the kill flag of slot `i`. -/
inductive Moved (e : Event Mem) (i : Slot) (p q : Proc Mem) : Prop
  | same (state : q.state = p.state) (chan : q.chan = p.chan) (killed : q.killed = p.killed)
  | woken (before : p.state = .sleeping) (after : q.state = .runnable)
      (killed : q.killed = p.killed)
  | killed (event : e = .kkill i p.pid) (stays : p.state ≠ .sleeping)
      (state : q.state = p.state)
  | killedAsleep (event : e = .kkill i p.pid) (before : p.state = .sleeping)
      (after : q.state = .runnable)
  | selfKilled (event : e = .setkilled i) (before : p.state = .running)
      (state : q.state = p.state)
  | dispatched (before : p.state = .runnable) (after : q.state = .running)
      (killed : q.killed = p.killed)
  | slept (chan : Nat) (event : e = .sleep i chan) (before : p.state = .running)
      (after : q.state = .sleeping) (here : q.chan = chan) (killed : q.killed = p.killed)
  | yielded (event : e = .yield i) (before : p.state = .running)
      (after : q.state = .runnable) (killed : q.killed = p.killed)

/-- What identifies a process to its relatives. -/
structure SameFamily (p q : Proc Mem) : Prop where
  pid : q.pid = p.pid
  parent : q.parent = p.parent
  xstate : q.xstate = p.xstate

theorem SameFamily.refl (p : Proc Mem) : SameFamily p p := ⟨rfl, rfl, rfl⟩

theorem Moved.refl (e : Event Mem) (i : Slot) (p : Proc Mem) : Moved e i p p := .same rfl rfl rfl

structure Kernel.Quiet (e : Event Mem) (k k' : Kernel Mem) : Prop where
  family : ∀ i, SameFamily (k.proc i) (k'.proc i)
  moved : ∀ i, Moved e i (k.proc i) (k'.proc i)
  position : k'.position = k.position
  initproc : k'.initproc = k.initproc
  nextPid : k'.nextPid = k.nextPid

namespace Kernel

variable {k k' : Kernel Mem}

theorem Quiet.refl (e : Event Mem) (k : Kernel Mem) : Quiet e k k :=
  ⟨fun _ => .refl _, fun _ => .refl _ _ _, rfl, rfl, rfl⟩

theorem Quiet.of_set {i : Slot} (proc : k'.proc = update k.proc i p)
    (position : k'.position = k.position) (initproc : k'.initproc = k.initproc)
    (nextPid : k'.nextPid = k.nextPid) (family : SameFamily (k.proc i) p)
    (moved : Moved e i (k.proc i) p) : Quiet e k k' := by
  refine ⟨fun j => ?_, fun j => ?_, position, initproc, nextPid⟩
  · by_cases same : j = i
    · subst same
      rwa [proc, update_self]
    · rw [proc, update_of_ne same]
      exact .refl _
  · by_cases same : j = i
    · subst same
      rwa [proc, update_self]
    · rw [proc, update_of_ne same]
      exact .refl _ _ _

theorem quiet_set {i : Slot} (family : SameFamily (k.proc i) p)
    (moved : Moved e i (k.proc i) p) : Quiet e k (k.set i p) :=
  .of_set rfl rfl rfl rfl family moved

theorem quiet_wakeup (i : Slot) (chan : Nat) : Quiet e k (k.wakeup i chan) := by
  unfold wakeup
  split
  · next asleep => exact .of_set rfl rfl rfl rfl ⟨rfl, rfl, rfl⟩ (.woken asleep.1 rfl rfl)
  · exact .refl e k

theorem quiet_kkill (i : Slot) (pid : Int) : Quiet (.kkill i pid) k (k.kkill i pid).2 := by
  unfold kkill
  split
  · next found =>
    split
    · next asleep =>
      exact .of_set (update_idem ..) rfl rfl rfl ⟨by simp [set, Proc.markRunnable],
        by simp [set, Proc.markRunnable], by simp [set, Proc.markRunnable]⟩
        (.killedAsleep (by rw [found]) asleep rfl)
    · next awake =>
      exact quiet_set ⟨rfl, rfl, rfl⟩ (.killed (by rw [found]) awake rfl)
  · exact .refl _ k

theorem quiet_dispatch (i : Slot) : Quiet e k (k.dispatch i) := by
  unfold dispatch
  split
  · next waiting =>
    refine .of_set rfl rfl rfl rfl ?_ (.dispatched waiting (Proc.dispatch_state _ _) ?_)
    · unfold Proc.dispatch
      split <;> exact ⟨rfl, rfl, rfl⟩
    · unfold Proc.dispatch
      split <;> rfl
  · exact .refl e k

theorem quiet_setpriority (p : Slot) (level : Int) : Quiet e k (k.setpriority p level).2 := by
  unfold setpriority
  split
  · exact quiet_set ⟨rfl, rfl, rfl⟩ (.same rfl rfl rfl)
  · split
    · exact quiet_set ⟨rfl, rfl, rfl⟩ (.same rfl rfl rfl)
    · exact .refl e k

theorem quiet_store (p : Slot) (write : Proc.Store Mem) :
    Quiet e k (k.set p ((k.proc p).store write)) := by
  apply quiet_set
  · cases write <;> exact ⟨rfl, rfl, rfl⟩
  · cases write <;> exact .same rfl rfl rfl

theorem guarded [Decidable guard] {result : Output Mem × Kernel Mem}
    (step : (if guard then some result else none) = some (shown, k')) :
    guard ∧ result = (shown, k') := by
  rwa [Option.ite_none_right_eq_some, Option.some.injEq] at step

theorem quiet_step (quiet : e.IsQuiet) (step : k.step e = some (shown, k')) : Quiet e k k' := by
  cases e with
  | kfork | kforkParent | kforkRunnable | kexitClose | kexitReparent | kexitZombie | kwait =>
    exact quiet.elim
  | sleep p chan =>
    obtain ⟨running, result⟩ := guarded step
    obtain ⟨-, rfl⟩ := Prod.mk.inj result
    exact quiet_set ⟨rfl, rfl, rfl⟩ (.slept chan rfl running rfl rfl rfl)
  | wakeup i chan =>
    cases step
    exact quiet_wakeup i chan
  | kkill i pid =>
    obtain rfl := congrArg Prod.snd (Option.some.inj step)
    exact quiet_kkill i pid
  | setkilled p =>
    obtain ⟨guard, result⟩ := guarded step
    obtain ⟨-, rfl⟩ := Prod.mk.inj result
    exact quiet_set ⟨rfl, rfl, rfl⟩ (.selfKilled rfl guard.1 rfl)
  | yield p =>
    obtain ⟨running, result⟩ := guarded step
    obtain ⟨-, rfl⟩ := Prod.mk.inj result
    exact .of_set (update_idem ..) rfl rfl rfl
      ⟨by simp [set, Proc.markRunnable], by simp [set, Proc.markRunnable],
        by simp [set, Proc.markRunnable]⟩
      (.yielded rfl running rfl (by simp [set, Proc.markRunnable]))
  | pickNext | schedStats i pid =>
    cases step
    exact .refl _ k
  | dispatch i =>
    cases step
    exact quiet_dispatch i
  | setpriority p level =>
    obtain ⟨-, result⟩ := guarded step
    obtain rfl := congrArg Prod.snd result
    exact quiet_setpriority p level
  | clockintr =>
    cases step
    exact ⟨fun _ => .refl _, fun _ => .refl _ _ _, rfl, rfl, rfl⟩
  | countRunTick p =>
    obtain ⟨-, result⟩ := guarded step
    obtain ⟨-, rfl⟩ := Prod.mk.inj result
    exact quiet_set ⟨rfl, rfl, rfl⟩ (.same rfl rfl rfl)
  | store p write =>
    obtain ⟨-, result⟩ := guarded step
    obtain ⟨-, rfl⟩ := Prod.mk.inj result
    exact quiet_store p write
  | load p =>
    obtain ⟨-, result⟩ := guarded step
    obtain ⟨-, rfl⟩ := Prod.mk.inj result
    exact .refl _ k

structure Writes (k k' : Kernel Mem) (i : Slot) (q : Proc Mem) (position : Position)
    (nextPid : Int) : Prop where
  proc : k'.proc = update k.proc i q
  position : k'.position = update k.position i position
  initproc : k'.initproc = k.initproc
  nextPid : k'.nextPid = nextPid

end Kernel

namespace Proc

theorem fork_of_failed {pid : Int} (failed : (p.fork parent pid frame table copied).1 = false) :
    (p.fork parent pid frame table copied).2.state = .unused ∧
      (p.fork parent pid frame table copied).2.parent = none := by
  rcases frame with _ | frame
  · exact ⟨rfl, rfl⟩
  · rcases table with _ | table
    · exact ⟨rfl, rfl⟩
    · rcases copied with _ | copied
      · exact ⟨rfl, rfl⟩
      · cases failed

theorem fork_of_made {pid : Int} (made : (p.fork parent pid frame table copied).1 = true) :
    (p.fork parent pid frame table copied).2.pid = pid ∧
      (p.fork parent pid frame table copied).2.parent = p.parent := by
  rcases frame with _ | frame
  · cases made
  · rcases table with _ | table
    · cases made
    · rcases copied with _ | copied
      · cases made
      · exact ⟨rfl, rfl⟩

end Proc

namespace Machine

variable {m m' : Machine Mem}

/-! ## All steps -/

/-- The steps of the machine, with what they found and what they lead to. -/
inductive Turn (m : Machine Mem) : Action Mem → Machine Mem → Prop
  | elsewhere {e : Event Mem} {k' : Kernel Mem} (allowed : m.Elsewhere e)
      (quiet : Kernel.Quiet e m.kernel k') : Turn m (.elsewhere e) { m with kernel := k' }
  | forkFailed {p child : Slot} {frame : Option Trapframe} {table copied : Option Mem}
      {q : Proc Mem} {k' : Kernel Mem} (unused : (m.kernel.proc child).state = .unused)
      (place : m.pc p = .outside)
      (state : q.state = .unused) (parent : q.parent = none)
      (writes : Kernel.Writes m.kernel k' child q (m.kernel.position child)
        (m.kernel.nextPid + 1)) :
      Turn m (.kfork p child frame table copied) { m with kernel := k' }
  | forked {p child : Slot} {frame : Option Trapframe} {table copied : Option Mem}
      {q : Proc Mem} {k' : Kernel Mem} (unused : (m.kernel.proc child).state = .unused)
      (place : m.pc p = .outside) (running : m.kernel.Running p)
      (state : q.state = .used) (pid : q.pid = m.kernel.nextPid)
      (parent : q.parent = (m.kernel.proc child).parent)
      (writes : Kernel.Writes m.kernel k' child q (.newborn p) (m.kernel.nextPid + 1)) :
      Turn m (.kfork p child frame table copied)
        { Machine.goTo { m with kernel := k' } p (.forked child) with
          forker := update m.forker child (m.kernel.proc p).pid }
  | kforkParent {p child : Slot} {k' : Kernel Mem} (place : m.pc p = .forked child)
      (free : m.holder .waitLock = none) (running : (m.kernel.proc p).state = .running)
      (newborn : m.kernel.position child = .newborn p)
      (writes : Kernel.Writes m.kernel k' child { m.kernel.proc child with parent := some p }
        .parented m.kernel.nextPid) :
      Turn m (.kforkParent p) (Machine.goTo { m with kernel := k' } p (.parented child))
  | kforkRunnable {p child : Slot} {q : Proc Mem} {k' : Kernel Mem}
      (place : m.pc p = .parented child) (running : (m.kernel.proc p).state = .running)
      (unborn : m.kernel.position child = .parented)
      (parent : (m.kernel.proc child).parent = some p)
      (state : q.state = .runnable) (family : SameFamily (m.kernel.proc child) q)
      (writes : Kernel.Writes m.kernel k' child q .normal m.kernel.nextPid) :
      Turn m (.kforkRunnable p) (Machine.goTo { m with kernel := k' } p .outside)
  | kexitClose {p : Slot} {q : Proc Mem} {k' : Kernel Mem} (place : m.pc p = .outside)
      (running : m.kernel.Running p) (other : p ≠ m.kernel.initproc)
      (state : q.state = (m.kernel.proc p).state)
      (family : SameFamily (m.kernel.proc p) q)
      (writes : Kernel.Writes m.kernel k' p q .closed m.kernel.nextPid) :
      Turn m (.kexitClose p) (Machine.goTo { m with kernel := k' } p .closed)
  | kexitReparent {p : Slot} (place : m.pc p = .closed) (free : m.holder .waitLock = none)
      (running : (m.kernel.proc p).state = .running) :
      Turn m (.kexitReparent p)
        ((Machine.goTo { m with kernel := (m.kernel.reparent p).moveTo p .reparented } p
          (.waking (exitVisits m.kernel p))).acquire p .waitLock)
  | kexitWakeup {p i : Slot} {chan : Nat} {visits : List (Slot × Nat)}
      (place : m.pc p = .waking ((i, chan) :: visits)) :
      Turn m (.kexitWakeup p)
        (Machine.goTo { m with kernel := m.kernel.wakeup i chan } p (.waking visits))
  | kexitZombie {p : Slot} {status : BitVec 32} {k' : Kernel Mem}
      (place : m.pc p = .waking [])
      (writes : Kernel.Writes m.kernel k' p
        { m.kernel.proc p with xstate := status, state := .zombie } .normal m.kernel.nextPid) :
      Turn m (.kexitZombie p status)
        { (Machine.goTo { m with kernel := k' } p .outside).release .waitLock with
          exits := m.exits ++ [⟨(m.kernel.proc p).pid, status⟩] }
  | enter {p : Slot} {loop : Loop} (place : m.pc p = .outside)
      (running : m.kernel.Running p) (free : m.holder loop.lock = none) :
      Turn m (.enter p loop) ((m.goTo p (Pc.start loop)).acquire p loop.lock)
  | reaped {p i : Slot} {copied havekids : Bool} (place : m.pc p = .scan i havekids)
      (child : (m.kernel.proc i).parent = some p) (zombie : (m.kernel.proc i).state = .zombie) :
      Turn m (.kwaitVisit p copied)
        { (Machine.goTo { m with kernel := m.kernel.set i (m.kernel.proc i).freeproc } p
            .outside).release .waitLock with
          reaps := m.reaps ++ [⟨(m.kernel.proc p).pid, m.forker i,
            ⟨(m.kernel.proc i).pid, (m.kernel.proc i).xstate⟩⟩] }
  | copyFailed {p i : Slot} {copied havekids : Bool} (place : m.pc p = .scan i havekids) :
      Turn m (.kwaitVisit p copied) ((m.goTo p .outside).release .waitLock)
  | visitChild {p i : Slot} {copied havekids : Bool} (place : m.pc p = .scan i havekids)
      (child : (m.kernel.proc i).parent = some p) (goesOn : (m.kernel.proc i).state ≠ .zombie) :
      Turn m (.kwaitVisit p copied) (m.goTo p (.scan (i + 1) true))
  | visitOther {p i : Slot} {copied havekids : Bool} (place : m.pc p = .scan i havekids)
      (other : (m.kernel.proc i).parent ≠ some p) :
      Turn m (.kwaitVisit p copied) (m.goTo p (.scan (i + 1) havekids))
  | kwaitLeave {p : Slot} {next : Nat} {havekids : Bool} (place : m.pc p = .scan next havekids)
      (all : NPROC ≤ next) (leave : havekids = false ∨ (m.kernel.proc p).killed = true) :
      Turn m (.kwaitKilled p) ((m.goTo p .outside).release .waitLock)
  | kwaitPassed {p : Slot} {next : Nat} (place : m.pc p = .scan next true)
      (all : NPROC ≤ next) (spared : (m.kernel.proc p).killed = false) :
      Turn m (.kwaitKilled p) (m.goTo p (.passed .kwait))
  | loopLeave {p : Slot} {loop : Loop} {wait : Bool} (place : m.pc p = .test loop) :
      Turn m (.loopKilled p wait) ((m.goTo p .outside).release loop.lock)
  | loopPassed {p : Slot} {loop : Loop} {wait : Bool} (place : m.pc p = .test loop)
      (spared : (m.kernel.proc p).killed = false) :
      Turn m (.loopKilled p wait) (m.goTo p (.passed loop))
  | again {p : Slot} {pi : Nat} (place : m.pc p = .passed (.pipewrite pi)) :
      Turn m (.again p) (m.goTo p (.test (.pipewrite pi)))
  | sleep {p : Slot} {loop : Loop} {k' : Kernel Mem} (place : m.pc p = .passed loop)
      (quiet : Kernel.Quiet (.sleep p (loop.chan p).address) m.kernel k') :
      Turn m (.sleep p) ((Machine.goTo { m with kernel := k' } p (.asleep loop)).release loop.lock)
  | reacquire {p : Slot} {loop : Loop} (place : m.pc p = .asleep loop)
      (running : (m.kernel.proc p).state = .running) (free : m.holder loop.lock = none) :
      Turn m (.reacquire p) ((m.goTo p (Pc.start loop)).acquire p loop.lock)

theorem perform_eq_some (performed : m.perform e = some (shown, m')) :
    ∃ k', m.kernel.step e = some (shown, k') ∧ m' = { m with kernel := k' } := by
  obtain ⟨⟨shown', k'⟩, stepped, result⟩ := Option.map_eq_some_iff.mp performed
  obtain ⟨rfl, rfl⟩ := Prod.mk.inj result
  exact ⟨k', stepped, rfl⟩

theorem isQuiet_of_elsewhere (allowed : m.Elsewhere e) : e.IsQuiet := by
  cases e <;> first | exact trivial | exact allowed

private theorem guarded {α : Type} [Decidable guard] {result : Option α} {a : α}
    (step : (if guard then result else none) = some a) : guard ∧ result = some a :=
  Option.ite_none_right_eq_some.mp step

private theorem performed {next : Output Mem × Machine Mem → Machine Mem}
    (step : (m.perform e).map next = some m') : ∃ shown k', m.kernel.step e = some (shown, k') ∧
      m' = next (shown, { m with kernel := k' }) := by
  obtain ⟨⟨shown, n⟩, performs, result⟩ := Option.map_eq_some_iff.mp step
  obtain ⟨k', stepped, rfl⟩ := perform_eq_some performs
  exact ⟨shown, k', stepped, result.symm⟩

theorem turn_kfork {p child : Slot}
    (placed : m.kernel.Placed) (step : m.step (.kfork p child frame table copied) = some m') :
    Turn m (.kfork p child frame table copied) m' := by
  obtain ⟨place, step⟩ := guarded step
  obtain ⟨shown, k', stepped, rfl⟩ := performed step
  obtain ⟨⟨running, unused⟩, result⟩ := Kernel.guarded stepped
  have before : m.kernel.position child = .normal := placed child (Or.inl unused)
  rcases outcome : (m.kernel.proc child).fork (m.kernel.proc p) m.kernel.nextPid frame table
    copied with ⟨made, q⟩
  simp only [Kernel.kfork, outcome] at result
  cases made with
  | false =>
    obtain ⟨-, rfl⟩ := Prod.mk.inj result
    obtain ⟨state, parent⟩ := Proc.fork_of_failed (congrArg Prod.fst outcome)
    rw [outcome] at state parent
    have stays : ¬m.kernel.position child = .newborn p := by
      rw [before]
      exact Position.noConfusion
    dsimp only [Kernel.set]
    rw [if_neg stays]
    exact .forkFailed unused place state parent ⟨rfl, (update_eq_self _ _).symm, rfl, rfl⟩
  | true =>
    obtain ⟨-, rfl⟩ := Prod.mk.inj result
    have state := Proc.fork_state_of_made (congrArg Prod.fst outcome)
    obtain ⟨pid, parent⟩ := Proc.fork_of_made (congrArg Prod.fst outcome)
    rw [outcome] at state pid parent
    have born : update m.kernel.position child (.newborn p) child = .newborn p := update_self ..
    dsimp only [Kernel.set, Kernel.moveTo]
    rw [if_pos born]
    exact .forked unused place running state pid parent ⟨rfl, rfl, rfl, rfl⟩

theorem turn_kwaitVisit {p : Slot} {copied : Bool}
    (step : m.step (.kwaitVisit p copied) = some m') : Turn m (.kwaitVisit p copied) m' := by
  simp only [Machine.step] at step
  split at step
  · next next havekids place =>
    split at step
    · next inside =>
      obtain ⟨shown, k', stepped, rfl⟩ := performed step
      obtain ⟨-, result⟩ := Kernel.guarded stepped
      unfold Kernel.kwait at result
      split at result
      · next child =>
        split at result
        · next zombie =>
          split at result
          · cases result
            exact .reaped (i := ⟨next, inside⟩) place child zombie
          · cases result
            exact .copyFailed (i := ⟨next, inside⟩) place
        · next goesOn =>
          cases result
          exact .visitChild (i := ⟨next, inside⟩) place child goesOn
      · next other =>
        cases result
        exact .visitOther (i := ⟨next, inside⟩) place other
    · cases step
  · cases step

theorem turn_of_step {action : Action Mem} (placed : m.kernel.Placed)
    (step : m.step action = some m') : Turn m action m' := by
  cases action with
  | elsewhere e =>
    obtain ⟨allowed, step⟩ := guarded step
    obtain ⟨shown, k', stepped, rfl⟩ := performed step
    exact .elsewhere allowed (Kernel.quiet_step (isQuiet_of_elsewhere allowed) stepped)
  | kfork p child frame table copied => exact turn_kfork placed step
  | kforkParent p =>
    simp only [Machine.step] at step
    split at step
    · next child place =>
      obtain ⟨free, step⟩ := guarded step
      obtain ⟨shown, k', stepped, rfl⟩ := performed step
      obtain ⟨⟨running, newborn⟩, result⟩ := Kernel.guarded stepped
      obtain ⟨-, rfl⟩ := Prod.mk.inj result
      exact .kforkParent place free running newborn ⟨rfl, rfl, rfl, rfl⟩
    · cases step
  | kforkRunnable p =>
    simp only [Machine.step] at step
    split at step
    · next child place =>
      obtain ⟨shown, k', stepped, rfl⟩ := performed step
      obtain ⟨⟨running, unborn, parent⟩, result⟩ := Kernel.guarded stepped
      obtain ⟨-, rfl⟩ := Prod.mk.inj result
      exact .kforkRunnable (q := (m.kernel.proc child).markRunnable m.kernel.nextSeq m.kernel.ticks)
        place running unborn parent rfl ⟨rfl, rfl, rfl⟩ ⟨rfl, rfl, rfl, rfl⟩
    · cases step
  | kexitClose p =>
    obtain ⟨place, step⟩ := guarded step
    obtain ⟨shown, k', stepped, rfl⟩ := performed step
    obtain ⟨⟨running, other⟩, result⟩ := Kernel.guarded stepped
    obtain ⟨-, rfl⟩ := Prod.mk.inj result
    exact .kexitClose (q := (m.kernel.proc p).close) place running other rfl
      ⟨rfl, rfl, rfl⟩ ⟨rfl, rfl, rfl, rfl⟩
  | kexitReparent p =>
    obtain ⟨⟨place, free⟩, step⟩ := guarded step
    obtain ⟨shown, k', stepped, rfl⟩ := performed step
    obtain ⟨⟨running, -⟩, result⟩ := Kernel.guarded stepped
    obtain ⟨-, rfl⟩ := Prod.mk.inj result
    exact .kexitReparent place free running
  | kexitWakeup p =>
    simp only [Machine.step] at step
    split at step
    · next i chan visits place =>
      obtain ⟨shown, k', stepped, rfl⟩ := performed step
      cases stepped
      exact .kexitWakeup place
    · cases step
  | kexitZombie p status =>
    obtain ⟨place, step⟩ := guarded step
    obtain ⟨shown, k', stepped, rfl⟩ := performed step
    obtain ⟨-, result⟩ := Kernel.guarded stepped
    obtain ⟨-, rfl⟩ := Prod.mk.inj result
    exact .kexitZombie place ⟨rfl, rfl, rfl, rfl⟩
  | enter p loop =>
    obtain ⟨⟨running, place, free⟩, step⟩ := guarded step
    cases step
    exact .enter place running free
  | kwaitVisit p copied => exact turn_kwaitVisit step
  | kwaitKilled p =>
    simp only [Machine.step] at step
    split at step
    · next next havekids place =>
      split at step
      · cases step
      · next all =>
        split at step
        · next leave =>
          cases step
          exact .kwaitLeave place (not_lt.mp all) (by simpa using leave)
        · next goesOn =>
          cases step
          simp only [Bool.or_eq_true, Bool.not_eq_true', not_or, Bool.not_eq_false,
            Bool.not_eq_true] at goesOn
          obtain ⟨rfl, spared⟩ := goesOn
          exact .kwaitPassed place (not_lt.mp all) spared
    · cases step
  | loopKilled p wait =>
    simp only [Machine.step] at step
    split at step
    · next loop place =>
      split at step
      · cases step
        exact .loopLeave place
      · next goesOn =>
        cases step
        simp only [Bool.or_eq_true, not_or, Bool.not_eq_true] at goesOn
        exact .loopPassed place goesOn.2
    · cases step
  | again p =>
    simp only [Machine.step] at step
    split at step
    · next pi place =>
      cases step
      exact .again place
    · cases step
  | sleep p =>
    simp only [Machine.step] at step
    split at step
    · next loop place =>
      obtain ⟨shown, k', stepped, rfl⟩ := performed step
      exact .sleep place (Kernel.quiet_step trivial stepped)
    · cases step
  | reacquire p =>
    simp only [Machine.step] at step
    split at step
    · next loop place =>
      obtain ⟨⟨running, free⟩, step⟩ := guarded step
      cases step
      exact .reacquire place running free
    · cases step

end Machine

end Xv6.ProcTable

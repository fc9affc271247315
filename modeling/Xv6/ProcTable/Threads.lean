import Xv6.ProcTable.Isolation

/-!
# Kernel threads that fork, exit and wait

Each process has a place in the code of `kfork`, `kexit`, `kwait` or of a loop that waits for a
condition and gives up when the process is killed. One step is a section of code between two
acquisitions of a lock; under `wait_lock` nobody else looks at `parent`, so the stores of
`reparent` are one step. Whether a loop still has to wait is an input.
-/

namespace Xv6.ProcTable

/-- The locks that are held over more than one step. -/
inductive Lock where
  | waitLock
  | pipe (pi : Nat)
  | cons
  | tickslock
  deriving DecidableEq, Repr

/-- What processes sleep on in the loops. -/
inductive Chan where
  | proc (p : Slot)
  | nread (pi : Nat)
  | nwrite (pi : Nat)
  | consR
  | ticks
  deriving DecidableEq

/-- Different objects have different addresses, none of them 0. -/
def Chan.address : Chan → Nat
  | .proc p => 5 * p.val + 1
  | .nread pi => 5 * pi + 2
  | .nwrite pi => 5 * pi + 3
  | .consR => 4
  | .ticks => 5

/-- The loops `while(condition){ if(killed(p)) return -1; sleep(chan, lk); }`. -/
inductive Loop where
  | kwait
  | piperead (pi : Nat)
  | pipewrite (pi : Nat)
  | consoleread
  | sysPause
  deriving DecidableEq

namespace Loop

def lock : Loop → Lock
  | .kwait => .waitLock
  | .piperead pi | .pipewrite pi => .pipe pi
  | .consoleread => .cons
  | .sysPause => .tickslock

/-- The channel on which process `p` sleeps. -/
def chan (p : Slot) : Loop → Chan
  | .kwait => .proc p
  | .piperead pi => .nread pi
  | .pipewrite pi => .nwrite pi
  | .consoleread => .consR
  | .sysPause => .ticks

end Loop

/-- Where the kernel thread of a process is. -/
inductive Pc where
  /-- anywhere else, also in user code -/
  | outside
  /-- in `kfork`, the new process is made and its lock released -/
  | forked (child : Slot)
  /-- in `kfork`, `np->parent` is set -/
  | parented (child : Slot)
  /-- in `kexit`, the files and mappings are closed -/
  | closed
  /-- in `kexit` after `reparent`, with the visits that its `wakeup`s still have to make -/
  | waking (visits : List (Slot × Nat))
  /-- in the scan of `kwait`, about to look at slot `next` -/
  | scan (next : Nat) (havekids : Bool)
  /-- at the test of a loop -/
  | test (loop : Loop)
  /-- in a loop, `killed(p)` has returned 0 and `sleep` is next -/
  | passed (loop : Loop)
  /-- inside `sleep`, until the lock of the loop is acquired again -/
  | asleep (loop : Loop)
  deriving DecidableEq

namespace Pc

/-- The lock that a thread holds there. -/
def holds : Pc → Option Lock
  | .waking _ | .scan _ _ => some .waitLock
  | .test loop | .passed loop => some loop.lock
  | .outside | .forked _ | .parented _ | .closed | .asleep _ => none

def start : Loop → Pc
  | .kwait => .scan 0 false
  | loop => .test loop

end Pc

structure Exit where
  pid : Int
  xstate : BitVec 32
  deriving DecidableEq

/-- A successful `kwait`: who called it, who had forked the child, and what it returned. -/
structure Reap where
  caller : Int
  forker : Int
  child : Exit
  deriving DecidableEq

/-- The table, the places of the threads and the holders of the locks. The last three
fields are a record of what has happened and are never read: the pid of the process that
called `kfork` for the process in a slot, the processes that have exited, and the
successful calls of `kwait`. -/
structure Machine (Mem : Type) where
  kernel : Kernel Mem
  pc : Slot → Pc
  holder : Lock → Option Slot
  forker : Slot → Int
  exits : List Exit
  reaps : List Reap

/-- The steps; `p` is the process that takes the step. -/
inductive Action (Mem : Type) where
  | elsewhere (e : Event Mem)
  | kfork (p child : Slot) (frame : Option Trapframe) (table copied : Option Mem)
  | kforkParent (p : Slot)
  | kforkRunnable (p : Slot)
  | kexitClose (p : Slot)
  | kexitReparent (p : Slot)
  | kexitWakeup (p : Slot)
  | kexitZombie (p : Slot) (status : BitVec 32)
  | enter (p : Slot) (loop : Loop)
  | kwaitVisit (p : Slot) (copied : Bool)
  /-- `killed(p)` at the end of the scan of `kwait` -/
  | kwaitKilled (p : Slot)
  /-- the condition of a loop and, if it says to wait, `killed(p)` -/
  | loopKilled (p : Slot) (wait : Bool)
  /-- `pipewrite` finds room and goes on -/
  | again (p : Slot)
  | sleep (p : Slot)
  | reacquire (p : Slot)

variable {Mem : Type}

namespace Machine

/-- A step of the table that belongs to none of the functions above. A process in one of
them can only be interrupted, and not while it holds a lock. -/
def Elsewhere (m : Machine Mem) : Event Mem → Prop
  | .sleep p _ | .setkilled p | .setpriority p _ | .store p _ | .load p => m.pc p = .outside
  | .yield p | .countRunTick p => (m.pc p).holds = none
  | .wakeup _ _ | .kkill _ _ | .pickNext | .dispatch _ | .schedStats _ _ | .clockintr => True
  | .kfork .. | .kforkParent .. | .kforkRunnable .. | .kexitClose .. | .kexitReparent ..
  | .kexitZombie .. | .kwait .. => False

instance (m : Machine Mem) (e : Event Mem) : Decidable (m.Elsewhere e) := by
  cases e <;> unfold Elsewhere <;> infer_instance

def goTo (m : Machine Mem) (p : Slot) (pc : Pc) : Machine Mem :=
  { m with pc := Function.update m.pc p pc }

def acquire (m : Machine Mem) (p : Slot) (lock : Lock) : Machine Mem :=
  { m with holder := Function.update m.holder lock (some p) }

def release (m : Machine Mem) (lock : Lock) : Machine Mem :=
  { m with holder := Function.update m.holder lock none }

/-- The section of a step that works on the table. -/
def perform (m : Machine Mem) (e : Event Mem) : Option (Output Mem × Machine Mem) :=
  (m.kernel.step e).map fun (shown, k) => (shown, { m with kernel := k })

/-- The visits of `wakeup(chan)` called by `p`. -/
def wakeupVisits (p : Slot) (chan : Nat) : List (Slot × Nat) :=
  ((List.finRange NPROC).filter (· ≠ p)).map (·, chan)

/-- The visits of the `wakeup`s in `kexit`: one call for each child that `reparent` finds,
and one for the parent. -/
def exitVisits (k : Kernel Mem) (p : Slot) : List (Slot × Nat) :=
  ((List.finRange NPROC).filter fun i => (k.proc i).parent = some p).flatMap
      (fun _ => wakeupVisits p (Chan.address (.proc k.initproc))) ++
    match (k.proc p).parent with
    | some parent => wakeupVisits p (Chan.address (.proc parent))
    | none => wakeupVisits p 0

/-- What one visit of the scan of `kwait` returns or goes on with. -/
def visited (m : Machine Mem) (p i : Slot) (next : Nat) (havekids : Bool) :
    Output Mem × Machine Mem → Machine Mem
  | (.waited pid xstate, n) =>
    { (n.goTo p .outside).release .waitLock with
      reaps := m.reaps ++ [⟨(m.kernel.proc p).pid, m.forker i, ⟨pid, xstate⟩⟩] }
  | (.ret 1, n) => n.goTo p (.scan (next + 1) true)
  | (.ret 0, n) => n.goTo p (.scan (next + 1) havekids)
  | (_, n) => (n.goTo p .outside).release .waitLock

/-- One step, or `none` where it cannot be taken. -/
def step (m : Machine Mem) : Action Mem → Option (Machine Mem)
  | .elsewhere e => if m.Elsewhere e then (m.perform e).map Prod.snd else none
  | .kfork p child frame table copied =>
    if m.pc p = .outside then
      (m.perform (.kfork p child frame table copied)).map fun (_, n) =>
        if n.kernel.position child = .newborn p then
          { n.goTo p (.forked child) with
            forker := Function.update m.forker child (m.kernel.proc p).pid }
        else n
    else none
  | .kforkParent p =>
    match m.pc p with
    | .forked child =>
      if m.holder .waitLock = none then
        (m.perform (.kforkParent p child)).map fun (_, n) => n.goTo p (.parented child)
      else none
    | _ => none
  | .kforkRunnable p =>
    match m.pc p with
    | .parented child =>
      (m.perform (.kforkRunnable p child)).map fun (_, n) => n.goTo p .outside
    | _ => none
  | .kexitClose p =>
    if m.pc p = .outside then
      (m.perform (.kexitClose p)).map fun (_, n) => n.goTo p .closed
    else none
  | .kexitReparent p =>
    if m.pc p = .closed ∧ m.holder .waitLock = none then
      (m.perform (.kexitReparent p)).map fun (_, n) =>
        (n.goTo p (.waking (exitVisits m.kernel p))).acquire p .waitLock
    else none
  | .kexitWakeup p =>
    match m.pc p with
    | .waking ((i, chan) :: visits) =>
      (m.perform (.wakeup i chan)).map fun (_, n) => n.goTo p (.waking visits)
    | _ => none
  | .kexitZombie p status =>
    if m.pc p = .waking [] then
      (m.perform (.kexitZombie p status)).map fun (_, n) =>
        { (n.goTo p .outside).release .waitLock with
          exits := m.exits ++ [⟨(m.kernel.proc p).pid, status⟩] }
    else none
  | .enter p loop =>
    if m.kernel.Running p ∧ m.pc p = .outside ∧ m.holder loop.lock = none then
      some ((m.goTo p (Pc.start loop)).acquire p loop.lock)
    else none
  | .kwaitVisit p copied =>
    match m.pc p with
    | .scan next havekids =>
      if inside : next < NPROC then
        (m.perform (.kwait p ⟨next, inside⟩ copied)).map (m.visited p ⟨next, inside⟩ next havekids)
      else none
    | _ => none
  | .kwaitKilled p =>
    match m.pc p with
    | .scan next havekids =>
      if next < NPROC then none
      else if !havekids || (m.kernel.proc p).killed then
        some ((m.goTo p .outside).release .waitLock)
      else some (m.goTo p (.passed .kwait))
    | _ => none
  | .loopKilled p wait =>
    match m.pc p with
    | .test loop =>
      if !wait || (m.kernel.proc p).killed then
        some ((m.goTo p .outside).release loop.lock)
      else some (m.goTo p (.passed loop))
    | _ => none
  | .again p =>
    match m.pc p with
    | .passed (.pipewrite pi) => some (m.goTo p (.test (.pipewrite pi)))
    | _ => none
  | .sleep p =>
    match m.pc p with
    | .passed loop =>
      (m.perform (.sleep p (loop.chan p).address)).map fun (_, n) =>
        (n.goTo p (.asleep loop)).release loop.lock
    | _ => none
  | .reacquire p =>
    match m.pc p with
    | .asleep loop =>
      if (m.kernel.proc p).state = .running ∧ m.holder loop.lock = none then
        some ((m.goTo p (Pc.start loop)).acquire p loop.lock)
      else none
    | _ => none

def run (m : Machine Mem) (actions : List (Action Mem)) : Option (Machine Mem) :=
  actions.foldlM step m

def boot (frame : Trapframe) (table : Mem) (root : Nat) : Machine Mem where
  kernel := Kernel.boot frame table root
  pc := fun _ => .outside
  holder := fun _ => none
  forker := fun _ => 0
  exits := []
  reaps := []

/-- The machines reached by steps that all meet a condition. -/
inductive Reachable (condition : Machine Mem → Action Mem → Prop) : Machine Mem → Prop
  | boot (frame : Trapframe) (table : Mem) (root : Nat) :
      Reachable condition (boot frame table root)
  | step {m m' : Machine Mem} (reached : Reachable condition m) (action : Action Mem)
      (meets : condition m action) (stepped : m.step action = some m') :
      Reachable condition m'

abbrev Free : Machine Mem → Action Mem → Prop := fun _ _ => True

theorem Reachable.run {m m' : Machine Mem} (reached : Reachable Free m)
    (actions : List (Action Mem)) (ran : m.run actions = some m') : Reachable Free m' := by
  induction actions generalizing m with
  | nil =>
    cases ran
    exact reached
  | cons action actions ih =>
    obtain ⟨next, stepped, rest⟩ := Option.bind_eq_some_iff.mp ran
    exact ih (reached.step action trivial stepped) rest

end Machine

end Xv6.ProcTable

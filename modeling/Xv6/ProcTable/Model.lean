import Xv6.Memory.Layout
import Xv6.Sched.Machine

/-!
# The process table

`kernel/proc.c` over the whole `struct proc`, one step for each section of code under one
`p->lock`. Whether `kalloc` and `uvmcopy` succeed, and what the system calls of a running
process store into its private fields, are inputs.
-/

namespace Xv6.ProcTable

open Sched (ProcState Priority Resume closeWait lsWeight)
open Function
open Memory (Vma NVMA)

abbrev NPROC : Nat := 64

instance : NeZero NPROC := ⟨by decide⟩

abbrev NOFILE : Nat := 16

abbrev Slot := Fin NPROC

/-- The words of `struct trapframe`; `a0` is the one at byte 112. -/
abbrev Trapframe := Fin 36 → BitVec 64

def Trapframe.a0 : Fin 36 := 14

/-- `struct proc`. `kstack` never changes and is left out; `name` is the string
before the terminating NUL, the only part that is ever read; `Mem` stands for
the page table with the memory it maps. -/
structure Proc (Mem : Type) extends Sched.Proc where
  xstate : BitVec 32 := 0
  parent : Option Slot := none
  sz : BitVec 64 := 0
  pagetable : Option Mem := none
  trapframe : Option Trapframe := none
  context : Resume := .forkret
  ofile : Fin NOFILE → Option Nat := fun _ => none
  cwd : Option Nat := none
  name : List UInt8 := []
  vmas : Fin NVMA → Vma := fun _ => {}
  runTicksTotal : BitVec 64 := 0

/-- Where the kernel thread of a process is, beyond what its state tells. -/
inductive Position where
  | normal
  /-- created by `kfork`, the parent not yet recorded -/
  | newborn (forker : Slot)
  /-- `kfork` has recorded the parent -/
  | parented
  /-- inside `kexit`, after the files and mappings are closed -/
  | closed
  /-- inside `kexit`, after `reparent` -/
  | reparented
  deriving DecidableEq

structure Kernel (Mem : Type) where
  proc : Slot → Proc Mem
  position : Slot → Position
  initproc : Slot
  /-- an `int` of the source, taken not to overflow -/
  nextPid : Int
  nextSeq : BitVec 64
  gLsRunnableCount : Int
  ticks : BitVec 32

variable {Mem : Type}

namespace Proc

def freeproc (p : Proc Mem) : Proc Mem :=
  { p with
    trapframe := none
    pagetable := none
    sz := 0
    pid := 0
    parent := none
    name := []
    chan := 0
    killed := false
    xstate := 0
    state := .unused }

/-- `allocproc` after it has found the slot unused, with the outcomes of the two
allocations. The flag tells whether the process was made. -/
def allocproc (p : Proc Mem) (pid : Int) (frame : Option Trapframe)
    (table : Option Mem) : Bool × Proc Mem :=
  let named : Proc Mem := { p with pid := pid, state := .used }
  match frame with
  | none => (false, { named with trapframe := none }.freeproc)
  | some frame =>
    match table with
    | none =>
      (false, { named with trapframe := some frame, pagetable := none }.freeproc)
    | some table =>
      (true,
        { named with
          trapframe := some frame
          pagetable := some table
          context := .forkret
          vmas := fun i => { p.vmas i with used := false, f := none }
          priority := .normal
          waitTicksTotal := 0
          waitTicksMax := 0
          runTicksTotal := 0 })

/-- What `kfork` copies from the parent `p` into the new process. -/
def copyFrom (child p : Proc Mem) (copied : Mem) : Proc Mem :=
  { child with
    pagetable := some copied
    sz := p.sz
    trapframe := p.trapframe.map (update · Trapframe.a0 0)
    ofile := fun fd => (p.ofile fd).or (child.ofile fd)
    vmas := fun i => if (p.vmas i).used then p.vmas i else child.vmas i
    cwd := p.cwd
    name := p.name }

/-- The section of `kfork` under the new process's lock. -/
def fork (child p : Proc Mem) (pid : Int) (frame : Option Trapframe)
    (table copied : Option Mem) : Bool × Proc Mem :=
  match child.allocproc pid frame table with
  | (false, failed) => (false, failed)
  | (true, made) =>
    match copied with
    | none => (false, made.freeproc)
    | some copied => (true, made.copyFrom p copied)

/-- The stores of `mark_runnable` into the slot. -/
def markRunnable (p : Proc Mem) (seq : BitVec 64) (ticks : BitVec 32) : Proc Mem :=
  { p with
    arrivalSeq := seq
    schedReadyTick := ticks.setWidth 64
    state := .runnable }

/-- The stores of `dispatch` into the slot, and those of the code the process
resumes in before it releases its lock. -/
def dispatch (p : Proc Mem) (ticks : BitVec 32) : Proc Mem :=
  let running : Proc Mem := { p with state := .running }
  let accounted : Proc Mem := { running with toProc := closeWait ticks running.toProc }
  if p.context = .sleep then { accounted with chan := 0 } else accounted

/-- `kexit` closes the files, the mappings and the current directory. -/
def close (p : Proc Mem) : Proc Mem :=
  { p with
    ofile := fun _ => none
    vmas := fun i => { p.vmas i with used := false }
    cwd := none }

/-- The four words `sys_sched_stats` copies out. -/
def stats (p : Proc Mem) (ticks : BitVec 32) : List (BitVec 64) :=
  [p.runTicksTotal, p.waitTicksTotal, p.waitTicksMax,
    if p.state = .runnable then
      (ticks - p.schedReadyTick.setWidth 32).setWidth 64
    else 0]

/-- One store of a system call or of user code into a private field. -/
inductive Store (Mem : Type) where
  | sz (value : BitVec 64)
  | memory (value : Mem)
  | trapframe (value : Trapframe)
  | ofile (fd : Fin NOFILE) (value : Option Nat)
  | cwd (value : Option Nat)
  | name (value : List UInt8)
  | vma (i : Fin NVMA) (value : Vma)

def store (p : Proc Mem) : Store Mem → Proc Mem
  | .sz value => { p with sz := value }
  | .memory value => { p with pagetable := some value }
  | .trapframe value => { p with trapframe := some value }
  | .ofile fd value => { p with ofile := update p.ofile fd value }
  | .cwd value => { p with cwd := value }
  | .name value => { p with name := value }
  | .vma i value => { p with vmas := update p.vmas i value }

/-- A mapping that is not used is never looked into. -/
def liveVma (v : Vma) : Vma :=
  if v.used then v else {}

/-- A field that is looked at only while the slot is not UNUSED. -/
def whileOccupied {α : Type} (state : ProcState) (blank value : α) : α :=
  if state = .unused then blank else value

/-- A field that is looked at only while the process is RUNNABLE. -/
def whileRunnable (state : ProcState) (value : BitVec 64) : BitVec 64 :=
  if state = .runnable then value else 0

/-- The part of a slot that code looks at. -/
def live (p : Proc Mem) : Proc Mem :=
  { p with
    arrivalSeq := whileRunnable p.state p.arrivalSeq
    schedReadyTick := whileRunnable p.state p.schedReadyTick
    vmas := fun i => liveVma (p.vmas i)
    context := whileOccupied p.state .forkret p.context
    priority := whileOccupied p.state .normal p.priority
    waitTicksTotal := whileOccupied p.state 0 p.waitTicksTotal
    waitTicksMax := whileOccupied p.state 0 p.waitTicksMax
    runTicksTotal := whileOccupied p.state 0 p.runTicksTotal }

end Proc

/-- The steps, named after the function they are a section of. `p` is the
running process, `i` the slot a loop over the table has locked. -/
inductive Event (Mem : Type) where
  | kfork (p child : Slot) (frame : Option Trapframe) (table copied : Option Mem)
  | kforkParent (p child : Slot)
  | kforkRunnable (p child : Slot)
  | kexitClose (p : Slot)
  | kexitReparent (p : Slot)
  | kexitZombie (p : Slot) (status : BitVec 32)
  | kwait (p i : Slot) (copied : Bool)
  | sleep (p : Slot) (chan : Nat)
  | wakeup (i : Slot) (chan : Nat)
  | kkill (i : Slot) (pid : Int)
  | setkilled (p : Slot)
  | yield (p : Slot)
  | pickNext
  | dispatch (i : Slot)
  | setpriority (p : Slot) (level : Int)
  | schedStats (i : Slot) (pid : Int)
  | clockintr
  | countRunTick (p : Slot)
  | store (p : Slot) (write : Proc.Store Mem)
  | load (p : Slot)

/-- What a step shows: a returned value, the words copied out, the table as a
policy reads it, or the running process's own slot. -/
inductive Output (Mem : Type) where
  | silent
  | ret (value : Int)
  | waited (pid : Int) (xstate : BitVec 32)
  | stats (words : List (BitVec 64))
  | table (runnable : Slot → Option (Priority × BitVec 64))
  | self (p : Proc Mem)

namespace Kernel

def set (k : Kernel Mem) (i : Slot) (p : Proc Mem) : Kernel Mem :=
  { k with proc := update k.proc i p }

def moveTo (k : Kernel Mem) (i : Slot) (position : Position) : Kernel Mem :=
  { k with position := update k.position i position }

def markRunnable (k : Kernel Mem) (i : Slot) : Kernel Mem :=
  { k.set i ((k.proc i).markRunnable k.nextSeq k.ticks) with
    nextSeq := k.nextSeq + 1
    gLsRunnableCount := k.gLsRunnableCount + lsWeight (k.proc i).toProc }

/-- Whether `p` is running outside the sections of `kfork` and `kexit` that the
table remembers. -/
def Running (k : Kernel Mem) (p : Slot) : Prop :=
  (k.proc p).state = .running ∧ k.position p = .normal

instance (k : Kernel Mem) (p : Slot) : Decidable (k.Running p) :=
  inferInstanceAs (Decidable (_ ∧ _))

def policyView (k : Kernel Mem) (i : Slot) : Option (Priority × BitVec 64) :=
  if (k.proc i).state = .runnable then
    some ((k.proc i).priority, (k.proc i).arrivalSeq)
  else none

def reparent (k : Kernel Mem) (p : Slot) : Kernel Mem :=
  { k with
    proc := fun i =>
      if (k.proc i).parent = some p then
        { k.proc i with parent := some k.initproc }
      else k.proc i }

def kfork (k : Kernel Mem) (p child : Slot) (frame : Option Trapframe)
    (table copied : Option Mem) : Output Mem × Kernel Mem :=
  let numbered : Kernel Mem := { k with nextPid := k.nextPid + 1 }
  match (k.proc child).fork (k.proc p) k.nextPid frame table copied with
  | (false, failed) => (.ret (-1), numbered.set child failed)
  | (true, made) =>
    (.ret k.nextPid, (numbered.set child made).moveTo child (.newborn p))

/-- One visit of the loop of `kwait`; `copied` tells whether the `copyout` of the
exit status succeeds. -/
def kwait (k : Kernel Mem) (p i : Slot) (copied : Bool) : Output Mem × Kernel Mem :=
  if (k.proc i).parent = some p then
    if (k.proc i).state = .zombie then
      if copied then
        (.waited (k.proc i).pid (k.proc i).xstate, k.set i (k.proc i).freeproc)
      else (.ret (-1), k)
    else (.ret 1, k)
  else (.ret 0, k)

/-- One visit of the loop of `wakeup`. -/
def wakeup (k : Kernel Mem) (i : Slot) (chan : Nat) : Kernel Mem :=
  if (k.proc i).state = .sleeping ∧ (k.proc i).chan = chan then k.markRunnable i
  else k

/-- One visit of the loop of `kkill`. -/
def kkill (k : Kernel Mem) (i : Slot) (pid : Int) : Output Mem × Kernel Mem :=
  if (k.proc i).pid = pid then
    let marked := k.set i { k.proc i with killed := true }
    (.ret 0, if (k.proc i).state = .sleeping then marked.markRunnable i else marked)
  else (.silent, k)

def dispatch (k : Kernel Mem) (i : Slot) : Kernel Mem :=
  if (k.proc i).state = .runnable then
    { k.set i ((k.proc i).dispatch k.ticks) with
      gLsRunnableCount := k.gLsRunnableCount - lsWeight (k.proc i).toProc }
  else k

def setpriority (k : Kernel Mem) (p : Slot) (level : Int) : Output Mem × Kernel Mem :=
  if level = 0 then (.ret 0, k.set p { k.proc p with priority := .normal })
  else if level = 1 then
    (.ret 0, k.set p { k.proc p with priority := .latencySensitive })
  else (.ret (-1), k)

/-- One visit of the loop of `sys_sched_stats`. -/
def schedStats (k : Kernel Mem) (i : Slot) (pid : Int) : Output Mem :=
  if (k.proc i).pid = pid ∧ (k.proc i).state ≠ .unused then
    .stats ((k.proc i).stats k.ticks)
  else .silent

/-- One step, or `none` where it cannot be taken: the process is not running at
that place, or the slot is not the one the code has tested for. -/
def step (k : Kernel Mem) : Event Mem → Option (Output Mem × Kernel Mem)
  | .kfork p child frame table copied =>
    if k.Running p ∧ (k.proc child).state = .unused then
      some (k.kfork p child frame table copied)
    else none
  | .kforkParent p child =>
    if (k.proc p).state = .running ∧ k.position child = .newborn p then
      some (.silent, (k.set child { k.proc child with parent := some p }).moveTo child .parented)
    else none
  | .kforkRunnable p child =>
    if (k.proc p).state = .running ∧ k.position child = .parented ∧
        (k.proc child).parent = some p then
      some (.ret (k.proc child).pid, (k.markRunnable child).moveTo child .normal)
    else none
  | .kexitClose p =>
    if k.Running p ∧ p ≠ k.initproc then
      some (.silent, (k.set p (k.proc p).close).moveTo p .closed)
    else none
  | .kexitReparent p =>
    if (k.proc p).state = .running ∧ k.position p = .closed then
      some (.silent, (k.reparent p).moveTo p .reparented)
    else none
  | .kexitZombie p status =>
    if (k.proc p).state = .running ∧ k.position p = .reparented then
      some (.silent,
        (k.set p { k.proc p with xstate := status, state := .zombie }).moveTo p .normal)
    else none
  | .kwait p i copied =>
    if k.Running p then some (k.kwait p i copied) else none
  | .sleep p chan =>
    if (k.proc p).state = .running then
      some (.silent, k.set p { k.proc p with chan := chan, state := .sleeping, context := .sleep })
    else none
  | .wakeup i chan => some (.silent, k.wakeup i chan)
  | .kkill i pid => some (k.kkill i pid)
  | .setkilled p =>
    if k.Running p then some (.silent, k.set p { k.proc p with killed := true })
    else none
  | .yield p =>
    if (k.proc p).state = .running then
      some (.silent, (k.set p { k.proc p with context := .yield }).markRunnable p)
    else none
  | .pickNext => some (.table k.policyView, k)
  | .dispatch i => some (.silent, k.dispatch i)
  | .setpriority p level =>
    if k.Running p then some (k.setpriority p level) else none
  | .schedStats i pid => some (k.schedStats i pid, k)
  | .clockintr => some (.silent, { k with ticks := k.ticks + 1 })
  | .countRunTick p =>
    if (k.proc p).state = .running then
      some (.silent, k.set p { k.proc p with runTicksTotal := (k.proc p).runTicksTotal + 1 })
    else none
  | .store p write =>
    if k.Running p then some (.silent, k.set p ((k.proc p).store write)) else none
  | .load p =>
    if k.Running p then some (.self (k.proc p).live, k) else none

def run (k : Kernel Mem) : List (Event Mem) → Option (List (Output Mem) × Kernel Mem)
  | [] => some ([], k)
  | e :: rest =>
    (k.step e).bind fun (shown, next) =>
      (next.run rest).map fun (later, final) => (shown :: later, final)

/-- After `userinit`: the first process is RUNNABLE in slot 0. -/
def boot (frame : Trapframe) (table : Mem) (root : Nat) : Kernel Mem where
  proc := update (fun _ => {}) 0
    { state := .runnable
      pid := 1
      arrivalSeq := 1
      pagetable := some table
      trapframe := some frame
      cwd := some root }
  position := fun _ => .normal
  initproc := 0
  nextPid := 2
  nextSeq := 2
  gLsRunnableCount := 0
  ticks := 0

end Kernel

end Xv6.ProcTable

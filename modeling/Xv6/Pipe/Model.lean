import Xv6.Library.RingBuffer

/-!
# Pipes

The callers of `pipewrite` and `piperead` go through their loops, one iteration for one step.
The outcomes of `copyin` and `copyout` are inputs; kills and closes come at any time. No step
depends on the histories of the bytes and calls.
-/

namespace Xv6.Pipes

open RingBuffer
open Function

abbrev Byte := BitVec 8

abbrev PIPESIZE : Nat := 512

instance : NeZero PIPESIZE := ⟨by decide⟩

/-- `struct pipe` without its lock. -/
structure Pipe where
  data : Fin PIPESIZE → Byte
  nread : BitVec 32
  nwrite : BitVec 32
  readopen : Bool
  writeopen : Bool

namespace Pipe

/-- The pipe that `pipealloc` sets up in a page that holds `data`. -/
def pipealloc (data : Fin PIPESIZE → Byte) : Pipe :=
  { data := data, nread := 0, nwrite := 0, readopen := true, writeopen := true }

/-- `pi->nwrite == pi->nread + PIPESIZE`. -/
def full (pi : Pipe) : Bool := pi.nwrite == pi.nread + BitVec.ofNat 32 PIPESIZE

/-- `pi->nread == pi->nwrite`. -/
def empty (pi : Pipe) : Bool := pi.nread == pi.nwrite

/-- `pi->data[pi->nwrite++ % PIPESIZE] = ch`. -/
def store (pi : Pipe) (ch : Byte) : Pipe :=
  { pi with
    data := update pi.data (slot PIPESIZE pi.nwrite) ch
    nwrite := pi.nwrite + 1 }

/-- `pi->data[pi->nread % PIPESIZE]`. -/
def front (pi : Pipe) : Byte := pi.data (slot PIPESIZE pi.nread)

/-- `pi->nread++`. -/
def drop (pi : Pipe) : Pipe := { pi with nread := pi.nread + 1 }

/-- The end that `pipeclose` closes. -/
def close (pi : Pipe) (writable : Bool) : Pipe :=
  if writable then { pi with writeopen := false } else { pi with readopen := false }

/-- The bytes in the buffer, in the order in which they will be read. -/
def buffered (pi : Pipe) : List Byte := contents pi.data pi.nread pi.nwrite

/-- The number of bytes that can be stored before the buffer is full. -/
def room (pi : Pipe) : Nat := PIPESIZE - used pi.nread pi.nwrite

end Pipe

/-- The address that a process sleeps on. -/
inductive Chan where
  | nread
  | nwrite
  deriving DecidableEq, Repr

/-- A call of `pipewrite`. `begun` is the pipe, and the history of stored bytes, at the
moment the call first acquired the lock; `wrote` are the bytes it has stored. -/
structure WriteCall where
  addr : BitVec 64
  n : Int
  i : Nat := 0
  begun : Option (Pipe × List Byte) := none
  wrote : List Byte := []

/-- A call of `piperead`; `got` are the bytes it has copied out. -/
structure ReadCall where
  addr : BitVec 64
  n : Int
  i : Nat := 0
  got : List Byte := []

/-- Where a process is in `pipewrite` or `piperead`: at an `acquire` (also the one at the
end of `sleep`), at a loop test, or asleep. -/
inductive Call where
  | none
  | writeAcquire (call : WriteCall)
  | writeLoop (call : WriteCall)
  | writeSleep (call : WriteCall)
  | readAcquire (call : ReadCall)
  | readWait (call : ReadCall)
  | readSleep (call : ReadCall)
  | readCopy (call : ReadCall)

structure WriteReturn where
  call : WriteCall
  result : Int

/-- A call of `piperead` that has returned, and the pipe when it released the lock. -/
structure ReadReturn where
  call : ReadCall
  result : Int
  pi : Pipe

/-- A pipe and its callers. -/
structure PipeState (P : Type) where
  pi : Pipe
  holder : Option P
  calls : P → Call
  killed : P → Bool
  /-- `pipeclose` has given the page back. -/
  freed : Bool
  stored : List Byte
  writes : List WriteReturn
  reads : List ReadReturn

/-- A process that leaves `sleep` goes on to acquire the lock again. -/
def Call.wake : Call → Call
  | .writeSleep call => .writeAcquire call
  | .readSleep call => .readAcquire call
  | call => call

/-- `wakeup` for one process: writers sleep on `nwrite`, readers on `nread`. -/
def Call.wakeup (chan : Chan) (call : Call) : Call :=
  match chan, call with
  | .nwrite, .writeSleep _ => call.wake
  | .nread, .readSleep _ => call.wake
  | _, _ => call

variable {P : Type} [DecidableEq P]

namespace PipeState

def wakeup (s : PipeState P) (chan : Chan) : PipeState P :=
  { s with calls := fun p => (s.calls p).wakeup chan }

/-- `release` and return from `pipewrite`. -/
def returnWrite (s : PipeState P) (p : P) (call : WriteCall) (result : Int) : PipeState P :=
  { s with
    holder := none
    calls := update s.calls p .none
    writes := s.writes ++ [{ call := call, result := result }] }

/-- `release` and return from `piperead`. -/
def returnRead (s : PipeState P) (p : P) (call : ReadCall) (result : Int) : PipeState P :=
  { s with
    holder := none
    calls := update s.calls p .none
    reads := s.reads ++ [{ call := call, result := result, pi := s.pi }] }

/-- `acquire`: the process waits while another holds the lock. -/
def acquire (s : PipeState P) (p : P) (next : Call) : Option (PipeState P) :=
  match s.holder with
  | none => some { s with holder := some p, calls := update s.calls p next }
  | some _ => none

/-- `sleep` gives the lock up. -/
def sleep (s : PipeState P) (p : P) (asleep : Call) : PipeState P :=
  { s with holder := none, calls := update s.calls p asleep }

/-- The loop test of `pipewrite` and the iteration that follows it. -/
def pipewriteLoop (s : PipeState P) (p : P) (call : WriteCall)
    (copyin : BitVec 64 → Option Byte) : PipeState P :=
  if (call.i : Int) < call.n then
    if s.pi.readopen = false ∨ s.killed p = true then s.returnWrite p call (-1)
    else if s.pi.full then (s.wakeup .nread).sleep p (.writeSleep call)
    else
      match copyin (call.addr + BitVec.ofNat 64 call.i) with
      | none => (s.wakeup .nread).returnWrite p call call.i
      | some ch =>
        { s with
          pi := s.pi.store ch
          calls := update s.calls p
            (.writeLoop { call with i := call.i + 1, wrote := call.wrote ++ [ch] })
          stored := s.stored ++ [ch] }
  else (s.wakeup .nread).returnWrite p call call.i

/-- The loop of `piperead` that waits for bytes. -/
def pipereadWait (s : PipeState P) (p : P) (call : ReadCall) : PipeState P :=
  if s.pi.empty ∧ s.pi.writeopen then
    if s.killed p then s.returnRead p call (-1)
    else s.sleep p (.readSleep call)
  else { s with calls := update s.calls p (.readCopy call) }

/-- The loop of `piperead` that copies bytes. -/
def pipereadCopy (s : PipeState P) (p : P) (call : ReadCall)
    (copyout : BitVec 64 → Bool) : PipeState P :=
  if (call.i : Int) < call.n then
    if s.pi.empty then (s.wakeup .nwrite).returnRead p call call.i
    else if copyout (call.addr + BitVec.ofNat 64 call.i) then
      { s with
        pi := s.pi.drop
        calls := update s.calls p
          (.readCopy { call with i := call.i + 1, got := call.got ++ [s.pi.front] }) }
    else (s.wakeup .nwrite).returnRead p call (if call.i = 0 then -1 else call.i)
  else (s.wakeup .nwrite).returnRead p call call.i

/-- The next step of a process inside `pipewrite` or `piperead`, or `none` if it has to
wait for the lock or for a wakeup. -/
def advance (s : PipeState P) (p : P) (copyin : BitVec 64 → Option Byte)
    (copyout : BitVec 64 → Bool) : Option (PipeState P) :=
  match s.calls p with
  | .writeAcquire call =>
    s.acquire p (.writeLoop { call with begun := some (call.begun.getD (s.pi, s.stored)) })
  | .writeLoop call => some (s.pipewriteLoop p call copyin)
  | .readAcquire call => s.acquire p (.readWait call)
  | .readWait call => some (s.pipereadWait p call)
  | .readCopy call => some (s.pipereadCopy p call copyout)
  | .none | .writeSleep _ | .readSleep _ => none

/-- `pipeclose`, which holds the lock from beginning to end. -/
def pipeclose (s : PipeState P) (writable : Bool) : PipeState P :=
  let pi := s.pi.close writable
  { s.wakeup (if writable then .nread else .nwrite) with
    pi := pi
    freed := !pi.readopen && !pi.writeopen }

/-- `kkill`: a sleeping process is woken. -/
def kill (s : PipeState P) (p : P) : PipeState P :=
  { s with
    killed := update s.killed p true
    calls := update s.calls p (s.calls p).wake }

def init (data : Fin PIPESIZE → Byte) : PipeState P :=
  { pi := .pipealloc data
    holder := none
    calls := fun _ => .none
    killed := fun _ => false
    freed := false
    stored := []
    writes := []
    reads := [] }

end PipeState

/-- One step of any process on a pipe that has not been freed. -/
inductive PipeStep (s : PipeState P) : PipeState P → Prop
  | pipewrite (p : P) (addr : BitVec 64) (n : Int) (idle : s.calls p = .none)
      (live : s.freed = false) :
      PipeStep s { s with calls := update s.calls p (.writeAcquire { addr := addr, n := n }) }
  | piperead (p : P) (addr : BitVec 64) (n : Int) (idle : s.calls p = .none)
      (live : s.freed = false) :
      PipeStep s { s with calls := update s.calls p (.readAcquire { addr := addr, n := n }) }
  | advance (p : P) (copyin : BitVec 64 → Option Byte) (copyout : BitVec 64 → Bool)
      (s' : PipeState P) (live : s.freed = false)
      (next : s.advance p copyin copyout = some s') :
      PipeStep s s'
  | pipeclose (writable : Bool) (live : s.freed = false) (unlocked : s.holder = none) :
      PipeStep s (s.pipeclose writable)
  | kill (p : P) : PipeStep s (s.kill p)

inductive PipeReachable : PipeState P → Prop
  | init (data : Fin PIPESIZE → Byte) : PipeReachable (.init data)
  | step {s s' : PipeState P} (before : PipeReachable s) (step : PipeStep s s') :
      PipeReachable s'

end Xv6.Pipes

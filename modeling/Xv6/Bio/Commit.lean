import Xv6.Bio.Cache
import Xv6.Log.Model

/-!
# The log over the buffer cache

`begin_op`, `log_write`, `end_op` and `commit` of `kernel/log.c` with the buffers they take.
What `commit` does for the blocks in the header is a list of sections of `bio.c`; other
processes can come in between any two. A process has `K` buffers for its own use and two for
`commit`.
-/

namespace Xv6.Bio

open Log (MAXOPBLOCKS LOGBLOCKS)

/-- The buffers of `commit`: for a block of the log area (`to`, `lbuf`, and `buf` of
`write_head`) and for a block at home (`from`, `dbuf`). -/
inductive Part where
  | log
  | home
  deriving DecidableEq

instance : Fintype Part := ⟨{.log, .home}, fun part => by cases part <;> decide⟩

/-- A call of `bread` by a process, for its own use or inside `commit`. -/
abbrev Call (P : Type) (K : Nat) := P × (Fin K ⊕ Part)

/-- A section of `commit` and of the functions it calls. -/
inductive Instr where
  | bget (part : Part) (blockno : Nat)
  | acquiresleep (part : Part)
  | fill (part : Part)
  | memmove (dst src : Part)
  /-- `hb->n` and `hb->block` become those of `log.lh` -/
  | header
  | bwrite (part : Part)
  /-- `bunpin(dbuf)`, the buffer of `blockno` -/
  | bunpin (blockno : Nat)
  | releasesleep (part : Part)
  | brelse (part : Part)
  /-- `log.lh.n = 0` -/
  | clear
  /-- `log.committing = 0` -/
  | finish
  deriving DecidableEq

def breadCode (part : Part) (blockno : Nat) : List Instr :=
  [.bget part blockno, .acquiresleep part, .fill part]

def brelseCode (part : Part) : List Instr := [.releasesleep part, .brelse part]

def writeLogBlock (start tail blockno : Nat) : List Instr :=
  breadCode .log (start + tail + 1) ++ breadCode .home blockno ++
    [.memmove .log .home, .bwrite .log] ++ brelseCode .home ++ brelseCode .log

def writeLog (start : Nat) : Nat → List Nat → List Instr
  | _, [] => []
  | tail, blockno :: rest => writeLogBlock start tail blockno ++ writeLog start (tail + 1) rest

def writeHead (start : Nat) : List Instr :=
  breadCode .log start ++ [.header, .bwrite .log] ++ brelseCode .log

/-- The body of the loop of `install_trans(0)`. -/
def installBlock (start tail blockno : Nat) : List Instr :=
  breadCode .log (start + tail + 1) ++ breadCode .home blockno ++
    [.memmove .home .log, .bwrite .home, .bunpin blockno] ++ brelseCode .log ++ brelseCode .home

def installTrans (start : Nat) : Nat → List Nat → List Instr
  | _, [] => []
  | tail, blockno :: rest => installBlock start tail blockno ++ installTrans start (tail + 1) rest

def commit (start : Nat) (lh : List Nat) : List Instr :=
  if 0 < lh.length then
    writeLog start 0 lh ++ writeHead start ++ installTrans start 0 lh ++ [.clear] ++ writeHead start
  else []

/-- The device and the place of the log, how a header is written into a block, and the
pids. -/
structure Setup (P D : Type) where
  dev : Nat
  start : Nat
  header : List Nat → D → D
  pid : P → Nat
  device : dev ≠ 0

/-- `struct log` and the cache. `committing` is the process inside `commit`, with what it
has still to do; `ops` are the blocks that the operation of each process has logged. -/
structure Machine (P : Type) (K : Nat) (D : Type) where
  cache : State (Call P K) D
  lh : List Nat
  outstanding : Nat
  committing : Option P
  ops : P → Option (Finset Nat)
  todo : List Instr

inductive Panic where
  | bio (halt : Halt)
  | tooBigATransaction
  deriving DecidableEq

inductive Event (P : Type) (K : Nat) (D : Type) where
  /-- a process uses the cache, inside or outside of operations -/
  | access (action : Action (Call P K) D)
  | beginOp (p : P)
  | logWrite (p : P) (k : Fin K)
  | endOp (p : P)
  | commit

variable {P D : Type} {K : Nat}

def Setup.owner (setup : Setup P D) (t : Call P K) : Nat := setup.pid t.1

/-- What processes do to the cache themselves: all but pinning and what `commit` does. -/
def Action.IsAccess : Action (Call P K) D → Bool
  | .bpin _ | .bunpin _ => false
  | action => action.call.2.isLeft

namespace Machine

/-- The outcome of a section of `bio.c` in the machine. -/
def lift (done : State (Call P K) D → Machine P K D)
    (result : Option (Except Halt (State (Call P K) D))) :
    Option (Except Panic (Machine P K D)) :=
  result.map fun
    | .ok cache => .ok (done cache)
    | .error halt => .error (.bio halt)

/-- What an instruction of `commit` does to the cache. -/
def action (setup : Setup P D) (m : Machine P K D) (p : P) : Instr → Option (Action (Call P K) D)
  | .bget part blockno => some (.bget (p, .inr part) setup.dev blockno)
  | .acquiresleep part => some (.acquiresleep (p, .inr part))
  | .fill part => some (.fill (p, .inr part))
  | .memmove dst src =>
    match m.cache.stage (p, .inr src) with
    | .holding b => some (.modify (p, .inr dst) (m.cache.buf b).data)
    | _ => none
  | .header =>
    match m.cache.stage (p, .inr .log) with
    | .holding b => some (.modify (p, .inr .log) (setup.header m.lh (m.cache.buf b).data))
    | _ => none
  | .bwrite part => some (.bwrite (p, .inr part))
  | .bunpin _ => some (.bunpin (p, .inr .home))
  | .releasesleep part => some (.releasesleep (p, .inr part))
  | .brelse part => some (.brelse (p, .inr part))
  | .clear | .finish => none

variable [DecidableEq P]

def exec (setup : Setup P D) (m : Machine P K D) (p : P) (rest : List Instr) :
    Instr → Option (Except Panic (Machine P K D))
  | .clear => some (.ok { m with lh := [], todo := rest })
  | .finish => some (.ok { m with committing := none, todo := rest })
  | instr =>
    (m.action setup p instr).bind fun action =>
      lift (fun cache => { m with cache := cache, todo := rest }) (m.cache.step setup.owner action)

/-- One step, or `none` where it cannot be taken. An operation logs at most `MAXOPBLOCKS`
distinct blocks, none of them of the log, and has released its buffers when it ends. -/
def step (setup : Setup P D) (m : Machine P K D) :
    Event P K D → Option (Except Panic (Machine P K D))
  | .access action =>
    if action.IsAccess then
      lift (fun cache => { m with cache := cache }) (m.cache.step setup.owner action)
    else none
  | .beginOp p =>
    if m.ops p = none ∧ m.committing = none ∧
        m.lh.length + (m.outstanding + 1) * MAXOPBLOCKS ≤ LOGBLOCKS then
      some (.ok { m with
        outstanding := m.outstanding + 1
        ops := Function.update m.ops p (some ∅) })
    else none
  | .logWrite p k =>
    match m.ops p, m.cache.stage (p, .inl k) with
    | some used, .holding b =>
      let blockno := (m.cache.buf b).blockno
      let m' := { m with ops := Function.update m.ops p (some (insert blockno used)) }
      if (m.cache.buf b).dev = setup.dev ∧ (insert blockno used).card ≤ MAXOPBLOCKS ∧
          (blockno < setup.start ∨ setup.start + LOGBLOCKS < blockno) then
        if LOGBLOCKS ≤ m.lh.length then some (.error .tooBigATransaction)
        else if blockno ∈ m.lh then some (.ok m')
        else
          lift (fun cache => { m' with cache := cache, lh := m.lh ++ [blockno] })
            (m.cache.step setup.owner (.bpin (p, .inl k)))
      else none
    | _, _ => none
  | .endOp p =>
    match m.ops p with
    | some _ =>
      if m.committing = none ∧ ∀ k, m.cache.stage (p, .inl k) = .idle then
        let m' := { m with
          outstanding := m.outstanding - 1
          ops := Function.update m.ops p none }
        if m'.outstanding = 0 then
          some (.ok { m' with
            committing := some p
            todo := Bio.commit setup.start m.lh ++ [.finish] })
        else some (.ok m')
      else none
    | none => none
  | .commit =>
    match m.committing, m.todo with
    | some p, instr :: rest => m.exec setup p rest instr
    | _, _ => none

/-- After `initlog` of an empty log. -/
def init (zero : D) (disk : Nat × Nat → D) : Machine P K D where
  cache := .init zero disk
  lh := []
  outstanding := 0
  committing := none
  ops := fun _ => none
  todo := []

def run (setup : Setup P D) (m : Machine P K D) : List (Event P K D) →
    Option (Except Panic (Machine P K D))
  | [] => some (.ok m)
  | event :: rest =>
    match m.step setup event with
    | some (.ok m') => m'.run setup rest
    | result => result

inductive Reachable (setup : Setup P D) : Machine P K D → Prop
  | init (zero : D) (disk : Nat × Nat → D) : Reachable setup (init zero disk)
  | step {m m' : Machine P K D} (reached : Reachable setup m) (event : Event P K D)
      (returned : m.step setup event = some (.ok m')) : Reachable setup m'

end Machine

end Xv6.Bio

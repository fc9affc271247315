import Xv6.Library.LinkedRing

/-!
# The buffer cache

`kernel/bio.c`. A step is a section under `bcache.lock` or under the sleep lock of a buffer.
`T` is the set of calls of `bread` that can be under way at the same time, `owner` the process
that makes a call, and `D` the contents of a block.
-/

namespace Xv6.Bio

open LinkedRing Function

abbrev NBUF : Nat := 30

abbrev BufId := Fin NBUF

/-- A node of the list: a buffer, or `none` for `bcache.head`. -/
abbrev Node := Option BufId

/-- `struct buf`; `lock` is the pid in its sleep lock while that is locked. `refcnt` counts the
calls between `bread` and `brelse` and the pin of the log, one for each process and one more at
most, so it stays far below the bound of the `uint` of the source. -/
structure Buf (D : Type) where
  valid : Bool := false
  dev : Nat := 0
  blockno : Nat := 0
  lock : Option Nat := none
  refcnt : Nat := 0
  data : D

def Buf.block {D : Type} (b : Buf D) : Nat × Nat := (b.dev, b.blockno)

structure Bcache (D : Type) where
  buf : BufId → Buf D
  links : Links Node

/-- What stops the kernel; a walk along the list that does not come back to the head is an
endless loop. -/
inductive Halt where
  | noBuffers
  | bwrite
  | brelse
  | endless
  deriving DecidableEq, Repr

variable {D : Type}

namespace Bcache

def set (c : Bcache D) (b : BufId) (new : Buf D) : Bcache D :=
  { c with buf := update c.buf b new }

def binit (zero : D) : Bcache D where
  buf := fun _ => { data := zero }
  links := (List.finRange NBUF).foldl (fun r b => r.insertFront none (some b)) (Links.empty none)

/-- A test of a node in one of the two loops of `bget`. -/
def nodeTest (c : Bcache D) (test : Buf D → Bool) : Node → Bool
  | none => false
  | some b => test (c.buf b)

/-- A loop over the list in the direction of `step`. -/
def search (c : Bcache D) (step : Node → Node) (test : Buf D → Bool) : Except Halt (Option BufId) :=
  match walk step none (c.nodeTest test) (NBUF + 1) (step none) with
  | none => .error .endless
  | some found => .ok found.join

/-- The section of `bget` under `bcache.lock`: the buffer, and whether it was recycled. -/
def bget (c : Bcache D) (dev blockno : Nat) : Except Halt (BufId × Bool × Bcache D) := do
  match ← c.search c.links.next (fun b => b.dev = dev ∧ b.blockno = blockno) with
  | some b => .ok (b, false, c.set b { c.buf b with refcnt := (c.buf b).refcnt + 1 })
  | none =>
    match ← c.search c.links.prev (fun b => b.refcnt = 0) with
    | some b =>
      .ok (b, true,
        c.set b { c.buf b with dev := dev, blockno := blockno, valid := false, refcnt := 1 })
    | none => .error .noBuffers

/-- The section of `brelse` under `bcache.lock`. -/
def brelse (c : Bcache D) (b : BufId) : Bcache D :=
  let c := c.set b { c.buf b with refcnt := (c.buf b).refcnt - 1 }
  if (c.buf b).refcnt = 0 then
    { c with links := (c.links.unlink (some b)).insertFront none (some b) }
  else c

def bpin (c : Bcache D) (b : BufId) : Bcache D :=
  c.set b { c.buf b with refcnt := (c.buf b).refcnt + 1 }

def bunpin (c : Bcache D) (b : BufId) : Bcache D :=
  c.set b { c.buf b with refcnt := (c.buf b).refcnt - 1 }

def holdingsleep (c : Bcache D) (b : BufId) (pid : Nat) : Bool := (c.buf b).lock = some pid

end Bcache

/-- How far a call of `bread` has come. -/
inductive Stage where
  | idle
  /-- `bget` has counted the call and waits for the sleep lock -/
  | waiting (b : BufId)
  /-- `bget` has returned -/
  | entered (b : BufId)
  /-- `bread` has returned -/
  | holding (b : BufId)
  /-- inside `brelse`, the sleep lock is released -/
  | releasing (b : BufId)
  deriving DecidableEq

namespace Stage

def buf : Stage → Option BufId
  | .idle => none
  | .waiting b | .entered b | .holding b | .releasing b => some b

/-- The buffer whose sleep lock a call holds. -/
def locked : Stage → Option BufId
  | .entered b | .holding b => some b
  | .idle | .waiting _ | .releasing _ => none

end Stage

/-- The cache, the disk and the calls. The last three fields are a record that no code
reads: the block a call has asked for, the number of `bpin`s without their `bunpin`, and
the contents that the last holder of a block has left in its buffer, `none` once the buffer
has been recycled. -/
structure State (T D : Type) where
  bcache : Bcache D
  disk : Nat × Nat → D
  stage : T → Stage
  wants : T → Nat × Nat
  pins : BufId → Nat
  left : Nat × Nat → Option D

inductive Action (T D : Type) where
  | bget (t : T) (dev blockno : Nat)
  | acquiresleep (t : T)
  /-- the rest of `bread`: read the block if the buffer is not valid -/
  | fill (t : T)
  | modify (t : T) (data : D)
  | bwrite (t : T)
  /-- the first half of `brelse` -/
  | releasesleep (t : T)
  | brelse (t : T)
  | bpin (t : T)
  | bunpin (t : T)

def Action.call {T : Type} : Action T D → T
  | .bget t _ _ | .acquiresleep t | .fill t | .modify t _ | .bwrite t | .releasesleep t
  | .brelse t | .bpin t | .bunpin t => t

namespace State

variable {T : Type} [DecidableEq T]

def buf (s : State T D) (b : BufId) : Buf D := s.bcache.buf b

def goTo (s : State T D) (t : T) (stage : Stage) : State T D :=
  { s with stage := update s.stage t stage }

def setBuf (s : State T D) (b : BufId) (new : Buf D) : State T D :=
  { s with bcache := s.bcache.set b new }

/-- A buffer is recycled: what was left in it is gone. -/
def forget (s : State T D) (b : BufId) : State T D :=
  { s with left := update s.left (s.buf b).block none }

def bget (s : State T D) (t : T) (dev blockno : Nat) : Except Halt (State T D) := do
  let (b, recycled, c) ← s.bcache.bget dev blockno
  let s := if recycled then s.forget b else s
  .ok { s.goTo t (.waiting b) with
    bcache := c
    wants := update s.wants t (dev, blockno) }

/-- `virtio_disk_rw(b, 0)` if the buffer is not valid. -/
def fill (s : State T D) (b : BufId) : Buf D :=
  if (s.buf b).valid then s.buf b
  else { s.buf b with data := s.disk (s.buf b).block, valid := true }

/-- One step, or `none` where it cannot be taken. `bwrite` and `brelse` are called by the
holder, and every `bunpin` has its `bpin`. -/
def step (owner : T → Nat) (s : State T D) : Action T D → Option (Except Halt (State T D))
  | .bget t dev blockno =>
    if s.stage t = .idle ∧ dev ≠ 0 then some (s.bget t dev blockno) else none
  | .acquiresleep t =>
    match s.stage t with
    | .waiting b =>
      if (s.buf b).lock = none then
        some (.ok ((s.setBuf b { s.buf b with lock := some (owner t) }).goTo t (.entered b)))
      else none
    | _ => none
  | .fill t =>
    match s.stage t with
    | .entered b => some (.ok ((s.setBuf b (s.fill b)).goTo t (.holding b)))
    | _ => none
  | .modify t data =>
    match s.stage t with
    | .holding b => some (.ok (s.setBuf b { s.buf b with data := data }))
    | _ => none
  | .bwrite t =>
    match s.stage t with
    | .holding b =>
      if s.bcache.holdingsleep b (owner t) then
        some (.ok { s with disk := update s.disk (s.buf b).block (s.buf b).data })
      else some (.error .bwrite)
    | _ => none
  | .releasesleep t =>
    match s.stage t with
    | .holding b =>
      if s.bcache.holdingsleep b (owner t) then
        some (.ok { (s.setBuf b { s.buf b with lock := none }).goTo t (.releasing b) with
          left := update s.left (s.buf b).block (some (s.buf b).data) })
      else some (.error .brelse)
    | _ => none
  | .brelse t =>
    match s.stage t with
    | .releasing b => some (.ok { s.goTo t .idle with bcache := s.bcache.brelse b })
    | _ => none
  | .bpin t =>
    match s.stage t with
    | .holding b =>
      some (.ok { s with
        bcache := s.bcache.bpin b
        pins := update s.pins b (s.pins b + 1) })
    | _ => none
  | .bunpin t =>
    match s.stage t with
    | .holding b =>
      if 0 < s.pins b then
        some (.ok { s with
          bcache := s.bcache.bunpin b
          pins := update s.pins b (s.pins b - 1) })
      else none
    | _ => none

def init (zero : D) (disk : Nat × Nat → D) : State T D where
  bcache := .binit zero
  disk := disk
  stage := fun _ => .idle
  wants := fun _ => (0, 0)
  pins := fun _ => 0
  left := fun _ => none

inductive Reachable (owner : T → Nat) : State T D → Prop
  | init (zero : D) (disk : Nat × Nat → D) : Reachable owner (init zero disk)
  | step {s s' : State T D} (reached : Reachable owner s) (action : Action T D)
      (returned : s.step owner action = some (.ok s')) : Reachable owner s'

end State

end Xv6.Bio

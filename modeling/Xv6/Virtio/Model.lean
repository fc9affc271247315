import Xv6.Library.RingBuffer

/-!
# The disk driver and its device

A step is what a holder of `vdisk_lock` does between two points where the device can matter:
the section of `virtio_disk_rw` up to its `sleep`, or one round of `virtio_disk_intr`. The
device completes the chains of the avail ring once each, in any order, and writes the status byte
before it appends the head to the used ring. The callers in `bio.c` hold the sleep lock of the
buffer, so there is at most one call for a buffer. No step depends on the numbers of the requests
and the histories.
-/

namespace Xv6.Virtio

open RingBuffer
open Function

abbrev NUM : Nat := 8

def VRING_DESC_F_NEXT : BitVec 16 := 1

def VRING_DESC_F_WRITE : BitVec 16 := 2

/-- What a descriptor points to: `disk.ops[i]`, `b->data` or `disk.info[i].status`. -/
inductive Addr (B : Type) where
  | null
  | op (i : Fin NUM)
  | data (b : B)
  | status (i : Fin NUM)
  deriving DecidableEq, Repr

/-- `struct virtq_desc`. -/
structure Desc (B : Type) where
  addr : Addr B := .null
  len : BitVec 32 := 0
  flags : BitVec 16 := 0
  next : BitVec 16 := 0
  deriving DecidableEq, Repr

inductive Kind where
  | VIRTIO_BLK_T_IN
  | VIRTIO_BLK_T_OUT
  deriving DecidableEq, Repr

/-- `struct virtio_blk_req`. -/
structure BlkReq where
  type : Kind := .VIRTIO_BLK_T_IN
  reserved : BitVec 32 := 0
  sector : BitVec 64 := 0
  deriving DecidableEq, Repr

/-- `struct disk` with the rings it points to, and `b->disk` of each buffer. -/
structure Disk (B : Type) where
  desc : Fin NUM → Desc B
  availRing : Fin NUM → BitVec 16
  availIdx : BitVec 16
  usedRing : Fin NUM → BitVec 32
  usedRingIdx : BitVec 16
  free : Fin NUM → Bool
  usedIdx : BitVec 16
  infoB : Fin NUM → Option B
  infoStatus : Fin NUM → BitVec 8
  ops : Fin NUM → BlkReq
  bufDisk : B → Bool

inductive Panic where
  | freeDesc1
  | freeDesc2
  | intrStatus
  /-- An index outside of `info`, or a null `struct buf *`. -/
  | wild
  | neverReturns
  deriving DecidableEq, Repr

structure Chain where
  idx0 : Fin NUM
  idx1 : Fin NUM
  idx2 : Fin NUM
  deriving DecidableEq, Repr

def Chain.all (chain : Chain) : List (Fin NUM) := [chain.idx0, chain.idx1, chain.idx2]

/-- A descriptor number as a `uint16`. -/
def number (i : Fin NUM) : BitVec 16 := BitVec.ofNat 16 i

namespace Disk

variable {B : Type}

/-- After `virtio_disk_init`. -/
def init : Disk B where
  desc := fun _ => {}
  availRing := fun _ => 0
  availIdx := 0
  usedRing := fun _ => 0
  usedRingIdx := 0
  free := fun _ => true
  usedIdx := 0
  infoB := fun _ => none
  infoStatus := fun _ => 0
  ops := fun _ => {}
  bufDisk := fun _ => false

/-! ## Descriptors -/

def allocDesc (d : Disk B) : Option (Fin NUM × Disk B) :=
  ((List.finRange NUM).find? fun i => d.free i).map fun i =>
    (i, { d with free := update d.free i false })

def freeDesc (d : Disk B) (i : Nat) : Except Panic (Disk B) :=
  if inside : i < NUM then
    if d.free ⟨i, inside⟩ then .error .freeDesc2
    else
      .ok { d with
        desc := update d.desc ⟨i, inside⟩ {}
        free := update d.free ⟨i, inside⟩ true }
  else .error .freeDesc1

/-- The loop of `free_chain`. Each round frees a descriptor that was not free, so `NUM + 1`
rounds are never completed. -/
def freeChain : Nat → Nat → Disk B → Except Panic (Disk B)
  | 0, _, _ => .error .neverReturns
  | rounds + 1, i, d =>
    if inside : i < NUM then do
      let old := d.desc ⟨i, inside⟩
      let d ← d.freeDesc i
      if old.flags &&& VRING_DESC_F_NEXT ≠ 0 then freeChain rounds old.next.toNat d else .ok d
    else .error .freeDesc1

/-- `alloc3_desc`, with its loop unrolled. -/
def alloc3Desc (d : Disk B) : Except Panic (Option Chain × Disk B) :=
  match d.allocDesc with
  | none => .ok (none, d)
  | some (idx0, d) =>
    match d.allocDesc with
    | none => do
        let d ← d.freeDesc idx0
        .ok (none, d)
    | some (idx1, d) =>
      match d.allocDesc with
      | none => do
          let d ← d.freeDesc idx0
          let d ← d.freeDesc idx1
          .ok (none, d)
      | some (idx2, d) => .ok (some ⟨idx0, idx1, idx2⟩, d)

/-! ## Requests -/

variable [DecidableEq B]

/-- `virtio_disk_rw` from the three descriptors to the notification of the device. -/
def submit (d : Disk B) (chain : Chain) (b : B) (blockno : BitVec 32) (write : Bool) : Disk B :=
  let op : BlkReq :=
    { type := if write then .VIRTIO_BLK_T_OUT else .VIRTIO_BLK_T_IN
      reserved := 0
      sector := (blockno * 2).setWidth 64 }
  let header : Desc B :=
    { addr := .op chain.idx0, len := 16, flags := VRING_DESC_F_NEXT, next := number chain.idx1 }
  let block : Desc B :=
    { addr := .data b
      len := 1024
      flags := (if write then 0 else VRING_DESC_F_WRITE) ||| VRING_DESC_F_NEXT
      next := number chain.idx2 }
  let status : Desc B :=
    { addr := .status chain.idx0, len := 1, flags := VRING_DESC_F_WRITE, next := 0 }
  { d with
    ops := update d.ops chain.idx0 op
    desc := update (update (update d.desc chain.idx0 header) chain.idx1 block) chain.idx2 status
    infoStatus := update d.infoStatus chain.idx0 0xff
    bufDisk := update d.bufDisk b true
    infoB := update d.infoB chain.idx0 (some b)
    availRing := update d.availRing (slot NUM d.availIdx) (number chain.idx0)
    availIdx := d.availIdx + 1 }

/-- `virtio_disk_rw` after its wait. -/
def finish (d : Disk B) (chain : Chain) : Except Panic (Disk B) := freeChain (NUM + 1) chain.idx0
    { d with infoB := update d.infoB chain.idx0 none }

/-- One round of `virtio_disk_intr`: the buffer whose request is done. -/
def intrRound (d : Disk B) : Except Panic (Option (B × Disk B)) :=
  if d.usedIdx = d.usedRingIdx then .ok none
  else
    let id := (d.usedRing (slot NUM d.usedIdx)).toNat
    if inside : id < NUM then
      if d.infoStatus ⟨id, inside⟩ ≠ 0 then .error .intrStatus
      else
        match d.infoB ⟨id, inside⟩ with
        | none => .error .wild
        | some b =>
          .ok (some (b, { d with
            bufDisk := update d.bufDisk b false
            usedIdx := d.usedIdx + 1 }))
    else .error .wild

/-- The last descriptor of a chain, as the device follows it. -/
def lastDesc (d : Disk B) : Nat → BitVec 16 → Desc B
  | 0, i => d.desc (slot NUM i)
  | links + 1, i =>
    if (d.desc (slot NUM i)).flags &&& VRING_DESC_F_NEXT ≠ 0 then
      lastDesc d links (d.desc (slot NUM i)).next
    else d.desc (slot NUM i)

end Disk

/-! ## Interleavings -/

/-- Where a process is in `virtio_disk_rw`: at `alloc3_desc`, or waiting for the request of the
given number. -/
inductive Call (B : Type) where
  | idle
  | alloc (b : B) (blockno : BitVec 32) (write : Bool)
  | wait (k : Nat) (b : B) (chain : Chain)

def Call.buf {B : Type} : Call B → Option B
  | .idle => none
  | .alloc b _ _ => some b
  | .wait _ b _ => some b

/-- A request that the device has taken: its head, the address of its status byte, and whether
that byte has been written. -/
structure Job (B : Type) where
  request : Nat
  head : BitVec 16
  status : Addr B
  written : Bool

structure Request (P B : Type) where
  p : P
  b : B
  chain : Chain

structure State (P B : Type) where
  disk : Disk B
  calls : P → Call B
  /-- A call for the buffer is in progress. -/
  busy : B → Bool
  /-- `virtio_disk_intr` holds `vdisk_lock`. -/
  handling : Bool
  /-- How far the device has looked in the avail ring. -/
  seen : BitVec 16
  jobs : List (Job B)
  requests : List (Request P B)
  taken : Nat
  completed : List Nat
  cleared : List B
  returned : List Nat

inductive Event (P B : Type) where
  /-- The process calls `virtio_disk_rw`. -/
  | call (p : P) (b : B) (blockno : BitVec 32) (write : Bool)
  /-- The process holds `vdisk_lock` until it sleeps or returns. -/
  | hold (p : P)
  /-- `virtio_disk_intr` acquires `vdisk_lock`. -/
  | intr
  /-- A round of its loop; after the last it releases the lock. -/
  | round
  /-- The device takes the next head from the avail ring. -/
  | take
  /-- The device writes the status byte of its `i`th job. -/
  | status (i : Nat)
  /-- The device appends the head of its `i`th job to the used ring. -/
  | append (i : Nat)

namespace State

variable {P B : Type}

def init : State P B where
  disk := .init
  calls := fun _ => .idle
  busy := fun _ => false
  handling := false
  seen := 0
  jobs := []
  requests := []
  taken := 0
  completed := []
  cleared := []
  returned := []

variable [DecidableEq P] [DecidableEq B]

/-- A process in `virtio_disk_rw` that has `vdisk_lock`. -/
def hold (s : State P B) (p : P) : Except Panic (State P B) :=
  match s.calls p with
  | .idle => .ok s
  | .alloc b blockno write => do
      match ← s.disk.alloc3Desc with
      | (none, d) => .ok { s with disk := d }
      | (some chain, d) =>
        .ok { s with
          disk := d.submit chain b blockno write
          calls := update s.calls p (.wait s.requests.length b chain)
          requests := s.requests ++ [⟨p, b, chain⟩] }
  | .wait k b chain =>
    if s.disk.bufDisk b then .ok s
    else do
      let d ← s.disk.finish chain
      .ok { s with
        disk := d
        calls := update s.calls p .idle
        busy := update s.busy b false
        returned := s.returned ++ [k] }

def writeStatus (s : State P B) (addr : Addr B) : Disk B :=
  match addr with
  | .status i => { s.disk with infoStatus := update s.disk.infoStatus i 0 }
  | _ => s.disk

/-- The step of an event; an event that does not apply changes nothing. -/
def step (s : State P B) : Event P B → Except Panic (State P B)
  | .call p b blockno write =>
    match s.calls p with
    | .idle =>
      if s.busy b then .ok s
      else
        .ok { s with
          calls := update s.calls p (.alloc b blockno write)
          busy := update s.busy b true }
    | _ => .ok s
  | .hold p => if s.handling then .ok s else s.hold p
  | .intr => .ok { s with handling := true }
  | .round =>
    if s.handling then do
      match ← s.disk.intrRound with
      | none => .ok { s with handling := false }
      | some (b, d) => .ok { s with disk := d, cleared := s.cleared ++ [b] }
    else .ok s
  | .take =>
    if s.seen = s.disk.availIdx then .ok s
    else
      let head := s.disk.availRing (slot NUM s.seen)
      .ok { s with
        seen := s.seen + 1
        taken := s.taken + 1
        jobs := s.jobs ++ [{
          request := s.taken
          head
          status := (s.disk.lastDesc NUM head).addr
          written := false }] }
  | .status i =>
    match s.jobs[i]? with
    | none => .ok s
    | some job =>
      .ok { s with
        disk := s.writeStatus job.status
        jobs := s.jobs.set i { job with written := true } }
  | .append i =>
    match s.jobs[i]? with
    | none => .ok s
    | some job =>
      if job.written then
        .ok { s with
          disk := { s.disk with
            usedRing := update s.disk.usedRing (slot NUM s.disk.usedRingIdx) (job.head.setWidth 32)
            usedRingIdx := s.disk.usedRingIdx + 1 }
          jobs := s.jobs.eraseIdx i
          completed := s.completed ++ [job.request] }
      else .ok s

def run (events : List (Event P B)) : Except Panic (State P B) := events.foldlM step init

end State

end Xv6.Virtio

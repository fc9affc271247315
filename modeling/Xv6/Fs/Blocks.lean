import Xv6.Library.Ledger

/-!
# Blocks of the file system

`balloc`, `bmap`, `itrunc`, `readi`, `writei` and the functions around them, on a disk of the
free bitmap, the blocks read as arrays of block numbers, and the inodes. The in-memory copy of
an inode is kept apart: only `iupdate` brings its changes to the disk. A copy of data puts
some contents into the block it was meant for, and may fail.
-/

namespace Xv6.Blocks

open Function

abbrev NDIRECT : Nat := 12

abbrev NINDIRECT : Nat := 256

def MAXFILE : Nat := NDIRECT + NINDIRECT

def BSIZE : Nat := 1024

theorem MAXFILE_eq : MAXFILE = 268 := rfl

theorem BSIZE_eq : BSIZE = 1024 := rfl

/-- The fields of `struct superblock` that are used; the blocks below `nmeta` are the
boot block, the super block, the log, the inodes and the bitmap. -/
structure Superblock where
  size : Nat
  ninodes : Nat
  nmeta : Nat

inductive Panic where
  | freeingFreeBlock
  | bmapOutOfRange
  | ilockNoType
  deriving DecidableEq, Repr

/-- The type of an inode, which is 0 if the inode is free. -/
inductive FileType where
  | free
  | dir
  | file
  | device
  deriving DecidableEq, Repr

/-- `struct dinode` without the device numbers; an address of 0 is no block. -/
structure Dinode where
  type : FileType := .free
  nlink : BitVec 16 := 0
  size : Nat := 0
  addrs : Fin (NDIRECT + 1) → Nat := fun _ => 0

/-- The index of the indirect block in `addrs`. -/
def indirect : Fin (NDIRECT + 1) := Fin.last NDIRECT

/-- The contents of a block as an array of block numbers. -/
abbrev Contents := Fin NINDIRECT → Nat

structure Disk where
  bitmap : Nat → Bool
  blocks : Nat → Contents
  dinodes : Nat → Dinode

namespace Disk

/-- `balloc`; a result of 0 means that the disk is full. -/
def balloc (sb : Superblock) (d : Disk) : Nat × Disk :=
  match (List.range sb.size).find? (fun b => !d.bitmap b) with
  | none => (0, d)
  | some b =>
    (b, { d with
      bitmap := update d.bitmap b true
      blocks := update d.blocks b fun _ => 0 })

def bfree (d : Disk) (b : Nat) : Except Panic Disk :=
  if d.bitmap b then .ok { d with bitmap := update d.bitmap b false }
  else .error .freeingFreeBlock

def iupdate (d : Disk) (inum : Nat) (ip : Dinode) : Disk :=
  { d with dinodes := update d.dinodes inum ip }

end Disk

/-! ## Blocks of one inode -/

/-- `bmap` of a block number that `addrs` holds directly, or of the indirect block. -/
def bmapDirect (sb : Superblock) (ip : Dinode) (k : Fin (NDIRECT + 1)) (d : Disk) :
    Nat × Dinode × Disk :=
  if ip.addrs k = 0 then
    match d.balloc sb with
    | (0, d) => (0, ip, d)
    | (addr + 1, d) =>
      (addr + 1, { ip with addrs := update ip.addrs k (addr + 1) }, d)
  else (ip.addrs k, ip, d)

/-- `bmap` of an entry of the indirect block `table`. -/
def bmapEntry (sb : Superblock) (table : Nat) (j : Fin NINDIRECT) (d : Disk) : Nat × Disk :=
  if d.blocks table j = 0 then
    match d.balloc sb with
    | (0, d) => (0, d)
    | (addr + 1, d) =>
      (addr + 1, { d with
        blocks := update d.blocks table
          (update (d.blocks table) j (addr + 1)) })
  else (d.blocks table j, d)

/-- `bmap`; a result of 0 means that the disk is full. -/
def bmap (sb : Superblock) (ip : Dinode) (bn : Nat) (d : Disk) :
    Except Panic (Nat × Dinode × Disk) :=
  if direct : bn < NDIRECT then .ok (bmapDirect sb ip ⟨bn, by omega⟩ d)
  else if inside : bn - NDIRECT < NINDIRECT then
    match bmapDirect sb ip indirect d with
    | (0, ip, d) => .ok (0, ip, d)
    | (table + 1, ip, d) =>
      match bmapEntry sb (table + 1) ⟨bn - NDIRECT, inside⟩ d with
      | (addr, d) => .ok (addr, ip, d)
  else .error .bmapOutOfRange

/-- One round of the first loop of `itrunc`. -/
def truncDirect (state : Dinode × Disk) (i : Fin NDIRECT) : Except Panic (Dinode × Disk) :=
  if state.1.addrs i.castSucc = 0 then .ok state
  else
    match state.2.bfree (state.1.addrs i.castSucc) with
    | .error e => .error e
    | .ok d =>
      .ok ({ state.1 with addrs := update state.1.addrs i.castSucc 0 }, d)

/-- One round of the second loop of `itrunc`, over the contents `a` of the indirect
block. -/
def truncEntry (a : Contents) (d : Disk) (j : Fin NINDIRECT) : Except Panic Disk :=
  if a j = 0 then .ok d else d.bfree (a j)

def truncIndirect (ip : Dinode) (d : Disk) : Except Panic (Dinode × Disk) :=
  if ip.addrs indirect = 0 then .ok (ip, d)
  else do
    let d ← (List.finRange NINDIRECT).foldlM (truncEntry (d.blocks (ip.addrs indirect))) d
    let d ← d.bfree (ip.addrs indirect)
    .ok ({ ip with addrs := update ip.addrs indirect 0 }, d)

def itrunc (inum : Nat) (ip : Dinode) (d : Disk) : Except Panic (Dinode × Disk) := do
  let (ip, d) ← (List.finRange NDIRECT).foldlM truncDirect (ip, d)
  let (ip, d) ← truncIndirect ip d
  let ip := { ip with size := 0 }
  .ok (ip, d.iupdate inum ip)

/-! ## Reading and writing -/

/-- What `either_copyin` leaves in the block at a block number of the file, and whether
it succeeds. -/
structure Copy where
  contents : Nat → Contents
  ok : Nat → Bool

/-- The loop of `writei` from `off` on, with `left` bytes to go; a round moves at least one
byte. -/
def writeiLoop (sb : Superblock) (copy : Copy) :
    (rounds off left : Nat) → Dinode → Disk → Except Panic (Nat × Nat × Dinode × Disk)
  | 0, off, left, ip, d => .ok (off, left, ip, d)
  | rounds + 1, off, left, ip, d =>
    if left = 0 then .ok (off, left, ip, d)
    else do
      let (addr, ip, d) ← bmap sb ip (off / BSIZE) d
      if addr = 0 then return (off, left, ip, d)
      let m := min left (BSIZE - off % BSIZE)
      let d := { d with
        blocks := update d.blocks addr (copy.contents (off / BSIZE)) }
      if copy.ok (off / BSIZE) then writeiLoop sb copy rounds (off + m) (left - m) ip d
      else return (off, left, ip, d)

/-- `writei` of `n` bytes at `off`, both `uint`: its result, the inode and the disk. -/
def writei (sb : Superblock) (copy : Copy) (inum off n : Nat) (ip : Dinode) (d : Disk) :
    Except Panic (Int × Dinode × Disk) :=
  if ip.size < off ∨ (off + n) % 2 ^ 32 < off then .ok (-1, ip, d)
  else if MAXFILE * BSIZE < (off + n) % 2 ^ 32 then .ok (-1, ip, d)
  else do
    let (off, left, ip, d) ← writeiLoop sb copy n off n ip d
    let ip := if ip.size < off then { ip with size := off } else ip
    .ok ((n - left : Nat), ip, d.iupdate inum ip)

/-- The loop of `readi`; `ok` are the outcomes of `either_copyout`. -/
def readiLoop (sb : Superblock) (ok : Nat → Bool) :
    (rounds off left : Nat) → Dinode → Disk → Except Panic (Option Nat × Dinode × Disk)
  | 0, _, left, ip, d => .ok (some left, ip, d)
  | rounds + 1, off, left, ip, d =>
    if left = 0 then .ok (some left, ip, d)
    else do
      let (addr, ip, d) ← bmap sb ip (off / BSIZE) d
      if addr = 0 then return (some left, ip, d)
      let m := min left (BSIZE - off % BSIZE)
      if ok (off / BSIZE) then readiLoop sb ok rounds (off + m) (left - m) ip d
      else return (none, ip, d)

/-- `readi` of `n` bytes at `off`: its result, the inode in memory and the disk. -/
def readi (sb : Superblock) (ok : Nat → Bool) (off n : Nat) (ip : Dinode) (d : Disk) :
    Except Panic (Int × Dinode × Disk) :=
  if ip.size < off ∨ (off + n) % 2 ^ 32 < off then .ok (0, ip, d)
  else do
    let n := if ip.size < (off + n) % 2 ^ 32 then ip.size - off else n
    let (left, ip, d) ← readiLoop sb ok n off n ip d
    .ok (match left with | none => -1 | some left => (n - left : Nat), ip, d)

/-! ## Reading outside a transaction

`fileread` and `mmapfault` call `readi` without `begin_op`, where `balloc` would end in the
panic "log_write outside of trans". -/

/-- What stops a read outside a transaction. -/
inductive Stop where
  | balloc
  | bmapOutOfRange
  deriving DecidableEq, Repr

/-- A block number that `bmap` has looked up; for 0 it goes on to `balloc`. -/
def present (addr : Nat) : Except Stop Nat :=
  if addr = 0 then .error .balloc else .ok addr

theorem present_eq_ok {addr b : Nat} : present addr = .ok b ↔ addr ≠ 0 ∧ addr = b := by
  unfold present
  split <;> simp_all

/-- `bmap`, stopped before it allocates. -/
def bmapOutside (ip : Dinode) (bn : Nat) (d : Disk) : Except Stop Nat :=
  if direct : bn < NDIRECT then present (ip.addrs ⟨bn, by omega⟩)
  else if inside : bn - NDIRECT < NINDIRECT then do
    let table ← present (ip.addrs indirect)
    present (d.blocks table ⟨bn - NDIRECT, inside⟩)
  else .error .bmapOutOfRange

/-- The loop of `readi` over such a `bmap`. -/
def readiLoopOutside (ok : Nat → Bool) :
    (rounds off left : Nat) → Dinode → Disk → Except Stop (Option Nat)
  | 0, _, left, _, _ => .ok (some left)
  | rounds + 1, off, left, ip, d =>
    if left = 0 then .ok (some left)
    else do
      let _ ← bmapOutside ip (off / BSIZE) d
      let m := min left (BSIZE - off % BSIZE)
      if ok (off / BSIZE) then readiLoopOutside ok rounds (off + m) (left - m) ip d
      else return none

/-- `readi` over such a `bmap`. -/
def readiOutside (ok : Nat → Bool) (off n : Nat) (ip : Dinode) (d : Disk) : Except Stop Int :=
  if ip.size < off ∨ (off + n) % 2 ^ 32 < off then .ok 0
  else do
    let n := if ip.size < (off + n) % 2 ^ 32 then ip.size - off else n
    let left ← readiLoopOutside ok n off n ip d
    .ok (match left with | none => -1 | some left => (n - left : Nat))

/-! ## The inode table -/

/-- An entry of `itable`, by inode number: `struct inode`. -/
structure Inode where
  ref : Nat := 0
  valid : Bool := false
  copy : Dinode := {}

structure FsState where
  disk : Disk
  itable : Nat → Inode

namespace FsState

def setInode (s : FsState) (inum : Nat) (ip : Inode) : FsState :=
  { s with itable := update s.itable inum ip }

/-- `iget`, also `idup`. -/
def iget (s : FsState) (inum : Nat) : FsState :=
  let ip := s.itable inum
  s.setInode inum
    (if ip.ref = 0 then { ip with ref := 1, valid := false } else { ip with ref := ip.ref + 1 })

/-- `ialloc`; the state stays as it is if there is no free inode. -/
def ialloc (sb : Superblock) (s : FsState) (type : FileType) : FsState :=
  match (List.range sb.ninodes).find? (fun i => i ≠ 0 && (s.disk.dinodes i).type == .free) with
  | none => s
  | some inum => { s with disk := s.disk.iupdate inum { type := type } }.iget inum

def ilock (s : FsState) (inum : Nat) : Except Panic FsState :=
  if (s.itable inum).valid then .ok s
  else if (s.disk.dinodes inum).type = .free then .error .ilockNoType
  else .ok (s.setInode inum { s.itable inum with valid := true, copy := s.disk.dinodes inum })

/-- The in-memory inode and the disk after a function has worked on them. -/
def replace (s : FsState) (inum : Nat) (ip : Dinode) (d : Disk) : FsState :=
  { s with
    disk := d
    itable := update s.itable inum { s.itable inum with copy := ip } }

def iput (s : FsState) (inum : Nat) : Except Panic FsState :=
  let ip := s.itable inum
  if ip.ref = 1 ∧ ip.valid ∧ ip.copy.nlink = 0 then do
    let (copy, d) ← itrunc inum ip.copy s.disk
    let copy := { copy with type := .free }
    .ok { disk := d.iupdate inum copy
          itable := update s.itable inum { ref := 0, valid := false, copy := copy } }
  else .ok (s.setInode inum { ip with ref := ip.ref - 1 })

end FsState

/-- What the system calls do to blocks and inodes, one function at a time. -/
inductive Op where
  | ialloc (type : FileType)
  | iget (inum : Nat)
  | ilock (inum : Nat)
  | readi (inum : Nat) (ok : Nat → Bool) (off n : Nat)
  | writei (inum : Nat) (copy : Copy) (off n : Nat)
  | itrunc (inum : Nat)
  -- a new link count in a locked inode
  | iupdate (inum : Nat) (nlink : BitVec 16)
  | iput (inum : Nat)

namespace FsState

/-- The caller holds a reference, and has the inode locked where the function needs it. -/
def Allowed (sb : Superblock) (s : FsState) : Op → Prop
  | .ialloc type => type ≠ .free
  | .iget inum => inum < sb.ninodes
  | .ilock inum => 1 ≤ (s.itable inum).ref
  | .readi inum _ off n | .writei inum _ off n =>
    1 ≤ (s.itable inum).ref ∧ (s.itable inum).valid = true ∧ off < 2 ^ 32 ∧ n < 2 ^ 32
  | .itrunc inum | .iupdate inum _ =>
    1 ≤ (s.itable inum).ref ∧ (s.itable inum).valid = true
  | .iput inum => 1 ≤ (s.itable inum).ref

def step (sb : Superblock) (s : FsState) : Op → Except Panic FsState
  | .ialloc type => .ok (s.ialloc sb type)
  | .iget inum => .ok (s.iget inum)
  | .ilock inum => s.ilock inum
  | .readi inum ok off n => do
      let (_, ip, d) ← Blocks.readi sb ok off n (s.itable inum).copy s.disk
      .ok (s.replace inum ip d)
  | .writei inum copy off n => do
      let (_, ip, d) ← Blocks.writei sb copy inum off n (s.itable inum).copy s.disk
      .ok (s.replace inum ip d)
  | .itrunc inum => do
      let (ip, d) ← Blocks.itrunc inum (s.itable inum).copy s.disk
      .ok (s.replace inum ip d)
  | .iupdate inum nlink =>
    let ip := { (s.itable inum).copy with nlink := nlink }
    .ok (s.replace inum ip (s.disk.iupdate inum ip))
  | .iput inum => s.iput inum

end FsState

/-! ## Who refers to a block -/

/-- A place where a block number is kept: an element of `addrs`, or an entry of the
indirect block. -/
abbrev Slot := Nat × (Fin (NDIRECT + 1) ⊕ Fin NINDIRECT)

/-- A block number, unless it is 0. -/
def address (b : Nat) : Option Nat :=
  if b = 0 then none else some b

/-- The blocks that an allocated inode refers to. -/
def Dinode.slots (ip : Dinode) (blocks : Nat → Contents) :
    Fin (NDIRECT + 1) ⊕ Fin NINDIRECT → Option Nat
  | .inl k => if ip.type = .free then none else address (ip.addrs k)
  | .inr j =>
    if ip.type = .free ∨ ip.addrs indirect = 0 then none
    else address (blocks (ip.addrs indirect) j)

/-- The block that a slot refers to. -/
def holds (inodes : Nat → Dinode) (blocks : Nat → Contents) (slot : Slot) : Option Nat :=
  (inodes slot.1).slots blocks slot.2

def dataSlot (bn : Nat) : Option (Fin (NDIRECT + 1) ⊕ Fin NINDIRECT) :=
  if direct : bn < NDIRECT then some (.inl ⟨bn, by omega⟩)
  else if inside : bn - NDIRECT < NINDIRECT then some (.inr ⟨bn - NDIRECT, inside⟩)
  else none

/-- A file system as `mkfs` makes it, before any inode is in memory: the bitmap is exact,
and every block of a file below its size exists. -/
structure WellFormed (sb : Superblock) (s : FsState) : Prop where
  bootBlock : 0 < sb.nmeta
  exact : Ledger.Exact s.disk.bitmap (fun b => b < sb.nmeta) (holds s.disk.dinodes s.disk.blocks)
  sizes : ∀ i, (s.disk.dinodes i).type ≠ .free → (s.disk.dinodes i).size ≤ MAXFILE * BSIZE
  filled : ∀ i bn, (s.disk.dinodes i).type ≠ .free → BSIZE * bn < (s.disk.dinodes i).size →
    ∃ k b, dataSlot bn = some k ∧ holds s.disk.dinodes s.disk.blocks (i, k) = some b
  noneInMemory : ∀ i, (s.itable i).ref = 0 ∧ (s.itable i).valid = false

inductive FsReachable (sb : Superblock) : FsState → Prop
  | image {s : FsState} (wellFormed : WellFormed sb s) : FsReachable sb s
  | step {s s' : FsState} (before : FsReachable sb s) (op : Op) (allowed : s.Allowed sb op)
      (returned : s.step sb op = .ok s') : FsReachable sb s'

end Xv6.Blocks

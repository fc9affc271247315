import Xv6.Library.Program
import Xv6.Fs.Directory
import Xv6.Memory.AddressSpace

/-!
# Open files and inodes in memory

A system call is a program whose operations are the sections of `file.c`, `pipe.c`, `fs.c`,
`log.c` and `proc.c` that run under one lock; the calls of all processes are interleaved. What
is on the disk and in user memory is not part of the state: where the code branches on it, the
answer is a reply that can be anything.
-/

namespace Xv6.Files

open Program Memory Function
open Blocks (FileType)
open Directory (Name)

variable {dev inum : Nat}

abbrev NOFILE : Nat := 16

abbrev NFILE : Nat := 100

abbrev NINODE : Nat := 50

instance : NeZero NINODE := ⟨by decide⟩

def ROOTDEV : Nat := 1

/-- `struct file *`. -/
abbrev FileId := Fin NFILE

/-- `struct inode *`. -/
abbrev Ip := Fin NINODE

inductive FdType where
  | none
  | pipe
  | inode
  | device
  deriving DecidableEq, Repr

/-- `struct file`. A pipe is the page that `kalloc` has returned for it; `pipe` and `ip`
keep their last value when they are not in use. -/
structure File where
  type : FdType := .none
  ref : Nat := 0
  readable : Bool := false
  writable : Bool := false
  pipe : Option Nat := none
  ip : Option Ip := none
  deriving DecidableEq, Repr

/-- `struct inode`; `lock` is the process that holds the sleep lock. -/
structure Inode (P : Type) where
  dev : Nat := 0
  inum : Nat := 0
  ref : Nat := 0
  lock : Option P := none
  valid : Bool := false
  type : FileType := .free
  nlink : BitVec 16 := 0#16
  deriving DecidableEq

/-- `readopen` and `writeopen` of `struct pipe`. -/
structure Pipe where
  readopen : Bool := false
  writeopen : Bool := false
  deriving DecidableEq

/-- `UNUSED`, `USED`, the states of a process that runs, and `ZOMBIE`. -/
inductive Status where
  | unused
  | used
  | live
  | zombie
  deriving DecidableEq, Repr

structure Proc where
  status : Status := .unused
  ofile : Fin NOFILE → Option FileId := fun _ => none
  cwd : Option Ip := none
  vmas : Fin NVMA → Vma := fun _ => {}

def vmaFile (v : Vma) : Option FileId :=
  v.f.bind fun n => if inside : n < NFILE then some ⟨n, inside⟩ else none

/-- The tables that the processes share, and their own fields. -/
structure Kernel (P : Type) where
  ftable : FileId → File
  itable : Ip → Inode P
  pipes : Nat → Pipe
  outstanding : Nat
  proc : P → Proc
  initproc : P

inductive Panic where
  | filedup
  | fileclose
  | ilock
  | iunlock
  | igetNoInodes
  | dirlookupNotDir
  | unlinkNlink
  | unlinkWritei
  | fileread
  | filewrite
  | initExiting
  /-- a null pointer is used -/
  | null
  deriving DecidableEq, Repr

/-- What a call asks of the parts that are not modelled: whether it succeeds, or finds what
it looks for. -/
inductive Question where
  | argstr
  | kalloc
  | copyout
  | walkaddr (va : BitVec 64)
  | mappages
  | uvmcopy
  | readi
  | writei
  | devsw
  | majorInRange
  | isdirempty
  | elf
  | loadSegment
  | userStack
  deriving DecidableEq

inductive Op (P : Type) where
  -- file.c
  | filealloc
  | filedup (f : FileId)
  /-- the section of `fileclose` under `ftable.lock`; the reply is the copy `ff` if this was
  the last reference -/
  | fileclose (f : FileId)
  | file (f : FileId)
  | openFile (f : FileId) (type : FdType) (ip : Ip) (readable writable : Bool)
  | openPipe (f : FileId) (pi : Nat) (writable : Bool)
  -- fields of the process itself
  | ofile (fd : Fin NOFILE)
  | setOfile (fd : Fin NOFILE) (f : Option FileId)
  | vmas
  | setVma (i : Fin NVMA) (v : Vma)
  | cwd
  | setCwd (ip : Option Ip)
  -- proc.c
  | isInitproc
  | allocproc
  | freeproc (np : P)
  | npOfile (np : P) (fd : Fin NOFILE) (f : FileId)
  | npVma (np : P) (i : Fin NVMA) (v : Vma)
  | npCwd (np : P) (ip : Ip)
  | markRunnable (np : P)
  | zombie
  /-- `freeproc` of a child that has exited, in `kwait` -/
  | freeChild
  -- pipe.c
  | kallocPipe
  | pipeclose (pi : Nat) (writable : Bool)
  -- fs.c
  | iget (dev inum : Nat)
  | idup (ip : Ip)
  | ilock (ip : Ip)
  | iunlock (ip : Ip)
  /-- `iput` up to the end of its first section: whether the inode is to be freed -/
  | iput (ip : Ip)
  /-- `itrunc`, `iupdate` and `releasesleep` in `iput` -/
  | ifree (ip : Ip)
  /-- `ip->ref--` at the end of `iput` after the inode was freed -/
  | irelease (ip : Ip)
  | inode (ip : Ip)
  | setNlink (ip : Ip) (nlink : BitVec 16)
  /-- the search of `dirlookup`: the number of the inode found -/
  | dirlookup (dp : Ip) (name : Name)
  /-- the search of `ialloc` for a free inode on the disk -/
  | ialloc (dev : Nat)
  -- log.c
  | beginOp
  | endOp
  /-- `readi` of a page of a mapping of a file -/
  | readMapped (f : FileId) (ip : Ip)
  /-- `writei` of a page of a mapping of a file -/
  | writeMapped (f : FileId) (ip : Ip)
  | ask (question : Question)
  | panic (panic : Panic)
  /-- a loop that never ends -/
  | spin

variable {P : Type}

@[reducible]
def Op.Reply : Op P → Type
  | .filealloc => Option FileId
  | .fileclose _ => Option File
  | .file _ => File
  | .ofile _ => Option FileId
  | .vmas => Fin NVMA → Vma
  | .cwd => Option Ip
  | .isInitproc | .iput _ | .ask _ => Bool
  | .allocproc | .freeChild => Option P
  | .kallocPipe | .dirlookup _ _ | .ialloc _ => Option Nat
  | .iget _ _ => Ip
  | .ilock _ | .inode _ => Inode P
  | .panic _ | .spin => Empty
  | _ => Unit

abbrev Code (P : Type) := Prog (Op P) Op.Reply

namespace Kernel

def setFile (k : Kernel P) (f : FileId) (new : File) : Kernel P :=
  { k with ftable := update k.ftable f new }

def setInode (k : Kernel P) (ip : Ip) (new : Inode P) : Kernel P :=
  { k with itable := update k.itable ip new }

def freeFile (k : Kernel P) : Option FileId :=
  (List.finRange NFILE).find? fun f => (k.ftable f).ref = 0

/-- The entry that `iget` finds: the inode itself, or the first free one. -/
def cachedInode (k : Kernel P) (dev inum : Nat) : Option Ip :=
  (List.finRange NINODE).find? fun ip =>
    0 < (k.itable ip).ref ∧ (k.itable ip).dev = dev ∧ (k.itable ip).inum = inum

def freeInode (k : Kernel P) : Option Ip :=
  (List.finRange NINODE).find? fun ip => (k.itable ip).ref = 0

def setPipe (k : Kernel P) (pi : Nat) (new : Pipe) : Kernel P :=
  { k with pipes := update k.pipes pi new }

variable [DecidableEq P]

def setProc (k : Kernel P) (p : P) (new : Proc) : Kernel P :=
  { k with proc := update k.proc p new }

def fails (k : Kernel P) (p : P) : Op P → Option Panic
  | .filedup f => if (k.ftable f).ref < 1 then some .filedup else none
  | .fileclose f => if (k.ftable f).ref < 1 then some .fileclose else none
  | .ilock ip => if (k.itable ip).ref < 1 then some .ilock else none
  | .iunlock ip =>
    if (k.itable ip).lock ≠ some p ∨ (k.itable ip).ref < 1 then some .iunlock else none
  | .iget dev inum =>
    if k.cachedInode dev inum = none ∧ k.freeInode = none then some .igetNoInodes else none
  | .panic panic => some panic
  | _ => none

/-- What an operation that does not fail does for a given reply; `none` if the reply is not
possible, or if the operation has to wait. -/
def exec (k : Kernel P) (p : P) : (op : Op P) → op.Reply → Option (Kernel P)
  | .filealloc, reply =>
    if reply = k.freeFile then
      match reply with
      | none => some k
      | some f => some (k.setFile f { k.ftable f with ref := 1 })
    else none
  | .filedup f, _ =>
    if (k.ftable f).ref < 1 then none
    else some (k.setFile f { k.ftable f with ref := (k.ftable f).ref + 1 })
  | .fileclose f, reply =>
    if (k.ftable f).ref < 1 then none
    else if 1 < (k.ftable f).ref then
      if reply = none then
        some (k.setFile f { k.ftable f with ref := (k.ftable f).ref - 1 })
      else none
    else if reply = some { k.ftable f with ref := 0 } then
      some (k.setFile f { k.ftable f with ref := 0, type := .none })
    else none
  | .file f, reply => if reply = k.ftable f then some k else none
  | .openFile f type ip readable writable, _ =>
    some (k.setFile f { k.ftable f with
      type := type, ip := some ip, readable := readable, writable := writable })
  | .openPipe f pi writable, _ =>
    some (k.setFile f { k.ftable f with
      type := .pipe, pipe := some pi, readable := !writable, writable := writable })
  | .ofile fd, reply => if reply = (k.proc p).ofile fd then some k else none
  | .setOfile fd f, _ =>
    some (k.setProc p { k.proc p with ofile := update (k.proc p).ofile fd f })
  | .vmas, reply => if reply = (k.proc p).vmas then some k else none
  | .setVma i v, _ =>
    some (k.setProc p { k.proc p with vmas := update (k.proc p).vmas i v })
  | .cwd, reply => if reply = (k.proc p).cwd then some k else none
  | .setCwd ip, _ => some (k.setProc p { k.proc p with cwd := ip })
  | .isInitproc, reply => if reply = decide (p = k.initproc) then some k else none
  | .allocproc, reply =>
    match reply with
    | none => some k
    | some np =>
      if (k.proc np).status = .unused then
        some (k.setProc np { k.proc np with
          status := .used
          vmas := fun i => { (k.proc np).vmas i with used := false, f := none } })
      else none
  | .freeproc np, _ => some (k.setProc np { k.proc np with status := .unused })
  | .npOfile np fd f, _ =>
    some (k.setProc np { k.proc np with ofile := update (k.proc np).ofile fd (some f) })
  | .npVma np i v, _ =>
    some (k.setProc np { k.proc np with vmas := update (k.proc np).vmas i v })
  | .npCwd np ip, _ => some (k.setProc np { k.proc np with cwd := some ip })
  | .markRunnable np, _ => some (k.setProc np { k.proc np with status := .live })
  | .zombie, _ => some (k.setProc p { k.proc p with status := .zombie })
  | .freeChild, reply =>
    match reply with
    | none => some k
    | some pp =>
      if (k.proc pp).status = .zombie then
        some (k.setProc pp { k.proc pp with status := .unused })
      else none
  | .kallocPipe, reply =>
    match reply with
    | none => some k
    | some pi =>
      if k.pipes pi = {} then some (k.setPipe pi { readopen := true, writeopen := true })
      else none
  | .pipeclose pi writable, _ =>
    some (k.setPipe pi (if writable then { k.pipes pi with writeopen := false }
      else { k.pipes pi with readopen := false }))
  | .iget dev inum, reply =>
    match k.cachedInode dev inum with
    | some ip =>
      if reply = ip then
        some (k.setInode ip { k.itable ip with ref := (k.itable ip).ref + 1 })
      else none
    | none =>
      match k.freeInode with
      | some ip =>
        if reply = ip then
          some (k.setInode ip { k.itable ip with
            dev := dev, inum := inum, ref := 1, valid := false })
        else none
      | none => none
  | .idup ip, _ => some (k.setInode ip { k.itable ip with ref := (k.itable ip).ref + 1 })
  | .ilock ip, reply =>
    let inode := k.itable ip
    let locked : Inode P := reply
    if inode.ref < 1 ∨ inode.lock ≠ none then none
    else if inode.valid then
      if locked = { inode with lock := some p } then some (k.setInode ip locked) else none
    else if locked.type ≠ .free ∧
        locked = { inode with
          lock := some p, valid := true, type := locked.type, nlink := locked.nlink } then
      some (k.setInode ip locked)
    else none
  | .iunlock ip, _ =>
    if (k.itable ip).lock ≠ some p ∨ (k.itable ip).ref < 1 then none
    else some (k.setInode ip { k.itable ip with lock := none })
  | .iput ip, reply =>
    let inode := k.itable ip
    if inode.ref = 1 ∧ inode.valid ∧ inode.nlink = 0#16 then
      if inode.lock = none ∧ reply = true then
        some (k.setInode ip { inode with lock := some p })
      else none
    else if reply = false then
      some (k.setInode ip { inode with ref := inode.ref - 1 })
    else none
  | .ifree ip, _ =>
    some (k.setInode ip { k.itable ip with type := .free, valid := false, lock := none })
  | .irelease ip, _ => some (k.setInode ip { k.itable ip with ref := (k.itable ip).ref - 1 })
  | .inode ip, reply => if reply = k.itable ip then some k else none
  | .setNlink ip nlink, _ => some (k.setInode ip { k.itable ip with nlink := nlink })
  | .beginOp, _ => some { k with outstanding := k.outstanding + 1 }
  | .endOp, _ => some { k with outstanding := k.outstanding - 1 }
  | .dirlookup _ _, _ => some k
  | .ialloc _, _ => some k
  | .readMapped _ _, _ => some k
  | .writeMapped _ _, _ => some k
  | .ask _, _ => some k
  | .panic _, _ => none
  | .spin, _ => none

/-! ### Operations that have to wait, or whose reply is given -/

section Equations

variable (k k' : Kernel P) (p : P)

variable {k k'} in
omit [DecidableEq P] in
theorem of_read {α : Type} [DecidableEq α] {reply actual : α}
    (done : (if reply = actual then some k else none) = some k') : reply = actual ∧ k = k' := by
  split at done
  · next same => exact ⟨same, Option.some.inj done⟩
  · cases done

theorem exec_filealloc_some (f : FileId) : k.exec p .filealloc (some f) =
      if some f = k.freeFile then some (k.setFile f { k.ftable f with ref := 1 }) else none := rfl

theorem exec_filealloc_none :
    k.exec p .filealloc none = if none = k.freeFile then some k else none := rfl

theorem exec_filedup (f : FileId) (reply : Unit) : k.exec p (.filedup f) reply =
      if (k.ftable f).ref < 1 then none
      else some (k.setFile f { k.ftable f with ref := (k.ftable f).ref + 1 }) := rfl

theorem exec_fileclose (f : FileId) (reply : Option File) : k.exec p (.fileclose f) reply =
      if (k.ftable f).ref < 1 then none
      else if 1 < (k.ftable f).ref then
        if reply = none then
          some (k.setFile f { k.ftable f with ref := (k.ftable f).ref - 1 })
        else none
      else if reply = some { k.ftable f with ref := 0 } then
        some (k.setFile f { k.ftable f with ref := 0, type := .none })
      else none := rfl

theorem exec_allocproc_some (np : P) : k.exec p .allocproc (some np) =
      if (k.proc np).status = .unused then
        some (k.setProc np { k.proc np with
          status := .used
          vmas := fun i => { (k.proc np).vmas i with used := false, f := none } })
      else none := rfl

theorem exec_freeChild_some (pp : P) : k.exec p .freeChild (some pp) =
      if (k.proc pp).status = .zombie then
        some (k.setProc pp { k.proc pp with status := .unused })
      else none := rfl

theorem exec_kallocPipe_some (pi : Nat) : k.exec p .kallocPipe (some pi) =
      if k.pipes pi = {} then some (k.setPipe pi { readopen := true, writeopen := true })
      else none := rfl

theorem exec_iget_cached {ip : Ip} (cached : k.cachedInode dev inum = some ip) (reply : Ip) :
    k.exec p (.iget dev inum) reply =
      if reply = ip then some (k.setInode ip { k.itable ip with ref := (k.itable ip).ref + 1 })
      else none := by
  change (match k.cachedInode dev inum with | some ip => _ | none => _) = _
  rw [cached]

theorem exec_iget_free {ip : Ip} (missing : k.cachedInode dev inum = none)
    (free : k.freeInode = some ip) (reply : Ip) :
    k.exec p (.iget dev inum) reply =
      if reply = ip then
        some (k.setInode ip { k.itable ip with dev := dev, inum := inum, ref := 1, valid := false })
      else none := by
  change (match k.cachedInode dev inum with | some ip => _ | none => _) = _
  rw [missing]
  rw [free]

theorem exec_iget_full (missing : k.cachedInode dev inum = none)
    (full : k.freeInode = none) (reply : Ip) : k.exec p (.iget dev inum) reply = none := by
  change (match k.cachedInode dev inum with | some ip => _ | none => _) = _
  rw [missing]
  rw [full]

theorem exec_ilock (ip : Ip) (reply : Inode P) : k.exec p (.ilock ip) reply =
      if (k.itable ip).ref < 1 ∨ (k.itable ip).lock ≠ none then none
      else if (k.itable ip).valid then
        if reply = { k.itable ip with lock := some p } then some (k.setInode ip reply) else none
      else if reply.type ≠ .free ∧
          reply = { k.itable ip with
            lock := some p, valid := true, type := reply.type, nlink := reply.nlink } then
        some (k.setInode ip reply)
      else none := rfl

theorem exec_iunlock (ip : Ip) (reply : Unit) : k.exec p (.iunlock ip) reply =
      if (k.itable ip).lock ≠ some p ∨ (k.itable ip).ref < 1 then none
      else some (k.setInode ip { k.itable ip with lock := none }) := rfl

theorem exec_iput (ip : Ip) (reply : Bool) : k.exec p (.iput ip) reply =
      if (k.itable ip).ref = 1 ∧ (k.itable ip).valid ∧ (k.itable ip).nlink = 0#16 then
        if (k.itable ip).lock = none ∧ reply = true then
          some (k.setInode ip { k.itable ip with lock := some p })
        else none
      else if reply = false then
        some (k.setInode ip { k.itable ip with ref := (k.itable ip).ref - 1 })
      else none := rfl

end Equations

end Kernel

end Xv6.Files

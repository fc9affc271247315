import Xv6.Library.Outcome
import Xv6.Fs.Blocks

/-!
# Directories and links

Path lookup, `create`, and the system calls that make and remove directory entries, on inodes
whose contents are lists of entries. A system call is one transaction. Whether the disk has
room for one more block when a directory grows is an input.
-/

namespace Xv6.Directory

open Blocks (FileType MAXFILE BSIZE)
open Function

abbrev ROOTINO : Nat := 1

def DIRSIZ : Nat := 14

/-- `sizeof(struct dirent)`. -/
def DIRENT : Nat := 16

def NINODE : Nat := 50

def NDEV : Int := 10

def O_RDONLY : BitVec 32 := 0

/-- The bit `O_CREATE` is `0x200`. -/
def O_CREATE : Nat := 9

abbrev Byte := BitVec 8

/-- A string of at most `DIRSIZ` bytes, as `namecmp` compares them. -/
abbrev Name := List Byte

abbrev Path := List Byte

def slash : Byte := 47

def dot : Name := [46]

def dotdot : Name := [46, 46]

/-- `struct dirent`; an entry with `inum` 0 is empty. -/
structure Dirent where
  inum : BitVec 16
  name : Name
  deriving DecidableEq, Repr

/-- An inode; `entries` are its contents if it is a directory. -/
structure Inode where
  type : FileType := .free
  nlink : BitVec 16 := 0#16
  major : BitVec 16 := 0#16
  entries : List Dirent := []
  deriving DecidableEq, Repr

inductive Panic where
  | igetNoInodes
  | ilockNoType
  | dirlookupNotDir
  | unlinkNlink
  deriving DecidableEq, Repr

/-- The file system with the processes `P` and the entries `F` of the file table.
`linked` is not part of the kernel's state: it says which directories have been entered
in their parent and not been removed from it by `unlink` since. -/
structure Fs (P F : Type) where
  ninodes : Nat
  inodes : Nat → Inode
  ref : Nat → Nat
  valid : Nat → Bool
  cwd : P → Option Nat
  file : F → Option Nat
  linked : Nat → Bool

abbrev FsM (P F : Type) := StateT (Fs P F) (Except Panic)

variable {P F : Type} [DecidableEq P] [DecidableEq F]

/-! ## The inode table -/

def iget (inum : Nat) : FsM P F Unit := fun s =>
  if s.ref inum = 0 then
    if NINODE ≤ ((Finset.range s.ninodes).filter fun i => s.ref i ≠ 0).card then
      .error .igetNoInodes
    else .ok ((), { s with
      ref := update s.ref inum 1
      valid := update s.valid inum false })
  else .ok ((), { s with ref := update s.ref inum (s.ref inum + 1) })

def idup (inum : Nat) : FsM P F Unit := fun s =>
  .ok ((), { s with ref := update s.ref inum (s.ref inum + 1) })

def ilock (inum : Nat) : FsM P F Unit := fun s =>
  if s.valid inum then .ok ((), s)
  else if (s.inodes inum).type = .free then .error .ilockNoType
  else .ok ((), { s with valid := update s.valid inum true })

/-- A change of a locked inode, and `iupdate`. -/
def modifyInode (inum : Nat) (change : Inode → Inode) : FsM P F Unit := fun s =>
  .ok ((), { s with inodes := update s.inodes inum (change (s.inodes inum)) })

/-- Record that a directory has been entered in its parent, or removed from it. -/
def setLinked (inum : Nat) (linked : Bool) : FsM P F Unit := fun s =>
  .ok ((), { s with linked := update s.linked inum linked })

/-- `iput`, also `iunlockput`. -/
def iput (inum : Nat) : FsM P F Unit := fun s =>
  if s.ref inum = 1 ∧ s.valid inum ∧ (s.inodes inum).nlink = 0#16 then
    .ok ((), { s with
      inodes := update s.inodes inum { s.inodes inum with type := .free, entries := [] }
      ref := update s.ref inum 0
      valid := update s.valid inum false })
  else .ok ((), { s with ref := update s.ref inum (s.ref inum - 1) })

/-- `ialloc`: a free inode with the given type, or `none`. -/
def ialloc (type : FileType) : FsM P F (Option Nat) := fun s =>
  match (List.range s.ninodes).find? fun i => i ≠ 0 && (s.inodes i).type == .free with
  | none => .ok (none, s)
  | some inum =>
    (iget inum { s with
      inodes := update s.inodes inum { type := type }
      linked := update s.linked inum false }).map fun r => (some inum, r.2)

/-! ## Directories -/

/-- The first entry with the given name, and its position. -/
def findEntry (entries : List Dirent) (name : Name) : Option (Nat × Nat) :=
  match entries.findIdx? fun e => e.inum ≠ 0#16 && e.name == name with
  | none => none
  | some off => (entries[off]?).map fun e => (off, e.inum.toNat)

/-- `dirlookup`, with the position of the entry for its last argument. -/
def dirlookup (dp : Nat) (name : Name) : FsM P F (Option (Nat × Nat)) := fun s =>
  if (s.inodes dp).type ≠ .dir then .error .dirlookupNotDir
  else
    match findEntry (s.inodes dp).entries name with
    | none => .ok (none, s)
    | some (off, inum) => (iget inum s).map fun r => (some (off, inum), r.2)

/-- The `writei` of `dirlink`: the first empty entry is used, or a new one at the end of
the directory, where the file may be too long or the disk full. -/
def addEntry (entries : List Dirent) (e : Dirent) (full : Bool) : Option (List Dirent) :=
  match entries.findIdx? fun e => e.inum == 0#16 with
  | some off => some (entries.set off e)
  | none =>
    if full ∨ MAXFILE * BSIZE < DIRENT * (entries.length + 1) then none
    else some (entries ++ [e])

/-- `dirlink`: whether it returns 0. -/
def dirlink (dp : Nat) (name : Name) (inum : Nat) (full : Bool) : FsM P F Bool := do
  match ← dirlookup dp name with
  | some (_, ip) =>
    iput ip
    return false
  | none =>
    let s ← get
    match addEntry (s.inodes dp).entries ⟨BitVec.ofNat 16 inum, name⟩ full with
    | none => return false
    | some entries =>
      modifyInode dp fun ip => { ip with entries := entries }
      return true

def isdirempty (ip : Inode) : Bool := (ip.entries.drop 2).all fun e => e.inum == 0#16

/-! ## Paths -/

/-- `skipelem`: the next element of a path and what follows it. -/
def skipelem (path : Path) : Option (Name × Path) :=
  match path.dropWhile (· == slash) with
  | [] => none
  | c :: rest =>
    some (((c :: rest).takeWhile (· != slash)).take DIRSIZ,
      ((c :: rest).dropWhile (· != slash)).dropWhile (· == slash))

/-- The elements that the calls of `skipelem` in `namex` deliver; each takes at least one
byte of the path. -/
def elements : (bytes : Nat) → Path → List Name
  | 0, _ => []
  | bytes + 1, path =>
    match skipelem path with
    | none => []
    | some (name, rest) => name :: elements bytes rest

/-- The loop of `namex` from the inode `ip` on. -/
def namexLoop (nameiparent : Bool) : List Name → Nat → FsM P F (Option (Nat × Name))
  | [], ip =>
    if nameiparent then do
      iput ip
      return none
    else return some (ip, [])
  | name :: rest, ip => do
      ilock ip
      let s ← get
      if (s.inodes ip).type ≠ .dir then do
        iput ip
        return none
      else if nameiparent && rest.isEmpty then return some (ip, name)
      else do
        match ← dirlookup ip name with
        | none =>
          iput ip
          return none
        | some (_, next) =>
          iput ip
          namexLoop nameiparent rest next

/-- `namex` of a process with the current directory `cwd`. -/
def namex (cwd : Nat) (path : Path) (nameiparent : Bool) : FsM P F (Option (Nat × Name)) := do
  if path.head? = some slash then do
    iget ROOTINO
    namexLoop nameiparent (elements path.length path) ROOTINO
  else do
    idup cwd
    namexLoop nameiparent (elements path.length path) cwd

def namei (cwd : Nat) (path : Path) : FsM P F (Option Nat) := do
  return (← namex cwd path false).map (·.1)

def nameiparent (cwd : Nat) (path : Path) : FsM P F (Option (Nat × Name)) := namex cwd path true

/-! ## System calls -/

/-- Whether the disk is full at each of the three calls of `dirlink` in `create`. -/
structure Full where
  dot : Bool := false
  dotdot : Bool := false
  name : Bool := false

/-- The entries `.` and `..` of a new directory: whether both could be made. -/
def makeDots (type : FileType) (ip dp : Nat) (full : Full) : FsM P F Bool := do
  if type = .dir then do
    if ← dirlink ip dot ip full.dot then dirlink ip dotdot dp full.dotdot
    else return false
  else return true

/-- The part of `create` after `ialloc`. -/
def createInode (dp : Nat) (name : Name) (type : FileType) (major : BitVec 16) (full : Full)
    (ip : Nat) : FsM P F (Option Nat) := do
  ilock ip
  modifyInode ip fun node => { node with major := major, nlink := 1#16 }
  let dots ← makeDots type ip dp full
  let entered ← if dots then dirlink dp name ip full.name else pure false
  if entered then do
    setLinked ip true
    if type = .dir then
      modifyInode dp fun node => { node with nlink := node.nlink + 1#16 }
    iput dp
    return some ip
  else do
    modifyInode ip fun node => { node with nlink := 0#16 }
    iput ip
    iput dp
    return none

def create (cwd : Nat) (path : Path) (type : FileType) (major : BitVec 16) (full : Full) :
    FsM P F (Option Nat) := do
  match ← nameiparent cwd path with
  | none => return none
  | some (dp, name) =>
    ilock dp
    match ← dirlookup dp name with
    | some (_, ip) =>
      iput dp
      ilock ip
      let s ← get
      if type = .file ∧ ((s.inodes ip).type = .file ∨ (s.inodes ip).type = .device) then
        return some ip
      else do
        iput ip
        return none
    | none =>
      match ← ialloc type with
      | none =>
        iput dp
        return none
      | some ip => createInode dp name type major full ip

/-- The part of `sys_link` that enters the inode `ip`: whether it does not go to `bad`. -/
def linkEntry (cwd : Nat) (new : Path) (ip : Nat) (full : Bool) : FsM P F Bool := do
  match ← nameiparent cwd new with
  | none => return false
  | some (dp, name) =>
    ilock dp
    let entered ← dirlink dp name ip full
    iput dp
    return entered

/-- `sys_link`: whether it returns 0. -/
def sysLink (cwd : Nat) (old new : Path) (full : Bool) : FsM P F Bool := do
  match ← namei cwd old with
  | none => return false
  | some ip =>
    ilock ip
    let s ← get
    if (s.inodes ip).type = .dir then do
      iput ip
      return false
    else do
      modifyInode ip fun node => { node with nlink := node.nlink + 1#16 }
      if ← linkEntry cwd new ip full then do
        iput ip
        return true
      else do
        ilock ip
        modifyInode ip fun node => { node with nlink := node.nlink - 1#16 }
        iput ip
        return false

/-- `sys_unlink` from the point where the entry is erased. -/
def removeEntry (dp off ip : Nat) : FsM P F Unit := do
  let s ← get
  modifyInode dp fun node => { node with entries := node.entries.set off ⟨0#16, []⟩ }
  if (s.inodes ip).type = .dir then do
    setLinked ip false
    modifyInode dp fun node => { node with nlink := node.nlink - 1#16 }
  iput dp
  modifyInode ip fun node => { node with nlink := node.nlink - 1#16 }
  iput ip

/-- `sys_unlink`: whether it returns 0. -/
def sysUnlink (cwd : Nat) (path : Path) : FsM P F Bool := do
  match ← nameiparent cwd path with
  | none => return false
  | some (dp, name) =>
    ilock dp
    if name = dot ∨ name = dotdot then do
      iput dp
      return false
    else do
      match ← dirlookup dp name with
      | none =>
        iput dp
        return false
      | some (off, ip) =>
        ilock ip
        let s ← get
        if (s.inodes ip).nlink.toInt < 1 then throw .unlinkNlink
        else if (s.inodes ip).type = .dir ∧ ¬isdirempty (s.inodes ip) then do
          iput ip
          iput dp
          return false
        else do
          removeEntry dp off ip
          return true

/-- `sys_open` up to the locked inode that is to be opened. -/
def openLookup (cwd : Nat) (path : Path) (omode : BitVec 32) (full : Full) :
    FsM P F (Option Nat) := do
  if omode.getLsbD O_CREATE then create cwd path .file 0 full
  else do
    match ← namei cwd path with
    | none => return none
    | some ip =>
      ilock ip
      let s ← get
      if (s.inodes ip).type = .dir ∧ omode ≠ O_RDONLY then do
        iput ip
        return none
      else return some ip

/-- `sys_open`: whether it returns a descriptor. `slot` is the entry that `filealloc`
found, or `none` if it or `fdalloc` failed. -/
def sysOpen (cwd : Nat) (path : Path) (omode : BitVec 32) (slot : Option F) (full : Full) :
    FsM P F Bool := do
  match ← openLookup cwd path omode full with
  | none => return false
  | some ip =>
    let s ← get
    if (s.inodes ip).type = .device ∧
        ((s.inodes ip).major.toInt < 0 ∨ NDEV ≤ (s.inodes ip).major.toInt) then do
      iput ip
      return false
    else
      match slot with
      | none =>
        iput ip
        return false
      | some f =>
        set { s with file := update s.file f (some ip) }
        return true

/-- `sys_mkdir` and `sys_mknod`: whether they return 0. -/
def sysCreate (cwd : Nat) (path : Path) (type : FileType) (major : BitVec 16) (full : Full) :
    FsM P F Bool := do
  match ← create cwd path type major full with
  | none => return false
  | some ip =>
    iput ip
    return true

def sysMkdir (cwd : Nat) (path : Path) (full : Full) : FsM P F Bool :=
  sysCreate cwd path .dir 0 full

def sysMknod (cwd : Nat) (path : Path) (major : BitVec 16) (full : Full) : FsM P F Bool :=
  sysCreate cwd path .device major full

/-- `iput(p->cwd)` and the assignment that follows it. -/
def replaceCwd (p : P) (cwd : Nat) (new : Option Nat) : FsM P F Unit := do
  iput cwd
  modify fun s => { s with cwd := update s.cwd p new }

/-- `sys_chdir` of the process `p`: whether it returns 0. -/
def sysChdir (p : P) (cwd : Nat) (path : Path) : FsM P F Bool := do
  match ← namei cwd path with
  | none => return false
  | some ip =>
    ilock ip
    let s ← get
    if (s.inodes ip).type ≠ .dir then do
      iput ip
      return false
    else do
      replaceCwd p cwd (some ip)
      return true

/-- `fileclose` of the last reference to an open file with the inode `ip`. -/
def fileclose (f : F) (ip : Nat) : FsM P F Unit := do
  modify fun s => { s with file := update s.file f none }
  iput ip

/-- The end of `kexit`, after the files are closed. -/
def exitCwd (p : P) (cwd : Nat) : FsM P F Unit := replaceCwd p cwd none

/-- `kfork`, as far as it concerns the current directory. -/
def forkCwd (q : P) (cwd : Nat) : FsM P F Unit := do
  idup cwd
  modify fun s => { s with cwd := update s.cwd q (some cwd) }

inductive Op (P F : Type) where
  | open (p : P) (path : Path) (omode : BitVec 32) (slot : Option F) (full : Full)
  | mkdir (p : P) (path : Path) (full : Full)
  | mknod (p : P) (path : Path) (major : BitVec 16) (full : Full)
  | link (p : P) (old new : Path) (full : Bool)
  | unlink (p : P) (path : Path)
  | chdir (p : P) (path : Path)
  | close (f : F)
  | exit (p : P)
  | fork (p q : P)

namespace Fs

def exec {α : Type} (s : Fs P F) (call : FsM P F α) : Except Panic (Fs P F) := (call s).map (·.2)

def withCwd (s : Fs P F) (p : P) (call : Nat → Except Panic (Fs P F)) : Except Panic (Fs P F) :=
  match s.cwd p with
  | none => .ok s
  | some cwd => call cwd

/-- One system call; nothing happens without the process or file it is about. -/
def step (s : Fs P F) : Op P F → Except Panic (Fs P F)
  | .open p path omode slot full =>
    s.withCwd p fun cwd =>
      let free := slot.filter fun f => (s.file f).isNone
      s.exec (sysOpen cwd path omode free full)
  | .mkdir p path full => s.withCwd p fun cwd => s.exec (sysMkdir cwd path full)
  | .mknod p path major full => s.withCwd p fun cwd => s.exec (sysMknod cwd path major full)
  | .link p old new full => s.withCwd p fun cwd => s.exec (sysLink cwd old new full)
  | .unlink p path => s.withCwd p fun cwd => s.exec (sysUnlink cwd path)
  | .chdir p path => s.withCwd p fun cwd => s.exec (sysChdir p cwd path)
  | .close f =>
    match s.file f with
    | none => .ok s
    | some ip => s.exec (fileclose f ip)
  | .exit p => s.withCwd p fun cwd => s.exec (exitCwd p cwd)
  | .fork p q =>
    match s.cwd q with
    | some _ => .ok s
    | none => s.withCwd p fun cwd => s.exec (forkCwd q cwd)

end Fs

end Xv6.Directory

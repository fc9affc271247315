import Xv6.Files.Model
import Xv6.Log.Model

/-!
# System calls on files

The calls that take or give back references to open files and inodes, statement by statement.
The result of a call is whether it is not -1.
-/

namespace Xv6.Files

open Program hiding act
open Memory
open Blocks (FileType)
open Directory (Name Path slash elements dot dotdot ROOTINO)

variable {P α β : Type}

def act (op : Op P) : Code P op.Reply := Program.act op

def stop (panic : Panic) : Code P α := .act (.panic panic) nofun

def never : Code P α := .act .spin nofun

/-- The value that a pointer points to. -/
def deref (panic : Panic) : Option β → Code P β
  | some b => pure b
  | none => stop panic

def ask (question : Question) : Code P Bool := act (.ask question)

/-! ## Inodes -/

def iput (ip : Ip) : Code P Unit := do
  if ← act (.iput ip) then
    act (.ifree ip)
    act (.irelease ip)

def iunlockput (ip : Ip) : Code P Unit := do
  act (.iunlock ip)
  iput ip

def ialloc (dev : Nat) : Code P (Option Ip) := do
  match ← act (.ialloc dev) with
  | none => return none
  | some inum => return some (← act (.iget dev inum))

def dirlookup (dp : Ip) (name : Name) : Code P (Option Ip) := do
  let d ← act (.inode dp)
  if d.type ≠ .dir then stop .dirlookupNotDir
  else
    match ← act (.dirlookup dp name) with
    | none => return none
    | some inum => return some (← act (.iget d.dev inum))

/-- `dirlink`: whether it returns 0. -/
def dirlink (dp : Ip) (name : Name) : Code P Bool := do
  match ← dirlookup dp name with
  | some ip =>
    iput ip
    return false
  | none => ask .writei

/-- The loop of `namex` from the inode `ip` on. -/
def namexLoop (nameiparent : Bool) : List Name → Ip → Code P (Option (Ip × Name))
  | [], ip =>
    if nameiparent then do
      iput ip
      return none
    else return some (ip, [])
  | name :: rest, ip => do
      let inode ← act (.ilock ip)
      if inode.type ≠ .dir then do
        iunlockput ip
        return none
      else if nameiparent && rest.isEmpty then do
        act (.iunlock ip)
        return some (ip, name)
      else do
        match ← dirlookup ip name with
        | none =>
          iunlockput ip
          return none
        | some next =>
          iunlockput ip
          namexLoop nameiparent rest next

def namex (path : Path) (nameiparent : Bool) : Code P (Option (Ip × Name)) := do
  if path.head? = some slash then do
    let ip ← act (.iget ROOTDEV ROOTINO)
    namexLoop nameiparent (elements path.length path) ip
  else do
    let cwd ← deref .null (← act .cwd)
    act (.idup cwd)
    namexLoop nameiparent (elements path.length path) cwd

def namei (path : Path) : Code P (Option Ip) := do
  return (← namex path false).map (·.1)

def nameiparent (path : Path) : Code P (Option (Ip × Name)) := namex path true

/-! ## Files -/

def fileclose (f : FileId) : Code P Unit := do
  match ← act (.fileclose f) with
  | none => return
  | some ff =>
    match ff.type with
    | .pipe => do
        let pi ← deref .null ff.pipe
        act (.pipeclose pi ff.writable)
    | .inode | .device => do
        act .beginOp
        iput (← deref .null ff.ip)
        act .endOp
    | .none => return

def fdallocLoop (f : FileId) : List (Fin NOFILE) → Code P (Option (Fin NOFILE))
  | [] => return none
  | fd :: rest => do
      match ← act (.ofile fd) with
      | none =>
        act (.setOfile fd (some f))
        return some fd
      | some _ => fdallocLoop f rest

def fdalloc (f : FileId) : Code P (Option (Fin NOFILE)) := fdallocLoop f (List.finRange NOFILE)

def argfd (fd : Int) : Code P (Option (Fin NOFILE × FileId)) :=
  if inside : 0 ≤ fd ∧ fd < NOFILE then do
    let fd : Fin NOFILE := ⟨fd.toNat, by omega⟩
    return (← act (.ofile fd)).map fun f => (fd, f)
  else return none

def sysDup (fd : Int) : Code P Bool := do
  match ← argfd fd with
  | none => return false
  | some (_, f) =>
    match ← fdalloc f with
    | none => return false
    | some _ =>
      act (.filedup f)
      return true

def sysClose (fd : Int) : Code P Bool := do
  match ← argfd fd with
  | none => return false
  | some (fd, f) =>
    act (.setOfile fd none)
    fileclose f
    return true

/-- What `fileread`, `filestat` and each round of `filewrite` do with the inode. -/
def withInode (ip : Option Ip) (question : Question) : Code P Bool := do
  let ip ← deref .ilock ip
  let _ ← act (.ilock ip)
  let answer ← ask question
  act (.iunlock ip)
  return answer

def fileread (f : FileId) : Code P Bool := do
  let ff ← act (.file f)
  if !ff.readable then return false
  else
    match ff.type with
    | .pipe | .device => ask .devsw
    | .inode => withInode ff.ip .readi
    | .none => stop .fileread

def filewriteLoop (ip : Option Ip) : (rounds : Nat) → Code P Bool
  | 0 => return true
  | rounds + 1 => do
      act .beginOp
      let wrote ← withInode ip .writei
      act .endOp
      if wrote then filewriteLoop ip rounds else return false

def filewrite (f : FileId) (n : Nat) : Code P Bool := do
  let ff ← act (.file f)
  if !ff.writable then return false
  else
    match ff.type with
    | .pipe | .device => ask .devsw
    | .inode =>
      let max := (Log.MAXOPBLOCKS - 1 - 1 - 2) / 2 * Blocks.BSIZE
      filewriteLoop ff.ip ((n + max - 1) / max)
    | .none => stop .filewrite

def filestat (f : FileId) : Code P Bool := do
  let ff ← act (.file f)
  match ff.type with
  | .inode | .device => do
      let _ ← withInode ff.ip .readi
      ask .copyout
  | _ => return false

/-- `sys_read`, `sys_write` and `sys_fstat`. -/
def onFile (fd : Int) (call : FileId → Code P Bool) : Code P Bool := do
  match ← argfd fd with
  | none => return false
  | some (_, f) => call f

/-! ## Paths -/

/-- The entries `.` and `..` of a new directory: whether both could be made. -/
def makeDots (type : FileType) (ip : Ip) : Code P Bool := do
  if type = .dir then do
    if ← dirlink ip dot then dirlink ip dotdot else return false
  else return true

/-- The new inode in its parent, after the entries `.` and `..`. -/
def makeEntries (dp : Ip) (name : Name) (type : FileType) (ip : Ip) : Code P Bool := do
  if ← makeDots type ip then dirlink dp name else return false

/-- A change of `nlink` of the parent, if it is for a directory. -/
def countLink (dp : Ip) (type : FileType) (change : BitVec 16) : Code P Unit := do
  if type = .dir then do
    let d ← act (.inode dp)
    act (.setNlink dp (d.nlink + change))

/-- The part of `create` after `ialloc`. -/
def createInode (dp : Ip) (name : Name) (type : FileType) (ip : Ip) : Code P (Option Ip) := do
  let _ ← act (.ilock ip)
  act (.setNlink ip 1#16)
  if ← makeEntries dp name type ip then do
    countLink dp type 1#16
    iunlockput dp
    return some ip
  else do
    act (.setNlink ip 0#16)
    iunlockput ip
    iunlockput dp
    return none

def create (path : Path) (type : FileType) : Code P (Option Ip) := do
  match ← nameiparent path with
  | none => return none
  | some (dp, name) =>
    let d ← act (.ilock dp)
    match ← dirlookup dp name with
    | some ip =>
      iunlockput dp
      let inode ← act (.ilock ip)
      if type = .file ∧ (inode.type = .file ∨ inode.type = .device) then return some ip
      else do
        iunlockput ip
        return none
    | none =>
      match ← ialloc d.dev with
      | none =>
        iunlockput dp
        return none
      | some ip => createInode dp name type ip

/-- `dirlink` on the same device. -/
def dirlinkSame (dp : Ip) (dev : Nat) (name : Name) (ip : Ip) : Code P Bool := do
  let inode ← act (.inode ip)
  if dev ≠ inode.dev then return false else dirlink dp name

/-- The part of `sys_link` that enters the inode `ip`: whether it does not go to `bad`. -/
def linkEntry (new : Path) (ip : Ip) : Code P Bool := do
  match ← nameiparent new with
  | none => return false
  | some (dp, name) =>
    let d ← act (.ilock dp)
    let entered ← dirlinkSame dp d.dev name ip
    iunlockput dp
    return entered

def sysLink (old new : Path) : Code P Bool := do
  if !(← ask .argstr) then return false
  else if !(← ask .argstr) then return false
  else do
    act .beginOp
    match ← namei old with
    | none =>
      act .endOp
      return false
    | some ip =>
      let inode ← act (.ilock ip)
      if inode.type = .dir then do
        iunlockput ip
        act .endOp
        return false
      else do
        act (.setNlink ip (inode.nlink + 1#16))
        act (.iunlock ip)
        if ← linkEntry new ip then do
          iput ip
          act .endOp
          return true
        else do
          let inode ← act (.ilock ip)
          act (.setNlink ip (inode.nlink - 1#16))
          iunlockput ip
          act .endOp
          return false

/-- `sys_unlink` from the point where the entry is erased. -/
def removeEntry (dp ip : Ip) (type : FileType) : Code P Unit := do
  if !(← ask .writei) then stop .unlinkWritei
  else do
    countLink dp type (-1#16)
    iunlockput dp
    let inode ← act (.inode ip)
    act (.setNlink ip (inode.nlink - 1#16))
    iunlockput ip

def hasEntries (type : FileType) : Code P Bool := do
  if type = .dir then return !(← ask .isdirempty) else return false

/-- `sys_unlink` with the parent locked: whether it does not go to `bad`. -/
def unlinkEntry (dp : Ip) (name : Name) : Code P Bool := do
  if name = dot ∨ name = dotdot then return false
  else
    match ← dirlookup dp name with
    | none => return false
    | some ip =>
      let inode ← act (.ilock ip)
      if inode.nlink.toInt < 1 then stop .unlinkNlink
      else if ← hasEntries inode.type then do
        iunlockput ip
        return false
      else do
        removeEntry dp ip inode.type
        return true

def sysUnlink (path : Path) : Code P Bool := do
  if !(← ask .argstr) then return false
  else do
    act .beginOp
    match ← nameiparent path with
    | none =>
      act .endOp
      return false
    | some (dp, name) =>
      let _ ← act (.ilock dp)
      if ← unlinkEntry dp name then do
        act .endOp
        return true
      else do
        iunlockput dp
        act .endOp
        return false

def O_RDONLY : BitVec 32 := 0

def O_WRONLY : Nat := 0

def O_RDWR : Nat := 1

def O_CREATE : Nat := 9

/-- `sys_open` up to the locked inode that is to be opened. -/
def openLookup (path : Path) (omode : BitVec 32) : Code P (Option Ip) := do
  if omode.getLsbD O_CREATE then create path .file
  else do
    match ← namei path with
    | none => return none
    | some ip =>
      let inode ← act (.ilock ip)
      if inode.type = .dir ∧ omode ≠ O_RDONLY then do
        iunlockput ip
        return none
      else return some ip

def wrongDevice (type : FileType) : Code P Bool := do
  if type = .device then return !(← ask .majorInRange) else return false

/-- `sys_open` with the locked inode. -/
def openInode (ip : Ip) (omode : BitVec 32) : Code P Bool := do
  let inode ← act (.inode ip)
  if ← wrongDevice inode.type then do
    iunlockput ip
    act .endOp
    return false
  else
    match ← act .filealloc with
    | none =>
      iunlockput ip
      act .endOp
      return false
    | some f =>
      match ← fdalloc f with
      | none =>
        fileclose f
        iunlockput ip
        act .endOp
        return false
      | some _ =>
        act (.openFile f (if inode.type = .device then .device else .inode) ip
          (!omode.getLsbD O_WRONLY) (omode.getLsbD O_WRONLY || omode.getLsbD O_RDWR))
        act (.iunlock ip)
        act .endOp
        return true

def sysOpen (path : Path) (omode : BitVec 32) : Code P Bool := do
  if !(← ask .argstr) then return false
  else do
    act .beginOp
    match ← openLookup path omode with
    | none =>
      act .endOp
      return false
    | some ip => openInode ip omode

/-- `sys_mkdir` and `sys_mknod`. -/
def sysCreate (path : Path) (type : FileType) : Code P Bool := do
  act .beginOp
  if !(← ask .argstr) then do
    act .endOp
    return false
  else
    match ← create path type with
    | none =>
      act .endOp
      return false
    | some ip =>
      iunlockput ip
      act .endOp
      return true

def sysMkdir (path : Path) : Code P Bool := sysCreate path .dir

def sysMknod (path : Path) : Code P Bool := sysCreate path .device

def sysChdir (path : Path) : Code P Bool := do
  act .beginOp
  if !(← ask .argstr) then do
    act .endOp
    return false
  else
    match ← namei path with
    | none =>
      act .endOp
      return false
    | some ip =>
      let inode ← act (.ilock ip)
      if inode.type ≠ .dir then do
        iunlockput ip
        act .endOp
        return false
      else do
        act (.iunlock ip)
        iput (← deref .null (← act .cwd))
        act .endOp
        act (.setCwd (some ip))
        return true

/-- The reads of `kexec` with the file locked: whether it does not go to `bad`; `phnum` is
the number of program headers. -/
def loadProgram (phnum : Nat) : Code P Bool := do
  if !(← ask .readi) then return false
  else if !(← ask .elf) then return false
  else if !(← ask .kalloc) then return false
  else loadSegments phnum
where
  loadSegments : Nat → Code P Bool
    | 0 => return true
    | headers + 1 => do
        if ← ask .loadSegment then loadSegments headers else return false

def kexec (path : Path) (phnum : Nat) : Code P Bool := do
  act .beginOp
  match ← namei path with
  | none =>
    act .endOp
    return false
  | some ip =>
    let _ ← act (.ilock ip)
    let loaded ← loadProgram phnum
    iunlockput ip
    act .endOp
    if loaded then ask .userStack else return false

/-- `sys_exec`; the strings of `argv` are copied into pages first. -/
def sysExec (path : Path) (argc phnum : Nat) : Code P Bool := do
  if !(← ask .argstr) then return false
  else if !(← fetchArguments argc) then return false
  else kexec path phnum
where
  fetchArguments : Nat → Code P Bool
    | 0 => return true
    | arguments + 1 => do
        if ← ask .kalloc then fetchArguments arguments else return false

/-! ## Pipes and mappings -/

def pipealloc : Code P (Option (FileId × FileId)) := do
  match ← act .filealloc with
  | none => return none
  | some f0 =>
    match ← act .filealloc with
    | none =>
      fileclose f0
      return none
    | some f1 =>
      match ← act .kallocPipe with
      | none =>
        fileclose f0
        fileclose f1
        return none
      | some pi =>
        act (.openPipe f0 pi false)
        act (.openPipe f1 pi true)
        return some (f0, f1)

def sysPipe : Code P Bool := do
  match ← pipealloc with
  | none => return false
  | some (rf, wf) =>
    match ← fdalloc rf with
    | none =>
      fileclose rf
      fileclose wf
      return false
    | some fd0 =>
      match ← fdalloc wf with
      | none =>
        act (.setOfile fd0 none)
        fileclose rf
        fileclose wf
        return false
      | some fd1 =>
        if (← ask .copyout) && (← ask .copyout) then return true
        else do
          act (.setOfile fd0 none)
          act (.setOfile fd1 none)
          fileclose rf
          fileclose wf
          return false

def sysMmap (length prot flags : BitVec 32) (fd : Int) (offset : BitVec 32) : Code P Bool := do
  match ← argfd fd with
  | none => return false
  | some (_, f) =>
    if length.toInt ≤ 0 then return false
    else do
      let vmas ← act .vmas
      match findFree vmas with
      | none => return false
      | some i =>
        let alignedLen := pgroundup (length.signExtend 64)
        match Space.place vmas alignedLen (NVMA + 1) (BitVec.ofNat 64 TRAPFRAME - alignedLen) with
        | none => never
        | some addr =>
          act (.filedup f)
          act (.setVma i
            { used := true
              addr := addr
              length := length.signExtend 64
              prot := prot
              flags := flags
              offset := offset
              f := some f.val })
          return true

/-- The write-back of a page in `sys_munmap` and `kexit`. -/
def writeBack (v : Vma) : Code P Unit := do
  act .beginOp
  let f ← deref .null (vmaFile v)
  let ff ← act (.file f)
  let ip ← deref .ilock ff.ip
  let _ ← act (.ilock ip)
  act (.writeMapped f ip)
  act (.iunlock ip)
  act .endOp

/-- The page loops of `sys_munmap` and `kexit`. -/
def unmapPages (v : Vma) (start stop : BitVec 64) : Code P Unit :=
  match strides start stop with
  | none => never
  | some visited => visited.forM fun va => do
      if (← ask (.walkaddr va)) && v.mapShared then writeBack v

/-- The end of `sys_munmap`: the mapping is closed when nothing is left of it. -/
def closeTrimmed (i : Fin NVMA) (v trimmed : Vma) : Code P Unit := do
  if trimmed.length = 0 then do
    fileclose (← deref .null (vmaFile v))
    act (.setVma i { trimmed with used := false })

def sysMunmap (addr : BitVec 64) (length : BitVec 32) : Code P Bool := do
  let vmas ← act .vmas
  let stop := addr + length.signExtend 64
  match findVma vmas (fun v => v.addr ≤ addr && stop ≤ v.stop) with
  | none => return false
  | some i =>
    let v := vmas i
    if addr ≠ v.addr ∧ stop ≠ v.stop then return false
    else do
      unmapPages v addr stop
      let trimmed := { Space.trim v addr length with used := v.used }
      act (.setVma i trimmed)
      closeTrimmed i v trimmed
      return true

def mmapfault (va : BitVec 64) : Code P Bool := do
  let va := pgrounddown va
  let vmas ← act .vmas
  match findVma vmas (fun v => v.addr ≤ va && va < v.stop) with
  | none => return false
  | some i =>
    if ← ask (.walkaddr va) then return false
    else if !(← ask .kalloc) then return false
    else do
      let f ← deref .null (vmaFile (vmas i))
      let ff ← act (.file f)
      let ip ← deref .ilock ff.ip
      let _ ← act (.ilock ip)
      act (.readMapped f ip)
      act (.iunlock ip)
      ask .mappages

/-! ## Processes -/

def dupFiles (np : P) : Code P Unit := (List.finRange NOFILE).forM fun fd => do
    match ← act (.ofile fd) with
    | none => return
    | some f =>
      act (.filedup f)
      act (.npOfile np fd f)

def dupVmas (np : P) (vmas : Fin NVMA → Vma) : Code P Unit := (List.finRange NVMA).forM fun i => do
    if (vmas i).used then do
      act (.npVma np i (vmas i))
      act (.filedup (← deref .null (vmaFile (vmas i))))

def kfork : Code P Bool := do
  match ← act .allocproc with
  | none => return false
  | some np =>
    if !(← ask .uvmcopy) then do
      act (.freeproc np)
      return false
    else do
      dupFiles np
      dupVmas np (← act .vmas)
      let cwd ← deref .null (← act .cwd)
      act (.idup cwd)
      act (.npCwd np cwd)
      act (.markRunnable np)
      return true

def closeFiles : Code P Unit := (List.finRange NOFILE).forM fun fd => do
    match ← act (.ofile fd) with
    | none => return
    | some f =>
      fileclose f
      act (.setOfile fd none)

def closeVmas : Code P Unit := (List.finRange NVMA).forM fun i => do
    let v := (← act .vmas) i
    if v.used then do
      unmapPages v v.addr v.stop
      fileclose (← deref .null (vmaFile v))
      act (.setVma i { v with used := false })

def kexit : Code P Bool := do
  if ← act .isInitproc then stop .initExiting
  else do
    closeFiles
    closeVmas
    act .beginOp
    iput (← deref .null (← act .cwd))
    act .endOp
    act (.setCwd none)
    act .zombie
    return true

def kwait : Code P Bool := do
  return (← act .freeChild).isSome

inductive Call where
  | open (path : Path) (omode : BitVec 32)
  | pipe
  | dup (fd : Int)
  | close (fd : Int)
  | read (fd : Int)
  | write (fd : Int) (n : Nat)
  | fstat (fd : Int)
  | mmap (length prot flags : BitVec 32) (fd : Int) (offset : BitVec 32)
  | munmap (addr : BitVec 64) (length : BitVec 32)
  | mmapfault (va : BitVec 64)
  | link (old new : Path)
  | unlink (path : Path)
  | mkdir (path : Path)
  | mknod (path : Path)
  | chdir (path : Path)
  | exec (path : Path) (argc phnum : Nat)
  | fork
  | exit
  | wait

def Call.code : Call → Code P Bool
  | .open path omode => sysOpen path omode
  | .pipe => sysPipe
  | .dup fd => sysDup fd
  | .close fd => sysClose fd
  | .read fd => onFile fd fileread
  | .write fd n => onFile fd fun f => filewrite f n
  | .fstat fd => onFile fd filestat
  | .mmap length prot flags fd offset => sysMmap length prot flags fd offset
  | .munmap addr length => sysMunmap addr length
  | .mmapfault va => Files.mmapfault va
  | .link old new => sysLink old new
  | .unlink path => sysUnlink path
  | .mkdir path => sysMkdir path
  | .mknod path => sysMknod path
  | .chdir path => sysChdir path
  | .exec path argc phnum => sysExec path argc phnum
  | .fork => kfork
  | .exit => kexit
  | .wait => kwait

/-! ## Runs -/

abbrev Machine (P : Type) := Config (Op P) Op.Reply (Kernel P) P Bool

/-- A live process may make a call that meets a condition. -/
def May (condition : Kernel P → P → Call → Prop) (k : Kernel P) (p : P) (code : Code P Bool) :
    Prop :=
  (k.proc p).status = .live ∧ ∃ call : Call, condition k p call ∧ code = call.code

/-- After `userinit`: the first process is in the root directory, the entry 0 of the inode
table, and has no files. -/
def boot [DecidableEq P] (initproc : P) : Kernel P where
  ftable := fun _ => {}
  itable := Function.update (fun _ => {}) 0 { dev := ROOTDEV, inum := ROOTINO, ref := 1 }
  pipes := fun _ => {}
  outstanding := 0
  proc := Function.update (fun _ => {}) initproc { status := .live, cwd := some 0 }
  initproc := initproc

def Reachable [DecidableEq P] (condition : Kernel P → P → Call → Prop) (initproc : P) :
    Machine P → Prop :=
  Program.Reachable Kernel.exec (May condition) (boot initproc)

end Xv6.Files

import Xv6.Memory.AddressSpace

/-!
# `kexec`

`kernel/exec.c`, from the program headers on. The headers are given as `readi` delivers them,
the file by its size and bytes.
-/

namespace Xv6.Memory

/-- `struct proghdr`, the fields `kexec` reads. -/
structure Proghdr where
  type : BitVec 32
  flags : BitVec 32
  off : BitVec 64
  vaddr : BitVec 64
  filesz : BitVec 64
  memsz : BitVec 64

def ELF_PROG_LOAD : BitVec 32 := 1

/-- An executable: whether its header can be read and has the right magic number,
its program headers (`none` where `readi` is short), and its contents. -/
structure Executable where
  elf : Bool
  phs : List (Option Proghdr)
  size : Nat
  bytes : Nat → BitVec 8

abbrev MAXARG : Nat := 32

def USERSTACK : Nat := 1

def flags2perm (flags : BitVec 32) : Perm := { x := flags.getLsbD 0, w := flags.getLsbD 1 }

namespace PageTable

/-- A store to the page mapped at `va`. -/
def writePage (pt : PageTable) (va : Nat) (update : Page → Page) : PageTable :=
  match pt.lookup (va / 4096) with
  | none => pt
  | some pte => pt.store (va / 4096) { pte with page := update pte.page }

/-- `copyout` to pages that are mapped, byte by byte; `none` is the return value
-1. The pages `kexec` copies to are mapped, so its attempt to fill in a lazily
allocated page is left out. -/
def copyout (pt : PageTable) (dstva : Nat) : List (BitVec 8) → Option PageTable
  | [] => some pt
  | byte :: rest =>
    match pt.lookup (dstva / 4096) with
    | none => none
    | some pte =>
      if dstva < MAXVA ∧ pte.v ∧ pte.u ∧ pte.w then
        (pt.writePage dstva (Function.update · (dstva % 4096) byte)).copyout (dstva + 1) rest
      else none

end PageTable

namespace Executable

/-- Whether `readi` delivers all `n` bytes at `off`. -/
def readable (file : Executable) (off n : Nat) : Bool := off + n < 2 ^ 32 && off + n ≤ file.size

/-- One round of the loop of `loadseg`, for the page `va + 4096 * k`. -/
def loadPage (file : Executable) (va off sz : Nat) (pt : Option PageTable) (k : Nat) :
    Result (Option PageTable) :=
  match pt with
  | none => .ok none
  | some pt =>
    match pt.walkaddr (va + 4096 * k) with
    | none => .error .loadsegNoPage
    | some _ =>
      let i := 4096 * k
      let n := if sz - i < 4096 then sz - i else 4096
      if file.readable (off + i) n then
        .ok (some (pt.writePage (va + i) fun page b =>
          if b < n then file.bytes (off + i + b) else page b))
      else .ok none

/-- `loadseg`; a result of `none` is the return value -1. -/
def loadseg (file : Executable) (pt : PageTable) (va off sz : Nat) : Result (Option PageTable) :=
  (List.range ((sz + 4095) / 4096)).foldlM (file.loadPage va off sz) (some pt)

/-- The loop over the program headers: whether all were loaded, the table, its
size, and the pages `kalloc` has left. -/
def loadSegments (file : Executable) : List (Option Proghdr) → PageTable → (sz avail : Nat) →
      Result (Bool × PageTable × Nat × Nat)
  | [], pt, sz, avail => .ok (true, pt, sz, avail)
  | none :: _, pt, sz, avail => .ok (false, pt, sz, avail)
  | some ph :: rest, pt, sz, avail =>
    if ph.type ≠ ELF_PROG_LOAD then file.loadSegments rest pt sz avail
    else if ph.memsz < ph.filesz then .ok (false, pt, sz, avail)
    else if ph.vaddr + ph.memsz < ph.vaddr then .ok (false, pt, sz, avail)
    else if ph.vaddr.toNat % 4096 ≠ 0 then .ok (false, pt, sz, avail)
    else do
      let (sz1, pt, avail) ← pt.uvmalloc sz (ph.vaddr + ph.memsz).toNat (flags2perm ph.flags) avail
      if sz1 = 0 then return (false, pt, sz, avail)
      match ← file.loadseg pt ph.vaddr.toNat (ph.off.toNat % 2 ^ 32) (ph.filesz.toNat % 2 ^ 32) with
      | none => return (false, pt, sz1, avail)
      | some pt => file.loadSegments rest pt sz1 avail

def wordBytes (word : Nat) : List (BitVec 8) :=
  (List.range 8).map fun i => BitVec.ofNat 8 (word / 256 ^ i)

/-- The loop that pushes the argument strings, with the addresses pushed so far. -/
def pushStrings (stackbase : Nat) :
    List (List (BitVec 8)) → PageTable → (sp : Nat) → (ustack : List Nat) →
      Option (PageTable × Nat × List Nat)
  | [], pt, sp, ustack => some (pt, sp, ustack)
  | arg :: rest, pt, sp, ustack =>
    if MAXARG ≤ ustack.length then none
    else if sp < arg.length + 1 then none
    else
      let sp := sp - (arg.length + 1)
      let sp := sp - sp % 16
      if sp < stackbase then none
      else
        match pt.copyout sp (arg ++ [0]) with
        | none => none
        | some pt => pushStrings stackbase rest pt sp (ustack ++ [sp])

/-- The arguments on the new stack `[stackbase, top)`, or `none` for `goto bad`. -/
def pushArgs (pt : PageTable) (stackbase top : Nat) (argv : List (List (BitVec 8))) :
    Option (PageTable × Nat) :=
  match pushStrings stackbase argv pt top [] with
  | none => none
  | some (pt, sp, ustack) =>
    let size := (ustack.length + 1) * 8
    if sp < size then none
    else
      let sp := sp - size
      let sp := sp - sp % 16
      if sp < stackbase then none
      else
        (pt.copyout sp ((ustack ++ [0]).flatMap wordBytes)).map fun pt => (pt, sp)

/-- `kexec` up to the point where it commits to the new image: the new page table
and its size, or `none` for `goto bad`, which frees what has been built. -/
def buildImage (file : Executable) (argv : List (List (BitVec 8)))
    (trampoline trapframe : Page) (avail : Nat) : Result (Option (PageTable × Nat)) :=
  if !file.elf then .ok none
  else do
    match ← PageTable.procPagetable trampoline trapframe avail with
    | none => return none
    | some (pt, avail) =>
      match ← file.loadSegments file.phs pt 0 avail with
      | (false, pt, sz, _) =>
        pt.procFreepagetable sz
        return none
      | (true, pt, sz, avail) =>
        let sz := PageTable.roundup sz
        let (sz1, pt, _) ← pt.uvmalloc sz (sz + (USERSTACK + 1) * PGSIZE) { w := true } avail
        if sz1 = 0 then
          pt.procFreepagetable sz
          return none
        let pt ← pt.uvmclear (sz1 - (USERSTACK + 1) * PGSIZE)
        match pushArgs pt (sz1 - USERSTACK * PGSIZE) sz1 argv with
        | none =>
          pt.procFreepagetable sz1
          return none
        | some (pt, _) => return some (pt, sz1)

end Executable

namespace Space

/-- `kexec`; a result of `none` is the return value -1. -/
def kexec (s : Space) (file : Executable) (argv : List (List (BitVec 8)))
    (trampoline trapframe : Page) (avail : Nat) : Result (Option Nat × Space) := do
  match ← file.buildImage argv trampoline trapframe avail with
  | none => return (none, s)
  | some (pt, sz) =>
    s.pagetable.procFreepagetable s.sz
    return (some argv.length, { s with sz := sz, pagetable := pt })

end Space

end Xv6.Memory

import Xv6.Memory.PageTable

/-!
# The address space of a process

The memory system calls, the two page-fault handlers, and what `kfork`, `kexec` and `kexit` do
to an address space. Pages written back to a file are collected as a list of requests; what
`readi` delivers to `mmapfault` is an input.
-/

namespace Xv6.Memory

structure Space where
  sz : Nat
  pagetable : PageTable
  vmas : Fin NVMA → Vma

/-- A page of a shared mapping on its way to `writei`. -/
structure WriteBack where
  f : Option Nat
  offset : BitVec 64
  page : Page

/-- The first used mapping that passes a test. -/
def findVma (vmas : Fin NVMA → Vma) (test : Vma → Bool) : Option (Fin NVMA) :=
  (List.finRange NVMA).find? fun i => (vmas i).used && test (vmas i)

def findFree (vmas : Fin NVMA → Vma) : Option (Fin NVMA) :=
  (List.finRange NVMA).find? fun i => !(vmas i).used

namespace Space

/-! ## `sys_mmap` -/

/-- The test of the collision loop. -/
def collides (addr alignedLen : BitVec 64) (v : Vma) : Bool :=
  addr < v.stop && v.addr < addr + alignedLen

/-- The collision loop. The address is determined by the mapping it collided with
last, so a loop that makes more than `NVMA + 1` tests repeats itself forever. -/
def place (vmas : Fin NVMA → Vma) (alignedLen : BitVec 64) :
    (tests : Nat) → BitVec 64 → Option (BitVec 64)
  | 0, _ => none
  | tests + 1, addr =>
    match findVma vmas (collides addr alignedLen) with
    | none => some addr
    | some i => place vmas alignedLen tests ((vmas i).addr - alignedLen)

/-- `sys_mmap` after `argfd`, whose file is `f`; a result of `none` is the return
value -1. -/
def sysMmap (s : Space) (length prot flags offset : BitVec 32) (f : Option Nat) :
    Result (Option (BitVec 64) × Space) :=
  match f with
  | none => .ok (none, s)
  | some file =>
    if length.toInt ≤ 0 then .ok (none, s)
    else
      match findFree s.vmas with
      | none => .ok (none, s)
      | some i =>
        let alignedLen := pgroundup (length.signExtend 64)
        match place s.vmas alignedLen (NVMA + 1) (BitVec.ofNat 64 TRAPFRAME - alignedLen) with
        | none => .error .neverReturns
        | some addr =>
          let mapping : Vma :=
            { used := true
              addr := addr
              length := length.signExtend 64
              prot := prot
              flags := flags
              offset := offset
              f := some file }
          .ok (some addr, { s with vmas := Function.update s.vmas i mapping })

/-! ## `sys_munmap` and `kexit` -/

/-- The body of the page loops of `sys_munmap` and `kexit`. -/
def unmapVa (v : Vma) (state : PageTable × List WriteBack) (va : BitVec 64) :
    Result (PageTable × List WriteBack) :=
  match state.1.walkaddr va.toNat with
  | none => .ok state
  | some page => do
      let request : WriteBack :=
        { f := v.f, offset := v.offset.signExtend 64 + (va - v.addr), page := page }
      let pt ← state.1.uvmunmap va.toNat 1
      .ok (pt, if v.mapShared then state.2 ++ [request] else state.2)

def unmapRange (v : Vma) (start stop : BitVec 64) (pt : PageTable) :
    Result (PageTable × List WriteBack) :=
  match strides start stop with
  | none => .error .neverReturns
  | some visited => visited.foldlM (unmapVa v) (pt, [])

/-- How `sys_munmap` trims the mapping. -/
def trim (v : Vma) (addr : BitVec 64) (length : BitVec 32) : Vma :=
  let moved :=
    if addr = v.addr then
      { v with addr := v.addr + length.signExtend 64, offset := v.offset + length }
    else v
  let shorter := { moved with length := v.length - length.signExtend 64 }
  if shorter.length = 0 then { shorter with used := false } else shorter

/-- `sys_munmap`: whether it returns 0, and the pages to be written back. -/
def sysMunmap (s : Space) (addr : BitVec 64) (length : BitVec 32) :
    Result (Bool × Space × List WriteBack) :=
  let stop := addr + length.signExtend 64
  match findVma s.vmas (fun v => v.addr ≤ addr && stop ≤ v.stop) with
  | none => .ok (false, s, [])
  | some i =>
    let v := s.vmas i
    if addr ≠ v.addr ∧ stop ≠ v.stop then .ok (false, s, [])
    else do
      let (pt, written) ← unmapRange v addr stop s.pagetable
      .ok (true, { s with pagetable := pt, vmas := Function.update s.vmas i (trim v addr length) },
        written)

/-- One round of the loop of `kexit` over the mappings. -/
def closeVma (state : Space × List WriteBack) (i : Fin NVMA) : Result (Space × List WriteBack) :=
  let v := state.1.vmas i
  if v.used then do
    let (pt, written) ← unmapRange v v.addr v.stop state.1.pagetable
    .ok ({ state.1 with
        pagetable := pt
        vmas := Function.update state.1.vmas i { v with used := false } },
      state.2 ++ written)
  else .ok state

def kexit (s : Space) : Result (Space × List WriteBack) :=
  (List.finRange NVMA).foldlM closeVma (s, [])

/-! ## Page faults -/

/-- `vmfault`: whether it mapped a page. -/
def vmfault (s : Space) (va : BitVec 64) (avail : Nat) : Result (Bool × Space) :=
  if s.sz ≤ va.toNat then .ok (false, s)
  else do
    let va := (pgrounddown va).toNat
    if ← s.pagetable.ismapped va then return (false, s)
    match avail with
    | 0 => return (false, s)
    | avail + 1 =>
      let (mapped, pt, _) ←
        s.pagetable.mappages va Page.zero { r := true, w := true, u := true } avail
      return (mapped, { s with pagetable := pt })

/-- `mmapfault`: whether it returns 0. `contents` is the page after `readi` of the
mapping's file at the given offset. -/
def mmapfault (s : Space) (va : BitVec 64) (contents : Vma → BitVec 64 → Page)
    (avail : Nat) : Result (Bool × Space) :=
  let va := pgrounddown va
  match findVma s.vmas (fun v => v.addr ≤ va && va < v.stop) with
  | none => .ok (false, s)
  | some i =>
    let v := s.vmas i
    if (s.pagetable.walkaddr va.toNat).isSome then .ok (false, s)
    else
      match avail with
      | 0 => .ok (false, s)
      | avail + 1 => do
          let page := contents v (v.offset.signExtend 64 + (va - v.addr))
          let perm : Perm := { r := v.protRead, w := v.protWrite, u := true }
          let (mapped, pt, _) ← s.pagetable.mappages va.toNat page perm avail
          return (mapped, { s with pagetable := pt })

/-- The page-fault branch of `usertrap`: whether the fault was handled. -/
def pageFault (s : Space) (va : BitVec 64) (contents : Vma → BitVec 64 → Page)
    (avail avail' : Nat) : Result (Bool × Space) := do
  let (handled, s) ← s.vmfault va avail
  if handled then return (true, s) else s.mmapfault va contents avail'

/-! ## `sys_sbrk` -/

def wrap64 (value : Int) : Nat := (value % 2 ^ 64).toNat

def growproc (s : Space) (n : BitVec 32) (avail : Nat) : Result (Bool × Space) :=
  if 0 < n.toInt then
    if TRAPFRAME < wrap64 (s.sz + n.toInt) then .ok (false, s)
    else do
      let (sz, pt, _) ← s.pagetable.uvmalloc s.sz (wrap64 (s.sz + n.toInt)) { w := true } avail
      if sz = 0 then return (false, { s with pagetable := pt })
      return (true, { s with sz := sz, pagetable := pt })
  else if n.toInt < 0 then do
    let (sz, pt) ← s.pagetable.uvmdealloc s.sz (wrap64 (s.sz + n.toInt))
    return (true, { s with sz := sz, pagetable := pt })
  else .ok (true, s)

def SBRK_EAGER : Int := 1

/-- `sys_sbrk`; a result of `none` is the return value -1. -/
def sysSbrk (s : Space) (n t : BitVec 32) (avail : Nat) : Result (Option Nat × Space) :=
  if t.toInt = SBRK_EAGER ∨ n.toInt < 0 then do
    let (grown, s') ← s.growproc n avail
    return (if grown then some s.sz else none, s')
  else if wrap64 (s.sz + n.toInt) < s.sz then .ok (none, s)
  else if TRAPFRAME < wrap64 (s.sz + n.toInt) then .ok (none, s)
  else .ok (some s.sz, { s with sz := wrap64 (s.sz + n.toInt) })

/-! ## `kfork` -/

/-- The address space `kfork` makes for the child, or `none` if it fails. -/
def kfork (s : Space) (trampoline trapframe : Page) (avail : Nat) : Result (Option Space) := do
  match ← PageTable.procPagetable trampoline trapframe avail with
  | none => return none
  | some (pt, avail) =>
    match ← s.pagetable.uvmcopy pt s.sz avail with
    | (false, pt) =>
      pt.procFreepagetable 0
      return none
    | (true, pt) =>
      return some
        { sz := s.sz
          pagetable := pt
          vmas := fun i => if (s.vmas i).used then s.vmas i else {} }

end Space

end Xv6.Memory

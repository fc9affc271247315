import Xv6.Memory.Exec

/-!
# Runs of one process

What a process can make the kernel do to its address space. The bytes of files, the number of
free pages and the arguments are inputs of a call.
-/

namespace Xv6.Memory

/-- The number of pages `kalloc` can still hand out. -/
abbrev Frames := Fin (NFRAMES + 1)

inductive Call
  | mmap (length prot flags offset : BitVec 32) (f : Option Nat)
  | munmap (addr : BitVec 64) (length : BitVec 32)
  | sbrk (n t : BitVec 32) (avail : Frames)
  -- a page fault of the program itself
  | fault (va : BitVec 64) (contents : Vma → BitVec 64 → Page) (avail avail' : Frames)
  -- `copyin`, `copyout` and `copyinstr` call `vmfault` alone
  | lazyFill (va : BitVec 64) (avail : Frames)
  -- a store to a page that is present
  | store (va : BitVec 64) (byte : BitVec 8)
  | fork (trampoline trapframe : Page) (avail : Frames)
  | exec (file : Executable) (argv : List (List (BitVec 8)))
      (trampoline trapframe : Page) (avail : Frames)

namespace Space

/-- The page the program may write at `va`. -/
def writable (s : Space) (va : BitVec 64) : Bool :=
  match s.pagetable.lookup (va.toNat / 4096) with
  | none => false
  | some pte => decide (va.toNat < MAXVA) && pte.v && pte.u && pte.w

/-- A user store; without the right to write, the memory stays as it is. -/
def store (s : Space) (va : BitVec 64) (byte : BitVec 8) : Space :=
  if s.writable va then
    { s with pagetable :=
        s.pagetable.writePage va.toNat (Function.update · (va.toNat % 4096) byte) }
  else s

/-- One call. After `fork` the run goes on in the child. -/
def step (s : Space) : Call → Result Space
  | .mmap length prot flags offset f =>
    (s.sysMmap length prot flags offset f).map (·.2)
  | .munmap addr length => (s.sysMunmap addr length).map (·.2.1)
  | .sbrk n t avail => (s.sysSbrk n t avail).map (·.2)
  | .fault va contents avail avail' => (s.pageFault va contents avail avail').map (·.2)
  | .lazyFill va avail => (s.vmfault va avail).map (·.2)
  | .store va byte => .ok (s.store va byte)
  | .fork trampoline trapframe avail =>
    (s.kfork trampoline trapframe avail).map (·.getD s)
  | .exec file argv trampoline trapframe avail =>
    (s.kexec file argv trampoline trapframe avail).map (·.2)

/-- The address space of a new process before its first `kexec`. -/
structure Initial (s : Space) : Prop where
  sz : s.sz = 0
  pagetable : ∃ trampoline trapframe avail rest,
    PageTable.procPagetable trampoline trapframe avail = .ok (some (s.pagetable, rest))
  vmas : ∀ i, (s.vmas i).used = false

/-- A space as `allocproc` makes it while there is memory. -/
def fresh : Space where
  sz := 0
  pagetable :=
    match PageTable.procPagetable Page.zero Page.zero 8 with
    | .ok (some (pt, _)) => pt
    | _ => PageTable.empty
  vmas := fun _ => {}

theorem fresh_initial : fresh.Initial := ⟨rfl, ⟨Page.zero, Page.zero, 8, _, rfl⟩, fun _ => rfl⟩

/-- A program without segments, which `kexec` accepts. -/
def emptyProgram : Executable where
  elf := true
  phs := []
  size := 0
  bytes := fun _ => 0

def anyCall : Space → Call → Prop := fun _ _ => True

inductive Run (allowed : Space → Call → Prop) : Space → Prop
  | start {s : Space} (initial : s.Initial) : Run allowed s
  | call {s s' : Space} {call : Call} (before : Run allowed s)
      (allow : allowed s call) (step : s.step call = .ok s') : Run allowed s'

variable {allowed : Space → Call → Prop}

theorem Run.next {s s' : Space} (before : Run allowed s) (call : Call)
    (step : s.step call = .ok s') (allow : allowed s call := by trivial) : Run allowed s' :=
  .call before allow step

theorem Run.invariant {property : Space → Prop}
    (start : ∀ s, s.Initial → property s)
    (preserved : ∀ s call s', property s → allowed s call →
      s.step call = .ok s' → property s') {s : Space} (run : Run allowed s) :
    property s := by
  induction run with
  | start initial => exact start _ initial
  | call _ allow step ih =>
    exact preserved _ _ _ ih allow step

end Space

end Xv6.Memory

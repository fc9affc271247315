import Xv6.Library.Outcome
import Xv6.Memory.Layout

/-!
# Page tables in physical memory

`kernel/kalloc.c` and the page-table functions of `kernel/vm.c` on frames of 512 words. The
links between free frames are kept as a list, and `kalloc` fails when it is empty.
-/

namespace Xv6.Frames

open Memory (MAXVA strides)
open Function

/-- A physical address; that of a frame is a multiple of `PGSIZE`. -/
abbrev Pa := BitVec 64

abbrev Frame := Fin 512 → BitVec 64

def KERNBASE : Nat := 0x80000000

def PHYSTOP : Nat := KERNBASE + 128 * 1024 * 1024

theorem PHYSTOP_eq : PHYSTOP = 0x88000000 := rfl

inductive Panic where
  | kfree
  | walk
  | mappagesNotAligned
  | mappagesRemap
  | uvmunmapNotAligned
  | uvmclear
  | freewalkLeaf
  | loadsegNoPage
  /-- The kernel stack is exhausted. -/
  | stack
  | neverReturns
  deriving DecidableEq, Repr

/-- Physical memory, `kmem.freelist`, and the linker's symbol `end`. -/
structure Ram where
  mem : Pa → Frame
  free : List Pa
  kernelEnd : Pa

abbrev RamM := StateT Ram (Except Panic)

/-! ## Page-table entries -/

def PTE_V : BitVec 64 := 1#64

def pa2pte (pa : Pa) : BitVec 64 := (pa >>> 12) <<< 10

def pte2pa (pte : BitVec 64) : Pa := (pte >>> 10) <<< 12

def pteFlags (pte : BitVec 64) : BitVec 64 := pte &&& 0x3ff#64

/-- `pte & PTE_V`. -/
def valid (pte : BitVec 64) : Bool := pte.getLsbD 0

def px (level : Nat) (va : BitVec 64) : Fin 512 :=
  ⟨va.toNat / 2 ^ (12 + 9 * level) % 512, Nat.mod_lt _ (by decide)⟩

/-! ## Words and frames -/

def load (pa : Pa) (i : Fin 512) : RamM (BitVec 64) := fun r =>
  .ok (r.mem pa i, r)

def storeWord (pa : Pa) (i : Fin 512) (w : BitVec 64) : RamM Unit := fun r =>
  .ok ((), { r with mem := update r.mem pa (update (r.mem pa) i w) })

/-- `memset` of a whole frame. -/
def fill (pa : Pa) (w : BitVec 64) : RamM Unit := fun r =>
  .ok ((), { r with mem := update r.mem pa fun _ => w })

/-- `memmove` of a whole frame. -/
def copyFrame (dst src : Pa) : RamM Unit := fun r =>
  .ok ((), { r with mem := update r.mem dst (r.mem src) })

/-- `kalloc`, which fills the frame with the byte 5. -/
def kalloc : RamM (Option Pa) := fun r =>
  match r.free with
  | [] => .ok (none, r)
  | pa :: rest =>
    .ok (some pa, { r with
      mem := update r.mem pa fun _ => 0x0505050505050505#64
      free := rest })

/-- The frames that `kfree` takes. -/
def Ram.frame (r : Ram) (pa : Pa) : Bool :=
  pa.toNat % 4096 == 0 && r.kernelEnd.toNat ≤ pa.toNat && pa.toNat < PHYSTOP

/-- `kfree`, which fills the frame with the byte 1 and stores the link in its first word. -/
def kfree (pa : Pa) : RamM Unit := fun r =>
  if r.frame pa then
    .ok ((), { r with
      mem := update r.mem pa
        (update (fun _ => 0x0101010101010101#64) 0 (r.free.head?.getD 0#64))
      free := pa :: r.free })
  else .error .kfree

/-! ## The functions of `vm.c` -/

/-- The body of the loop of `walk`. -/
def descend (alloc : Bool) (pagetable : Pa) (i : Fin 512) : RamM (Option Pa) := do
  let pte ← load pagetable i
  if valid pte then return some (pte2pa pte)
  else if !alloc then return none
  else do
    match ← kalloc with
    | none => return none
    | some table =>
      fill table 0#64
      storeWord pagetable i (pa2pte table ||| PTE_V)
      return some table

/-- `walk`: the frame and the index of the entry. -/
def walk (pagetable : Pa) (va : BitVec 64) (alloc : Bool) : RamM (Option (Pa × Fin 512)) := do
  if MAXVA ≤ va.toNat then throw .walk
  else do
    match ← descend alloc pagetable (px 2 va) with
    | none => return none
    | some middle =>
      match ← descend alloc middle (px 1 va) with
      | none => return none
      | some leaf => return some (leaf, px 0 va)

/-- `mappages` of one page, the only size that is asked for after booting: whether it
returns 0. -/
def mappages (pagetable : Pa) (va : BitVec 64) (pa : Pa) (perm : BitVec 64) : RamM Bool := do
  if va.toNat % 4096 ≠ 0 then throw .mappagesNotAligned
  else do
    match ← walk pagetable va true with
    | none => return false
    | some (table, k) =>
      let pte ← load table k
      if valid pte then throw .mappagesRemap
      else do
        storeWord table k (pa2pte pa ||| perm ||| PTE_V)
        return true

/-- The body of the loop of `uvmunmap`. -/
def unmapPage (pagetable : Pa) (doFree : Bool) (a : BitVec 64) : RamM Unit := do
  match ← walk pagetable a false with
  | none => return ()
  | some (table, k) =>
    let pte ← load table k
    if valid pte then do
      if doFree then kfree (pte2pa pte)
      storeWord table k 0#64

/-- The loop of `uvmunmap` over the addresses it visits. -/
def unmapPages (pagetable : Pa) (doFree : Bool) : List (BitVec 64) → RamM Unit
  | [] => return ()
  | a :: rest => do
      unmapPage pagetable doFree a
      unmapPages pagetable doFree rest

def uvmunmap (pagetable : Pa) (va npages : BitVec 64) (doFree : Bool) : RamM Unit := do
  if va.toNat % 4096 ≠ 0 then throw .uvmunmapNotAligned
  else
    match strides va (va + npages * 4096#64) with
    | none => throw .neverReturns
    | some visited => unmapPages pagetable doFree visited

/-- The body of the loop of `uvmcopy` for a valid entry: whether it does not go to `err`. -/
def copyPage (new : Pa) (i pte : BitVec 64) : RamM Bool := do
  match ← kalloc with
  | none => return false
  | some mem =>
    copyFrame mem (pte2pa pte)
    if ← mappages new i mem (pteFlags pte) then return true
    else do
      kfree mem
      return false

/-- The loop of `uvmcopy` over the addresses it visits: whether it returns 0. -/
def uvmcopyLoop (old new : Pa) : List (BitVec 64) → RamM Bool
  | [] => return true
  | i :: rest => do
      match ← walk old i false with
      | none => uvmcopyLoop old new rest
      | some (table, k) =>
        let pte ← load table k
        if valid pte then do
          if ← copyPage new i pte then uvmcopyLoop old new rest
          else do
            uvmunmap new 0#64 (i / 4096#64) true
            return false
        else uvmcopyLoop old new rest

def uvmcopy (old new : Pa) (sz : BitVec 64) : RamM Bool :=
  match strides 0#64 sz with
  | none => throw .neverReturns
  | some visited => uvmcopyLoop old new visited

end Xv6.Frames

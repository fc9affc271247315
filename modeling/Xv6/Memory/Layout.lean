import Mathlib.Tactic

/-!
# User address-space layout

The constants that the memory system calls use, page rounding, and `struct vma`.
-/

namespace Xv6.Memory

abbrev PGSIZE : Nat := 4096

def MAXVA : Nat := 2 ^ 38

def TRAMPOLINE : Nat := MAXVA - PGSIZE

def TRAPFRAME : Nat := TRAMPOLINE - PGSIZE

abbrev NVMA : Nat := 16

instance : NeZero NVMA := ⟨by decide⟩

-- The number of words in a page, of entries in a page table.
instance instNeZeroWords : NeZero 512 := ⟨by decide⟩

theorem MAXVA_eq : MAXVA = 274877906944 := rfl

theorem TRAMPOLINE_eq : TRAMPOLINE = 274877902848 := rfl

theorem TRAPFRAME_eq : TRAPFRAME = 274877898752 := rfl

/-- The number of page frames between `KERNBASE` and `PHYSTOP`. -/
def NFRAMES : Nat := 128 * 1024 * 1024 / PGSIZE

theorem NFRAMES_eq : NFRAMES = 32768 := by
  norm_num [NFRAMES]

/-- Bytes of one page, by offset. -/
abbrev Page := Nat → BitVec 8

def Page.zero : Page := fun _ => 0

/-- `struct vma`: one slot of a process's table of mappings. The file is the
number of its entry in `ftable`. -/
structure Vma where
  used : Bool := false
  addr : BitVec 64 := 0
  length : BitVec 64 := 0
  prot : BitVec 32 := 0
  flags : BitVec 32 := 0
  offset : BitVec 32 := 0
  f : Option Nat := none
  deriving DecidableEq, Repr

namespace Vma

def PROT_READ : Nat := 0

def PROT_WRITE : Nat := 1

/-- Bit 0 of `prot`. -/
def protRead (v : Vma) : Bool := v.prot.getLsbD PROT_READ

/-- Bit 1 of `prot`. -/
def protWrite (v : Vma) : Bool := v.prot.getLsbD PROT_WRITE

/-- `flags & MAP_SHARED`, which is bit 0. -/
def mapShared (v : Vma) : Bool := v.flags.getLsbD 0

def stop (v : Vma) : BitVec 64 := v.addr + v.length

end Vma

/-! ## Rounding -/

def pgrounddown (a : BitVec 64) : BitVec 64 := a &&& ~~~4095#64

/-- `PGROUNDUP`, also `page_round_up` of `sys_mmap`. -/
def pgroundup (sz : BitVec 64) : BitVec 64 := (sz + 4095#64) &&& ~~~4095#64

theorem toNat_pgrounddown (a : BitVec 64) : (pgrounddown a).toNat = 4096 * (a.toNat / 4096) := by
  have shifted : a &&& ~~~4095#64 = (a >>> 12) <<< 12 := by
    ext i inside
    interval_cases i <;> simp
  rw [pgrounddown, shifted, BitVec.toNat_shiftLeft, BitVec.toNat_ushiftRight,
    Nat.shiftLeft_eq, Nat.shiftRight_eq_div_pow]
  omega

theorem toNat_pgroundup {sz : BitVec 64} (small : sz.toNat + 4095 < 2 ^ 64) :
    (pgroundup sz).toNat = 4096 * ((sz.toNat + 4095) / 4096) := by
  have sum : (sz + 4095#64).toNat = sz.toNat + 4095 := by
    rw [BitVec.toNat_add]
    exact Nat.mod_eq_of_lt small
  rw [← sum]
  exact toNat_pgrounddown (sz + 4095#64)

/-! ## Loops over pages -/

/-- The values of `va` in `for(va = start; va < stop; va += PGSIZE)`, or `none`
if `va` wraps around and the loop never ends. -/
def strides (start stop : BitVec 64) : Option (List (BitVec 64)) :=
  let count := (stop.toNat - start.toNat + 4095) / 4096
  if start.toNat + 4096 * count < 2 ^ 64 then
    some ((List.range count).map fun k => start + BitVec.ofNat 64 (4096 * k))
  else none

theorem strides_eq_some {start stop : BitVec 64} (small : stop.toNat + 4095 < 2 ^ 64) :
    ∃ visited, strides start stop = some visited ∧ visited.Nodup ∧
      ∀ va, va ∈ visited ↔ ∃ k, va.toNat = start.toNat + 4096 * k ∧ va.toNat < stop.toNat := by
  have bound := start.isLt
  by_cases before : start.toNat < stop.toNat
  · have address : ∀ k, k < (stop.toNat - start.toNat + 4095) / 4096 →
        (start + BitVec.ofNat 64 (4096 * k)).toNat = start.toNat + 4096 * k := by
      intro k inside
      rw [BitVec.toNat_add, BitVec.toNat_ofNat]
      omega
    refine ⟨_, if_pos (by omega), ?_, ?_⟩
    · apply List.nodup_range.map_on
      intro k inside k' inside' same
      have first := address k (List.mem_range.mp inside)
      have second := address k' (List.mem_range.mp inside')
      rw [same] at first
      omega
    · intro va
      rw [List.mem_map]
      constructor
      · rintro ⟨k, mem, rfl⟩
        rw [List.mem_range] at mem
        exact ⟨k, address k mem, by rw [address k mem]; omega⟩
      · rintro ⟨k, here, inside⟩
        refine ⟨k, List.mem_range.mpr (by omega), ?_⟩
        apply BitVec.eq_of_toNat_eq
        rw [address k (by omega)]
        exact here.symm
  · refine ⟨[], ?_, List.nodup_nil, ?_⟩
    · have none : (stop.toNat - start.toNat + 4095) / 4096 = 0 := by omega
      simp [strides, none, bound]
    · intro va
      simp only [List.not_mem_nil, false_iff, not_exists, not_and]
      intro k here
      omega

end Xv6.Memory

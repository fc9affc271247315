import Mathlib.Data.BitVec
import Xv6.Memory.VmaTable

/-!
# What `sys_munmap` takes away

For whole pages `sys_munmap` takes the range off the front or the back of a mapping, and what is
left stands for the same bytes of the file as before. The range must not wrap around at
`2 ^ 64`, which `sys_munmap` does not check.
-/

namespace Xv6.Memory

open PageTable (roundup)
open Space (Mapped vmaLeaf)
open Function

variable {i : Fin NVMA} {v v' : Vma} {s s' t : Space} {va addr : BitVec 64} {length : BitVec 32}

/-! ## Tables of whole pages -/

/-- A mapping of whole pages, of bytes of its file that an `int` can count. -/
structure Vma.Whole (v : Vma) : Prop where
  aligned : v.addr.toNat % 4096 = 0
  positive : 0 < v.length.toNat
  whole : v.length.toNat % 4096 = 0
  inside : v.addr.toNat + v.length.toNat ≤ MAXVA
  offset : 0 ≤ v.offset.toInt
  small : v.offset.toInt + v.length.toNat < 2 ^ 31

structure WholeTable (vmas : Fin NVMA → Vma) : Prop where
  each : ∀ i, (vmas i).used = true → (vmas i).Whole
  apart : ∀ i j, i ≠ j → (vmas i).used = true → (vmas j).used = true → Apart (vmas i) (vmas j)

def Vma.Covers (v : Vma) (a : Nat) : Prop :=
  v.used = true ∧ v.addr.toNat ≤ a ∧ a < v.addr.toNat + v.length.toNat

/-- The offset in the file that `mmapfault`, `sys_munmap` and `kexit` compute. -/
def Vma.fileOffset (v : Vma) (va : BitVec 64) : BitVec 64 := v.offset.signExtend 64 + (va - v.addr)

/-- The range is at the front or at the back of the mapping. -/
structure Vma.Ends (v : Vma) (addr : BitVec 64) (length : BitVec 32) : Prop where
  used : v.used = true
  above : v.addr.toNat ≤ addr.toNat
  below : addr.toNat + length.toNat ≤ v.addr.toNat + v.length.toNat
  border : addr = v.addr ∨ addr.toNat + length.toNat = v.addr.toNat + v.length.toNat

structure WholeRange (addr : BitVec 64) (length : BitVec 32) : Prop where
  aligned : addr.toNat % 4096 = 0
  positive : 0 < length.toInt
  whole : length.toNat % 4096 = 0

theorem WholeRange.length_pos (range : WholeRange addr length) : 0 < length.toNat := by
  by_contra zero
  have none : length = 0 := BitVec.eq_of_toNat_eq (by simpa using zero)
  have pos := range.positive
  rw [none] at pos
  exact absurd pos (by decide)

theorem Vma.Whole.toNat_stop (whole : v.Whole) :
    v.stop.toNat = v.addr.toNat + v.length.toNat := by
  have inside := whole.inside
  have limit := MAXVA_eq
  rw [Vma.stop, BitVec.toNat_add]
  omega

theorem toNat_rangeEnd (range : WholeRange addr length)
    (straight : addr.toNat + length.toNat < 2 ^ 64) :
    (addr + length.signExtend 64).toNat = addr.toNat + length.toNat := by
  rw [BitVec.toNat_add, (toNat_signExtend range.positive.le).1]
  exact Nat.mod_eq_of_lt straight

/-! ## What is left of a mapping -/

section Trim

theorem trim_offset (v : Vma) (addr : BitVec 64) (length : BitVec 32) :
    (Space.trim v addr length).offset = if addr = v.addr then v.offset + length else v.offset := by
  simp only [Space.trim]
  split <;> split <;> rfl

theorem trim_kept (v : Vma) (addr : BitVec 64) (length : BitVec 32) :
    (Space.trim v addr length).prot = v.prot ∧ (Space.trim v addr length).flags = v.flags ∧
      (Space.trim v addr length).f = v.f := by
  simp only [Space.trim]
  split <;> split <;> exact ⟨rfl, rfl, rfl⟩

section

variable {offset length : BitVec 32} (first : 0 ≤ offset.toInt) (second : 0 ≤ length.toInt)
  (small : offset.toInt + length.toInt < 2 ^ 31)
include first second small

theorem toInt_add_of_small : (offset + length).toInt = offset.toInt + length.toInt := by
  rw [BitVec.toInt_add]
  exact Int.bmod_eq_of_le (by omega) (by omega)

theorem signExtend_add_of_small :
    (offset + length).signExtend 64 = offset.signExtend 64 + length.signExtend 64 := by
  have sum := toInt_add_of_small first second small
  apply BitVec.eq_of_toInt_eq
  rw [BitVec.toInt_add, BitVec.toInt_signExtend_of_le (by omega),
    BitVec.toInt_signExtend_of_le (by omega), BitVec.toInt_signExtend_of_le (by omega), sum]
  exact (Int.bmod_eq_of_le (by omega) (by omega)).symm

end

variable (whole : v.Whole) (range : WholeRange addr length) (ends : v.Ends addr length)
include range

theorem length_toInt : length.toInt = length.toNat := by
  have small := (toNat_signExtend range.positive.le).2
  exact BitVec.toInt_eq_toNat_of_lt (by omega)

include whole in
theorem trim_addr_toNat :
    (Space.trim v addr length).addr.toNat =
      if addr = v.addr then v.addr.toNat + length.toNat else v.addr.toNat := by
  have inside := whole.inside
  have limit := MAXVA_eq
  rw [trim_addr]
  split
  · rw [BitVec.toNat_add, (toNat_signExtend range.positive.le).1]
    omega
  · rfl

include ends

theorem trim_length_toNat :
    (Space.trim v addr length).length.toNat = v.length.toNat - length.toNat := by
  have extended := (toNat_signExtend range.positive.le).1
  have above := ends.above
  have below := ends.below
  rw [trim_length, BitVec.toNat_sub_of_le, extended]
  rw [BitVec.le_def, extended]
  omega

theorem trim_used_iff : (Space.trim v addr length).used = true ↔ length.toNat < v.length.toNat := by
  have left := trim_length_toNat range ends
  rw [trim_used ends.used, ne_eq, ← BitVec.toNat_inj, left]
  change ¬ _ = 0 ↔ _
  omega

include whole

theorem trim_covers_iff (a : Nat) : (Space.trim v addr length).Covers a ↔
      v.Covers a ∧ ¬(addr.toNat ≤ a ∧ a < addr.toNat + length.toNat) := by
  unfold Vma.Covers
  rw [trim_used_iff range ends, trim_addr_toNat whole range, trim_length_toNat range ends]
  simp only [ends.used, true_and]
  split
  · next front =>
    rw [← front]
    omega
  · next back =>
    have border := ends.border.resolve_left back
    omega

theorem trim_whole (used : (Space.trim v addr length).used = true) :
    (Space.trim v addr length).Whole := by
  have left := trim_length_toNat range ends
  have start := trim_addr_toNat whole range
  have shorter := (trim_used_iff range ends).mp used
  have same := length_toInt range
  obtain ⟨aligned, pos, pages, inside, nonneg, small⟩ := whole
  have rangePages := range.whole
  by_cases front : addr = v.addr
  · rw [if_pos front] at start
    have moved := toInt_add_of_small nonneg (by omega : 0 ≤ length.toInt) (by omega)
    have offset := trim_offset v addr length
    rw [if_pos front] at offset
    refine ⟨by omega, by omega, by omega, by omega, ?_, ?_⟩
    · rw [offset, moved]
      omega
    · rw [offset, moved]
      omega
  · rw [if_neg front] at start
    have offset := trim_offset v addr length
    rw [if_neg front] at offset
    refine ⟨by omega, by omega, by omega, by omega, ?_, ?_⟩
    · rw [offset]
      exact nonneg
    · rw [offset]
      omega

theorem trim_fileOffset (va : BitVec 64) :
    (Space.trim v addr length).fileOffset va = v.fileOffset va := by
  have same := length_toInt range
  have small := whole.small
  have below := ends.below
  rw [Vma.fileOffset, Vma.fileOffset, trim_addr, trim_offset]
  split
  · next front =>
    have fits : v.offset.toInt + length.toInt < 2 ^ 31 := by
      rw [front] at below
      omega
    rw [signExtend_add_of_small whole.offset range.positive.le fits]
    bv_omega
  · rfl

end Trim

/-! ## One call -/

section Call

theorem contains_iff (whole : v.Whole) (range : WholeRange addr length)
    (straight : addr.toNat + length.toNat < 2 ^ 64) :
    (decide (v.addr ≤ addr) && decide (addr + length.signExtend 64 ≤ v.stop)) = true ↔
      v.addr.toNat ≤ addr.toNat ∧ addr.toNat + length.toNat ≤ v.addr.toNat + v.length.toNat := by
  rw [Bool.and_eq_true, decide_eq_true_eq, decide_eq_true_eq, BitVec.le_def, BitVec.le_def,
    whole.toNat_stop, toNat_rangeEnd range straight]

/-- The range is cut off the mapping in slot `i`. -/
structure Cut (s s' : Space) (i : Fin NVMA) (addr : BitVec 64) (length : BitVec 32) : Prop where
  sz : s'.sz = s.sz
  map : ∀ vpn, s'.pagetable.map vpn =
    if addr.toNat ≤ 4096 * vpn ∧ 4096 * vpn < addr.toNat + length.toNat then
      (s.pagetable.map vpn).filter (fun pte => !pte.u)
    else s.pagetable.map vpn
  others : ∀ j, j ≠ i → s'.vmas j = s.vmas j
  covers : ∀ a, (s'.vmas i).Covers a ↔
    (s.vmas i).Covers a ∧ ¬(addr.toNat ≤ a ∧ a < addr.toNat + length.toNat)
  fileOffset : ∀ va, (s'.vmas i).fileOffset va = (s.vmas i).fileOffset va
  kept : (s'.vmas i).prot = (s.vmas i).prot ∧ (s'.vmas i).flags = (s.vmas i).flags ∧
    (s'.vmas i).f = (s.vmas i).f
  table : WholeTable s'.vmas
  released : (s'.vmas i).used = false ↔ ∀ a, ¬(s'.vmas i).Covers a

theorem WholeTable.trim (table : WholeTable s.vmas) (range : WholeRange addr length)
    (ends : (s.vmas i).Ends addr length) :
    WholeTable (update s.vmas i (Space.trim (s.vmas i) addr length)) := by
  have whole := table.each i ends.used
  have left := trim_length_toNat range ends
  have start := trim_addr_toNat whole range
  have rangePages := range.whole
  have apart : ∀ j, j ≠ i → (s.vmas j).used = true →
      (Space.trim (s.vmas i) addr length).used = true →
      Apart (Space.trim (s.vmas i) addr length) (s.vmas j) := by
    intro j other used trimmed
    have before := table.apart j i other used ends.used
    have shorter := (trim_used_iff range ends).mp trimmed
    unfold Apart Vma.pageEnd roundup at before ⊢
    split at start <;> omega
  constructor
  · intro j used
    by_cases same : j = i
    · subst same
      rw [update_self] at used ⊢
      exact trim_whole whole range ends used
    · rw [update_of_ne same] at used ⊢
      exact table.each j used
  · intro j k different used used'
    by_cases first : j = i
    · subst first
      rw [update_self] at used ⊢
      rw [update_of_ne different.symm] at used' ⊢
      exact apart k different.symm used' used
    · rw [update_of_ne first] at used ⊢
      by_cases second : k = i
      · subst second
        rw [update_self] at used' ⊢
        exact (apart j first used used').symm
      · rw [update_of_ne second] at used' ⊢
        exact table.apart j k different used used'

/-- The write-backs of a mapping for the pages between two addresses: one for each page that is
present, at the offset of that page in the file, if the mapping is shared. -/
def Vma.WritesBack (v : Vma) (pt : PageTable) (start stop : Nat) (written : List WriteBack) :
    Prop :=
  ∃ pages : List (BitVec 64), pages.Nodup ∧
    (∀ va, va ∈ pages ↔ va.toNat % 4096 = 0 ∧ start ≤ va.toNat ∧ va.toNat < stop) ∧
    written = if v.mapShared then
      pages.filterMap fun va =>
        (pt.walkaddr va.toNat).map fun page => ⟨v.f, v.fileOffset va, page⟩
    else []

def Space.munmapCloses (s : Space) (addr : BitVec 64) (length : BitVec 32) : List (Option Nat) :=
  let stop := addr + length.signExtend 64
  match findVma s.vmas (fun v => v.addr ≤ addr && stop ≤ v.stop) with
  | none => []
  | some i =>
    let v := s.vmas i
    if addr ≠ v.addr ∧ stop ≠ v.stop then []
    else if v.length - length.signExtend 64 = 0 then [v.f]
    else []

/-- A call for a range at an end of a mapping cuts it off, and releases a mapping of which
nothing is left; any other call changes nothing and returns -1. -/
def MunmapExact (s : Space) (addr : BitVec 64) (length : BitVec 32) : Prop :=
  ∃ done s' written, s.sysMunmap addr length = .ok (done, s', written) ∧
    ((∀ i, ¬(s.vmas i).Ends addr length) →
      done = false ∧ s' = s ∧ written = [] ∧ s.munmapCloses addr length = []) ∧
    ∀ i, (s.vmas i).Ends addr length → done = true ∧ Cut s s' i addr length ∧
      s.munmapCloses addr length = if (s'.vmas i).used then [] else [(s.vmas i).f]

/-- The range wraps around, and `sys_munmap` takes its end for the end of a range inside a
mapping. -/
def WrapsOnto (s : Space) (addr : BitVec 64) (length : BitVec 32) : Prop :=
  2 ^ 64 ≤ addr.toNat + length.toNat ∧
    ∃ i, findVma s.vmas (fun v => v.addr ≤ addr && addr + length.signExtend 64 ≤ v.stop) = some i ∧
      (addr = (s.vmas i).addr ∨ addr + length.signExtend 64 = (s.vmas i).stop)

theorem sysMunmap_of_not_selected (missing : ∀ i, findVma s.vmas (fun v => v.addr ≤ addr &&
        addr + length.signExtend 64 ≤ v.stop) = some i →
      addr ≠ (s.vmas i).addr ∧ addr + length.signExtend 64 ≠ (s.vmas i).stop) :
    s.sysMunmap addr length = .ok (false, s, []) ∧ s.munmapCloses addr length = [] := by
  simp only [Space.sysMunmap, Space.munmapCloses]
  cases found : findVma s.vmas (fun v => v.addr ≤ addr && addr + length.signExtend 64 ≤ v.stop) with
  | none => exact ⟨rfl, rfl⟩
  | some i =>
    have border := missing i found
    exact ⟨if_pos border, if_pos border⟩

theorem not_ends_of_wraps (table : WholeTable s.vmas) (wraps : 2 ^ 64 ≤ addr.toNat + length.toNat)
    (i : Fin NVMA) : ¬(s.vmas i).Ends addr length := by
  intro ends
  have below := ends.below
  have inside := (table.each i ends.used).inside
  have limit := MAXVA_eq
  omega

variable (table : WholeTable s.vmas) (range : WholeRange addr length)
  (straight : addr.toNat + length.toNat < 2 ^ 64)
include table range

theorem not_munmapExact_of_wrapsOnto (wraps : WrapsOnto s addr length) :
    ¬MunmapExact s addr length := by
  obtain ⟨around, i, found, border⟩ := wraps
  rintro ⟨done, s', written, ok, failed, -⟩
  obtain ⟨rfl, -⟩ := failed (not_ends_of_wraps table around)
  obtain ⟨used, here⟩ := findVma_eq_some found
  rw [Bool.and_eq_true, decide_eq_true_eq, decide_eq_true_eq] at here
  have whole := table.each i used
  have inside := whole.inside
  have below := BitVec.le_def.mp here.2
  rw [whole.toNat_stop] at below
  obtain ⟨pt, visited, unmapped, -⟩ :=
    @Space.unmapRange_ok (s.vmas i) addr (addr + length.signExtend 64) s.pagetable range.aligned
      (by omega)
  have accepted : ¬(addr ≠ (s.vmas i).addr ∧
      addr + length.signExtend 64 ≠ (s.vmas i).stop) := by tauto
  simp only [Space.sysMunmap, found, if_neg accepted, unmapped] at ok
  cases ok

include straight

theorem findVma_of_ends (ends : (s.vmas i).Ends addr length) :
    findVma s.vmas (fun v => v.addr ≤ addr && addr + length.signExtend 64 ≤ v.stop) = some i := by
  have length_pos := range.length_pos
  cases found : findVma s.vmas (fun v => v.addr ≤ addr && addr + length.signExtend 64 ≤ v.stop) with
  | none =>
    have missed := findVma_eq_none found i ends.used
    rw [(contains_iff (table.each i ends.used) range straight).mpr ⟨ends.above, ends.below⟩]
      at missed
    cases missed
  | some j =>
    obtain ⟨used, here⟩ := findVma_eq_some found
    obtain ⟨above, below⟩ := (contains_iff (table.each j used) range straight).mp here
    by_cases same : j = i
    · rw [same]
    · have other := table.apart j i same used ends.used
      have above' := ends.above
      have below' := ends.below
      unfold Apart Vma.pageEnd roundup at other
      omega

theorem ends_of_selected (selected : s.Selected addr length i) : (s.vmas i).Ends addr length := by
  have whole := table.each i selected.used
  have sum := toNat_rangeEnd range straight
  refine ⟨selected.used, BitVec.le_def.mp selected.above, ?_,
    selected.border.imp_right fun last => ?_⟩
  · have below := BitVec.le_def.mp selected.below
    rwa [sum, whole.toNat_stop] at below
  · rw [← sum, last, whole.toNat_stop]

/-- `sys_munmap` of a range at an end of a mapping. -/
theorem sysMunmap_cut (ends : (s.vmas i).Ends addr length) :
    ∃ s' written, s.sysMunmap addr length = .ok (true, s', written) ∧
      Cut s s' i addr length ∧
      (s.vmas i).WritesBack s.pagetable addr.toNat (addr.toNat + length.toNat) written ∧
      s.munmapCloses addr length = if (s'.vmas i).used then [] else [(s.vmas i).f] := by
  have whole := table.each i ends.used
  have inside := whole.inside
  have above := ends.above
  have below := ends.below
  have sum := toNat_rangeEnd range straight
  have border : ¬(addr ≠ (s.vmas i).addr ∧ addr + length.signExtend 64 ≠ (s.vmas i).stop) := by
    rintro ⟨notFront, notBack⟩
    refine notBack (BitVec.eq_of_toNat_eq ?_)
    rw [sum, whole.toNat_stop]
    exact ends.border.resolve_left notFront
  have found := findVma_of_ends table range straight ends
  obtain ⟨pt, visited, unmapped, distinct, members, map⟩ :=
    @Space.unmapRange_ok (s.vmas i) addr (addr + length.signExtend 64) s.pagetable range.aligned
      (by rw [sum]; omega)
  rw [sum] at map members
  refine ⟨{ s with
    pagetable := pt
    vmas := update s.vmas i (Space.trim (s.vmas i) addr length) },
    if (s.vmas i).mapShared then visited.filterMap (Space.request (s.vmas i) s.pagetable) else [],
    ?_, ⟨rfl, fun vpn => congrFun map vpn, fun j other => update_of_ne other .., ?_, ?_,
    ?_, table.trim range ends, ?_⟩, ⟨visited, distinct, members, rfl⟩, ?_⟩
  · simp only [Space.sysMunmap, found, if_neg border, unmapped]
    rfl
  · dsimp only
    rw [update_self]
    exact trim_covers_iff whole range ends
  · dsimp only
    rw [update_self]
    exact trim_fileOffset whole range ends
  · dsimp only
    rw [update_self]
    exact trim_kept _ _ _
  · dsimp only
    rw [update_self]
    constructor
    · intro unused a covers
      rw [covers.1] at unused
      cases unused
    · intro empty
      have none := empty (Space.trim (s.vmas i) addr length).addr.toNat
      by_contra used
      rw [Bool.not_eq_false] at used
      have pos := (trim_whole whole range ends used).positive
      exact none ⟨used, le_refl _, by omega⟩
  · have released := trim_used ends.used addr length
    rw [trim_length] at released
    simp only [update_self, Space.munmapCloses, found, if_neg border]
    by_cases left : (s.vmas i).length - length.signExtend 64 = 0
    · have gone : (Space.trim (s.vmas i) addr length).used = false :=
        Bool.eq_false_of_not_eq_true fun used => released.mp used left
      rw [if_pos left, gone]
      rfl
    · rw [if_neg left, released.mpr left]
      rfl

theorem munmapExact_of_straight : MunmapExact s addr length := by
  by_cases ends : ∃ i, (s.vmas i).Ends addr length
  · obtain ⟨i, ends⟩ := ends
    obtain ⟨s', written, ok, cut, -, closes⟩ := sysMunmap_cut table range straight ends
    refine ⟨true, s', written, ok, fun none => absurd ends (none i), fun j ends' => ?_⟩
    have same : j = i := by
      have first := findVma_of_ends table range straight ends
      rw [findVma_of_ends table range straight ends'] at first
      exact Option.some.inj first
    subst same
    exact ⟨rfl, cut, closes⟩
  · push Not at ends
    have failed : s.sysMunmap addr length = .ok (false, s, []) ∧
        s.munmapCloses addr length = [] := by
      refine sysMunmap_of_not_selected fun i found => ?_
      obtain ⟨used, here⟩ := findVma_eq_some found
      rw [Bool.and_eq_true, decide_eq_true_eq, decide_eq_true_eq] at here
      by_contra border
      refine ends i (ends_of_selected table range straight ⟨used, here.1, here.2, ?_⟩)
      tauto
    exact ⟨false, s, [], failed.1, fun _ => ⟨rfl, rfl, rfl, failed.2⟩,
      fun i here => absurd here (ends i)⟩

end Call

/-! ## Sequences of calls -/

/-- A slot of the table stands for a part of what it stood for, and for the same bytes. -/
structure Vma.Keeps (v v' : Vma) : Prop where
  covers : ∀ a, v'.Covers a → v.Covers a
  fileOffset : ∀ va, v'.fileOffset va = v.fileOffset va
  prot : v'.prot = v.prot
  flags : v'.flags = v.flags
  f : v'.f = v.f

theorem Vma.Keeps.refl (v : Vma) : v.Keeps v :=
  ⟨fun _ covered => covered, fun _ => rfl, rfl, rfl, rfl⟩

theorem Vma.Keeps.trans {v'' : Vma} (first : v.Keeps v') (second : v'.Keeps v'') : v.Keeps v'' where
  covers := fun a covered => first.covers a (second.covers a covered)
  fileOffset := fun va => (second.fileOffset va).trans (first.fileOffset va)
  prot := second.prot.trans first.prot
  flags := second.flags.trans first.flags
  f := second.f.trans first.f

theorem Vma.Keeps.writesBack (keeps : v.Keeps v') {pt : PageTable} {start stop : Nat}
    {written : List WriteBack} (writes : v'.WritesBack pt start stop written) :
    v.WritesBack pt start stop written := by
  obtain ⟨pages, distinct, members, rfl⟩ := writes
  refine ⟨pages, distinct, members, ?_⟩
  have shared : v'.mapShared = v.mapShared := by rw [Vma.mapShared, Vma.mapShared, keeps.flags]
  simp only [shared, keeps.f, keeps.fileOffset]

theorem Cut.keeps (cut : Cut s s' i addr length) (j : Fin NVMA) : (s.vmas j).Keeps (s'.vmas j) := by
  by_cases same : j = i
  · subst same
    exact ⟨fun a covered => ((cut.covers a).mp covered).1, cut.fileOffset, cut.kept.1,
      cut.kept.2.1, cut.kept.2.2⟩
  · rw [cut.others j same]
    exact Vma.Keeps.refl _

/-- Every mapping is above the addresses a wrapped range can end at, as every mapping that
`sys_mmap` makes is. -/
def High (s : Space) : Prop := ∀ i, (s.vmas i).used = true → 2 ^ 31 ≤ (s.vmas i).addr.toNat

theorem not_wrapsOnto_of_high (table : WholeTable s.vmas) (high : High s)
    (range : WholeRange addr length) :
    ¬WrapsOnto s addr length := by
  rintro ⟨around, i, found, border⟩
  obtain ⟨used, -⟩ := findVma_eq_some found
  have whole := table.each i used
  have low := high i used
  have inside := whole.inside
  have limit := MAXVA_eq
  have short := (toNat_signExtend range.positive.le).2
  rcases border with front | back
  · rw [front] at around
    omega
  · have same := congrArg BitVec.toNat back
    rw [whole.toNat_stop, BitVec.toNat_add, (toNat_signExtend range.positive.le).1] at same
    omega

theorem munmapExact_iff (table : WholeTable s.vmas) (range : WholeRange addr length) :
    MunmapExact s addr length ↔ ¬WrapsOnto s addr length := by
  constructor
  · exact fun exact wraps => not_munmapExact_of_wrapsOnto table range wraps exact
  · intro apart
    by_cases straight : addr.toNat + length.toNat < 2 ^ 64
    · exact munmapExact_of_straight table range straight
    · have around : 2 ^ 64 ≤ addr.toNat + length.toNat := not_lt.mp straight
      have failed := @sysMunmap_of_not_selected s addr length
        fun i found => not_or.mp fun border => apart ⟨around, i, found, border⟩
      exact ⟨false, s, [], failed.1, fun _ => ⟨rfl, rfl, rfl, failed.2⟩,
        fun i ends => absurd ends (not_ends_of_wraps table around i)⟩

/-- The mappings and page faults of a process after it has called `sys_munmap` for whole
pages, any number of times. -/
inductive Unmapped (s : Space) : Space → Prop
  | start : Unmapped s s
  | munmap {t t' : Space} {addr : BitVec 64} {length : BitVec 32} {done : Bool}
      {written : List WriteBack} (before : Unmapped s t) (range : WholeRange addr length)
      (call : t.sysMunmap addr length = .ok (done, t', written)) : Unmapped s t'
  | fault {t t' : Space} {va : BitVec 64} {contents : Vma → BitVec 64 → Page} {avail : Nat}
      {handled : Bool} (before : Unmapped s t)
      (call : t.mmapfault va contents avail = .ok (handled, t')) : Unmapped s t'

theorem sysMunmap_inv (table : WholeTable s.vmas) (high : High s) (range : WholeRange addr length)
    {done : Bool} {written : List WriteBack}
    (call : s.sysMunmap addr length = .ok (done, s', written)) :
    (∃ i, Cut s s' i addr length ∧
        (s.vmas i).WritesBack s.pagetable addr.toNat (addr.toNat + length.toNat) written) ∨
      s' = s ∧ written = [] := by
  by_cases ends : ∃ i, (s.vmas i).Ends addr length
  · obtain ⟨i, ends⟩ := ends
    have straight : addr.toNat + length.toNat < 2 ^ 64 := by
      by_contra around
      exact not_ends_of_wraps table (not_lt.mp around) i ends
    obtain ⟨t, requests, ok, cut, writes, -⟩ := sysMunmap_cut table range straight ends
    rw [call] at ok
    cases ok
    exact .inl ⟨i, cut, writes⟩
  · push Not at ends
    obtain ⟨_, t, requests, ok, failed, -⟩ :=
      (munmapExact_iff table range).mpr (not_wrapsOnto_of_high table high range)
    obtain ⟨-, rfl, rfl, -⟩ := failed ends
    rw [call] at ok
    cases ok
    exact .inr ⟨rfl, rfl⟩

theorem High.of_keeps (high : High s) (table : WholeTable t.vmas)
    (keeps : ∀ j, (s.vmas j).Keeps (t.vmas j)) : High t := by
  intro i used
  have pos := (table.each i used).positive
  obtain ⟨was, above, -⟩ := (keeps i).covers (t.vmas i).addr.toNat ⟨used, le_refl _, by omega⟩
  have low := high i was
  omega

theorem Unmapped.keeps (run : Unmapped s t) (table : WholeTable s.vmas)
    (high : High s) : WholeTable t.vmas ∧ ∀ j, (s.vmas j).Keeps (t.vmas j) := by
  induction run with
  | start => exact ⟨table, fun j => Vma.Keeps.refl _⟩
  | munmap before range call ih =>
    obtain ⟨table', keeps⟩ := ih
    rcases sysMunmap_inv table' (high.of_keeps table' keeps) range call with
      ⟨i, cut, -⟩ | ⟨rfl, -⟩
    · exact ⟨cut.table, fun j => (keeps j).trans (cut.keeps j)⟩
    · exact ⟨table', keeps⟩
  | fault before call ih =>
    obtain ⟨-, same, -⟩ := Space.mmapfault_inv call
    rw [same]
    exact ih

/-- The pages of the mappings are pages of the user. -/
def UserPages (s : Space) : Prop :=
  ∀ i vpn pte, (s.vmas i).Covers (4096 * vpn) → s.pagetable.map vpn = some pte → pte.u = true

theorem Cut.user (cut : Cut s s' i addr length) (user : UserPages s) : UserPages s' := by
  intro j vpn pte covered leaf
  have was := (cut.keeps j).covers _ covered
  rw [cut.map] at leaf
  split at leaf
  · obtain ⟨leaf, -⟩ := Option.filter_eq_some_iff.mp leaf
    exact user j vpn pte was leaf
  · exact user j vpn pte was leaf

theorem Cut.unmapped (cut : Cut s s' i addr length) (user : UserPages s)
    (ends : (s.vmas i).Ends addr length) {vpn : Nat} (above : addr.toNat ≤ 4096 * vpn)
    (below : 4096 * vpn < addr.toNat + length.toNat) : s'.pagetable.map vpn = none := by
  have low := ends.above
  have high := ends.below
  rw [cut.map, if_pos ⟨above, below⟩, Option.filter_eq_none_iff]
  intro pte leaf
  rw [user i vpn pte ⟨ends.used, by omega, by omega⟩ leaf]
  decide

theorem Unmapped.user (run : Unmapped s t) (table : WholeTable s.vmas)
    (high : High s) (user : UserPages s) : UserPages t := by
  induction run with
  | start => exact user
  | munmap before range call ih =>
    obtain ⟨table', keeps⟩ := before.keeps table high
    rcases sysMunmap_inv table' (high.of_keeps table' keeps) range call with
      ⟨i, cut, -⟩ | ⟨rfl, -⟩
    · exact cut.user ih
    · exact ih
  | @fault t t' va contents avail handled before call ih =>
    obtain ⟨-, same, effect⟩ := Space.mmapfault_inv call
    intro j vpn pte covered leaf
    rw [same] at covered
    cases handled with
    | false =>
      have map : t'.pagetable.map = t.pagetable.map := effect
      exact ih j vpn pte covered (by rw [← map, leaf])
    | true =>
      obtain ⟨i, -, -, -, mapped⟩ := effect
      rw [mapped.map] at leaf
      by_cases here : vpn = (pgrounddown va).toNat / 4096
      · subst here
        rw [update_self] at leaf
        cases leaf
        rfl
      · rw [update_of_ne here] at leaf
        exact ih j vpn pte covered leaf

/-! ## Exit -/

/-- The mappings that are left to close, and their pages, are as they were. -/
def Remains (s s' : Space) (left : List (Fin NVMA)) : Prop :=
  ∀ j ∈ left, s'.vmas j = s.vmas j ∧
    ∀ vpn, (s.vmas j).Covers (4096 * vpn) → s'.pagetable.map vpn = s.pagetable.map vpn

/-- The write-backs of `kexit` for one slot. -/
def Closes (s : Space) (i : Fin NVMA) (written : List WriteBack) : Prop :=
  ((s.vmas i).used = true → (s.vmas i).WritesBack s.pagetable (s.vmas i).addr.toNat
    ((s.vmas i).addr.toNat + (s.vmas i).length.toNat) written) ∧
  ((s.vmas i).used = false → written = [])

theorem closeVma_requests (table : WholeTable s.vmas) {state : Space × List WriteBack}
    {left : List (Fin NVMA)} (remains : Remains s state.1 (i :: left)) (later : i ∉ left) :
    ∃ s' written, Space.closeVma state i = .ok (s', state.2 ++ written) ∧ Remains s s' left ∧
      Closes s i written := by
  obtain ⟨same, pages⟩ := remains i List.mem_cons_self
  unfold Space.closeVma
  by_cases used : (s.vmas i).used = true
  · have whole := table.each i used
    obtain ⟨pt, visited, unmapped, distinct, members, map⟩ := @Space.unmapRange_ok (s.vmas i)
      (s.vmas i).addr (s.vmas i).stop state.1.pagetable whole.aligned
      (by rw [whole.toNat_stop]; exact whole.inside)
    rw [whole.toNat_stop] at members map
    simp only [same, used, if_true, unmapped, bind, Except.bind]
    refine ⟨_, _, rfl, fun j mem => ?_, fun _ => ⟨visited, distinct, members, ?_⟩, fun unused => ?_⟩
    · obtain ⟨kept, covered⟩ := remains j (List.mem_cons_of_mem _ mem)
      have other : j ≠ i := fun here => later (here ▸ mem)
      refine ⟨(update_of_ne other ..).trans kept, fun vpn inside => ?_⟩
      have apart := table.apart j i other inside.1 used
      have after := inside.2.1
      have before := inside.2.2
      unfold Apart Vma.pageEnd roundup at apart
      dsimp only
      rw [map, Space.eraseUser, if_neg (by omega), covered vpn inside]
    · congr 1
      refine List.filterMap_congr fun va visit => ?_
      obtain ⟨aligned, above, below⟩ := (members va).mp visit
      have page : 4096 * (va.toNat / 4096) = va.toNat := by omega
      rw [Space.request, Space.walkaddr_congr (pages _ (page.symm ▸ ⟨used, above, below⟩))]
      rfl
    · cases used.symm.trans unused
  · simp only [same, used]
    exact ⟨state.1, [], by simp, fun j mem => remains j (List.mem_cons_of_mem _ mem),
      fun absurdly => absurd absurdly used, fun _ => rfl⟩

theorem kexit_requests (table : WholeTable s.vmas) : ∃ s' written,
    s.kexit = .ok (s', (List.finRange NVMA).flatMap written) ∧ ∀ i, Closes s i (written i) := by
  have loop : ∀ (slots : List (Fin NVMA)) (state : Space × List WriteBack), slots.Nodup →
      Remains s state.1 slots → ∃ s' written,
        slots.foldlM Space.closeVma state = .ok (s', state.2 ++ slots.flatMap written) ∧
        ∀ i ∈ slots, Closes s i (written i) := by
    intro slots
    induction slots with
    | nil => exact fun state _ _ => ⟨state.1, fun _ => [], by simp; rfl, by simp⟩
    | cons i rest ih =>
      intro state distinct remains
      obtain ⟨later, distinct⟩ := List.nodup_cons.mp distinct
      obtain ⟨s₁, first, ok₁, remains₁, requests₁⟩ := closeVma_requests table remains later
      obtain ⟨s₂, second, ok₂, requests₂⟩ := ih (s₁, state.2 ++ first) distinct remains₁
      have apart : ∀ j ∈ rest, update second i first j = second j := by
        intro j mem
        exact update_of_ne (by rintro rfl; exact later mem) ..
      refine ⟨s₂, update second i first, ?_, fun j mem => ?_⟩
      · rw [List.foldlM_cons, ok₁]
        change rest.foldlM Space.closeVma _ = _
        rw [ok₂, List.flatMap_cons, update_self, List.flatMap_congr apart, List.append_assoc]
      · rcases List.mem_cons.mp mem with rfl | mem
        · rwa [update_self]
        · rw [apart j mem]
          exact requests₂ j mem
  obtain ⟨s', written, ok, requests⟩ :=
    loop (List.finRange NVMA) (s, []) (List.nodup_finRange _) fun _ _ => ⟨rfl, fun _ _ => rfl⟩
  exact ⟨s', written, ok, fun i => requests i (List.mem_finRange i)⟩

/-! ## Pages that are faulted in -/

structure Bytes where
  size : Nat
  data : Nat → BitVec 8

/-- The zeroed page of `mmapfault` after `readi(ip, 0, mem, off, PGSIZE)`, whose offset is a
`uint`. -/
def readPage (file : Bytes) (foffset : BitVec 64) : Page :=
  let off := (foffset.setWidth 32).toNat
  if file.size < off ∨ 2 ^ 32 ≤ off + PGSIZE then Page.zero
  else fun k => if k < min PGSIZE (file.size - off) then file.data (off + k) else 0

/-- The contents of the pages of the mappings of some files. -/
def contentsOf (files : Nat → Bytes) (v : Vma) (foffset : BitVec 64) : Page :=
  match v.f with
  | none => Page.zero
  | some f => readPage (files f) foffset

theorem readPage_apply (file : Bytes) {foffset : BitVec 64} (small : foffset.toNat < 2 ^ 31)
    {k : Nat} (inside : k < 4096) :
    readPage file foffset k =
      if foffset.toNat + k < file.size then file.data (foffset.toNat + k) else 0 := by
  have truncated : (foffset.setWidth 32).toNat = foffset.toNat := by
    exact Nat.mod_eq_of_lt (by omega)
  have page : PGSIZE = 4096 := rfl
  simp only [readPage, truncated]
  split
  · next outside => rw [if_neg (by omega), Page.zero]
  · next present =>
    dsimp only
    by_cases before : foffset.toNat + k < file.size
    · rw [if_pos before, if_pos (by omega)]
    · rw [if_neg before, if_neg (by omega)]

theorem Vma.Whole.toNat_fileOffset (whole : v.Whole) (covered : v.Covers va.toNat) :
    (v.fileOffset va).toNat = v.offset.toInt.toNat + (va.toNat - v.addr.toNat) ∧
      (v.fileOffset va).toNat < 2 ^ 31 := by
  obtain ⟨-, above, below⟩ := covered
  have small := whole.small
  have nonneg := whole.offset
  obtain ⟨extended, short⟩ := toNat_signExtend nonneg
  have same : v.offset.toInt = v.offset.toNat := BitVec.toInt_eq_toNat_of_lt (by omega)
  have distance : (va - v.addr).toNat = va.toNat - v.addr.toNat :=
    BitVec.toNat_sub_of_le (BitVec.le_def.mpr above)
  rw [Vma.fileOffset, BitVec.toNat_add, extended, distance, same]
  omega

/-- The entry that `mmapfault` makes for a page of a mapping. -/
structure FaultedIn (v : Vma) (file : Bytes) (va : BitVec 64) (pte : Pte) : Prop where
  valid : pte.v = true
  user : pte.u = true
  read : pte.r = v.protRead
  write : pte.w = v.protWrite
  execute : pte.x = false
  bytes : ∀ k < 4096, pte.page k =
    if v.offset.toInt.toNat + (va.toNat - v.addr.toNat) + k < file.size then
      file.data (v.offset.toInt.toNat + (va.toNat - v.addr.toNat) + k)
    else 0

theorem faultedIn_of_keeps (whole : v.Whole) (keeps : v.Keeps v')
    (covered : v'.Covers va.toNat) (files : Nat → Bytes) {f : Nat} (file : v.f = some f) :
    FaultedIn v (files f) va (vmaLeaf v' (contentsOf files v' (v'.fileOffset va))) where
  valid := rfl
  user := rfl
  read := by rw [vmaLeaf, Vma.protRead, Vma.protRead, keeps.prot]
  write := by rw [vmaLeaf, Vma.protWrite, Vma.protWrite, keeps.prot]
  execute := rfl
  bytes := by
    intro k inside
    obtain ⟨offset, small⟩ := whole.toNat_fileOffset (keeps.covers _ covered)
    have contents : contentsOf files v' (v'.fileOffset va) =
        readPage (files f) (v.fileOffset va) := by
      rw [contentsOf, keeps.f, file, keeps.fileOffset]
    rw [vmaLeaf, contents]
    exact (readPage_apply _ small inside).trans (by rw [offset])

theorem Unmapped.faultedIn {t' : Space} (run : Unmapped s t) (table : WholeTable s.vmas)
    (high : High s) {files : Nat → Bytes} {avail : Nat}
    (call : t.mmapfault va (contentsOf files) avail = .ok (true, t')) :
    ∃ i pte, (t.vmas i).Covers (pgrounddown va).toNat ∧ Mapped t t' (pgrounddown va).toNat pte ∧
      ∀ f, (s.vmas i).f = some f → FaultedIn (s.vmas i) (files f) (pgrounddown va) pte := by
  obtain ⟨table', keeps⟩ := run.keeps table high
  obtain ⟨-, -, i, used, low, below, mapped⟩ := Space.mmapfault_inv call
  have whole := table'.each i used
  have before := BitVec.lt_def.mp below
  rw [whole.toNat_stop] at before
  have covered : (t.vmas i).Covers (pgrounddown va).toNat := ⟨used, BitVec.le_def.mp low, before⟩
  obtain ⟨was, -⟩ := (keeps i).covers _ covered
  exact ⟨i, _, covered, mapped, fun f file =>
    faultedIn_of_keeps (table.each i was) (keeps i) covered files file⟩

/-- `sys_munmap` of whole pages cuts exactly the range, except where the range wraps around
onto a mapping; no mapping is low enough for that among those that `sys_mmap` makes. After
any calls, every page still covered is the page of the file that it was at first: `mmapfault`
reads it from there, and `sys_munmap` and `kexit` write each page that is present back to there. -/
theorem sysMunmap_cuts_exactly (s : Space) (table : WholeTable s.vmas) :
    (∀ addr length, WholeRange addr length →
      (MunmapExact s addr length ↔ ¬WrapsOnto s addr length)) ∧
    (High s → UserPages s → ∀ t, Unmapped s t → WholeTable t.vmas ∧
      (∀ addr length, WholeRange addr length → MunmapExact t addr length ∧
        ∀ i t', (t.vmas i).Ends addr length → Cut t t' i addr length →
          ∀ vpn, addr.toNat ≤ 4096 * vpn → 4096 * vpn < addr.toNat + length.toNat →
            t'.pagetable.map vpn = none) ∧
      (∀ i a, (t.vmas i).Covers a → (s.vmas i).Covers a) ∧
      (∀ i va, (t.vmas i).fileOffset va = (s.vmas i).fileOffset va) ∧
      (∀ addr length done t' written, WholeRange addr length →
        t.sysMunmap addr length = .ok (done, t', written) → (t' = t ∧ written = []) ∨
          ∃ i, Cut t t' i addr length ∧ (s.vmas i).WritesBack t.pagetable addr.toNat
            (addr.toNat + length.toNat) written) ∧
      (∃ t' written, t.kexit = .ok (t', (List.finRange NVMA).flatMap written) ∧
        ∀ i, ((t.vmas i).used = true → (s.vmas i).WritesBack t.pagetable (t.vmas i).addr.toNat
            ((t.vmas i).addr.toNat + (t.vmas i).length.toNat) (written i)) ∧
          ((t.vmas i).used = false → written i = [])) ∧
      ∀ files va avail t', t.mmapfault va (contentsOf files) avail = .ok (true, t') →
        ∃ i pte, (t.vmas i).Covers (pgrounddown va).toNat ∧ Mapped t t' (pgrounddown va).toNat pte ∧
          ∀ f, (s.vmas i).f = some f → FaultedIn (s.vmas i) (files f) (pgrounddown va) pte) := by
  refine ⟨fun addr length range => munmapExact_iff table range, fun high user t run => ?_⟩
  obtain ⟨table', keeps⟩ := run.keeps table high
  have high' := high.of_keeps table' keeps
  refine ⟨table', fun addr length range => ?_, fun i a => (keeps i).covers a,
    fun i va => (keeps i).fileOffset va, fun addr length done t' written range call => ?_, ?_,
    fun files va avail t' call => run.faultedIn table high call⟩
  · exact ⟨(munmapExact_iff table' range).mpr (not_wrapsOnto_of_high table' high' range),
      fun i t' ends cut vpn => cut.unmapped (run.user table high user) ends⟩
  · rcases sysMunmap_inv table' high' range call with ⟨i, cut, writes⟩ | unchanged
    · exact .inr ⟨i, cut, (keeps i).writesBack writes⟩
    · exact .inl unchanged
  · obtain ⟨t', written, ok, closes⟩ := kexit_requests table'
    exact ⟨t', written, ok, fun i =>
      ⟨fun used => (keeps i).writesBack ((closes i).1 used), (closes i).2⟩⟩

/-- Three pages of a file from its second page on, in the first slot. -/
def oneMapping (addr : BitVec 64) : Space where
  sz := 0
  pagetable := PageTable.empty
  vmas := fun i =>
    if i = 0 then
      { used := true, addr := addr, length := 12288, prot := 3, flags := 1, f := some 0,
        offset := 4096 }
    else {}

theorem oneMapping_used (used : ((oneMapping addr).vmas i).used = true) : i = 0 := by
  by_contra other
  simp [oneMapping, other] at used

theorem oneMapping_whole (aligned : addr.toNat % 4096 = 0)
    (inside : addr.toNat + 12288 ≤ MAXVA) : WholeTable (oneMapping addr).vmas := by
  constructor
  · intro i used
    obtain rfl := oneMapping_used used
    have length : ((oneMapping addr).vmas 0).length = 12288 := rfl
    have offset : ((oneMapping addr).vmas 0).offset = 4096 := rfl
    exact ⟨aligned, by rw [length]; decide, by rw [length]; decide, inside,
      by rw [offset]; decide, by rw [offset, length]; decide⟩
  · intro i j apart used used'
    exact absurd ((oneMapping_used used).trans (oneMapping_used used').symm) apart

/-- After the first of three pages is gone, the next one is still the third of the file. -/
theorem sysMunmap_cuts_exactly_front : ∃ t, Unmapped (oneMapping (2 ^ 32)) t ∧
      (∀ a, (t.vmas 0).Covers a ↔ 2 ^ 32 + 4096 ≤ a ∧ a < 2 ^ 32 + 12288) ∧
      (t.vmas 0).fileOffset (2 ^ 32 + 4096) = 8192 ∧ MunmapExact t (2 ^ 32 + 8192) 4096 := by
  have table : WholeTable (oneMapping (2 ^ 32)).vmas := oneMapping_whole (by decide) (by decide)
  have high : High (oneMapping (2 ^ 32)) := by
    intro i used
    obtain rfl := oneMapping_used used
    decide
  have user : UserPages (oneMapping (2 ^ 32)) := by
    intro i vpn pte covered leaf
    rw [show (oneMapping (2 ^ 32)).pagetable = PageTable.empty from rfl,
      PageTable.map_empty] at leaf
    cases leaf
  obtain ⟨-, runs⟩ := sysMunmap_cuts_exactly _ table
  obtain ⟨-, each, -⟩ := runs high user _ .start
  have range : WholeRange (2 ^ 32) 4096 := ⟨by decide, by decide, by decide⟩
  obtain ⟨done, t, written, call, -, cuts⟩ := (each _ _ range).1
  have ends : ((oneMapping (2 ^ 32)).vmas 0).Ends (2 ^ 32) 4096 :=
    ⟨rfl, by decide, by decide, .inl rfl⟩
  obtain ⟨-, cut, -⟩ := cuts 0 ends
  have run : Unmapped (oneMapping (2 ^ 32)) t := .munmap .start range call
  obtain ⟨-, each', -, offset, -⟩ := runs high user t run
  refine ⟨t, run, fun a => ?_, (offset 0 _).trans (by decide),
    (each' _ _ ⟨by decide, by decide, by decide⟩).1⟩
  rw [cut.covers]
  change (true = true ∧ 2 ^ 32 ≤ a ∧ a < 2 ^ 32 + 12288) ∧ ¬(2 ^ 32 ≤ a ∧ a < 2 ^ 32 + 4096) ↔ _
  rw [eq_self, true_and]
  omega

set_option maxRecDepth 10000 in
/-- A mapping at address 0 that a range of the last and the first pages is taken for: the call
returns 0 and makes the mapping longer than the address space. -/
theorem sysMunmap_wraps_onto : WholeTable (oneMapping 0).vmas ∧ WholeRange (2 ^ 64 - 4096) 16384 ∧
      (∀ i, ¬((oneMapping 0).vmas i).Ends (2 ^ 64 - 4096) 16384) ∧
      ∃ t, (oneMapping 0).sysMunmap (2 ^ 64 - 4096) 16384 = .ok (true, t, []) ∧
        (t.vmas 0).used = true ∧ (t.vmas 0).length = 2 ^ 64 - 4096 := by
  have table : WholeTable (oneMapping 0).vmas := oneMapping_whole (by decide) (by decide)
  exact ⟨table, ⟨by decide, by decide, by decide⟩, not_ends_of_wraps table (by decide),
    _, rfl, rfl, by decide⟩

end Xv6.Memory

import Xv6.Memory.ExecMap
import Xv6.Memory.VmaTable

/-!
# The invariant of an address space

In a run whose `munmap` calls are page-aligned, the table of mappings stays in order and every
leaf of the page table belongs to the kernel, to the heap, or to a mapping.
-/

namespace Xv6.Memory

open PageTable (roundup erase fill heapLeaf)
open Function

variable {s s' : Space} {avail : Nat} {va : BitVec 64} {handled : Bool}
    {contents : Vma → BitVec 64 → Page}
variable {length : BitVec 32} {trampoline trapframe : Page} {halt : Halt}

/-- What a leaf is there for. -/
def Space.Owned (s : Space) (vpn : Nat) (pte : Pte) : Prop :=
  vpn = TRAMPOLINE / 4096 ∨ vpn = TRAPFRAME / 4096 ∨ 4096 * vpn < s.sz ∨
    (pte.u = true ∧ ∃ i, (s.vmas i).used = true ∧ (s.vmas i).addr.toNat ≤ 4096 * vpn ∧
      4096 * vpn < (s.vmas i).addr.toNat + (s.vmas i).length.toNat)

structure SpaceOk (s : Space) : Prop where
  table : TableOk s.vmas
  size : s.sz ≤ TRAPFRAME
  leaves : ∀ vpn pte, s.pagetable.map vpn = some pte → s.Owned vpn pte

/-- The calls of `munmap` are aligned; the other calls are arbitrary. -/
def alignedMunmaps : Space → Call → Prop
  | s, .munmap addr length => AlignedMunmap s addr length
  | _, _ => True

theorem SpaceOk.initial (initial : s.Initial) : SpaceOk s where
  table :=
    { each := fun i used => by simp [initial.vmas i] at used
      apart := fun i j _ used => by simp [initial.vmas i] at used }
  size := by rw [initial.sz]; exact Nat.zero_le _
  leaves := by
    intro vpn pte present
    obtain ⟨_, _, _, _, ok⟩ := initial.pagetable
    rcases procPagetable_within ok vpn pte present with kernel | kernel | below
    · exact Or.inl kernel
    · exact Or.inr (Or.inl kernel)
    · omega

theorem Space.Owned.mono {vpn : Nat} {pte pte' : Pte}
    (owned : s.Owned vpn pte) (larger : s.sz ≤ s'.sz) (user : pte.u = true → pte'.u = true)
    (kept : ∀ i, (s.vmas i).used = true → s'.vmas i = s.vmas i) : s'.Owned vpn pte' := by
  rcases owned with kernel | kernel | below | ⟨access, i, used, inside⟩
  · exact Or.inl kernel
  · exact Or.inr (Or.inl kernel)
  · exact Or.inr (Or.inr (Or.inl (by omega)))
  · refine Or.inr (Or.inr (Or.inr ⟨user access, i, ?_⟩))
    rw [kept i used]
    exact ⟨used, inside⟩

/-! ## One call -/

section

variable (ok : SpaceOk s)
include ok

theorem SpaceOk.mmap {prot flags offset : BitVec 32}
    {f : Option Nat} {result : Option (BitVec 64)}
    (call : s.sysMmap length prot flags offset f = .ok (result, s')) : SpaceOk s' := by
  rcases sysMmap_ok ok.table length prot flags offset f with
    failed | ⟨i, addr, _, added, mapped⟩
  · rw [failed] at call
    cases call
    exact ok
  · rw [mapped] at call
    cases call
    refine ⟨added.table ok.table, ok.size, fun vpn pte present => ?_⟩
    refine (ok.leaves vpn pte present).mono (le_refl _) id fun j used => ?_
    have other : j ≠ i := by
      rintro rfl
      rw [added.free] at used
      cases used
    exact update_of_ne other _ _

theorem SpaceOk.munmap {addr : BitVec 64} {done : Bool} {written : List WriteBack}
    (aligned : AlignedMunmap s addr length)
    (call : s.sysMunmap addr length = .ok (done, s', written)) : SpaceOk s' := by
  rcases sysMunmap_ok ok.table aligned with
    failed | ⟨i, pt, visited, selected, trimmed, unmapped, _, _, map⟩
  · rw [failed] at call
    cases call
    exact ok
  · rw [unmapped] at call
    cases call
    refine ⟨ok.table.update trimmed.ok fun used j other used' => ?_, ok.size, ?_⟩
    · have apart := ok.table.apart i j other.symm selected.used used'
      have above := trimmed.above
      have below := trimmed.below used
      unfold Apart at apart ⊢
      omega
    · intro vpn pte present
      rw [map, Space.eraseUser] at present
      split at present
      · next gone =>
        obtain ⟨present, kernel⟩ := Option.filter_eq_some_iff.mp present
        rcases ok.leaves vpn pte present with owned | owned | owned | ⟨user, _⟩
        · exact Or.inl owned
        · exact Or.inr (Or.inl owned)
        · exact Or.inr (Or.inr (Or.inl owned))
        · simp [user] at kernel
      · next stays =>
        rcases ok.leaves vpn pte present with
          owned | owned | owned | ⟨user, j, used, low, high⟩
        · exact Or.inl owned
        · exact Or.inr (Or.inl owned)
        · exact Or.inr (Or.inr (Or.inl owned))
        · refine Or.inr (Or.inr (Or.inr ⟨user, j, ?_⟩))
          dsimp only
          by_cases here : j = i
          · subst here
            rw [update_self]
            exact (trimmed.rest (4096 * vpn) (by omega) low high).resolve_left stays
          · rw [update_of_ne here]
            exact ⟨used, low, high⟩

theorem SpaceOk.mapped {va : Nat} {pte : Pte}
    (size : s'.sz = s.sz) (vmas : s'.vmas = s.vmas) (mapped : Space.Mapped s s' va pte)
    (owned : s.Owned (va / 4096) pte) : SpaceOk s' := by
  refine ⟨vmas ▸ ok.table, size ▸ ok.size, fun vpn pte' present => ?_⟩
  have kept : ∀ i, (s.vmas i).used = true → s'.vmas i = s.vmas i := fun i _ => by rw [vmas]
  rw [mapped.map] at present
  by_cases here : vpn = va / 4096
  · subst here
    rw [update_self] at present
    cases present
    exact owned.mono size.ge id kept
  · rw [update_of_ne here] at present
    exact (ok.leaves vpn pte' present).mono size.ge id kept

theorem SpaceOk.sameMap (size : s'.sz = s.sz)
    (vmas : s'.vmas = s.vmas) (map : s'.pagetable.map = s.pagetable.map) : SpaceOk s' := by
  refine ⟨vmas ▸ ok.table, size ▸ ok.size, fun vpn pte present => ?_⟩
  rw [map] at present
  exact (ok.leaves vpn pte present).mono size.ge id fun i _ => by rw [vmas]

theorem SpaceOk.vmfault (call : s.vmfault va avail = .ok (handled, s')) : SpaceOk s' := by
  obtain ⟨size, vmas, effect⟩ := Space.vmfault_inv call
  cases handled with
  | false => exact ok.sameMap size vmas effect
  | true =>
    refine ok.mapped size vmas effect.2 (Or.inr (Or.inr (Or.inl ?_)))
    have := toNat_pgrounddown va
    have := effect.1
    omega

theorem SpaceOk.mmapfault (call : s.mmapfault va contents avail = .ok (handled, s')) :
    SpaceOk s' := by
  obtain ⟨size, vmas, effect⟩ := Space.mmapfault_inv call
  cases handled with
  | false => exact ok.sameMap size vmas effect
  | true =>
    obtain ⟨i, used, low, high, mapped⟩ := effect
    refine ok.mapped size vmas mapped (Or.inr (Or.inr (Or.inr ⟨rfl, i, used, ?_⟩)))
    have low := BitVec.le_def.mp low
    have high := BitVec.lt_def.mp high
    rw [(ok.table.each i used).toNat_stop] at high
    have := toNat_pgrounddown va
    omega

theorem SpaceOk.pageFault {avail' : Nat}
    (call : s.pageFault va contents avail avail' = .ok (handled, s')) : SpaceOk s' := by
  obtain ⟨⟨filled, s₁⟩, first, call⟩ := bind_eq_ok call
  have between := ok.vmfault first
  cases filled with
  | true =>
    cases call
    exact between
  | false => exact between.mmapfault call

theorem SpaceOk.sbrk {n t : BitVec 32}
    {old : Option Nat} (call : s.sysSbrk n t avail = .ok (old, s')) : SpaceOk s' := by
  obtain ⟨vmas, resized, _⟩ := Space.sysSbrk_inv ok.size call
  have kept : ∀ i, (s.vmas i).used = true → s'.vmas i = s.vmas i := fun i _ => by rw [vmas]
  cases resized with
  | kept size map => exact ok.sameMap size vmas map
  | lazy larger inside map =>
    refine ⟨vmas ▸ ok.table, inside, fun vpn pte present => ?_⟩
    rw [map] at present
    exact (ok.leaves vpn pte present).mono larger id kept
  | eager larger inside map =>
    refine ⟨vmas ▸ ok.table, inside, fun vpn pte present => ?_⟩
    rw [map, fill] at present
    split at present
    · next added =>
      rw [lt_roundup_iff] at added
      exact Or.inr (Or.inr (Or.inl added.2))
    · exact (ok.leaves vpn pte present).mono larger id kept
  | shrunk smaller map =>
    refine ⟨vmas ▸ ok.table, smaller.trans ok.size, fun vpn pte present => ?_⟩
    rw [map, erase] at present
    split at present
    · cases present
    · next stays =>
      rw [lt_roundup_iff, ← not_lt, lt_roundup_iff] at stays
      rcases ok.leaves vpn pte present with owned | owned | owned | owned
      · exact Or.inl owned
      · exact Or.inr (Or.inl owned)
      · exact Or.inr (Or.inr (Or.inl (by omega)))
      · exact Or.inr (Or.inr (Or.inr (by rw [vmas]; exact owned)))

theorem SpaceOk.fork {child : Space}
    (call : s.kfork trampoline trapframe avail = .ok (some child)) : SpaceOk child := by
  obtain ⟨size, vmas, map⟩ := Space.kfork_inv call
  have used_iff : ∀ i, (child.vmas i).used = true →
      (s.vmas i).used = true ∧ child.vmas i = s.vmas i := by
    intro i used
    rw [vmas] at used ⊢
    split at used
    · next old => exact ⟨old, if_pos old⟩
    · cases used
  refine ⟨⟨fun i used => ?_, fun i j apart used used' => ?_⟩, size ▸ ok.size, ?_⟩
  · obtain ⟨old, same⟩ := used_iff i used
    rw [same]
    exact ok.table.each i old
  · obtain ⟨old, same⟩ := used_iff i used
    obtain ⟨old', same'⟩ := used_iff j used'
    rw [same, same']
    exact ok.table.apart i j apart old old'
  · intro vpn pte present
    rw [map, PageTable.overlay] at present
    by_cases below : vpn < roundup s.sz / 4096
    · rw [lt_roundup_iff] at below
      exact Or.inr (Or.inr (Or.inl (size ▸ below)))
    · rw [if_neg below] at present
      exact (PageTable.kernelLeaves_eq_some present).imp_right Or.inl

theorem SpaceOk.store (va : BitVec 64) (byte : BitVec 8) : SpaceOk (s.store va byte) := by
  obtain ⟨size, vmas, same⟩ := s.store_inv va byte
  refine ⟨vmas ▸ ok.table, size ▸ ok.size, fun vpn pte present => ?_⟩
  obtain ⟨old, present', perm⟩ := same.leaf present
  refine (ok.leaves vpn old present').mono size.ge ?_ fun i _ => by rw [vmas]
  rw [show old.u = pte.u from congrArg Perm.u perm]
  exact id

theorem SpaceOk.exec {file : Executable} {argv : List (List (BitVec 8))}
    {argc : Option Nat} (frames : avail ≤ NFRAMES)
    (call : s.kexec file argv trampoline trapframe avail = .ok (argc, s')) : SpaceOk s' := by
  rcases kexec_inv frames call with ⟨_, rfl⟩ | ⟨_, vmas, within, small⟩
  · exact ok
  · refine ⟨vmas ▸ ok.table, ?_, fun vpn pte present => ?_⟩
    · have := TRAPFRAME_eq
      omega
    · rcases within vpn pte present with kernel | kernel | below
      · exact Or.inl kernel
      · exact Or.inr (Or.inl kernel)
      · exact Or.inr (Or.inr (Or.inl below))

/-! ## Whole runs -/

theorem SpaceOk.step {call : Call}
    (aligned : alignedMunmaps s call) (step : s.step call = .ok s') : SpaceOk s' := by
  cases call with
  | mmap length prot flags offset f =>
    obtain ⟨_, call, rfl⟩ := map_eq_ok step
    exact ok.mmap call
  | munmap addr length =>
    obtain ⟨_, call, rfl⟩ := map_eq_ok step
    exact ok.munmap aligned call
  | sbrk n t avail =>
    obtain ⟨_, call, rfl⟩ := map_eq_ok step
    exact ok.sbrk call
  | fault va contents avail avail' =>
    obtain ⟨_, call, rfl⟩ := map_eq_ok step
    exact ok.pageFault call
  | lazyFill va avail =>
    obtain ⟨_, call, rfl⟩ := map_eq_ok step
    exact ok.vmfault call
  | store va byte =>
    cases step
    exact ok.store va byte
  | fork trampoline trapframe avail =>
    obtain ⟨child, call, rfl⟩ := map_eq_ok step
    rcases child with _ | child
    · exact ok
    · exact ok.fork call
  | exec file argv trampoline trapframe avail =>
    obtain ⟨_, call, rfl⟩ := map_eq_ok step
    exact ok.exec (Nat.le_of_lt_succ avail.isLt) call

end

theorem SpaceOk.of_run (run : Space.Run alignedMunmaps s) : SpaceOk s :=
  run.invariant (fun _ initial => .initial initial)
    fun _ _ _ ok aligned step => ok.step aligned step

/-! ## The loops over the mappings -/

theorem closeVma_ok {state : Space × List WriteBack} (table : TableOk state.1.vmas)
    (i : Fin NVMA) : ∃ state', Space.closeVma state i = .ok state' ∧ TableOk state'.1.vmas := by
  unfold Space.closeVma
  by_cases used : (state.1.vmas i).used = true
  · have ok := table.each i used
    obtain ⟨pt, visited, range, _⟩ := @Space.unmapRange_ok (state.1.vmas i)
      (state.1.vmas i).addr (state.1.vmas i).stop state.1.pagetable ok.aligned
      (by
        have := ok.inside
        have := TRAPFRAME_eq
        have := MAXVA_eq
        rw [ok.toNat_stop]
        omega)
    simp only [used, if_true, range, bind, Except.bind]
    exact ⟨_, rfl, table.update nofun nofun⟩
  · simp only [used]
    exact ⟨state, rfl, table⟩

theorem kexit_ok (table : TableOk s.vmas) : ∃ result, s.kexit = .ok result := by
  have loop : ∀ (l : List (Fin NVMA)) (state : Space × List WriteBack),
      TableOk state.1.vmas → ∃ result, l.foldlM Space.closeVma state = .ok result := by
    intro l
    induction l with
    | nil => exact fun state _ => ⟨state, rfl⟩
    | cons i rest ih =>
      intro state table
      obtain ⟨state', closed, table'⟩ := closeVma_ok table i
      rw [List.foldlM_cons, closed]
      exact ih state' table'
  exact loop _ (s, []) table

theorem mappages_halt {pt : PageTable} {va : Nat} {page : Page} {perm : Perm}
    (aligned : va % 4096 = 0) (inside : va < MAXVA)
    (failed : pt.mappages va page perm avail = .error halt) : halt = .mappagesRemap := by
  rw [PageTable.mappages, if_neg (by omega), if_neg (by omega)] at failed
  split at failed
  · cases failed
  · split at failed
    · cases failed
      rfl
    · cases failed

theorem mmapfault_halt (table : TableOk s.vmas)
    (failed : s.mmapfault va contents avail = .error halt) : halt = .mappagesRemap := by
  simp only [Space.mmapfault] at failed
  split at failed
  · cases failed
  · next i found =>
    obtain ⟨used, chosen⟩ := findVma_eq_some found
    have ok := table.each i used
    have limits := And.intro TRAPFRAME_eq MAXVA_eq
    have inside : (pgrounddown va).toNat < MAXVA := by
      simp only [Bool.and_eq_true, decide_eq_true_eq, BitVec.lt_def, ok.toNat_stop] at chosen
      have := ok.inside
      omega
    have aligned : (pgrounddown va).toNat % 4096 = 0 := by
      rw [toNat_pgrounddown]
      omega
    split at failed
    · cases failed
    · cases avail with
      | zero => cases failed
      | succ avail =>
        rcases mapping : s.pagetable.mappages (pgrounddown va).toNat (contents (s.vmas i)
            ((s.vmas i).offset.signExtend 64 + (pgrounddown va - (s.vmas i).addr)))
          { r := (s.vmas i).protRead, w := (s.vmas i).protWrite, u := true } avail
          with halt' | result
        · simp only [mapping, bind, Except.bind] at failed
          cases failed
          exact mappages_halt aligned inside mapping
        · simp only [mapping, bind, Except.bind] at failed
          cases failed

/-- In every run with aligned `munmap` calls the table of mappings is in order, and
neither `munmap` nor `exit` nor a fault on a mapping reaches the panics of `walk`
and `uvmunmap`. -/
theorem vma_table_of_aligned_munmaps {s : Space} (run : Space.Run alignedMunmaps s) :
    (∀ i, (s.vmas i).used = true →
      (s.vmas i).addr.toNat % PGSIZE = 0 ∧ 0 < (s.vmas i).length.toNat ∧
        (s.vmas i).addr.toNat + (s.vmas i).length.toNat ≤ TRAPFRAME) ∧
    (∀ i j, i ≠ j → (s.vmas i).used = true → (s.vmas j).used = true → Apart (s.vmas i) (s.vmas j)) ∧
    (∀ length prot flags offset f, ∃ result, s.sysMmap length prot flags offset f = .ok result) ∧
    (∀ addr length, AlignedMunmap s addr length → ∃ result, s.sysMunmap addr length = .ok result) ∧
    (∃ result, s.kexit = .ok result) ∧
    ∀ va contents avail halt, s.mmapfault va contents avail = .error halt →
      halt = .mappagesRemap := by
  have ok := SpaceOk.of_run run
  refine ⟨fun i used => ?_, ok.table.apart, fun length prot flags offset f => ?_,
    fun addr length aligned => ?_, kexit_ok ok.table,
    fun va contents avail halt failed => mmapfault_halt ok.table failed⟩
  · have fine := ok.table.each i used
    exact ⟨fine.aligned, fine.positive, fine.inside⟩
  · rcases sysMmap_ok ok.table length prot flags offset f with
      failed | ⟨_, _, _, _, mapped⟩
    · exact ⟨_, failed⟩
    · exact ⟨_, mapped⟩
  · rcases sysMunmap_ok ok.table aligned with failed | ⟨_, _, _, _, _, unmapped, _⟩
    · exact ⟨_, failed⟩
    · exact ⟨_, unmapped⟩

theorem vma_table_after_front_trim : ∃ s, Space.Run alignedMunmaps s ∧ (s.vmas 0).used = true ∧
      (s.vmas 0).addr.toNat % PGSIZE = 0 ∧ ∃ result, s.kexit = .ok result := by
  have trimmed := (Space.Run.start Space.fresh_initial : Space.Run alignedMunmaps _)
    |>.next (.mmap 8192 3 1 0 (some 0)) rfl
    |>.next (.munmap 0x3fffffc000 4096) rfl
      (fun _ _ _ _ => ⟨by decide, by decide, Or.inl (by decide)⟩)
  have table := vma_table_of_aligned_munmaps trimmed
  exact ⟨_, trimmed, rfl, (table.1 0 rfl).1, table.2.2.2.2.1⟩

/-- After `munmap(p, 100)` of a two-page mapping it starts in the middle of a page.
Once its second page is touched, `exit` panics. -/
theorem munmap_of_part_of_a_page : ∃ s, Space.Run Space.anyCall s ∧ (s.vmas 0).used = true ∧
      (s.vmas 0).addr.toNat % PGSIZE = 100 ∧ s.kexit = .error .uvmunmapNotAligned := by
  have touched := (Space.Run.start Space.fresh_initial : Space.Run Space.anyCall _)
    |>.next (.mmap 8192 3 1 0 (some 0)) rfl
    |>.next (.munmap 0x3fffffc000 100) rfl
    |>.next (.fault 0x3fffffd000 (fun _ _ => Page.zero) 8 8) rfl
  exact ⟨_, touched, rfl, by decide, rfl⟩

/-! ## `kexec` and the old address space -/

theorem SpaceOk.procFreepagetable (ok : SpaceOk s) (closed : ∀ i, (s.vmas i).used = false) :
    s.pagetable.procFreepagetable s.sz = .ok () := by
  apply procFreepagetable_ok
  · have := ok.size
    have := TRAPFRAME_eq
    have := MAXVA_eq
    unfold roundup
    omega
  · intro vpn pte present
    rcases ok.leaves vpn pte present with kernel | kernel | below | ⟨_, i, used, _⟩
    · exact Or.inl kernel
    · exact Or.inr (Or.inl kernel)
    · exact Or.inr (Or.inr below)
    · rw [closed i] at used
      cases used

theorem SpaceOk.closeVma {state : Space × List WriteBack} (ok : SpaceOk state.1) (i : Fin NVMA) :
    ∃ state', Space.closeVma state i = .ok state' ∧ SpaceOk state'.1 ∧
      ∀ j, (state'.1.vmas j).used = true → (state.1.vmas j).used = true ∧ j ≠ i := by
  obtain ⟨state', closed, table⟩ := closeVma_ok ok.table i
  refine ⟨state', closed, ?_⟩
  unfold Space.closeVma at closed
  by_cases used : (state.1.vmas i).used = true
  · have fine := ok.table.each i used
    have inside : (state.1.vmas i).stop.toNat ≤ MAXVA := by
      rw [fine.toNat_stop]
      exact fine.inside.trans (by decide)
    obtain ⟨pt, visited, range, -, -, map⟩ :=
      Space.unmapRange_ok (state.1.vmas i) state.1.pagetable fine.aligned inside
    simp only [used, if_true, range, bind, Except.bind] at closed
    cases closed
    refine ⟨⟨table, ok.size, fun vpn pte present => ?_⟩, fun j still => ?_⟩
    · rw [map, Space.eraseUser, fine.toNat_stop] at present
      have old : state.1.pagetable.map vpn = some pte := by
        split at present
        · exact (Option.filter_eq_some_iff.mp present).1
        · exact present
      refine (ok.leaves vpn pte old).imp_right (Or.imp_right (Or.imp_right ?_))
      rintro ⟨user, j, usedJ, low⟩
      by_cases same : j = i
      · subst same
        simp [low, old, user] at present
      · exact ⟨user, j, by simpa [same] using ⟨usedJ, low⟩⟩
    · by_cases same : j = i
      · simp [same] at still
      · exact ⟨by simpa [same] using still, same⟩
  · simp only [used] at closed
    cases closed
    exact ⟨ok, fun j still => ⟨still, fun same => used (same ▸ still)⟩⟩

/-- `kexec` of a program whose image it can build returns with the old address space
discarded exactly if no mapping was in use. -/
theorem kexec_discards_iff_no_mapping {s : Space} (run : Space.Run alignedMunmaps s)
    (file : Executable) (argv : List (List (BitVec 8))) (trampoline trapframe : Page)
    (avail : Frames) :
    ((∀ i, (s.vmas i).used = false) →
      s.kexec file argv trampoline trapframe avail ≠ .error .freewalkLeaf) ∧
    ∀ image, file.buildImage argv trampoline trapframe avail = .ok (some image) →
      ((∃ s', s.kexec file argv trampoline trapframe avail = .ok (some argv.length, s') ∧
          (∀ i, (s'.vmas i).used = false) ∧ Within s'.pagetable s'.sz) ↔
        ∀ i, (s.vmas i).used = false) := by
  have ok := SpaceOk.of_run run
  have frames := Nat.le_of_lt_succ avail.isLt
  refine ⟨fun closed => (kexec_safe frames ?_).1, fun image build => ⟨?_, fun closed => ?_⟩⟩
  · rw [ok.procFreepagetable closed]
    exact safe_ok _
  · rintro ⟨s', call, closed, _⟩ i
    rcases kexec_inv frames call with ⟨failed, _⟩ | ⟨_, vmas, _⟩
    · cases failed
    · rw [← vmas]
      exact closed i
  · have call : s.kexec file argv trampoline trapframe avail =
        .ok (some argv.length, { s with sz := image.2, pagetable := image.1 }) := by
      rw [Space.kexec, build]
      simp only [bind, Except.bind, ok.procFreepagetable closed]
      rfl
    exact ⟨_, call, closed, (buildImage_within frames build).1⟩

theorem kexec_discards_after_munmap : ∃ s s', Space.Run alignedMunmaps s ∧
      s.kexec Space.emptyProgram [] Page.zero Page.zero (8 : Frames) = .ok (some 0, s') ∧
      (∀ i, (s'.vmas i).used = false) ∧ Within s'.pagetable s'.sz := by
  have unmapped := (Space.Run.start Space.fresh_initial : Space.Run alignedMunmaps _)
    |>.next (.mmap 4096 3 1 0 (some 0)) rfl
    |>.next (.fault 0x3fffffd000 (fun _ _ => Page.zero) 8 8) rfl
    |>.next (.munmap 0x3fffffd000 4096) rfl
      (fun _ _ _ _ => ⟨by decide, by decide, Or.inl (by decide)⟩)
  have discards := (kexec_discards_iff_no_mapping unmapped Space.emptyProgram []
    Page.zero Page.zero 8).2 _ rfl
  obtain ⟨s', call, closed, within⟩ := discards.mpr (by decide)
  exact ⟨_, s', unmapped, call, closed, within⟩

set_option maxRecDepth 4000 in
/-- With a touched page of a mapping `kexec` panics; with an untouched one the mapping
is still there in the new program. -/
theorem kexec_with_a_mapping : (∃ s, Space.Run Space.anyCall s ∧
      s.kexec Space.emptyProgram [] Page.zero Page.zero 8 = .error .freewalkLeaf) ∧
    ∃ s s', Space.Run Space.anyCall s ∧
      s.kexec Space.emptyProgram [] Page.zero Page.zero 8 = .ok (some 0, s') ∧
      (s'.vmas 0).used = true := by
  have mapped := (Space.Run.start Space.fresh_initial : Space.Run Space.anyCall _)
    |>.next (.mmap 4096 3 1 0 (some 0)) rfl
  have touched := mapped.next (.fault 0x3fffffd000 (fun _ _ => Page.zero) 8 8) rfl
  exact ⟨⟨_, touched, rfl⟩, ⟨_, _, mapped, rfl, rfl⟩⟩

end Xv6.Memory

import Xv6.Memory.VmaTable

/-!
# Where `sys_mmap` puts a mapping

A jump of the collision loop only skips addresses at which the new mapping would meet the
mapping that was jumped below, and at most `NVMA` jumps are made.
-/

namespace Xv6.Memory

open PageTable (roundup)

/-- The addresses on a page boundary where `len` bytes lie below the trapframe and on no page
of a mapping. -/
def Vacant (vmas : Fin NVMA → Vma) (len : Nat) : Set Nat :=
  {b | b % 4096 = 0 ∧ b + len ≤ TRAPFRAME ∧
    ∀ j, (vmas j).used = true → (vmas j).pageEnd ≤ b ∨ b + len ≤ (vmas j).addr.toNat}

theorem mem_vacant_iff {vmas : Fin NVMA → Vma}
    (placed : ∀ i, (vmas i).used = true → (vmas i).Placed) {len b : Nat}
    (aligned : b % 4096 = 0) : b ∈ Vacant vmas len ↔ Fits vmas len b := by
  constructor
  · rintro ⟨-, below, clear⟩
    refine ⟨below, fun i used => (clear i used).imp_left fun after => ?_⟩
    unfold Vma.pageEnd roundup at after
    omega
  · rintro ⟨below, clear⟩
    refine ⟨aligned, below, fun i used => (clear i used).imp_left fun after => ?_⟩
    have start := (placed i used).aligned
    unfold Vma.pageEnd roundup
    omega

theorem findFree_first {vmas : Fin NVMA → Vma} {i : Fin NVMA} (found : findFree vmas = some i)
    (j : Fin NVMA) (earlier : j < i) : (vmas j).used = true := by
  obtain ⟨before, after, split, used⟩ := (List.find?_eq_some_iff_append.mp found).2
  have position : j ∈ before := by
    have sorted := (List.pairwise_lt_finRange NVMA)
    rw [split, List.pairwise_append] at sorted
    have mem : j ∈ before ++ i :: after := split ▸ List.mem_finRange j
    rcases List.mem_append.mp mem with here | rest
    · exact here
    · rcases List.mem_cons.mp rest with same | later
      · exact absurd same earlier.ne
      · have order := (List.pairwise_cons.mp sorted.2.1).1 j later
        exact absurd order (not_lt_of_gt earlier)
  simpa using used j position

/-- With a free slot and a positive length the loop ends however many tests it may make, its
subtractions do not wrap around, the mapping gets the highest vacant address, and the first
free slot is all that changes. -/
theorem mmap_takes_highest_vacant (s : Space)
    (placed : ∀ i, (s.vmas i).used = true → (s.vmas i).Placed)
    (free : ∃ i, (s.vmas i).used = false)
    (length prot flags offset : BitVec 32) (positive : 1 ≤ length.toInt) (file : Nat) :
    ∃ (i : Fin NVMA) (addr : BitVec 64),
      (s.vmas i).used = false ∧ (∀ j < i, (s.vmas j).used = true) ∧
      (let mapping : Vma :=
        { used := true, addr := addr, length := length.signExtend 64
          prot := prot, flags := flags, offset := offset, f := some file }
      s.sysMmap length prot flags offset (some file) =
        .ok (some addr, { s with vmas := Function.update s.vmas i mapping })) ∧
      IsGreatest (Vacant s.vmas (roundup length.toNat)) addr.toNat ∧
      (∀ tests, NVMA < tests → Space.place s.vmas (pgroundup (length.signExtend 64)) tests
          (BitVec.ofNat 64 TRAPFRAME - pgroundup (length.signExtend 64)) = some addr) ∧
      (pgroundup (length.signExtend 64)).toNat = roundup length.toNat ∧
      roundup length.toNat ≤ TRAPFRAME ∧
      ∀ j ∈ Space.jumps s.vmas (pgroundup (length.signExtend 64)) (NVMA + 1)
          (BitVec.ofNat 64 TRAPFRAME - pgroundup (length.signExtend 64)),
        roundup length.toNat ≤ (s.vmas j).addr.toNat := by
  have some : ∃ i, findFree s.vmas = some i := by
    obtain ⟨i, unused⟩ := free
    refine Option.isSome_iff_exists.mp (List.find?_isSome.mpr ⟨i, List.mem_finRange i, ?_⟩)
    simp [unused]
  obtain ⟨i, found⟩ := some
  obtain ⟨rounded, addr, chosen, aligned, -, fits, highest, jumps⟩ :=
    mmap_place placed positive (Nat.lt_succ_self NVMA)
  have below := fits.below
  refine ⟨i, addr, findFree_eq_some found, findFree_first found, ?_,
    ⟨(mem_vacant_iff placed aligned).mpr fits, ?_⟩, fun tests enough => ?_, rounded, by omega,
    jumps⟩
  · have accepted : ¬length.toInt ≤ 0 := by omega
    simp only [Space.sysMmap, if_neg accepted, found, chosen]
  · intro b vacant
    exact highest b ((mem_vacant_iff placed vacant.1).mp vacant)
  · obtain ⟨-, addr', chosen', -, -, fits', highest', -⟩ := mmap_place placed positive enough
    have same : addr' = addr :=
      BitVec.eq_of_toNat_eq (le_antisymm (highest _ fits') (highest' _ fits))
    rw [chosen', same]

/-- A page right below a gap of one page, and a page at the bottom of the address space. -/
def twoMappings : Space where
  sz := 0
  pagetable := PageTable.empty
  vmas := fun i =>
    if i = 0 then { used := true, addr := BitVec.ofNat 64 (TRAPFRAME - 8192), length := 4096 }
    else if i = 1 then { used := true, addr := 0, length := 100 }
    else {}

theorem mmap_takes_highest_vacant_two_mappings :
    ∃ addr, Space.place twoMappings.vmas (pgroundup ((5000#32).signExtend 64)) (NVMA + 1)
        (BitVec.ofNat 64 TRAPFRAME - pgroundup ((5000#32).signExtend 64)) = some addr ∧
      IsGreatest (Vacant twoMappings.vmas 8192) addr.toNat := by
  have placed : ∀ i, (twoMappings.vmas i).used = true → (twoMappings.vmas i).Placed := by
    intro i used
    by_cases first : i = 0
    · subst first
      exact ⟨by decide, by decide, by decide, by decide⟩
    · by_cases second : i = 1
      · subst second
        exact ⟨by decide, by decide, by decide, by decide⟩
      · simp [twoMappings, first, second] at used
  obtain ⟨_, addr, _, _, _, greatest, ends, _⟩ :=
    mmap_takes_highest_vacant twoMappings placed ⟨2, rfl⟩ 5000#32 1 1 0 (by decide) 3
  exact ⟨addr, ends _ (Nat.lt_succ_self NVMA), greatest⟩

end Xv6.Memory

import Xv6.Memory.SpaceMap

/-!
# The table of mappings

Every used mapping starts on a page boundary, is not empty, lies below the trapframe, and shares
no page with another one.
-/

namespace Xv6.Memory

open PageTable (roundup)
open Function

variable {v : Vma} {vmas : Fin NVMA → Vma} {i : Fin NVMA} {addr : BitVec 64}
    {length : BitVec 32} {s : Space}

namespace Vma

/-- The end of the last page of a mapping. -/
def pageEnd (v : Vma) : Nat := v.addr.toNat + roundup v.length.toNat

/-- A mapping as `proc.h` describes it. Its length began as a positive `int`, and
`NVMA` mappings of that size leave the lowest addresses free. -/
structure Ok (v : Vma) : Prop where
  aligned : v.addr.toNat % 4096 = 0
  positive : 0 < v.length.toNat
  inside : v.addr.toNat + v.length.toNat ≤ TRAPFRAME
  short : v.length.toNat < 2 ^ 31
  high : 2 ^ 32 ≤ v.addr.toNat

/-- The same at any address. -/
structure Placed (v : Vma) : Prop where
  aligned : v.addr.toNat % 4096 = 0
  positive : 0 < v.length.toNat
  inside : v.addr.toNat + v.length.toNat ≤ TRAPFRAME
  short : v.length.toNat < 2 ^ 31

theorem Ok.placed (ok : v.Ok) : v.Placed := ⟨ok.aligned, ok.positive, ok.inside, ok.short⟩

theorem Placed.toNat_stop (placed : v.Placed) : v.stop.toNat = v.addr.toNat + v.length.toNat := by
  have := placed.inside
  have := TRAPFRAME_eq
  rw [stop, BitVec.toNat_add]
  omega

theorem Ok.toNat_stop (ok : v.Ok) : v.stop.toNat = v.addr.toNat + v.length.toNat :=
  ok.placed.toNat_stop

end Vma

/-- The two mappings have no page in common. -/
def Apart (v w : Vma) : Prop := v.pageEnd ≤ w.addr.toNat ∨ w.pageEnd ≤ v.addr.toNat

structure TableOk (vmas : Fin NVMA → Vma) : Prop where
  each : ∀ i, (vmas i).used = true → (vmas i).Ok
  apart : ∀ i j, i ≠ j → (vmas i).used = true → (vmas j).used = true → Apart (vmas i) (vmas j)

theorem Apart.symm {w : Vma} (apart : Apart v w) : Apart w v := Or.symm apart

theorem TableOk.update (table : TableOk vmas) (ok : v.used = true → v.Ok)
    (apart : v.used = true → ∀ j, j ≠ i → (vmas j).used = true → Apart v (vmas j)) :
    TableOk (update vmas i v) where
  each := by
    intro j used
    by_cases same : j = i
    · subst same
      rw [update_self] at used ⊢
      exact ok used
    · rw [update_of_ne same] at used ⊢
      exact table.each j used
  apart := by
    intro j k different used used'
    by_cases first : j = i
    · subst first
      rw [update_self] at used ⊢
      rw [update_of_ne different.symm] at used' ⊢
      exact apart used k different.symm used'
    · rw [update_of_ne first] at used ⊢
      by_cases second : k = i
      · subst second
        rw [update_self] at used' ⊢
        exact (apart used' j first used).symm
      · rw [update_of_ne second] at used' ⊢
        exact table.apart j k different used used'

theorem findVma_eq_some {test : Vma → Bool} (found : findVma vmas test = some i) :
    (vmas i).used = true ∧ test (vmas i) = true := by
  have := List.find?_some found
  simpa using this

theorem findVma_eq_none {test : Vma → Bool}
    (missing : findVma vmas test = none) (i : Fin NVMA) (used : (vmas i).used = true) :
    test (vmas i) = false := by
  have := List.find?_eq_none.mp missing i (List.mem_finRange i)
  simpa [used] using this

theorem findFree_eq_some (found : findFree vmas = some i) : (vmas i).used = false := by
  have := List.find?_some found
  simpa using this

/-! ## Placement -/

/-- The address range `[addr, addr + len)` lies below the trapframe and meets no
used mapping. -/
structure Fits (vmas : Fin NVMA → Vma) (len addr : Nat) : Prop where
  below : addr + len ≤ TRAPFRAME
  clear : ∀ i, (vmas i).used = true → (vmas i).addr.toNat + (vmas i).length.toNat ≤ addr ∨
      addr + len ≤ (vmas i).addr.toNat

/-- The used mappings that start below `limit`; each of them can collide once
more. -/
def pending (vmas : Fin NVMA → Vma) (limit : Nat) : Finset (Fin NVMA) :=
  {i | (vmas i).used = true ∧ (vmas i).addr.toNat < limit}

theorem card_pending_lt {limit : Nat}
    (used : (vmas i).used = true) (start : (vmas i).addr.toNat < limit) :
    (pending vmas (vmas i).addr.toNat).card < (pending vmas limit).card := by
  apply Finset.card_lt_card
  refine ⟨?_, ?_⟩
  · intro j mem
    simp only [pending, Finset.mem_filter, Finset.mem_univ, true_and] at mem ⊢
    exact ⟨mem.1, mem.2.trans start⟩
  · intro subset
    have here : i ∈ pending vmas limit := by
      simp [pending, used, start]
    have := subset here
    simp [pending] at this

/-- The mappings that the collision loop jumps below. -/
def Space.jumps (vmas : Fin NVMA → Vma) (alignedLen : BitVec 64) :
    (tests : Nat) → BitVec 64 → List (Fin NVMA)
  | 0, _ => []
  | tests + 1, addr =>
    match findVma vmas (Space.collides addr alignedLen) with
    | none => []
    | some i => i :: Space.jumps vmas alignedLen tests ((vmas i).addr - alignedLen)

theorem place_ok (placed : ∀ i, (vmas i).used = true → (vmas i).Placed) {len : BitVec 64}
    (whole : len.toNat % 4096 = 0) (short : len.toNat ≤ 2 ^ 31) {tests : Nat}
    (aligned : addr.toNat % 4096 = 0)
    (below : addr.toNat + len.toNat ≤ TRAPFRAME)
    (enough : (pending vmas (addr.toNat + len.toNat)).card < tests)
    (high : 2 ^ 32 * ((pending vmas (addr.toNat + len.toNat)).card + 1) ≤ addr.toNat)
    (highest : ∀ b, Fits vmas len.toNat b → b ≤ addr.toNat) :
    ∃ chosen, Space.place vmas len tests addr = some chosen ∧
      chosen.toNat % 4096 = 0 ∧ 2 ^ 32 ≤ chosen.toNat ∧
      Fits vmas len.toNat chosen.toNat ∧
      (∀ b, Fits vmas len.toNat b → b ≤ chosen.toNat) ∧
      ∀ i ∈ Space.jumps vmas len tests addr, len.toNat ≤ (vmas i).addr.toNat := by
  have bound := TRAPFRAME_eq
  induction tests generalizing addr with
  | zero => omega
  | succ tests ih =>
    have sum : (addr + len).toNat = addr.toNat + len.toNat := by
      rw [BitVec.toNat_add]
      omega
    rw [Space.place, Space.jumps]
    rcases found : findVma vmas (Space.collides addr len) with _ | i
    · refine ⟨addr, rfl, aligned, by omega, ⟨below, ?_⟩, highest, by simp⟩
      intro i used
      have missed := findVma_eq_none found i used
      have stop := (placed i used).toNat_stop
      simp only [Space.collides, Bool.and_eq_false_iff, decide_eq_false_iff_not,
        BitVec.lt_def, stop, sum] at missed
      omega
    · obtain ⟨used, hit⟩ := findVma_eq_some found
      have ok := placed i used
      have stop := ok.toNat_stop
      have length := ok.short
      simp only [Space.collides, Bool.and_eq_true, decide_eq_true_eq,
        BitVec.lt_def, stop, sum] at hit
      have fewer := card_pending_lt used hit.2
      have room : len.toNat ≤ (vmas i).addr.toNat := by omega
      have difference : ((vmas i).addr - len).toNat = (vmas i).addr.toNat - len.toNat :=
        BitVec.toNat_sub_of_le (BitVec.le_def.mpr room)
      have limit : ((vmas i).addr - len).toNat + len.toNat = (vmas i).addr.toNat := by omega
      have start := ok.aligned
      obtain ⟨chosen, placed, facts, high, fits, highest, jumps⟩ :=
        @ih ((vmas i).addr - len) (by omega) (by omega)
          (by rw [limit]; omega) (by rw [limit]; omega) (by
            intro b fits
            have lower := highest b fits
            rcases fits.clear i used with after | before <;> omega)
      refine ⟨chosen, placed, facts, high, fits, highest, fun j mem => ?_⟩
      obtain rfl | later := List.mem_cons.mp mem
      · exact room
      · exact jumps j later

theorem card_pending_le (vmas : Fin NVMA → Vma) (limit : Nat) :
    (pending vmas limit).card ≤ NVMA := by
  have := Finset.card_le_univ (pending vmas limit)
  rwa [Fintype.card_fin] at this

theorem toNat_signExtend (nonneg : 0 ≤ length.toInt) :
    (length.signExtend 64).toNat = length.toNat ∧ length.toNat < 2 ^ 31 := by
  have sign : length.msb = false := by
    rw [BitVec.msb_eq_toInt, decide_eq_false_iff_not]
    omega
  constructor
  · rw [BitVec.signExtend_eq_setWidth_of_msb_false sign]
    simp
    omega
  · exact BitVec.toNat_lt_of_msb_false sign

theorem mmap_place (placed : ∀ i, (vmas i).used = true → (vmas i).Placed)
    (pos : 0 < length.toInt) {tests : Nat} (enough : NVMA < tests) :
    (pgroundup (length.signExtend 64)).toNat = roundup length.toNat ∧
    ∃ chosen, Space.place vmas (pgroundup (length.signExtend 64)) tests
        (BitVec.ofNat 64 TRAPFRAME - pgroundup (length.signExtend 64)) = some chosen ∧
      chosen.toNat % 4096 = 0 ∧ 2 ^ 32 ≤ chosen.toNat ∧
      Fits vmas (roundup length.toNat) chosen.toNat ∧
      (∀ b, Fits vmas (roundup length.toNat) b → b ≤ chosen.toNat) ∧
      ∀ i ∈ Space.jumps vmas (pgroundup (length.signExtend 64)) tests
          (BitVec.ofNat 64 TRAPFRAME - pgroundup (length.signExtend 64)),
        roundup length.toNat ≤ (vmas i).addr.toNat := by
  have bound := TRAPFRAME_eq
  have slots : NVMA = 16 := rfl
  obtain ⟨extended, short⟩ := toNat_signExtend pos.le
  have rounded : (pgroundup (length.signExtend 64)).toNat = roundup length.toNat := by
    rw [toNat_pgroundup (by omega), extended]
    rfl
  have whole : roundup length.toNat % 4096 = 0 ∧ roundup length.toNat ≤ 2 ^ 31 := by
    unfold roundup
    omega
  have start : (BitVec.ofNat 64 TRAPFRAME - pgroundup (length.signExtend 64)).toNat =
      TRAPFRAME - roundup length.toNat := by
    rw [BitVec.toNat_sub_of_le, rounded, BitVec.toNat_ofNat]
    · omega
    · rw [BitVec.le_def, rounded, BitVec.toNat_ofNat]
      omega
  have few := card_pending_le vmas (TRAPFRAME - roundup length.toNat + roundup length.toNat)
  refine ⟨rounded, ?_⟩
  rw [← rounded]
  rw [← rounded] at start few whole
  apply place_ok placed
  · omega
  · omega
  · omega
  · omega
  · rw [start]
    omega
  · rw [start]
    omega
  · intro b fits
    have := fits.below
    omega

/-- What a successful `sys_mmap` adds. -/
structure Added (vmas : Fin NVMA → Vma) (i : Fin NVMA) (v : Vma) : Prop where
  free : (vmas i).used = false
  used : v.used = true
  ok : v.Ok
  apart : ∀ j, (vmas j).used = true → Apart v (vmas j)
  highest : ∀ b, Fits vmas (roundup v.length.toNat) b → b ≤ v.addr.toNat

theorem sysMmap_ok (table : TableOk s.vmas)
    (length prot flags offset : BitVec 32) (f : Option Nat) :
    s.sysMmap length prot flags offset f = .ok (none, s) ∨
    ∃ i addr, 0 < length.toInt ∧
      let v : Vma :=
        { used := true, addr := addr, length := length.signExtend 64
          prot := prot, flags := flags, offset := offset, f := f }
      Added s.vmas i v ∧
      s.sysMmap length prot flags offset f =
        .ok (some addr, { s with vmas := update s.vmas i v }) := by
  unfold Space.sysMmap
  rcases f with _ | file
  · exact Or.inl rfl
  · dsimp only
    by_cases pos : 0 < length.toInt
    · rw [if_neg (by omega)]
      rcases found : findFree s.vmas with _ | i
      · exact Or.inl rfl
      · right
        obtain ⟨extended, short⟩ := toNat_signExtend pos.le
        have nonzero : 0 < length.toNat := by
          by_contra zero
          have : length = 0 := BitVec.eq_of_toNat_eq (by simpa using zero)
          subst this
          exact absurd pos (by decide)
        obtain ⟨-, addr, placed, aligned, high, fits, highest, -⟩ :=
          mmap_place (fun i used => (table.each i used).placed) pos (Nat.lt_succ_self NVMA)
        have longer : length.toNat ≤ roundup length.toNat := by
          unfold roundup
          omega
        refine ⟨i, addr, pos, ⟨findFree_eq_some found, rfl, ?_, ?_, ?_⟩, ?_⟩
        · have below := fits.below
          exact ⟨aligned, by dsimp only; omega, by dsimp only; omega, by dsimp only; omega, high⟩
        · intro j used
          have ok := (table.each j used).aligned
          unfold Apart Vma.pageEnd
          dsimp only
          rw [extended]
          rcases fits.clear j used with after | before
          · right
            unfold roundup
            omega
          · exact Or.inl before
        · rw [extended]
          exact highest
        · rw [placed]
    · exact Or.inl (if_pos (by omega))

/-! ## Trimming -/

/-- `sys_munmap` of a range that starts on a page boundary, is not negative, and
ends on a page boundary or with the mapping. -/
def AlignedMunmap (s : Space) (addr : BitVec 64) (length : BitVec 32) : Prop :=
  ∀ i, (s.vmas i).used = true → (s.vmas i).addr ≤ addr →
    addr + length.signExtend 64 ≤ (s.vmas i).stop → addr.toNat % 4096 = 0 ∧ 0 ≤ length.toInt ∧
        (length.toNat % 4096 = 0 ∨ addr + length.signExtend 64 = (s.vmas i).stop)

theorem trim_length (v : Vma) (addr : BitVec 64) (length : BitVec 32) :
    (Space.trim v addr length).length = v.length - length.signExtend 64 := by
  simp only [Space.trim]
  split <;> rfl

theorem trim_addr (v : Vma) (addr : BitVec 64) (length : BitVec 32) :
    (Space.trim v addr length).addr =
      if addr = v.addr then v.addr + length.signExtend 64 else v.addr := by
  simp only [Space.trim]
  split <;> split <;> rfl

theorem trim_used (used : v.used = true) (addr : BitVec 64) (length : BitVec 32) :
    (Space.trim v addr length).used = true ↔ (Space.trim v addr length).length ≠ 0 := by
  simp only [Space.trim]
  split
  · next whole => simp [whole]
  · next partly =>
    refine ⟨fun _ => partly, fun _ => ?_⟩
    split <;> exact used

/-- The range of an aligned `sys_munmap` lies inside the mapping, and what remains
of the mapping is the rest of it. -/
structure Trimmed (v : Vma) (addr : BitVec 64) (length : BitVec 32) : Prop where
  aligned : addr.toNat % 4096 = 0
  stop : (addr + length.signExtend 64).toNat = addr.toNat + length.toNat
  within : addr.toNat + length.toNat ≤ v.addr.toNat + v.length.toNat
  ok : (Space.trim v addr length).used = true → (Space.trim v addr length).Ok
  above : v.addr.toNat ≤ (Space.trim v addr length).addr.toNat
  below : (Space.trim v addr length).used = true → (Space.trim v addr length).pageEnd ≤ v.pageEnd
  rest : ∀ a, a % 4096 = 0 → v.addr.toNat ≤ a → a < v.addr.toNat + v.length.toNat →
    (addr.toNat ≤ a ∧ a < addr.toNat + length.toNat) ∨
    ((Space.trim v addr length).used = true ∧ (Space.trim v addr length).addr.toNat ≤ a ∧
      a < (Space.trim v addr length).addr.toNat + (Space.trim v addr length).length.toNat)

theorem trim_trimmed (selected : s.Selected addr length i) (ok : (s.vmas i).Ok)
    (munmap : AlignedMunmap s addr length) : Trimmed (s.vmas i) addr length := by
  obtain ⟨aligned, nonneg, whole⟩ := munmap i selected.used selected.above selected.below
  obtain ⟨extended, small⟩ := toNat_signExtend nonneg
  have bound := TRAPFRAME_eq
  have stop := ok.toNat_stop
  obtain ⟨start, pos, inside, short, high⟩ := ok
  have above := BitVec.le_def.mp selected.above
  have below := BitVec.le_def.mp selected.below
  have border : addr = (s.vmas i).addr ∨
      (addr + length.signExtend 64).toNat = (s.vmas i).stop.toNat :=
    selected.border.imp_right (congrArg BitVec.toNat)
  have whole : length.toNat % 4096 = 0 ∨
      (addr + length.signExtend 64).toNat = (s.vmas i).stop.toNat :=
    whole.imp_right (congrArg BitVec.toNat)
  rw [stop] at below border whole
  -- the mapping lies too high for the end of the range to have wrapped around
  have sum : (addr + length.signExtend 64).toNat = addr.toNat + length.toNat := by
    rw [BitVec.toNat_add, extended] at below border ⊢
    rcases border with rfl | border <;> omega
  rw [sum] at below border whole
  have trimLength : (Space.trim (s.vmas i) addr length).length.toNat =
      (s.vmas i).length.toNat - length.toNat := by
    rw [trim_length, BitVec.toNat_sub_of_le (by rw [BitVec.le_def]; omega), extended]
  have trimUsed : (Space.trim (s.vmas i) addr length).used = true ↔
      length.toNat < (s.vmas i).length.toNat := by
    rw [trim_used selected.used, ne_eq, ← BitVec.toNat_inj, trimLength]
    change ¬ _ = 0 ↔ _
    omega
  have trimAddr : (addr.toNat = (s.vmas i).addr.toNat ∧
        (Space.trim (s.vmas i) addr length).addr.toNat = addr.toNat + length.toNat) ∨
      (addr.toNat + length.toNat = (s.vmas i).addr.toNat + (s.vmas i).length.toNat ∧
        (Space.trim (s.vmas i) addr length).addr.toNat = (s.vmas i).addr.toNat) := by
    rw [trim_addr]
    by_cases front : addr = (s.vmas i).addr
    · rw [if_pos front, ← front]
      exact Or.inl ⟨rfl, sum⟩
    · rw [if_neg front]
      exact Or.inr ⟨border.resolve_left front, rfl⟩
  constructor
  · exact aligned
  · exact sum
  · exact below
  · intro used
    rw [trimUsed] at used
    constructor <;> omega
  · omega
  · intro used
    rw [trimUsed] at used
    unfold Vma.pageEnd roundup
    omega
  · intro a page low high
    rw [trimUsed]
    omega

theorem sysMunmap_ok (table : TableOk s.vmas) (munmap : AlignedMunmap s addr length) :
    s.sysMunmap addr length = .ok (false, s, []) ∨
    ∃ (i : Fin NVMA) (pt : PageTable) (visited : List (BitVec 64)),
      s.Selected addr length i ∧ Trimmed (s.vmas i) addr length ∧
      s.sysMunmap addr length = .ok (true,
        { s with
          pagetable := pt
          vmas := update s.vmas i (Space.trim (s.vmas i) addr length) },
        if (s.vmas i).mapShared then visited.filterMap (Space.request (s.vmas i) s.pagetable)
        else []) ∧
      visited.Nodup ∧
      (∀ va, va ∈ visited ↔ va.toNat % 4096 = 0 ∧ addr.toNat ≤ va.toNat ∧
        va.toNat < addr.toNat + length.toNat) ∧
      pt.map = Space.eraseUser s.pagetable.map (fun vpn =>
        addr.toNat ≤ 4096 * vpn ∧ 4096 * vpn < addr.toNat + length.toNat) := by
  rcases s.sysMunmap_cases addr length with failed | ⟨i, selected, unmapped⟩
  · exact Or.inl failed
  · have ok := table.each i selected.used
    have trimmed := trim_trimmed selected ok munmap
    have inside := ok.inside
    have within := trimmed.within
    have limit := TRAPFRAME_eq
    have limit' := MAXVA_eq
    obtain ⟨pt, visited, range, distinct, members, map⟩ :=
      @Space.unmapRange_ok (s.vmas i) addr (addr + length.signExtend 64) s.pagetable
        trimmed.aligned (by rw [trimmed.stop]; omega)
    rw [range] at unmapped
    rw [trimmed.stop] at members map
    exact Or.inr ⟨i, pt, visited, selected, trimmed, unmapped, distinct, members, map⟩

theorem Added.table (added : Added vmas i v) (table : TableOk vmas) : TableOk (update vmas i v) :=
  table.update (fun _ => added.ok) (fun _ j _ used => added.apart j used)

end Xv6.Memory

import Xv6.Memory.SpaceInvariant

/-!
# The heap and the mappings

The heap stays below the mappings in the runs where each growth stops below them and each new
mapping has room above the heap. `kexec` needs no condition: an image is never larger than the
physical memory, and the mappings lie above that.
-/

namespace Xv6.Memory

open PageTable (roundup)

variable {s s' : Space} {n : BitVec 32} {avail : Nat}

/-- No mapping in use meets the pages of the heap. -/
def HeapBelow (s : Space) : Prop :=
  ∀ i, (s.vmas i).used = true → roundup s.sz ≤ (s.vmas i).addr.toNat

/-- Growing the heap by `n` bytes leaves it below the mappings. -/
def RoomToGrow (s : Space) (n : BitVec 32) : Prop := 0 < n.toInt → s.sz + n.toInt ≤ TRAPFRAME →
    ∀ i, (s.vmas i).used = true → roundup (s.sz + n.toInt).toNat ≤ (s.vmas i).addr.toNat

/-- There is a place for a mapping above the heap. -/
def RoomToMap (s : Space) (length : BitVec 32) : Prop :=
  0 < length.toInt → ∃ b, roundup s.sz ≤ b ∧ Fits s.vmas (roundup length.toNat) b

/-- Calls that leave room between the heap and the mappings. -/
def roomyCalls : Space → Call → Prop
  | s, .mmap length _ _ _ _ => RoomToMap s length
  | s, .munmap addr length => AlignedMunmap s addr length
  | s, .sbrk n _ _ => RoomToGrow s n
  | _, _ => True

theorem roomyCalls.aligned {call : Call} (roomy : roomyCalls s call) : alignedMunmaps s call := by
  cases call with
  | munmap addr length => exact roomy
  | _ => trivial

theorem roundup_mono {a b : Nat} (ordered : a ≤ b) : roundup a ≤ roundup b := by
  unfold roundup
  omega

theorem HeapBelow.same (below : HeapBelow s) (size : s'.sz = s.sz)
    (vmas : s'.vmas = s.vmas) : HeapBelow s' := by
  intro i used
  rw [vmas] at used ⊢
  rw [size]
  exact below i used

section

variable (ok : SpaceOk s) (below : HeapBelow s)
include ok below

theorem HeapBelow.mmap {length prot flags offset : BitVec 32} {f : Option Nat}
    {result : Option (BitVec 64)} (room : RoomToMap s length)
    (call : s.sysMmap length prot flags offset f = .ok (result, s')) : HeapBelow s' := by
  rcases sysMmap_ok ok.table length prot flags offset f with
    failed | ⟨i, addr, pos, added, mapped⟩
  · rw [failed] at call
    cases call
    exact below
  · rw [mapped] at call
    cases call
    obtain ⟨b, above, fits⟩ := room pos
    intro j used
    dsimp only at used ⊢
    by_cases here : j = i
    · subst here
      rw [Function.update_self]
      have highest := added.highest b
      rw [(toNat_signExtend pos.le).1] at highest
      exact above.trans (highest fits)
    · rw [Function.update_of_ne here] at used ⊢
      exact below j used

theorem HeapBelow.munmap {addr : BitVec 64} {length : BitVec 32} {done : Bool}
    {written : List WriteBack}
    (aligned : AlignedMunmap s addr length)
    (call : s.sysMunmap addr length = .ok (done, s', written)) : HeapBelow s' := by
  rcases sysMunmap_ok ok.table aligned with
    failed | ⟨i, pt, visited, selected, trimmed, unmapped, _⟩
  · rw [failed] at call
    cases call
    exact below
  · rw [unmapped] at call
    cases call
    intro j used
    dsimp only at used ⊢
    by_cases here : j = i
    · subst here
      rw [Function.update_self]
      exact (below j selected.used).trans trimmed.above
    · rw [Function.update_of_ne here] at used ⊢
      exact below j used

theorem HeapBelow.sbrk {t : BitVec 32} {old : Option Nat} (room : RoomToGrow s n)
    (call : s.sysSbrk n t avail = .ok (old, s')) : HeapBelow s' := by
  obtain ⟨vmas, resized, size⟩ := Space.sysSbrk_inv ok.size call
  have limit := TRAPFRAME_eq
  have inside : s'.sz ≤ TRAPFRAME := (ok.sbrk call).size
  intro i used
  rw [vmas] at used ⊢
  by_cases larger : s.sz < s'.sz
  · have sum := size larger
    have range := And.intro n.toInt_lt n.le_toInt
    have exact_sum : (s'.sz : Int) = s.sz + n.toInt := by
      unfold Space.wrap64 at sum
      omega
    have := room (by omega) (by omega) i used
    rwa [show (s.sz + n.toInt).toNat = s'.sz by omega] at this
  · exact (roundup_mono (by omega)).trans (below i used)

end

theorem HeapBelow.fork {child : Space} (below : HeapBelow s) {trampoline trapframe : Page}
    (call : s.kfork trampoline trapframe avail = .ok (some child)) : HeapBelow child := by
  obtain ⟨size, vmas, _⟩ := Space.kfork_inv call
  intro i used
  rw [vmas] at used ⊢
  rw [size]
  split at used
  · next old =>
    rw [if_pos old]
    exact below i old
  · cases used

theorem HeapBelow.exec (ok : SpaceOk s) (below : HeapBelow s)
    {file : Executable} {argv : List (List (BitVec 8))} {trampoline trapframe : Page}
    {argc : Option Nat} (frames : avail ≤ NFRAMES)
    (call : s.kexec file argv trampoline trapframe avail = .ok (argc, s')) :
    HeapBelow s' := by
  rcases kexec_inv frames call with ⟨_, rfl⟩ | ⟨_, vmas, _, small⟩
  · exact below
  · intro i used
    rw [vmas] at used ⊢
    have high := (ok.table.each i used).high
    have := roundup_mono small
    have : roundup (2 ^ 27) = 2 ^ 27 := rfl
    omega

theorem HeapBelow.step {call : Call} (ok : SpaceOk s)
    (below : HeapBelow s) (roomy : roomyCalls s call) (step : s.step call = .ok s') :
    HeapBelow s' := by
  cases call with
  | mmap length prot flags offset f =>
    obtain ⟨_, call, rfl⟩ := map_eq_ok step
    exact below.mmap ok roomy call
  | munmap addr length =>
    obtain ⟨_, call, rfl⟩ := map_eq_ok step
    exact below.munmap ok roomy call
  | sbrk n t avail =>
    obtain ⟨_, call, rfl⟩ := map_eq_ok step
    exact below.sbrk ok roomy call
  | fault va contents avail avail' =>
    obtain ⟨_, call, rfl⟩ := map_eq_ok step
    obtain ⟨⟨filled, s₁⟩, first, call⟩ := bind_eq_ok call
    obtain ⟨size, vmas, _⟩ := Space.vmfault_inv first
    have between := below.same size vmas
    cases filled with
    | true =>
      cases call
      exact between
    | false =>
      obtain ⟨size, vmas, _⟩ := Space.mmapfault_inv call
      exact between.same size vmas
  | lazyFill va avail =>
    obtain ⟨_, call, rfl⟩ := map_eq_ok step
    obtain ⟨size, vmas, _⟩ := Space.vmfault_inv call
    exact below.same size vmas
  | store va byte =>
    cases step
    obtain ⟨size, vmas, _⟩ := s.store_inv va byte
    exact below.same size vmas
  | fork trampoline trapframe avail =>
    obtain ⟨child, call, rfl⟩ := map_eq_ok step
    rcases child with _ | child
    · exact below
    · exact below.fork call
  | exec file argv trampoline trapframe avail =>
    obtain ⟨_, call, rfl⟩ := map_eq_ok step
    exact below.exec ok (Nat.le_of_lt_succ avail.isLt) call

theorem heapBelow_of_run (run : Space.Run roomyCalls s) : SpaceOk s ∧ HeapBelow s := by
  apply run.invariant
  · intro s initial
    exact ⟨.initial initial, fun i used => by simp [initial.vmas i] at used⟩
  · rintro s call s' ⟨ok, below⟩ roomy step
    exact ⟨ok.step roomy.aligned step, below.step ok roomy step⟩

theorem growproc_ok (ok : SpaceOk s) (avail : Nat)
    (room : RoomToGrow s n) : ∃ result, s.growproc n avail = .ok result := by
  have limit := TRAPFRAME_eq
  have limit' := MAXVA_eq
  have size := ok.size
  have upper := n.toInt_lt
  unfold Space.growproc
  split
  · next pos =>
    have sum := @Space.wrap64_of_nonneg (s.sz + n.toInt) (by omega) (by omega)
    split
    · exact ⟨_, rfl⟩
    · next fits =>
      have room := room pos (by omega)
      rw [show (s.sz + n.toInt).toNat = Space.wrap64 (s.sz + n.toInt) by omega] at room
      obtain ⟨⟨sz, pt, rest⟩, alloc⟩ := @PageTable.uvmalloc_isOk s.pagetable s.sz
        (Space.wrap64 (s.sz + n.toInt)) { w := true } avail
        (by unfold roundup; omega) (by
          intro vpn low high
          rw [lt_roundup_iff] at high
          rw [← not_lt, lt_roundup_iff] at low
          rcases present : s.pagetable.map vpn with _ | pte
          · rfl
          · rcases ok.leaves vpn pte present with
              kernel | kernel | below | ⟨_, i, used, above, _⟩
            · have := TRAMPOLINE_eq
              omega
            · omega
            · omega
            · have := room i used
              have := le_roundup (Space.wrap64 (s.sz + n.toInt))
              omega)
      simp only [alloc, bind, Except.bind]
      split <;> exact ⟨_, rfl⟩
  · split
    · obtain ⟨pt, dealloc, _⟩ := @PageTable.uvmdealloc_ok s.pagetable s.sz
        (Space.wrap64 (s.sz + n.toInt)) (by unfold roundup; omega)
      simp only [dealloc, bind, Except.bind]
      exact ⟨_, rfl⟩
    · exact ⟨_, rfl⟩

/-- In every run whose calls leave room, the heap lies below the mappings, at most
one of the two handlers accepts a fault, and growing the heap further with room
does not panic. -/
theorem heap_below_mappings_of_roomy {s : Space} (run : Space.Run roomyCalls s) :
    (∀ i, (s.vmas i).used = true → roundup s.sz ≤ (s.vmas i).addr.toNat) ∧
    (∀ va contents avail avail' s₁ s₂, ¬ (s.vmfault va avail = .ok (true, s₁) ∧
        s.mmapfault va contents avail' = .ok (true, s₂))) ∧
    ∀ n avail, RoomToGrow s n → s.growproc n avail ≠ .error .mappagesRemap := by
  obtain ⟨ok, below⟩ := heapBelow_of_run run
  refine ⟨below, ?_, fun n avail room failed => ?_⟩
  · rintro va contents avail avail' s₁ s₂ ⟨filled, mapped⟩
    obtain ⟨_, _, heap, _⟩ := Space.vmfault_inv filled
    obtain ⟨_, _, i, used, low, _⟩ := Space.mmapfault_inv mapped
    have low := BitVec.le_def.mp low
    have rounded := toNat_pgrounddown va
    have := below i used
    have := le_roundup s.sz
    omega
  · obtain ⟨_, returned⟩ := growproc_ok ok avail room
    rw [returned] at failed
    cases failed

theorem heap_below_mapping_after_growth :
    ∃ s, Space.Run roomyCalls s ∧ s.sz = 4096 ∧ (s.vmas 0).used = true ∧
      roundup s.sz ≤ (s.vmas 0).addr.toNat := by
  have grown := (Space.Run.start Space.fresh_initial : Space.Run roomyCalls _)
    |>.next (.mmap 4096 3 1 0 (some 0)) rfl
      (fun _ => ⟨0, le_refl _, by decide, fun i used => by cases used⟩)
    |>.next (.sbrk 4096 1 8) rfl (fun _ _ i _ => by revert i; decide)
  exact ⟨_, grown, rfl, rfl, (heap_below_mappings_of_roomy grown).1 0 rfl⟩

/-! ## Without the condition -/

theorem sysSbrk_lazy (nonneg : 0 ≤ n.toInt) (inside : s.sz + n.toInt ≤ TRAPFRAME) (avail : Nat) :
    s.sysSbrk n 2 avail = .ok (some s.sz, { s with sz := (s.sz + n.toInt).toNat }) := by
  have limit := TRAPFRAME_eq
  have sum := @Space.wrap64_of_nonneg (s.sz + n.toInt) (by omega) (by omega)
  have eager : ¬ ((2 : BitVec 32).toInt = Space.SBRK_EAGER ∨ n.toInt < 0) := by
    rintro (eager | negative)
    · exact absurd eager (by decide)
    · omega
  rw [Space.sysSbrk, if_neg eager, if_neg (by omega), if_neg (by omega),
    show Space.wrap64 (s.sz + n.toInt) = (s.sz + n.toInt).toNat by omega]

theorem run_lazy_growth (run : Space.Run Space.anyCall s) (times : Nat)
    (inside : s.sz + 2147479552 * times ≤ TRAPFRAME) :
    Space.Run Space.anyCall { s with sz := s.sz + 2147479552 * times } := by
  induction times with
  | zero => exact run
  | succ times ih =>
    have before := ih (by omega)
    refine before.next (.sbrk 2147479552 2 0) ?_
    have amount : (2147479552 : BitVec 32).toInt = 2147479552 := by decide
    have sum : (((s.sz + 2147479552 * times : Nat) : Int) + 2147479552).toNat =
        s.sz + 2147479552 * (times + 1) := by omega
    rw [Space.step, sysSbrk_lazy (by decide) (by rw [amount]; dsimp only; omega), amount,
      Except.map, sum]

/-- A mapping is made and touched, the heap grows lazily up to it, and eager growth
panics; growing lazily instead, the heap covers the mapping. -/
theorem heap_grows_into_mapping : ∃ s, Space.Run Space.anyCall s ∧ (s.vmas 0).used = true ∧
      (∃ s', s.sysSbrk 8192 2 0 = .ok (some s.sz, s') ∧ (s'.vmas 0).used = true ∧
        (s'.vmas 0).addr.toNat < s'.sz) ∧
      s.growproc 8192 8 = .error .mappagesRemap := by
  have touched := (Space.Run.start Space.fresh_initial : Space.Run Space.anyCall _)
    |>.next (.mmap 4096 3 1 0 (some 0)) rfl
    |>.next (.fault 0x3fffffd000 (fun _ _ => Page.zero) 8 8) rfl
  have large := run_lazy_growth touched 128 (by decide)
  exact ⟨_, large.next (.sbrk 507904 2 0) rfl, rfl, ⟨_, rfl, rfl, by decide⟩, rfl⟩

end Xv6.Memory

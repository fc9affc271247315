import Xv6.Memory.Calls
import Xv6.Memory.PageTableMap

/-!
# What each call does to an address space

Which of the size, the map and the table of mappings a call changes, and how.
-/

namespace Xv6.Memory

open PageTable (roundup erase fill heapLeaf)
open Function

variable {va : BitVec 64} {s s' : Space} {avail : Nat} {pt : PageTable}

namespace Space

/-! ## The page loops of `sys_munmap` and `kexit` -/

/-- The request that the loop makes for the page at `va`, if it is present. -/
def request (v : Vma) (pt : PageTable) (va : BitVec 64) : Option WriteBack :=
  (pt.walkaddr va.toNat).map fun page =>
    { f := v.f, offset := v.offset.signExtend 64 + (va - v.addr), page := page }

/-- The map without the user leaves of some pages. -/
def eraseUser (m : Nat → Option Pte) (gone : Nat → Prop) [DecidablePred gone] :
    Nat → Option Pte := fun vpn =>
  if gone vpn then (m vpn).filter (fun pte => !pte.u) else m vpn

theorem walkaddr_congr {pt pt' : PageTable} {va : Nat}
    (same : pt'.map (va / 4096) = pt.map (va / 4096)) :
    pt'.walkaddr va = pt.walkaddr va := by
  by_cases inside : va < MAXVA
  · rw [PageTable.walkaddr_eq inside, PageTable.walkaddr_eq inside, same]
  · simp [PageTable.walkaddr, inside]

theorem unmapVa_ok (v : Vma) (pt : PageTable) (written : List WriteBack)
    (aligned : va.toNat % 4096 = 0) (inside : va.toNat < MAXVA) :
    ∃ pt' : PageTable, unmapVa v (pt, written) va =
        .ok (pt', written ++ if v.mapShared then (request v pt va).toList else []) ∧
      pt'.map = eraseUser pt.map (· = va.toNat / 4096) := by
  have limit := MAXVA_eq
  rw [unmapVa, request]
  rcases present : pt.walkaddr va.toNat with _ | page
  · refine ⟨pt, by simp, ?_⟩
    funext vpn
    unfold eraseUser
    split
    · next here =>
      subst here
      rw [PageTable.walkaddr_eq inside, Option.map_eq_none_iff] at present
      rcases leaf : pt.map (va.toNat / 4096) with _ | pte
      · rfl
      · have user : pte.u = false := by
          simpa [leaf, Option.filter] using present
        simp [Option.filter, user]
    · rfl
  · obtain ⟨_, pte, leaf, user, _⟩ := PageTable.walkaddr_eq_some_iff.mp present
    obtain ⟨pt', ok, map⟩ := @PageTable.uvmunmap_ok pt va.toNat 1 aligned (by omega)
    refine ⟨pt', ?_, ?_⟩
    · simp only [ok, bind, Except.bind]
      cases v.mapShared <;> simp
    · funext vpn
      rw [map]
      unfold erase eraseUser
      by_cases here : vpn = va.toNat / 4096
      · subst here
        simp [leaf, Option.filter, user]
      · rw [if_neg (by omega), if_neg here]

theorem unmapVas_ok (v : Vma) {visited : List (BitVec 64)} (distinct : visited.Nodup)
    (aligned : ∀ va ∈ visited, va.toNat % 4096 = 0)
    (inside : ∀ va ∈ visited, va.toNat < MAXVA) (pt : PageTable)
    (written : List WriteBack) :
    ∃ pt' : PageTable, visited.foldlM (unmapVa v) (pt, written) =
        .ok (pt', written ++ if v.mapShared then visited.filterMap (request v pt) else []) ∧
      pt'.map = eraseUser pt.map (fun vpn => ∃ va ∈ visited, va.toNat / 4096 = vpn) := by
  induction visited generalizing pt written with
  | nil =>
    refine ⟨pt, by simp; rfl, ?_⟩
    funext vpn
    simp [eraseUser]
  | cons va rest ih =>
    obtain ⟨pt₁, ok₁, map₁⟩ := unmapVa_ok v pt written
      (aligned va List.mem_cons_self) (inside va List.mem_cons_self)
    obtain ⟨pt₂, ok₂, map₂⟩ := ih (List.nodup_cons.mp distinct).2
      (fun va' mem => aligned va' (List.mem_cons_of_mem _ mem))
      (fun va' mem => inside va' (List.mem_cons_of_mem _ mem)) pt₁
      (written ++ if v.mapShared then (request v pt va).toList else [])
    -- the pages are distinct, so the first round leaves the later requests alone
    have later : rest.filterMap (request v pt₁) = rest.filterMap (request v pt) := by
      apply List.filterMap_congr
      intro va' mem
      have other : va'.toNat / 4096 ≠ va.toNat / 4096 := by
        intro same
        have first := aligned va List.mem_cons_self
        have second := aligned va' (List.mem_cons_of_mem _ mem)
        have equal : va' = va := BitVec.eq_of_toNat_eq (by omega)
        exact (List.nodup_cons.mp distinct).1 (equal ▸ mem)
      unfold request
      rw [@walkaddr_congr pt pt₁ va'.toNat (by rw [map₁, eraseUser, if_neg other])]
    refine ⟨pt₂, ?_, ?_⟩
    · rw [List.foldlM_cons, ok₁]
      change rest.foldlM (unmapVa v) _ = _
      rw [ok₂, later]
      cases v.mapShared with
      | false => simp
      | true =>
        rcases first : request v pt va with _ | wanted <;>
          simp [first]
    · funext vpn
      rw [map₂]
      simp only [eraseUser, List.exists_mem_cons_iff, map₁]
      by_cases here : vpn = va.toNat / 4096
      · subst here
        by_cases again : ∃ va' ∈ rest, va'.toNat / 4096 = va.toNat / 4096
        · simp only [again, if_true, or_true]
          rcases pt.map (va.toNat / 4096) with _ | pte
          · rfl
          · rcases user : pte.u <;> simp [Option.filter, user]
        · simp [again]
      · have other : va.toNat / 4096 ≠ vpn := fun same => here same.symm
        simp only [here, other, if_false, false_or]

theorem unmapRange_ok (v : Vma) {start stop : BitVec 64} (pt : PageTable)
    (aligned : start.toNat % 4096 = 0) (inside : stop.toNat ≤ MAXVA) :
    ∃ (pt' : PageTable) (visited : List (BitVec 64)), unmapRange v start stop pt =
        .ok (pt', if v.mapShared then visited.filterMap (request v pt) else []) ∧
      visited.Nodup ∧
      (∀ va, va ∈ visited ↔ va.toNat % 4096 = 0 ∧ start.toNat ≤ va.toNat ∧ va.toNat < stop.toNat) ∧
      pt'.map = eraseUser pt.map (fun vpn =>
        start.toNat ≤ 4096 * vpn ∧ 4096 * vpn < stop.toNat) := by
  have limit := MAXVA_eq
  obtain ⟨visited, ok, distinct, members⟩ := @strides_eq_some start stop (by omega)
  have member_iff : ∀ va, va ∈ visited ↔ va.toNat % 4096 = 0 ∧
      start.toNat ≤ va.toNat ∧ va.toNat < stop.toNat := by
    intro va
    rw [members]
    constructor
    · rintro ⟨k, here, below⟩
      omega
    · rintro ⟨whole, above, below⟩
      exact ⟨(va.toNat - start.toNat) / 4096, by omega, below⟩
  obtain ⟨pt', unmapped, map⟩ := unmapVas_ok v distinct
    (fun va mem => ((member_iff va).mp mem).1)
    (fun va mem => by have := (member_iff va).mp mem; omega) pt []
  refine ⟨pt', visited, by rw [unmapRange, ok]; simpa using unmapped, distinct, member_iff, ?_⟩
  funext vpn
  rw [map]
  unfold eraseUser
  congr 1
  rw [eq_iff_iff]
  constructor
  · rintro ⟨va, mem, rfl⟩
    have := (member_iff va).mp mem
    omega
  · rintro ⟨above, below⟩
    refine ⟨BitVec.ofNat 64 (4096 * vpn), (member_iff _).mpr ?_, ?_⟩
    · rw [BitVec.toNat_ofNat]
      omega
    · rw [BitVec.toNat_ofNat]
      omega

/-- The mapping that `sys_munmap` acts on. -/
structure Selected (s : Space) (addr : BitVec 64) (length : BitVec 32) (i : Fin NVMA) :
    Prop where
  used : (s.vmas i).used = true
  above : (s.vmas i).addr ≤ addr
  below : addr + length.signExtend 64 ≤ (s.vmas i).stop
  border : addr = (s.vmas i).addr ∨ addr + length.signExtend 64 = (s.vmas i).stop

theorem sysMunmap_cases (s : Space) (addr : BitVec 64) (length : BitVec 32) :
    s.sysMunmap addr length = .ok (false, s, []) ∨
    ∃ i, Selected s addr length i ∧ s.sysMunmap addr length =
      (unmapRange (s.vmas i) addr (addr + length.signExtend 64) s.pagetable).map
        fun unmapped => (true,
          { s with
            pagetable := unmapped.1
            vmas := update s.vmas i (trim (s.vmas i) addr length) },
          unmapped.2) := by
  simp only [sysMunmap]
  rcases found : findVma s.vmas
      (fun v => v.addr ≤ addr && addr + length.signExtend 64 ≤ v.stop) with _ | i
  · exact Or.inl rfl
  · dsimp only
    by_cases border : addr ≠ (s.vmas i).addr ∧ addr + length.signExtend 64 ≠ (s.vmas i).stop
    · exact Or.inl (if_pos border)
    · right
      have chosen := List.find?_some found
      simp only [Bool.and_eq_true, decide_eq_true_eq] at chosen
      refine ⟨i, ⟨chosen.1, chosen.2.1, chosen.2.2, by tauto⟩, ?_⟩
      rw [if_neg border]
      rcases unmapRange (s.vmas i) addr (addr + length.signExtend 64) s.pagetable
        with halt | unmapped <;> rfl

/-! ## Page faults -/

/-- The leaf at `va` is new. -/
structure Mapped (s s' : Space) (va : Nat) (pte : Pte) : Prop where
  inside : va < MAXVA
  free : s.pagetable.map (va / 4096) = none
  map : s'.pagetable.map = update s.pagetable.map (va / 4096) (some pte)

theorem mappages_mapped {va rest : Nat} {page : Page} {perm : Perm} {mapped : Bool}
    (ok : s.pagetable.mappages va page perm avail = .ok (mapped, pt, rest)) :
    if mapped then
      Mapped s { s with pagetable := pt } va { perm with v := true, page := page }
    else pt.map = s.pagetable.map := by
  obtain ⟨_, inside, _, free, map⟩ := PageTable.mappages_inv ok
  cases mapped with
  | false => simpa using map
  | true => exact ⟨inside, free rfl, by simpa using map⟩

def lazyLeaf : Pte := { r := true, w := true, u := true, v := true, page := Page.zero }

theorem vmfault_inv {handled : Bool} (ok : s.vmfault va avail = .ok (handled, s')) :
    s'.sz = s.sz ∧ s'.vmas = s.vmas ∧
      if handled then
        va.toNat < s.sz ∧ Mapped s s' (pgrounddown va).toNat lazyLeaf
      else s'.pagetable.map = s.pagetable.map := by
  unfold vmfault at ok
  split at ok
  · cases ok
    exact ⟨rfl, rfl, rfl⟩
  · next below =>
    obtain ⟨present, -, ok⟩ := bind_eq_ok ok
    cases present with
    | true =>
      cases ok
      exact ⟨rfl, rfl, rfl⟩
    | false =>
      cases avail with
      | zero =>
        cases ok
        exact ⟨rfl, rfl, rfl⟩
      | succ avail =>
        obtain ⟨⟨mapped, pt, rest⟩, mapping, ok⟩ := bind_eq_ok ok
        have spec := mappages_mapped mapping
        cases ok
        refine ⟨rfl, rfl, ?_⟩
        cases handled with
        | false => exact spec
        | true => exact ⟨by omega, spec⟩

def vmaLeaf (v : Vma) (page : Page) : Pte :=
  { r := v.protRead, w := v.protWrite, u := true, v := true, page := page }

theorem mmapfault_inv {contents : Vma → BitVec 64 → Page} {handled : Bool}
    (ok : s.mmapfault va contents avail = .ok (handled, s')) :
    s'.sz = s.sz ∧ s'.vmas = s.vmas ∧
      if handled then
        ∃ i, (s.vmas i).used = true ∧ (s.vmas i).addr ≤ pgrounddown va ∧
          pgrounddown va < (s.vmas i).stop ∧
          Mapped s s' (pgrounddown va).toNat (vmaLeaf (s.vmas i) (contents (s.vmas i)
            ((s.vmas i).offset.signExtend 64 + (pgrounddown va - (s.vmas i).addr))))
      else s'.pagetable.map = s.pagetable.map := by
  unfold mmapfault at ok
  rcases found : findVma s.vmas
      (fun v => v.addr ≤ pgrounddown va && pgrounddown va < v.stop) with _ | i
  · simp only [found] at ok
    cases ok
    exact ⟨rfl, rfl, rfl⟩
  · simp only [found] at ok
    split at ok
    · cases ok
      exact ⟨rfl, rfl, rfl⟩
    · cases avail with
      | zero =>
        cases ok
        exact ⟨rfl, rfl, rfl⟩
      | succ avail =>
        obtain ⟨⟨mapped, pt, rest⟩, mapping, ok⟩ := bind_eq_ok ok
        have spec := mappages_mapped mapping
        cases ok
        refine ⟨rfl, rfl, ?_⟩
        cases mapped with
        | false => exact spec
        | true =>
          have chosen := List.find?_some found
          simp only [Bool.and_eq_true, decide_eq_true_eq] at chosen
          exact ⟨i, chosen.1, chosen.2.1, chosen.2.2, spec⟩

/-! ## `sys_sbrk` -/

theorem wrap64_of_nonneg {value : Int} (nonneg : 0 ≤ value) (small : value < 2 ^ 64) :
    (wrap64 value : Int) = value := by
  unfold wrap64
  omega

/-- How `sys_sbrk` changes the size and the map. -/
inductive Resized (s s' : Space) : Prop
  | kept (sz : s'.sz = s.sz) (map : s'.pagetable.map = s.pagetable.map)
  | lazy (larger : s.sz ≤ s'.sz) (inside : s'.sz ≤ TRAPFRAME)
      (map : s'.pagetable.map = s.pagetable.map)
  | eager (larger : s.sz ≤ s'.sz) (inside : s'.sz ≤ TRAPFRAME)
      (map : s'.pagetable.map = fill s.pagetable.map (roundup s.sz / 4096)
        (roundup s'.sz / 4096) (heapLeaf { r := true, w := true, u := true }))
  | shrunk (smaller : s'.sz ≤ s.sz)
      (map : s'.pagetable.map = erase s.pagetable.map (roundup s'.sz / 4096) (roundup s.sz / 4096))

theorem growproc_inv {n : BitVec 32} {grown : Bool}
    (inside : s.sz ≤ TRAPFRAME) (ok : s.growproc n avail = .ok (grown, s')) :
    s'.vmas = s.vmas ∧ Resized s s' ∧ (s.sz < s'.sz → s'.sz = wrap64 (s.sz + n.toInt)) := by
  have limit := TRAPFRAME_eq
  have upper := n.toInt_lt
  unfold growproc at ok
  split at ok
  · next pos =>
    have sum := @wrap64_of_nonneg (s.sz + n.toInt) (by omega) (by omega)
    split at ok
    · cases ok
      exact ⟨rfl, .kept rfl rfl, fun larger => absurd larger (lt_irrefl _)⟩
    · next fits =>
      obtain ⟨⟨sz, pt, rest⟩, alloc, ok⟩ := bind_eq_ok ok
      dsimp only at ok
      rcases PageTable.uvmalloc_inv alloc with
        ⟨shorter, _⟩ | ⟨_, size, _, _, _, map⟩ | ⟨_, failed, map⟩
      · omega
      · rw [if_neg (by omega)] at ok
        cases ok
        subst size
        exact ⟨rfl, .eager (by dsimp only; omega) (by dsimp only; omega) map, fun _ => rfl⟩
      · rw [if_pos failed] at ok
        cases ok
        exact ⟨rfl, .kept rfl map, fun larger => absurd larger (lt_irrefl _)⟩
  · split at ok
    · obtain ⟨pt, dealloc, map⟩ := @PageTable.uvmdealloc_ok s.pagetable s.sz
        (wrap64 (s.sz + n.toInt))
        (by have := MAXVA_eq; unfold roundup; omega)
      simp only [dealloc, bind, Except.bind] at ok
      cases ok
      exact ⟨rfl, .shrunk (min_le_left _ _) map,
        fun larger => absurd larger (not_lt.mpr (min_le_left _ _))⟩
    · cases ok
      exact ⟨rfl, .kept rfl rfl, fun larger => absurd larger (lt_irrefl _)⟩

theorem sysSbrk_inv {n t : BitVec 32} {old : Option Nat}
    (inside : s.sz ≤ TRAPFRAME) (ok : s.sysSbrk n t avail = .ok (old, s')) :
    s'.vmas = s.vmas ∧ Resized s s' ∧ (s.sz < s'.sz → s'.sz = wrap64 (s.sz + n.toInt)) := by
  unfold sysSbrk at ok
  split at ok
  · obtain ⟨⟨grown, s''⟩, grow, ok⟩ := bind_eq_ok ok
    cases ok
    exact growproc_inv inside grow
  · split at ok
    · cases ok
      exact ⟨rfl, .kept rfl rfl, fun larger => absurd larger (lt_irrefl _)⟩
    · next larger =>
      split at ok
      · cases ok
        exact ⟨rfl, .kept rfl rfl, fun larger => absurd larger (lt_irrefl _)⟩
      · next fits =>
        cases ok
        exact ⟨rfl, .lazy (not_lt.mp larger) (not_lt.mp fits) rfl, fun _ => rfl⟩

/-! ## `kfork` -/

theorem kfork_inv {child : Space} {trampoline trapframe : Page}
    (ok : s.kfork trampoline trapframe avail = .ok (some child)) :
    child.sz = s.sz ∧ (∀ i, child.vmas i = if (s.vmas i).used then s.vmas i else {}) ∧
      child.pagetable.map = PageTable.overlay s.pagetable.map
        (PageTable.kernelLeaves trampoline trapframe) (roundup s.sz / 4096) := by
  unfold kfork at ok
  obtain ⟨_ | ⟨pt, rest⟩, create, ok⟩ := bind_eq_ok ok
  · cases ok
  · obtain ⟨⟨copied, pt'⟩, copy, ok⟩ := bind_eq_ok ok
    cases copied with
    | false =>
      obtain ⟨_, _, ok⟩ := bind_eq_ok ok
      cases ok
    | true =>
      cases ok
      refine ⟨rfl, fun i => rfl, ?_⟩
      rw [PageTable.uvmcopy_inv copy, (PageTable.procPagetable_inv create).1]

/-! ## Stores -/

end Space

/-- Two tables with the same leaves up to the contents of the pages. -/
def SameLeaves (pt pt' : PageTable) : Prop :=
  ∀ vpn, (pt'.map vpn).map Pte.toPerm = (pt.map vpn).map Pte.toPerm

theorem SameLeaves.refl (pt : PageTable) : SameLeaves pt pt := fun _ => rfl

theorem SameLeaves.trans {pt' pt'' : PageTable} (first : SameLeaves pt pt')
    (second : SameLeaves pt' pt'') : SameLeaves pt pt'' := fun vpn =>
  (second vpn).trans (first vpn)

theorem SameLeaves.leaf {pt' : PageTable} (same : SameLeaves pt pt') {vpn : Nat}
    {pte : Pte} (present : pt'.map vpn = some pte) :
    ∃ old, pt.map vpn = some old ∧ old.toPerm = pte.toPerm := by
  have := same vpn
  rw [present] at this
  simpa using this.symm

theorem PageTable.writePage_same {pt : PageTable} {va : Nat} (inside : va < MAXVA)
    (update : Page → Page) : SameLeaves pt (pt.writePage va update) := by
  intro vpn
  unfold writePage
  rcases found : pt.lookup (va / 4096) with _ | pte
  · rfl
  · rw [map_store (vpn_lt inside) found]
    by_cases here : vpn = va / 4096
    · subst here
      rw [update_self, map, if_pos (vpn_lt inside), found]
      rcases valid : pte.v <;> simp [Option.filter, valid]
    · rw [update_of_ne here]

theorem Space.store_inv (s : Space) (va : BitVec 64) (byte : BitVec 8) :
    (s.store va byte).sz = s.sz ∧ (s.store va byte).vmas = s.vmas ∧
      SameLeaves s.pagetable (s.store va byte).pagetable := by
  by_cases allowed : s.writable va = true
  · rw [store, if_pos allowed]
    have inside : va.toNat < MAXVA := by
      unfold writable at allowed
      rcases found : s.pagetable.lookup (va.toNat / 4096) with _ | pte
      · simp [found] at allowed
      · simp only [found, Bool.and_eq_true, decide_eq_true_eq] at allowed
        exact allowed.1.1.1
    refine ⟨rfl, rfl, ?_⟩
    exact @PageTable.writePage_same s.pagetable va.toNat inside
      (update · (va.toNat % 4096) byte)
  · rw [store, if_neg allowed]
    exact ⟨rfl, rfl, SameLeaves.refl _⟩

end Xv6.Memory

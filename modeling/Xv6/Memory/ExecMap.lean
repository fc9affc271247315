import Xv6.Memory.SpaceMap

/-!
# What `kexec` does to an address space

The table that `kexec` builds maps the trampoline, the trapframe and pages below the new size,
at every point where it may give up and free it again.
-/

namespace Xv6.Memory

open PageTable (roundup erase fill heapLeaf)

variable {sz avail va : Nat} {pt pt' : PageTable} {trampoline trapframe : Page} {α : Type}
    {argv : List (List (BitVec 8))} {file : Executable}

theorem lt_roundup_iff {vpn : Nat} : vpn < roundup sz / 4096 ↔ 4096 * vpn < sz := by
  unfold roundup
  omega

theorem roundup_roundup (sz : Nat) : roundup (roundup sz) = roundup sz := by
  unfold roundup
  omega

theorem le_roundup (sz : Nat) : sz ≤ roundup sz := by
  unfold roundup
  omega

/-- The table maps the trampoline, the trapframe and pages below `sz` only. -/
def Within (pt : PageTable) (sz : Nat) : Prop := ∀ vpn pte, pt.map vpn = some pte →
    vpn = TRAMPOLINE / 4096 ∨ vpn = TRAPFRAME / 4096 ∨ 4096 * vpn < sz

theorem Within.same (within : Within pt sz) (same : SameLeaves pt pt') : Within pt' sz := by
  intro vpn pte present
  obtain ⟨old, present', _⟩ := same.leaf present
  exact within vpn old present'

theorem within_of_map (within : Within pt sz) (map : pt'.map = pt.map) : Within pt' sz := by
  intro vpn pte present
  rw [map] at present
  exact within vpn pte present

theorem Within.mono {sz' : Nat} (within : Within pt sz) (larger : sz ≤ sz') : Within pt sz' := by
  intro vpn pte present
  rcases within vpn pte present with kernel | kernel | below
  · exact Or.inl kernel
  · exact Or.inr (Or.inl kernel)
  · exact Or.inr (Or.inr (by omega))

theorem procPagetable_within {rest : Nat}
    (ok : PageTable.procPagetable trampoline trapframe avail = .ok (some (pt, rest))) :
    Within pt 0 := by
  intro vpn pte present
  rw [(PageTable.procPagetable_inv ok).1] at present
  exact (PageTable.kernelLeaves_eq_some present).imp_right Or.inl

theorem procFreepagetable_ok (inside : roundup sz ≤ MAXVA)
    (within : Within pt sz) : pt.procFreepagetable sz = .ok () := by
  obtain ⟨table, freed, map⟩ := PageTable.procFreepagetable_eq inside
  rw [freed]
  apply PageTable.freewalk_ok
  intro vpn
  rw [map]
  split
  · rfl
  · next outside =>
    rcases present : pt.map vpn with _ | pte
    · rfl
    · rw [lt_roundup_iff] at outside
      exact absurd (within vpn pte present) outside

/-! ## Functions that free no page table -/

/-- Neither of the two ways `freewalk` can fail. -/
def Safe {α : Type} (result : Result α) : Prop :=
  result ≠ .error .freewalkLeaf ∧ result ≠ .error .freewalkWild

theorem safe_ok (a : α) : Safe (.ok a : Result α) := ⟨nofun, nofun⟩

theorem Safe.bind {β : Type} {result : Result α} {f : α → Result β}
    (first : Safe result) (next : ∀ a, result = .ok a → Safe (f a)) :
    Safe (result >>= f) := by
  rcases result with halt | a
  · exact ⟨fun failed => first.1 (by cases failed; rfl),
      fun failed => first.2 (by cases failed; rfl)⟩
  · exact next a rfl

theorem Safe.foldlM {β : Type} {f : β → α → Result β} (each : ∀ b a, Safe (f b a))
    (l : List α) (b : β) : Safe (l.foldlM f b) := by
  induction l generalizing b with
  | nil => exact safe_ok b
  | cons head tail ih =>
    exact (each b head).bind fun b' _ => ih b'

theorem mappages_safe (pt : PageTable) (va : Nat) (page : Page) (perm : Perm)
    (avail : Nat) : Safe (pt.mappages va page perm avail) := by
  unfold PageTable.mappages
  split
  · exact ⟨nofun, nofun⟩
  · split
    · exact ⟨nofun, nofun⟩
    · split
      · exact safe_ok _
      · split
        · exact ⟨nofun, nofun⟩
        · exact safe_ok _

theorem uvmunmap_safe (pt : PageTable) (va npages : Nat) : Safe (pt.uvmunmap va npages) := by
  unfold PageTable.uvmunmap
  split
  · exact ⟨nofun, nofun⟩
  · apply Safe.foldlM
    intro pt k
    unfold PageTable.unmapPage
    split
    · exact safe_ok _
    · exact ⟨nofun, nofun⟩

theorem uvmdealloc_safe (pt : PageTable) (oldsz newsz : Nat) :
    Safe (pt.uvmdealloc oldsz newsz) := by
  unfold PageTable.uvmdealloc
  split
  · exact safe_ok _
  · split
    · exact (uvmunmap_safe _ _ _).bind fun _ _ => safe_ok _
    · exact safe_ok _

theorem uvmallocLoop_safe (oldsz : Nat) (perm : Perm) (count a : Nat) (pt : PageTable)
    (avail : Nat) : Safe (PageTable.uvmallocLoop oldsz perm count a pt avail) := by
  induction count generalizing a pt avail with
  | zero => exact safe_ok _
  | succ count ih =>
    cases avail with
    | zero => exact (uvmdealloc_safe _ _ _).bind fun _ _ => safe_ok _
    | succ avail =>
      apply (mappages_safe _ _ _ _ _).bind
      rintro ⟨mapped, pt', rest⟩ _
      cases mapped with
      | true => exact ih _ _ _
      | false => exact (uvmdealloc_safe _ _ _).bind fun _ _ => safe_ok _

theorem uvmalloc_safe (pt : PageTable) (oldsz newsz : Nat) (xperm : Perm) (avail : Nat) :
    Safe (pt.uvmalloc oldsz newsz xperm avail) := by
  unfold PageTable.uvmalloc
  split
  · exact safe_ok _
  · exact (uvmallocLoop_safe _ _ _ _ _ _).bind fun _ _ => safe_ok _

theorem uvmfree_ok (empty : ∀ vpn, pt.map vpn = none) : pt.uvmfree 0 = .ok () := by
  rw [PageTable.uvmfree, if_neg (lt_irrefl 0)]
  simp only [bind, Except.bind]
  exact PageTable.freewalk_ok empty

theorem procPagetable_safe (trampoline trapframe : Page) (avail : Nat) :
    Safe (PageTable.procPagetable trampoline trapframe avail) := by
  cases avail with
  | zero => exact safe_ok _
  | succ avail =>
    apply (mappages_safe _ _ _ _ _).bind
    rintro ⟨mapped, pt, rest⟩ first
    obtain ⟨_, _, _, _, map⟩ := PageTable.mappages_inv first
    cases mapped with
    | false =>
      have freed := uvmfree_ok (fun vpn => by rw [map]; simp : ∀ vpn, pt.map vpn = none)
      simp only [Bool.not_false, if_true, freed]
      exact safe_ok _
    | true =>
      apply (mappages_safe _ _ _ _ _).bind
      rintro ⟨mapped, pt', rest'⟩ second
      obtain ⟨_, _, _, _, map'⟩ := PageTable.mappages_inv second
      cases mapped with
      | true => exact safe_ok _
      | false =>
        apply (uvmunmap_safe _ _ _).bind
        intro pt'' undone
        obtain ⟨_, undone', map''⟩ := @PageTable.uvmunmap_ok pt' TRAMPOLINE 1
          (by decide) (by decide)
        rw [undone] at undone'
        cases undone'
        have freed := uvmfree_ok (fun vpn => by
          rw [map'', erase, map']
          by_cases here : vpn = TRAMPOLINE / 4096
          · rw [if_pos (by omega)]
          · simp [map, Function.update_of_ne here] :
          ∀ vpn, pt''.map vpn = none)
        simp only [freed]
        exact safe_ok _

theorem loadseg_safe (file : Executable) (pt : PageTable) (va off sz : Nat) :
    Safe (file.loadseg pt va off sz) := by
  apply Safe.foldlM
  intro pt k
  unfold Executable.loadPage
  cases pt with
  | none => exact safe_ok _
  | some pt =>
    dsimp only
    split
    · exact ⟨nofun, nofun⟩
    · split_ifs <;> exact safe_ok _

theorem loadSegments_safe (file : Executable) (phs : List (Option Proghdr))
    (pt : PageTable) (sz avail : Nat) : Safe (file.loadSegments phs pt sz avail) := by
  induction phs generalizing pt sz avail with
  | nil => exact safe_ok _
  | cons ph rest ih =>
    cases ph with
    | none => exact safe_ok _
    | some ph =>
      unfold Executable.loadSegments
      split_ifs
      · exact ih _ _ _
      · exact safe_ok _
      · exact safe_ok _
      · exact safe_ok _
      · apply (uvmalloc_safe _ _ _ _ _).bind
        rintro ⟨sz1, pt', avail'⟩ _
        dsimp only
        split
        · exact safe_ok _
        · apply (loadseg_safe _ _ _ _ _).bind
          rintro (_ | pt'') _
          · exact safe_ok _
          · exact ih _ _ _

/-! ## The new table -/

theorem copyout_same {dstva : Nat} {bytes : List (BitVec 8)}
    (ok : pt.copyout dstva bytes = some pt') : SameLeaves pt pt' := by
  induction bytes generalizing pt dstva with
  | nil =>
    cases ok
    exact SameLeaves.refl _
  | cons byte rest ih =>
    unfold PageTable.copyout at ok
    rcases found : pt.lookup (dstva / 4096) with _ | pte
    · simp [found] at ok
    · simp only [found] at ok
      split at ok
      · next allowed =>
        exact (PageTable.writePage_same allowed.1 _).trans (ih ok)
      · cases ok

theorem pushStrings_same {stackbase : Nat} {args : List (List (BitVec 8))}
    {sp sp' : Nat} {ustack ustack' : List Nat}
    (ok : Executable.pushStrings stackbase args pt sp ustack = some (pt', sp', ustack')) :
    SameLeaves pt pt' := by
  induction args generalizing pt sp ustack with
  | nil =>
    cases ok
    exact SameLeaves.refl _
  | cons arg rest ih =>
    simp only [Executable.pushStrings] at ok
    split at ok
    · cases ok
    · split at ok
      · cases ok
      · split at ok
        · cases ok
        · split at ok
          · cases ok
          · next pushed => exact (copyout_same pushed).trans (ih ok)

theorem pushArgs_same {stackbase top sp : Nat}
    (ok : Executable.pushArgs pt stackbase top argv = some (pt', sp)) :
    SameLeaves pt pt' := by
  unfold Executable.pushArgs at ok
  rcases strings : Executable.pushStrings stackbase argv pt top [] with
    _ | ⟨pt₁, sp₁, ustack⟩
  · simp [strings] at ok
  · simp only [strings] at ok
    split at ok
    · cases ok
    · split at ok
      · cases ok
      · rw [Option.map_eq_some_iff] at ok
        obtain ⟨pt₂, copied, same⟩ := ok
        cases same
        exact (pushStrings_same strings).trans (copyout_same copied)

theorem loadPage_same {off k : Nat}
    (ok : file.loadPage va off sz (some pt) k = .ok (some pt')) : SameLeaves pt pt' := by
  simp only [Executable.loadPage] at ok
  rcases present : pt.walkaddr (va + 4096 * k) with _ | page
  · simp [present] at ok
  · simp only [present] at ok
    split_ifs at ok <;> cases ok <;>
      exact PageTable.writePage_same (PageTable.walkaddr_eq_some_iff.mp present).1 _

theorem loadPages_none (file : Executable) (va off sz : Nat) (l : List Nat) :
    l.foldlM (file.loadPage va off sz) none = (.ok none : Result (Option PageTable)) := by
  induction l with
  | nil => rfl
  | cons k rest ih =>
    exact ih

theorem loadPages_same {off : Nat} {l : List Nat}
    (ok : l.foldlM (file.loadPage va off sz) (some pt) = .ok (some pt')) :
    SameLeaves pt pt' := by
  induction l generalizing pt with
  | nil =>
    cases ok
    exact SameLeaves.refl _
  | cons k rest ih =>
    rw [List.foldlM_cons] at ok
    rcases page : file.loadPage va off sz (some pt) k with halt | _ | pt₁
    · simp [page, bind, Except.bind] at ok
    · simp only [page, bind, Except.bind, loadPages_none] at ok
      cases ok
    · simp only [page, bind, Except.bind] at ok
      exact (loadPage_same page).trans (ih ok)

theorem uvmalloc_within {pt pt' : PageTable} {sz newsz sz' avail rest total : Nat}
    {xperm : Perm} (within : Within pt sz) (paid : avail + roundup sz / 4096 ≤ total)
    (ok : pt.uvmalloc sz newsz xperm avail = .ok (sz', pt', rest)) :
    if sz' = 0 then Within pt' sz
    else Within pt' sz' ∧ rest + roundup sz' / 4096 ≤ total := by
  rcases PageTable.uvmalloc_inv ok with
    ⟨_, rfl, rfl, rfl⟩ | ⟨larger, rfl, spent, _, _, map⟩ | ⟨_, failed, map⟩
  · split
    · exact within
    · exact ⟨within, paid⟩
  · have grown : Within pt' sz' := by
      intro vpn pte present
      rw [map, fill] at present
      split at present
      · next added =>
        rw [lt_roundup_iff] at added
        exact Or.inr (Or.inr added.2)
      · exact within.mono larger vpn pte present
    split
    · next zero =>
      obtain rfl : sz = 0 := by omega
      rwa [zero] at grown
    · refine ⟨grown, ?_⟩
      unfold roundup at *
      omega
  · rw [if_pos failed]
    exact within_of_map within map

theorem loadSegments_within {file : Executable} {phs : List (Option Proghdr)}
    {pt pt' : PageTable} {sz sz' avail rest total : Nat} {done : Bool}
    (within : Within pt sz) (paid : avail + roundup sz / 4096 ≤ total)
    (ok : file.loadSegments phs pt sz avail = .ok (done, pt', sz', rest)) :
    Within pt' sz' ∧ roundup sz' / 4096 ≤ total ∧
      (done = true → rest + roundup sz' / 4096 ≤ total) := by
  induction phs generalizing pt sz avail with
  | nil =>
    cases ok
    exact ⟨within, by omega, fun _ => paid⟩
  | cons ph phs ih =>
    cases ph with
    | none =>
      cases ok
      exact ⟨within, by omega, nofun⟩
    | some ph =>
      unfold Executable.loadSegments at ok
      split_ifs at ok
      · exact ih within paid ok
      · cases ok
        exact ⟨within, by omega, nofun⟩
      · cases ok
        exact ⟨within, by omega, nofun⟩
      · cases ok
        exact ⟨within, by omega, nofun⟩
      · obtain ⟨⟨sz1, pt₁, avail₁⟩, alloc, ok⟩ := bind_eq_ok ok
        have allocated := uvmalloc_within within paid alloc
        dsimp only at ok
        by_cases failed : sz1 = 0
        · rw [if_pos failed] at ok allocated
          cases ok
          exact ⟨allocated, by omega, nofun⟩
        · rw [if_neg failed] at ok allocated
          obtain ⟨_ | pt₂, load, ok⟩ := bind_eq_ok ok
          · cases ok
            exact ⟨allocated.1, by omega, nofun⟩
          · exact ih (allocated.1.same (loadPages_same load)) allocated.2 ok

theorem uvmclear_within (within : Within pt sz) (ok : pt.uvmclear va = .ok pt') :
    Within pt' sz := by
  intro vpn pte present
  have same := PageTable.uvmclear_inv ok vpn
  rw [present] at same
  rcases old : pt.map vpn with _ | pte'
  · simp [old] at same
  · exact within vpn pte' old

theorem roundup_le_of_pages (paid : roundup sz / 4096 ≤ NFRAMES) : roundup sz ≤ 2 ^ 27 := by
  unfold roundup at *
  rw [Nat.mul_div_cancel_left _ (by decide), NFRAMES_eq] at paid
  calc 4096 * ((sz + 4095) / 4096) ≤ 4096 * 32768 := Nat.mul_le_mul_left 4096 paid
    _ = 2 ^ 27 := by norm_num

theorem buildImage_within (frames : avail ≤ NFRAMES)
    (ok : file.buildImage argv trampoline trapframe avail = .ok (some (pt, sz))) :
    Within pt sz ∧ sz ≤ 2 ^ 27 := by
  unfold Executable.buildImage at ok
  split at ok
  · cases ok
  · obtain ⟨created, create, ok⟩ := bind_eq_ok ok
    rcases created with _ | ⟨pt₀, avail₀⟩
    · cases ok
    · have spent := (PageTable.procPagetable_inv create).2
      obtain ⟨⟨done, pt₁, sz₁, avail₁⟩, load, ok⟩ := bind_eq_ok ok
      obtain ⟨within, _, paid⟩ := @loadSegments_within _ _ _ _ _ _ _ _ NFRAMES _
        (procPagetable_within create) (spent.trans frames) load
      cases done with
      | false =>
        obtain ⟨_, _, ok⟩ := bind_eq_ok ok
        cases ok
      | true =>
        obtain ⟨⟨sz₂, pt₂, avail₂⟩, stack, ok⟩ := bind_eq_ok ok
        have allocated := @uvmalloc_within _ _ _ _ _ _ _ NFRAMES _
          (within.mono (le_roundup sz₁)) (by rw [roundup_roundup]; exact paid rfl) stack
        dsimp only at ok
        by_cases failed : sz₂ = 0
        · rw [if_pos failed] at ok
          obtain ⟨_, _, ok⟩ := bind_eq_ok ok
          cases ok
        · rw [if_neg failed] at ok allocated
          obtain ⟨pt₃, clear, ok⟩ := bind_eq_ok ok
          rcases push : Executable.pushArgs pt₃ (sz₂ - USERSTACK * PGSIZE) sz₂ argv
            with _ | ⟨pt₄, sp⟩
          · rw [push] at ok
            obtain ⟨_, _, ok⟩ := bind_eq_ok ok
            cases ok
          · rw [push] at ok
            cases ok
            exact ⟨(uvmclear_within allocated.1 clear).same (pushArgs_same push),
              (le_roundup sz).trans (roundup_le_of_pages ((Nat.le_add_left _ _).trans allocated.2))⟩

theorem procFreepagetable_safe (inside : sz ≤ 2 ^ 37)
    (within : Within pt sz) : Safe (pt.procFreepagetable sz) := by
  rw [procFreepagetable_ok (by have := MAXVA_eq; unfold roundup; omega) within]
  exact safe_ok _

theorem buildImage_safe (frames : avail ≤ NFRAMES) :
    Safe (file.buildImage argv trampoline trapframe avail) := by
  have small : ∀ {sz : Nat}, roundup sz / 4096 ≤ NFRAMES → roundup sz ≤ 2 ^ 37 :=
    fun pages => (roundup_le_of_pages pages).trans (by norm_num)
  unfold Executable.buildImage
  split
  · exact safe_ok _
  · apply (procPagetable_safe _ _ _).bind
    rintro (_ | ⟨pt₀, avail₀⟩) create
    · exact safe_ok _
    · have spent := (PageTable.procPagetable_inv create).2
      apply (loadSegments_safe _ _ _ _ _).bind
      rintro ⟨done, pt₁, sz₁, avail₁⟩ load
      obtain ⟨within, pages, paid⟩ := @loadSegments_within _ _ _ _ _ _ _ _ NFRAMES _
        (procPagetable_within create) (spent.trans frames) load
      cases done with
      | false =>
        exact (procFreepagetable_safe ((le_roundup sz₁).trans (small pages)) within).bind
          fun _ _ => safe_ok _
      | true =>
        apply (uvmalloc_safe _ _ _ _ _).bind
        rintro ⟨sz₂, pt₂, avail₂⟩ stack
        have allocated := @uvmalloc_within _ _ _ _ _ _ _ NFRAMES _
          (within.mono (le_roundup sz₁)) (by rw [roundup_roundup]; exact paid rfl) stack
        dsimp only
        by_cases failed : sz₂ = 0
        · rw [if_pos failed] at allocated ⊢
          exact (procFreepagetable_safe (small pages) allocated).bind fun _ _ => safe_ok _
        · rw [if_neg failed] at allocated ⊢
          apply Safe.bind
          · unfold PageTable.uvmclear
            split
            · split
              · exact ⟨nofun, nofun⟩
              · exact safe_ok _
            · exact ⟨nofun, nofun⟩
          · intro pt₃ clear
            split
            · have pages₂ := (Nat.le_add_left _ _).trans allocated.2
              exact (procFreepagetable_safe ((le_roundup sz₂).trans (small pages₂))
                (uvmclear_within allocated.1 clear)).bind fun _ _ => safe_ok _
            · exact safe_ok _

theorem kexec_inv {s s' : Space} {argc : Option Nat} (frames : avail ≤ NFRAMES)
    (ok : s.kexec file argv trampoline trapframe avail = .ok (argc, s')) :
    (argc = none ∧ s' = s) ∨
    (argc = some argv.length ∧ s'.vmas = s.vmas ∧ Within s'.pagetable s'.sz ∧ s'.sz ≤ 2 ^ 27) := by
  obtain ⟨image, build, ok⟩ := bind_eq_ok ok
  rcases image with _ | ⟨pt, sz⟩
  · cases ok
    exact Or.inl ⟨rfl, rfl⟩
  · obtain ⟨_, _, ok⟩ := bind_eq_ok ok
    cases ok
    obtain ⟨within, small⟩ := buildImage_within frames build
    exact Or.inr ⟨rfl, rfl, within, small⟩

theorem kexec_safe {s : Space} (frames : avail ≤ NFRAMES)
    (old : Safe (s.pagetable.procFreepagetable s.sz)) :
    Safe (s.kexec file argv trampoline trapframe avail) := by
  apply (buildImage_safe frames).bind
  rintro (_ | ⟨pt, sz⟩) _
  · exact safe_ok _
  · exact old.bind fun _ _ => safe_ok _

end Xv6.Memory

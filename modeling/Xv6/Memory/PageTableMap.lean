import Xv6.Memory.PageTable

/-!
# What the page-table functions do to the map

The map after a call that returns, and when the call does return.
-/

namespace Xv6.Memory

open Function

variable {low high va avail rest sz oldsz : Nat} {m : Nat → Option Pte} {pte : Pte}
    {pt pt' : PageTable} {α : Type} {l : List α} {f : α → Result Unit}
variable {page trampoline trapframe : Page} {perm : Perm} {count : Nat} {new new' old : PageTable}

namespace PageTable

theorem vpn_lt {va : Nat} (inside : va < MAXVA) : va / 4096 < NVPN := by
  simp only [MAXVA_eq, NVPN_eq] at inside ⊢
  omega

/-- The map without the pages `low` to `high - 1`. -/
def erase (m : Nat → Option Pte) (low high : Nat) : Nat → Option Pte := fun vpn =>
  if low ≤ vpn ∧ vpn < high then none else m vpn

theorem erase_self (m : Nat → Option Pte) (low : Nat) : erase m low low = m := by
  funext vpn
  rw [erase, if_neg (by omega)]

theorem erase_succ (m : Nat → Option Pte) (ordered : low ≤ high) :
    erase m low (high + 1) = update (erase m low high) high none := by
  funext vpn
  by_cases same : vpn = high
  · subst same
    simp [erase, ordered]
  · rw [update_of_ne same]
    unfold erase
    congr 1
    simp only [eq_iff_iff]
    omega

/-- The map with the leaf `pte` on the pages `low` to `high - 1`. -/
def fill (m : Nat → Option Pte) (low high : Nat) (pte : Pte) : Nat → Option Pte :=
  fun vpn => if low ≤ vpn ∧ vpn < high then some pte else m vpn

theorem fill_of_le (m : Nat → Option Pte) (pte : Pte)
    (ordered : high ≤ low) : fill m low high pte = m := by
  funext vpn
  rw [fill, if_neg (by omega)]

theorem fill_succ (m : Nat → Option Pte) (pte : Pte) (ordered : low ≤ high) :
    fill m low (high + 1) pte = update (fill m low high pte) high (some pte) := by
  funext vpn
  by_cases same : vpn = high
  · subst same
    simp [fill, ordered]
  · rw [update_of_ne same]
    unfold fill
    congr 1
    simp only [eq_iff_iff]
    omega

theorem erase_fill (free : ∀ vpn, low ≤ vpn → vpn < high → m vpn = none) :
    erase (fill m low high pte) low high = m := by
  funext vpn
  unfold erase fill
  split
  · next inside => exact (free vpn inside.1 inside.2).symm
  · rfl

theorem walkaddr_eq (inside : va < MAXVA) : pt.walkaddr va =
      ((pt.map (va / 4096)).filter (fun pte => pte.u)).map (fun pte => pte.page) := by
  rw [walkaddr, if_pos inside, map, if_pos (vpn_lt inside)]
  rcases pt.lookup (va / 4096) with _ | pte
  · rfl
  · rcases valid : pte.v <;> rcases user : pte.u <;>
      simp [Option.filter, valid, user]

theorem walkaddr_eq_some_iff : pt.walkaddr va = some page ↔ va < MAXVA ∧
      ∃ pte, pt.map (va / 4096) = some pte ∧ pte.u = true ∧ pte.page = page := by
  by_cases inside : va < MAXVA
  · simp only [walkaddr_eq inside, inside, true_and, Option.map_eq_some_iff,
      Option.filter_eq_some_iff, and_assoc]
  · simp [walkaddr, inside]

theorem walkAlloc_le (pt : PageTable) (vpn avail : Nat) : (pt.walkAlloc vpn avail).2.2 ≤ avail := by
  unfold walkAlloc
  rcases pt (px 2 vpn) with _ | middle
  · rcases avail with _ | _ | rest <;> simp
    omega
  · rcases inner : middle (px 1 vpn) with _ | leaf
    · rcases avail with _ | rest <;> simp [inner]
    · simp [inner]

theorem mappages_inv {mapped : Bool}
    (ok : pt.mappages va page perm avail = .ok (mapped, pt', rest)) :
    va % 4096 = 0 ∧ va < MAXVA ∧ rest ≤ avail ∧ (mapped = true → pt.map (va / 4096) = none) ∧
      pt'.map = if mapped then
          update pt.map (va / 4096) (some { perm with v := true, page := page })
        else pt.map := by
  have spent := walkAlloc_le pt (va / 4096) avail
  have same := map_walkAlloc pt (va / 4096) avail
  have made := @lookup_walkAlloc pt (va / 4096) avail
  unfold mappages at ok
  split at ok
  · cases ok
  · next aligned =>
    split at ok
    · cases ok
    · next inside =>
      rw [not_le] at inside
      refine ⟨by omega, inside, ?_⟩
      generalize pt.walkAlloc (va / 4096) avail = walk at ok spent same made
      obtain ⟨found, walked, left⟩ := walk
      cases found with
      | false =>
        cases ok
        exact ⟨spent, by simp, by simp [same]⟩
      | true =>
        obtain ⟨old, present⟩ := made rfl
        dsimp only at ok
        split at ok
        · cases ok
        · next free =>
          cases ok
          have vacant : walked.map (va / 4096) = none := by
            rw [map, if_pos (vpn_lt inside)]
            rw [present] at free ⊢
            simpa [Option.filter] using free
          refine ⟨spent, fun _ => same ▸ vacant, ?_⟩
          rw [map_store (vpn_lt inside) present, same]
          rfl

theorem mappages_isOk (page : Page) (perm : Perm)
    (avail : Nat) (aligned : va % 4096 = 0) (inside : va < MAXVA)
    (free : pt.map (va / 4096) = none) :
    ∃ result, pt.mappages va page perm avail = .ok result := by
  have same := map_walkAlloc pt (va / 4096) avail
  rw [mappages, if_neg (by omega), if_neg (by omega)]
  generalize pt.walkAlloc (va / 4096) avail = walk at same ⊢
  obtain ⟨found, walked, left⟩ := walk
  cases found with
  | false => exact ⟨_, rfl⟩
  | true =>
    dsimp only
    split
    · next remap =>
      rw [← same] at free
      simp only [map, if_pos (vpn_lt inside)] at free
      rcases here : walked.lookup (va / 4096) with _ | pte
      · simp [here] at remap
      · simp [here, Option.filter] at remap free
        simp [remap] at free
    · exact ⟨_, rfl⟩

theorem unmapPage_ok {pt : PageTable} {a : Nat} (inside : a < MAXVA) :
    ∃ pt', pt.unmapPage a = .ok pt' ∧ pt'.map = update pt.map (a / 4096) none := by
  rw [unmapPage, if_pos inside]
  refine ⟨_, rfl, ?_⟩
  rcases here : pt.lookup (a / 4096) with _ | pte
  · have absent := map_eq_none_of_lookup here
    exact (update_eq_self_iff.mpr absent.symm).symm
  · rcases valid : pte.v
    · have absent : pt.map (a / 4096) = none := by
        rw [map, if_pos (vpn_lt inside), here]
        simp [Option.filter, valid]
      dsimp only
      rw [if_neg (by simp [valid]), ← absent, update_eq_self]
    · dsimp only
      rw [if_pos (by simp [valid]), map_store (vpn_lt inside) here]
      rfl

theorem unmapPages_ok {npages : Nat} (aligned : va % 4096 = 0)
    (inside : va + 4096 * npages ≤ MAXVA) :
    ∃ pt', (List.range npages).foldlM (fun (pt : PageTable) k => pt.unmapPage (va + 4096 * k)) pt =
          (.ok pt' : Result PageTable) ∧
      pt'.map = erase pt.map (va / 4096) (va / 4096 + npages) := by
  induction npages with
  | zero => exact ⟨pt, rfl, (erase_self _ _).symm⟩
  | succ npages ih =>
    obtain ⟨before, ok, map⟩ := ih (by omega)
    obtain ⟨after, ok', map'⟩ := @unmapPage_ok before (va + 4096 * npages) (by omega)
    refine ⟨after, ?_, ?_⟩
    · rw [List.range_succ, List.foldlM_append, ok]
      change (before.unmapPage _ >>= fun pt => .ok pt) = _
      rw [ok']
      rfl
    · rw [map', map, ← add_assoc, erase_succ _ (by omega)]
      congr 1
      omega

theorem uvmunmap_ok {pt : PageTable} {va npages : Nat} (aligned : va % 4096 = 0)
    (inside : va + 4096 * npages ≤ MAXVA) :
    ∃ pt', pt.uvmunmap va npages = .ok pt' ∧
      pt'.map = erase pt.map (va / 4096) (va / 4096 + npages) := by
  rw [uvmunmap, if_neg (by omega)]
  exact unmapPages_ok aligned inside

theorem uvmdealloc_ok {pt : PageTable} {oldsz newsz : Nat} (inside : roundup oldsz ≤ MAXVA) :
    ∃ pt', pt.uvmdealloc oldsz newsz = .ok (min oldsz newsz, pt') ∧ pt'.map =
        erase pt.map (roundup (min oldsz newsz) / 4096) (roundup oldsz / 4096) := by
  unfold uvmdealloc
  split
  · next grows =>
    rw [min_eq_left grows]
    exact ⟨pt, rfl, (erase_self _ _).symm⟩
  · next shrinks =>
    rw [min_eq_right (by omega)]
    split
    · next fewer =>
      obtain ⟨pt', ok, map⟩ := @uvmunmap_ok pt (roundup newsz)
        ((roundup oldsz - roundup newsz) / 4096)
        (by unfold roundup; omega) (by unfold roundup at *; omega)
      refine ⟨pt', by rw [ok]; rfl, ?_⟩
      rw [map]
      congr 1
      unfold roundup at *
      omega
    · next same =>
      refine ⟨pt, rfl, ?_⟩
      funext vpn
      rw [erase, if_neg]
      omega

def heapLeaf (perm : Perm) : Pte := { perm with v := true, page := Page.zero }

section

variable {a : Nat} (aligned : oldsz % 4096 = 0) (aligned' : a % 4096 = 0) (ordered : oldsz ≤ a)
  (below : oldsz < a → a ≤ MAXVA)
  (free : ∀ vpn, oldsz / 4096 ≤ vpn → vpn < a / 4096 → m vpn = none)
include aligned aligned' ordered below free

theorem uvmdealloc_undo (filled : pt.map = fill m (oldsz / 4096) (a / 4096) pte)
    (ok : pt.uvmdealloc a oldsz = .ok (sz, pt')) : pt'.map = m := by
  have rounded : roundup a = a := by
    unfold roundup
    omega
  have rounded' : roundup oldsz = oldsz := by
    unfold roundup
    omega
  by_cases nothing : oldsz = a
  · subst nothing
    rw [uvmdealloc, if_pos (le_refl _)] at ok
    cases ok
    rw [filled, fill_of_le _ _ (le_refl _)]
  · obtain ⟨cleared, ok', map⟩ := @uvmdealloc_ok pt a oldsz (by omega)
    rw [ok'] at ok
    cases ok
    rw [map, filled, min_eq_right ordered, rounded, rounded', erase_fill free]

/-- The loop of `uvmalloc` at the address `a`: all pages from `oldsz` on are
added, or none is. -/
theorem uvmallocLoop_inv {done : Bool}
    (filled : pt.map = fill m (oldsz / 4096) (a / 4096) (heapLeaf perm))
    (ok : uvmallocLoop oldsz perm count a pt avail = .ok (done, pt', rest)) :
    if done then
      rest + count ≤ avail ∧
      (oldsz < a + 4096 * count → a + 4096 * count ≤ MAXVA) ∧
      (∀ vpn, oldsz / 4096 ≤ vpn → vpn < a / 4096 + count → m vpn = none) ∧
      pt'.map = fill m (oldsz / 4096) (a / 4096 + count) (heapLeaf perm)
    else pt'.map = m := by
  induction count generalizing a pt avail with
  | zero =>
    cases ok
    exact ⟨le_refl _, below, free, filled⟩
  | succ count ih =>
    rcases avail with _ | avail
    · rw [uvmallocLoop] at ok
      obtain ⟨⟨sz, table⟩, dealloc, ok⟩ := bind_eq_ok ok
      cases ok
      exact uvmdealloc_undo aligned aligned' ordered below free filled dealloc
    · rw [uvmallocLoop] at ok
      obtain ⟨⟨mapped, table, left⟩, mapping, ok⟩ := bind_eq_ok ok
      obtain ⟨_, inside, spent, vacant, map⟩ := mappages_inv mapping
      cases mapped with
      | false =>
        obtain ⟨⟨sz, table'⟩, dealloc, ok⟩ := bind_eq_ok ok
        cases ok
        exact uvmdealloc_undo aligned aligned' ordered below free (map.trans filled) dealloc
      | true =>
        have page : a / 4096 + 1 = (a + 4096) / 4096 := by omega
        have vacant := vacant rfl
        rw [filled, fill, if_neg (by omega)] at vacant
        have free' : ∀ vpn, oldsz / 4096 ≤ vpn → vpn < (a + 4096) / 4096 → m vpn = none := by
          intro vpn low high
          by_cases last : vpn = a / 4096
          · exact last ▸ vacant
          · exact free vpn low (by omega)
        have filled' : table.map = fill m (oldsz / 4096) ((a + 4096) / 4096) (heapLeaf perm) := by
          rw [map, if_pos rfl, filled, ← page, fill_succ _ _ (by omega)]
          rfl
        have later := ih (by omega) (by omega)
          (fun _ => by have := MAXVA_eq; omega) free' filled' ok
        split at later
        · next finished =>
          rw [if_pos finished]
          refine ⟨by omega, ?_, ?_, ?_⟩
          · intro _
            omega
          · intro vpn low high
            exact later.2.2.1 vpn low (by omega)
          · rw [later.2.2.2]
            congr 1
            omega
        · next failed =>
          rw [if_neg failed]
          exact later

end

theorem uvmallocLoop_isOk {perm : Perm} {oldsz count a : Nat} {pt : PageTable}
    (avail : Nat) (aligned : a % 4096 = 0)
    (inside : a + 4096 * count ≤ MAXVA)
    (free : ∀ vpn, a / 4096 ≤ vpn → vpn < a / 4096 + count → pt.map vpn = none) :
    ∃ result, uvmallocLoop oldsz perm count a pt avail = .ok result := by
  induction count generalizing a pt avail with
  | zero => exact ⟨_, rfl⟩
  | succ count ih =>
    have rounded : roundup a = a := by
      unfold roundup
      omega
    rcases avail with _ | avail
    · obtain ⟨table, dealloc, _⟩ := @uvmdealloc_ok pt a oldsz (by omega)
      exact ⟨_, by rw [uvmallocLoop, dealloc]; rfl⟩
    · obtain ⟨⟨mapped, table, left⟩, mapping⟩ := mappages_isOk Page.zero perm avail
        aligned (by omega) (free (a / 4096) (le_refl _) (by omega))
      obtain ⟨_, _, _, _, map⟩ := mappages_inv mapping
      rw [uvmallocLoop, mapping]
      cases mapped with
      | false =>
        obtain ⟨table', dealloc, _⟩ := @uvmdealloc_ok table a oldsz (by omega)
        exact ⟨(false, table', left), by simp only [bind, Except.bind, dealloc]⟩
      | true =>
        apply ih left (a := a + 4096) (by omega) (by omega)
        intro vpn low high
        rw [map, if_pos rfl, update_of_ne (by omega)]
        exact free vpn (by omega) (by omega)

theorem uvmalloc_isOk {pt : PageTable} {oldsz newsz : Nat} (xperm : Perm) (avail : Nat)
    (inside : roundup newsz ≤ MAXVA)
    (free : ∀ vpn, roundup oldsz / 4096 ≤ vpn → vpn < roundup newsz / 4096 → pt.map vpn = none) :
    ∃ result, pt.uvmalloc oldsz newsz xperm avail = .ok result := by
  unfold uvmalloc
  split
  · exact ⟨_, rfl⟩
  · next grows =>
    by_cases empty : newsz ≤ roundup oldsz
    · have none : (newsz - roundup oldsz + 4095) / 4096 = 0 := by omega
      exact ⟨(newsz, pt, avail), by simp only [none]; rfl⟩
    · obtain ⟨⟨done, table, left⟩, loop⟩ := @uvmallocLoop_isOk
        { xperm with r := true, u := true } (roundup oldsz)
        ((newsz - roundup oldsz + 4095) / 4096) (roundup oldsz) pt avail
        (by unfold roundup; omega) (by unfold roundup at *; omega)
        (fun vpn low high => free vpn low (by unfold roundup at *; omega))
      exact ⟨(if done then newsz else 0, table, left), by simp only [bind, Except.bind, loop]⟩

theorem uvmalloc_inv {newsz : Nat} {xperm : Perm}
    (ok : pt.uvmalloc oldsz newsz xperm avail = .ok (sz, pt', rest)) :
    (newsz < oldsz ∧ sz = oldsz ∧ pt' = pt ∧ rest = avail) ∨
    (oldsz ≤ newsz ∧ sz = newsz ∧ rest + (roundup newsz - roundup oldsz) / 4096 ≤ avail ∧
      (roundup oldsz < roundup newsz → roundup newsz ≤ MAXVA) ∧
      (∀ vpn, roundup oldsz / 4096 ≤ vpn → vpn < roundup newsz / 4096 → pt.map vpn = none) ∧
      pt'.map = fill pt.map (roundup oldsz / 4096) (roundup newsz / 4096)
        (heapLeaf { xperm with r := true, u := true })) ∨
    (oldsz ≤ newsz ∧ sz = 0 ∧ pt'.map = pt.map) := by
  unfold uvmalloc at ok
  split at ok
  · next shrinks =>
    cases ok
    exact Or.inl ⟨shrinks, rfl, rfl, rfl⟩
  · next grows =>
    right
    have rounded : roundup oldsz % 4096 = 0 := by
      unfold roundup
      omega
    obtain ⟨⟨done, table, left⟩, loop, ok⟩ := bind_eq_ok ok
    cases ok
    have spec := uvmallocLoop_inv rounded rounded (le_refl _) (by omega)
      (by intro vpn low high; omega) (fill_of_le _ _ (le_refl _)).symm loop
    cases done with
    | false => exact Or.inr ⟨by omega, rfl, spec⟩
    | true =>
      obtain ⟨spent, below, free, filled⟩ := spec
      refine Or.inl ⟨by omega, rfl, ?_, ?_, ?_, ?_⟩
      · unfold roundup at *
        omega
      · unfold roundup at *
        omega
      · intro vpn low high
        apply free vpn low
        unfold roundup at *
        omega
      · rw [filled]
        by_cases empty : roundup newsz ≤ roundup oldsz
        · unfold roundup at *
          rw [fill_of_le _ _ (by omega), fill_of_le _ _ (by omega)]
        · congr 1
          unfold roundup at *
          omega

/-- The map `m` with the leaves of `old` below the page `high` on top. -/
def overlay (old m : Nat → Option Pte) (high : Nat) : Nat → Option Pte := fun vpn =>
  if vpn < high then (old vpn).or (m vpn) else m vpn

theorem overlay_succ (old m : Nat → Option Pte) (high : Nat) : overlay old m (high + 1) =
      update (overlay old m high) high ((old high).or (m high)) := by
  funext vpn
  by_cases same : vpn = high
  · subst same
    simp [overlay]
  · rw [update_of_ne same]
    unfold overlay
    congr 1
    simp only [eq_iff_iff]
    omega

theorem uvmcopyLoop_inv {page : Nat} (copied : new.map = overlay old.map m page)
    (ok : uvmcopyLoop old count (4096 * page) new avail = .ok (true, new')) :
    new'.map = overlay old.map m (page + count) := by
  induction count generalizing new page avail with
  | zero =>
    cases ok
    exact copied
  | succ count ih =>
    have here : 4096 * page / 4096 = page := by omega
    rw [uvmcopyLoop] at ok
    split at ok
    · cases ok
    · next inside =>
      have small := @vpn_lt (4096 * page) (by omega)
      rw [here] at ok small
      have skip : old.map page = none →
          uvmcopyLoop old count (4096 * page + 4096) new avail = .ok (true, new') →
          new'.map = overlay old.map m (page + (count + 1)) := by
        intro absent rest
        have same : new.map = overlay old.map m (page + 1) := by
          rw [overlay_succ, absent, Option.none_or, copied]
          exact (update_eq_self_iff.mpr (by rw [overlay, if_neg (lt_irrefl _)])).symm
        rw [ih same rest, add_assoc, Nat.add_comm 1]
      rcases found : old.lookup page with _ | pte
      · rw [found] at ok
        exact skip (map_eq_none_of_lookup found) ok
      · rw [found] at ok
        rcases valid : pte.v
        · simp only [valid, Bool.false_eq_true, if_false] at ok
          refine skip ?_ ok
          rw [map, if_pos small, found]
          simp [Option.filter, valid]
        · simp only [valid, if_true] at ok
          have present : old.map page = some pte := map_eq_some_iff.mpr ⟨small, found, valid⟩
          rcases avail with _ | avail
          · obtain ⟨_, _, ok⟩ := bind_eq_ok ok
            cases ok
          · obtain ⟨⟨mapped, table, left⟩, mapping, ok⟩ := bind_eq_ok ok
            obtain ⟨_, _, _, _, map⟩ := mappages_inv mapping
            cases mapped with
            | false =>
              obtain ⟨_, _, ok⟩ := bind_eq_ok ok
              cases ok
            | true =>
              have leaf : ({ pte.toPerm with v := true, page := pte.page } : Pte) = pte := by
                rw [← valid]
              have same : table.map = overlay old.map m (page + 1) := by
                rw [map, if_pos rfl, here, overlay_succ, copied, present, leaf]
                rfl
              rw [ih same ok, add_assoc, Nat.add_comm 1]

theorem uvmcopy_inv (ok : old.uvmcopy new sz avail = .ok (true, new')) :
    new'.map = overlay old.map new.map (roundup sz / 4096) := by
  have start : new.map = overlay old.map new.map 0 := by
    funext vpn
    rw [overlay, if_neg (Nat.not_lt_zero _)]
  have copied := uvmcopyLoop_inv start ok
  rw [copied]
  congr 1
  unfold roundup
  omega

theorem uvmclear_inv (ok : pt.uvmclear va = .ok pt') :
    ∀ vpn, (pt'.map vpn).map (fun pte => { pte with u := false }) =
      (pt.map vpn).map (fun pte => { pte with u := false }) := by
  unfold uvmclear at ok
  split at ok
  · next inside =>
    rcases found : pt.lookup (va / 4096) with _ | pte
    · simp [found] at ok
    · simp only [found, Except.ok.injEq] at ok
      subst ok
      intro vpn
      rw [map_store (vpn_lt inside) found]
      by_cases same : vpn = va / 4096
      · subst same
        rw [update_self, map, if_pos (vpn_lt inside), found]
        rcases valid : pte.v <;> simp [Option.filter, valid]
      · rw [update_of_ne same]
  · cases ok

/-! ## Freeing a table -/

private theorem forM_ok (each : ∀ x ∈ l, f x = .ok ()) : l.forM f = .ok () := by
  induction l with
  | nil => rfl
  | cons head tail ih =>
    change (f head >>= fun _ => tail.forM f) = _
    rw [each head List.mem_cons_self]
    exact ih fun x mem => each x (List.mem_cons_of_mem _ mem)

theorem lookup_of_indices {i j k : Fin 512} {middle : MiddleTable}
    {leaf : LeafTable} (top : pt i = some middle) (inner : middle j = some leaf) :
    pt.lookup (i.val * 262144 + j.val * 512 + k.val) = some (leaf k) := by
  have first : px 2 (i.val * 262144 + j.val * 512 + k.val) = i := by
    apply Fin.ext
    simp only [px]
    omega
  have second : px 1 (i.val * 262144 + j.val * 512 + k.val) = j := by
    apply Fin.ext
    simp only [px]
    omega
  have third : px 0 (i.val * 262144 + j.val * 512 + k.val) = k := by
    apply Fin.ext
    simp only [px]
    omega
  simp [lookup, first, second, third, top, inner]

theorem freewalk_ok (empty : ∀ vpn, pt.map vpn = none) : pt.freewalk = .ok () := by
  apply forM_ok
  intro i _
  rcases top : pt i with _ | middle
  · rfl
  · apply forM_ok
    intro j _
    rcases inner : middle j with _ | leaf
    · rfl
    · apply forM_ok
      intro k _
      have none := empty (i.val * 262144 + j.val * 512 + k.val)
      rw [map, if_pos (by rw [NVPN_eq]; omega), lookup_of_indices top inner] at none
      have invalid : (leaf k).v = false := by
        simpa [Option.filter] using none
      simp [freeEntry, invalid]

/-- The leaves of a page table that maps the trampoline and the trapframe only. -/
def kernelLeaves (trampoline trapframe : Page) : Nat → Option Pte := update
    (update (fun _ => none) (TRAMPOLINE / 4096)
      (some { r := true, x := true, v := true, page := trampoline }))
    (TRAPFRAME / 4096) (some { r := true, w := true, v := true, page := trapframe })

theorem kernelLeaves_eq_some {vpn : Nat}
    (present : kernelLeaves trampoline trapframe vpn = some pte) :
    vpn = TRAMPOLINE / 4096 ∨ vpn = TRAPFRAME / 4096 := by
  unfold kernelLeaves at present
  by_cases second : vpn = TRAPFRAME / 4096
  · exact Or.inr second
  · rw [update_of_ne second] at present
    by_cases first : vpn = TRAMPOLINE / 4096
    · exact Or.inl first
    · rw [update_of_ne first] at present
      cases present

theorem procPagetable_inv (ok : procPagetable trampoline trapframe avail = .ok (some (pt, rest)))
    :
    pt.map = kernelLeaves trampoline trapframe ∧ rest ≤ avail := by
  rcases avail with _ | avail
  · cases ok
  · rw [procPagetable] at ok
    obtain ⟨⟨mapped, table, left⟩, first, ok⟩ := bind_eq_ok ok
    obtain ⟨_, _, spent, _, map⟩ := mappages_inv first
    cases mapped with
    | false =>
      obtain ⟨_, _, ok⟩ := bind_eq_ok ok
      cases ok
    | true =>
      obtain ⟨⟨mapped, table', left'⟩, second, ok⟩ := bind_eq_ok ok
      obtain ⟨_, _, spent', _, map'⟩ := mappages_inv second
      cases mapped with
      | false =>
        obtain ⟨_, _, ok⟩ := bind_eq_ok ok
        obtain ⟨_, _, ok⟩ := bind_eq_ok ok
        cases ok
      | true =>
        obtain ⟨rfl, rfl⟩ := ok
        refine ⟨?_, by omega⟩
        rw [map', if_pos rfl, map, if_pos rfl, map_empty]
        rfl

theorem uvmfree_eq {pt : PageTable} {sz : Nat} (inside : roundup sz ≤ MAXVA) :
    ∃ table : PageTable, pt.uvmfree sz = table.freewalk ∧
      table.map = erase pt.map 0 (roundup sz / 4096) := by
  by_cases pos : 0 < sz
  · obtain ⟨table, ok, map⟩ := @uvmunmap_ok pt 0 (roundup sz / 4096)
      (by decide) (by unfold roundup at *; omega)
    refine ⟨table, ?_, by simpa using map⟩
    rw [uvmfree, if_pos pos, ok]
    simp only [bind, Except.bind]
  · obtain rfl : sz = 0 := by omega
    refine ⟨pt, ?_, (erase_self _ 0).symm⟩
    rw [uvmfree, if_neg (lt_irrefl _)]
    simp only [bind, Except.bind]

theorem procFreepagetable_eq (inside : roundup sz ≤ MAXVA) :
    ∃ table : PageTable, pt.procFreepagetable sz = table.freewalk ∧ ∀ vpn, table.map vpn =
        if vpn = TRAMPOLINE / 4096 ∨ vpn = TRAPFRAME / 4096 ∨ vpn < roundup sz / 4096 then
          none
        else pt.map vpn := by
  have limits : TRAMPOLINE % 4096 = 0 ∧ TRAPFRAME % 4096 = 0 ∧
      TRAMPOLINE + 4096 * 1 ≤ MAXVA ∧ TRAPFRAME + 4096 * 1 ≤ MAXVA := by decide
  obtain ⟨first, ok, map⟩ := @uvmunmap_ok pt TRAMPOLINE 1 limits.1 limits.2.2.1
  obtain ⟨second, ok', map'⟩ := @uvmunmap_ok first TRAPFRAME 1 limits.2.1 limits.2.2.2
  obtain ⟨table, freed, map''⟩ := @uvmfree_eq second sz inside
  refine ⟨table, ?_, ?_⟩
  · rw [procFreepagetable, ok]
    change (first.uvmunmap TRAPFRAME 1 >>= fun pt => pt.uvmfree sz) = _
    rw [ok']
    exact freed
  · intro vpn
    rw [map'', map', map]
    unfold erase
    by_cases gone : vpn = TRAMPOLINE / 4096 ∨ vpn = TRAPFRAME / 4096 ∨ vpn < roundup sz / 4096
    · split_ifs with below trapframe trampoline
      · rfl
      · rfl
      · rfl
      · omega
    · rw [if_neg gone, if_neg (by omega), if_neg (by omega), if_neg (by omega)]

end PageTable

end Xv6.Memory

import Xv6.Frames.Copy

/-!
# Page tables as finite maps

The functions of `vm.c` act on the map from pages to frames and flags as their names say, and
what fails leaves it as it was.
-/

namespace Xv6.Frames

open Memory (MAXVA)
open Outcome (Leads)

variable {va : BitVec 64}

/-- The address of a page below `MAXVA`. -/
abbrev Page := { va : BitVec 64 // va.toNat % 4096 = 0 ∧ va.toNat < MAXVA }

/-- The map that a page table stands for, as `walk` reads it. -/
def pageMap (r : Ram) (root : Pa) (page : Page) : Option (Pa × BitVec 64) :=
  match walk root page.1 false r with
  | .ok (some (t, k), _) =>
    if valid (r.mem t k) then some (pte2pa (r.mem t k), pteFlags (r.mem t k)) else none
  | _ => none

variable {r r' : Ram} {root : Pa}

section

variable (wf : WellFormed r root)
include wf

theorem WellFormed.pageMap_eq (page : Page) : pageMap r root page = mapping r.mem root page.1 := by
  unfold pageMap mapping
  rw [wf.walk_eq page.2.2]
  cases entry r.mem root page.1 with
  | none | some e => rfl

theorem WellFormed.mappages_remap (pa : Pa)
    (perm : BitVec 64) (aligned : va.toNat % 4096 = 0) (inside : va.toNat < MAXVA)
    (present : mapping r.mem root va ≠ none) :
    mappages root va pa perm r = .error .mappagesRemap := by
  have leads : Leads (mappages root va pa perm r) (fun _ _ => False) (· = .mappagesRemap) := by
    unfold mappages
    rw [if_neg (not_not.mpr aligned)]
    refine Leads.bind ((wf.walk_leads inside true).mono (fun _ _ => id) fun _ => False.elim) ?_
    rintro result r₁ ⟨walked, rfl⟩
    rw [← walked.mapping va] at present
    unfold mapping at present
    cases found : entry r₁.mem root va with
    | none => exact absurd (by rw [found]; rfl) present
    | some e =>
      refine Leads.step rfl ?_
      rw [found, Option.bind_some] at present
      cases bit : valid (r₁.mem e.1 e.2) with
      | false => exact absurd (if_neg (by rw [bit]; exact Bool.false_ne_true)) present
      | true => exact Leads.error rfl
  rcases outcome : mappages root va pa perm r with e | ⟨done, r'⟩
  · rw [leads.of_error outcome]
  · exact absurd (leads.of_ok outcome) id

theorem WellFormed.pageMap_walk (inside : va.toNat < MAXVA) :
    ∃ result r', walk root va true r = .ok (result, r') ∧ WellFormed r' root ∧
      pageMap r' root = pageMap r root := by
  obtain ⟨result, r', ran, walked, -⟩ := (wf.walk_leads inside true).ends
  refine ⟨result, r', ran, walked.wellFormed, funext fun page => ?_⟩
  rw [wf.pageMap_eq, walked.wellFormed.pageMap_eq, walked.mapping]

theorem WellFormed.pageMap_mappages (page : Page) {pa : Pa}
    {perm : BitVec 64} (framed : Framed pa) (small : perm.toNat < 2 ^ 10)
    (absent : pageMap r root page = none) :
    ∃ done r', mappages root page.1 pa perm r = .ok (done, r') ∧ WellFormed r' root ∧
      pageMap r' root =
        if done then Function.update (pageMap r root) page (some (pa, perm ||| PTE_V))
        else pageMap r root := by
  rw [wf.pageMap_eq] at absent
  obtain ⟨done, r', ran, mapped⟩ := (wf.mappages_leads page.2.1 page.2.2 framed small absent).ends
  refine ⟨done, r', ran, mapped.wellFormed, funext fun page' => ?_⟩
  rw [mapped.wellFormed.pageMap_eq, mapped.mapping page'.1 page'.2.1 (lt_sv39 page'.2.2),
    ← wf.pageMap_eq]
  cases done with
  | false => rw [if_neg (fun both => Bool.noConfusion both.2), if_neg Bool.false_ne_true]
  | true =>
    rw [if_pos rfl]
    by_cases same : page' = page
    · have both : page'.1 = page.1 ∧ true = true := ⟨congrArg Subtype.val same, rfl⟩
      rw [if_pos both, same, Function.update_self]
    · rw [if_neg (fun both => same (Subtype.ext both.1)), Function.update_of_ne same]

instance (va npages a : BitVec 64) : Decidable (InRange va npages a) :=
  inferInstanceAs (Decidable (_ ∧ _))

theorem WellFormed.pageMap_uvmunmap {npages : BitVec 64}
    {doFree : Bool} (aligned : va.toNat % 4096 = 0)
    (inside : va.toNat + 4096 * npages.toNat ≤ MAXVA)
    (freeable : doFree = true → Freeable r root (InRange va npages)) :
    ∃ r', uvmunmap root va npages doFree r = .ok ((), r') ∧ WellFormed r' root ∧ pageMap r' root =
        fun page => if InRange va npages page.1 then none else pageMap r root page := by
  obtain ⟨pages, range, leads⟩ := @WellFormed.uvmunmap_leads r root wf va npages doFree aligned
    inside
  have members : (· ∈ pages) = InRange va npages := funext fun a => propext (range a)
  rw [members] at leads
  obtain ⟨⟨⟩, r', ran, unmapped⟩ := (leads freeable).ends
  refine ⟨r', ran, unmapped.wellFormed, funext fun page => ?_⟩
  rw [unmapped.wellFormed.pageMap_eq, unmapped.mapping page.1 page.2.1 (lt_sv39 page.2.2),
    wf.pageMap_eq]
  simp only [range]

end

/-- The new table has a copy of every page below `sz`. -/
structure Copied (old new : Pa) (sz : Nat) (r₀ r : Ram) : Prop where
  absent : ∀ page : Page, page.1.toNat < sz → pageMap r₀ old page = none → pageMap r new page = none
  present : ∀ page : Page, page.1.toNat < sz → ∀ pa flags, pageMap r₀ old page = some (pa, flags) →
    ∃ pa', pageMap r new page = some (pa', flags) ∧ FreshCopy new r₀ r pa pa'
  distinct : ∀ page page' : Page, page.1.toNat < sz → page'.1.toNat < sz →
    ∀ pa flags flags', pageMap r new page = some (pa, flags) →
    pageMap r new page' = some (pa, flags') → page = page'

theorem CopyReady.pageMap_uvmcopy {new : Pa} {sz : BitVec 64}
    (ready : CopyReady root new sz.toNat r) :
    ∃ done r', uvmcopy root new sz r = .ok (done, r') ∧ WellFormed r' root ∧
      WellFormed r' new ∧ pageMap r' root = pageMap r root ∧
      (∀ page : Page, sz.toNat ≤ page.1.toNat → pageMap r' new page = pageMap r new page) ∧
      if done then Copied root new sz.toNat r r'
      else ∀ page : Page, page.1.toNat < sz.toNat → pageMap r' new page = none := by
  obtain ⟨done, r', ran, outcome⟩ := ready.uvmcopy_leads.ends
  refine ⟨done, r', ran, ?_⟩
  cases done with
  | false =>
    refine ⟨outcome.wfOld, outcome.wfNew, funext fun page => ?_, fun page above => ?_,
      fun page below => ?_⟩
    · rw [outcome.wfOld.pageMap_eq, ready.wfOld.pageMap_eq, outcome.sameOld]
    · rw [outcome.wfNew.pageMap_eq, ready.wfNew.pageMap_eq,
        outcome.above page.1 page.2.1 page.2.2 above]
    · rw [outcome.wfNew.pageMap_eq, outcome.empty page.1 page.2.1 below]
  | true =>
    obtain ⟨wfOld, -, sameOld⟩ := outcome.sameOld ready
    have new := outcome.wfNew.pageMap_eq
    have old := ready.wfOld.pageMap_eq
    have round : ∀ page : Page, page.1.toNat < sz.toNat →
        page.1.toNat < 4096 * ((sz.toNat + 4095) / 4096) := fun page below => by omega
    refine ⟨wfOld, outcome.wfNew, funext fun page => ?_, fun page above => ?_, ⟨?_, ?_, ?_⟩⟩
    · rw [wfOld.pageMap_eq, old, sameOld]
    · rw [new, ready.wfNew.pageMap_eq, outcome.above page.1 page.2.1 page.2.2 (by omega)]
    · intro page below absent
      rw [old] at absent
      rw [new, outcome.absent page.1 page.2.1 (round page below) absent]
    · intro page below pa flags found
      rw [old] at found
      rw [new]
      exact outcome.copied page.1 pa flags page.2.1 (round page below) found
    · intro page page' below below' pa flags flags' found found'
      rw [new] at found found'
      exact Subtype.ext (outcome.once page.1 page'.1 pa flags flags' page.2.1 page'.2.1
        (round page below) (round page' below') found found')

/-- The three-level table refines a map from pages: creating tables does not change the map,
the other functions change it where they say, and no two pages have one entry. -/
theorem pageTable_refines_map (wf : WellFormed r root) : (∀ va : BitVec 64, va.toNat < MAXVA →
      ∃ result r', walk root va true r = .ok (result, r') ∧ WellFormed r' root ∧
        pageMap r' root = pageMap r root) ∧
    (∀ (page : Page) (pa : Pa) (perm : BitVec 64), Framed pa → perm.toNat < 2 ^ 10 →
      (pageMap r root page = none →
        ∃ done r', mappages root page.1 pa perm r = .ok (done, r') ∧ WellFormed r' root ∧
          pageMap r' root =
            if done then Function.update (pageMap r root) page (some (pa, perm ||| PTE_V))
            else pageMap r root) ∧
      (pageMap r root page ≠ none → mappages root page.1 pa perm r = .error .mappagesRemap)) ∧
    (∀ (va npages : BitVec 64) (doFree : Bool), va.toNat % 4096 = 0 →
      va.toNat + 4096 * npages.toNat ≤ MAXVA →
      (doFree = true → Freeable r root (InRange va npages)) →
      ∃ r', uvmunmap root va npages doFree r = .ok ((), r') ∧ WellFormed r' root ∧ pageMap r' root =
          fun page => if InRange va npages page.1 then none else pageMap r root page) ∧
    (∀ (new : Pa) (sz : BitVec 64), CopyReady root new sz.toNat r →
      ∃ done r', uvmcopy root new sz r = .ok (done, r') ∧ WellFormed r' root ∧
        WellFormed r' new ∧ pageMap r' root = pageMap r root ∧
        (∀ page : Page, sz.toNat ≤ page.1.toNat → pageMap r' new page = pageMap r new page) ∧
        if done then Copied root new sz.toNat r r'
        else ∀ page : Page, page.1.toNat < sz.toNat → pageMap r' new page = none) ∧
    ∀ (page page' : Page) (e : Pa × Fin 512), walk root page.1 false r = .ok (some e, r) →
      walk root page'.1 false r = .ok (some e, r) → page = page' := by
  refine ⟨fun va inside => wf.pageMap_walk inside, fun page pa perm framed small => ⟨?_, ?_⟩,
    fun va npages doFree => wf.pageMap_uvmunmap, fun new sz ready => ready.pageMap_uvmcopy, ?_⟩
  · exact wf.pageMap_mappages page framed small
  · intro present
    rw [wf.pageMap_eq] at present
    exact wf.mappages_remap pa perm page.2.1 page.2.2 present
  · intro page page' e found found'
    rw [wf.walk_eq page.2.2] at found
    rw [wf.walk_eq page'.2.2] at found'
    injection found with first
    injection found' with second
    exact Subtype.ext (entry_inj wf.distinct page.2.1 page'.2.1 (lt_sv39 page.2.2)
      (lt_sv39 page'.2.2) (congrArg Prod.fst first) (congrArg Prod.fst second))

/-! Two tables, the first with one page. -/

def oldRoot : Pa := 0x80400000#64

def newRoot : Pa := 0x80401000#64

def onePage : Pa := 0x80402000#64

/-- Memory of zeros, where every table is empty. -/
def zeros : Ram where
  mem _ _ := 0#64
  free := [0x80403000#64, 0x80404000#64, 0x80405000#64, 0x80406000#64, 0x80407000#64]
  kernelEnd := 0x80100000#64

theorem table_zeros (root : Pa) (n : Node) {t : Pa} (found : table zeros.mem root n = some t) :
    n = .root ∧ t = root := by
  have empty : ∀ t i, next zeros.mem t i = none := fun t i =>
    if_neg (show ¬valid 0#64 = true by decide)
  cases n with
  | root => exact ⟨rfl, (Option.some.inj found).symm⟩
  | middle i | leaf i j =>
    rw [table, empty] at found
    cases found

theorem wellFormed_zeros {root : Pa} (used : root ∉ zeros.free) : WellFormed zeros root where
  distinct n n' t found found' := by
    rw [(table_zeros root n found).1, (table_zeros root n' found').1]
  apart n t found := by
    rw [(table_zeros root n found).2]
    exact used
  freeOk := ⟨by decide, by simp [zeros, Ram.frame, PHYSTOP_eq]⟩

theorem mapping_zeros (root : Pa) (va : BitVec 64) : mapping zeros.mem root va = none := by
  unfold mapping entry
  cases found : table zeros.mem root (.leaf (px 2 va) (px 1 va)) with
  | none => rfl
  | some t => cases (table_zeros root _ found).1

theorem copyReady_of_mapped {perm : BitVec 64} {done : Bool}
    (mapped : Mapped oldRoot 0#64 onePage perm done zeros r) :
    CopyReady oldRoot newRoot 4096 r := by
  have limit := Memory.MAXVA_eq
  have grown := mapped.grown
  have oldTable : ∀ n t, table r.mem oldRoot n = some t → t = oldRoot ∨ t ∈ zeros.free := by
    intro n t found
    rcases grown.tables n t found with before | listed
    · exact Or.inl (table_zeros oldRoot n before).2
    · exact Or.inr listed
  have same : ∀ n t, table zeros.mem newRoot n = some t → r.mem t = zeros.mem t := by
    intro n t found
    rw [(table_zeros newRoot n found).2]
    refine grown.elsewhere newRoot (by decide) fun n' found' => ?_
    exact absurd (table_zeros oldRoot n' found').2 (by decide)
  have tables := table_congr fun n t _ => same n t
  have newTable : ∀ n t, table r.mem newRoot n = some t → n = .root ∧ t = newRoot := by
    intro n t found
    rw [tables] at found
    exact table_zeros newRoot n found
  refine ⟨mapped.wellFormed, ⟨?_, ?_, mapped.wellFormed.freeOk⟩, ?_, ?_, ?_, by omega⟩
  · intro n n' t found found'
    rw [(newTable n t found).1, (newTable n' t found').1]
  · intro n t found mem
    rw [(newTable n t found).2] at mem
    exact absurd (grown.free.subset mem) (by decide)
  · intro n n' t found found'
    rw [(newTable n' t found').2] at found
    exact absurd (oldTable n newRoot found) (by decide)
  · intro a pa flags aligned below found
    have here : pa = onePage := by
      rw [mapped.mapping a aligned (by omega), mapping_zeros] at found
      split at found
      · cases found
        rfl
      · cases found
    rw [here]
    refine ⟨fun mem => absurd (grown.free.subset mem) (by decide), fun n found' => ?_⟩
    exact absurd (newTable n onePage found').2 (by decide)
  · intro a _ _
    rw [mapping_congr same, mapping_zeros]

theorem pageTable_refines_map_copy : ∃ r, CopyReady oldRoot newRoot 4096 r ∧
      pageMap r oldRoot ⟨0#64, by decide⟩ = some (onePage, 0x17#64) ∧
      ∃ done r', uvmcopy oldRoot newRoot 4096#64 r = .ok (done, r') ∧
        if done then Copied oldRoot newRoot 4096 r r'
        else ∀ page : Page, page.1.toNat < 4096 → pageMap r' newRoot page = none := by
  have wf : WellFormed zeros oldRoot := wellFormed_zeros (by decide)
  have framed : Framed onePage := by
    unfold Framed
    decide
  obtain ⟨done, r, ran, mapped⟩ := (@WellFormed.mappages_leads _ _ wf 0#64 onePage 0x16#64
    (by decide) (by decide) framed (by decide) (mapping_zeros oldRoot 0#64)).ends
  have succeeds : (mappages oldRoot 0#64 onePage 0x16#64 zeros).map Prod.fst = .ok true := by
    decide +kernel
  have ready := copyReady_of_mapped mapped
  obtain ⟨-, -, -, copy, -⟩ := pageTable_refines_map mapped.wellFormed
  obtain ⟨done', r', ran', -, -, -, -, outcome⟩ := copy newRoot 4096#64 ready
  refine ⟨r, ready, ?_, done', r', ran', outcome⟩
  rw [ran] at succeeds
  have both : (0#64 : BitVec 64) = 0#64 ∧ done = true := ⟨rfl, Except.ok.inj succeeds⟩
  rw [mapped.wellFormed.pageMap_eq, mapped.mapping 0#64 (by decide) (by decide), if_pos both]
  rfl

end Xv6.Frames

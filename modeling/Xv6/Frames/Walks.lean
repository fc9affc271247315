import Xv6.Frames.Tables

/-!
# What the functions on page tables do

The functions that map and unmap pages change the map where they say, and their effect on
memory stays within the table, the free frames and the frames that are freed.
-/

namespace Xv6.Frames

open Memory (MAXVA)
open Function
open Outcome (Leads)

variable {va a : BitVec 64} {pa t : Pa} {k : Fin 512} {doFree : Bool}

/-- The free list has every frame once, and only frames that `kfree` takes. -/
structure FreeOk (r : Ram) : Prop where
  nodup : r.free.Nodup
  frames : ∀ pa ∈ r.free, r.frame pa = true

structure WellFormed (r : Ram) (root : Pa) : Prop where
  distinct : Distinct r.mem root
  apart : ∀ n t, table r.mem root n = some t → t ∉ r.free
  freeOk : FreeOk r

/-- Free frames have become tables, and only they and the tables have changed. -/
structure Grown (root : Pa) (r r' : Ram) : Prop where
  kernelEnd : r'.kernelEnd = r.kernelEnd
  free : r'.free <:+ r.free
  mono : ∀ n t, table r.mem root n = some t → table r'.mem root n = some t
  tables : ∀ n t, table r'.mem root n = some t → table r.mem root n = some t ∨ t ∈ r.free
  taken : ∀ pa ∈ r.free, pa ∉ r'.free → ∃ n, table r'.mem root n = some pa
  elsewhere : ∀ pa, pa ∉ r.free → (∀ n, table r.mem root n ≠ some pa) → r'.mem pa = r.mem pa

variable {r r' r'' : Ram} {root : Pa}

theorem lt_sv39 (inside : va.toNat < MAXVA) : va.toNat < 2 ^ 39 := by
  have limit := Memory.MAXVA_eq
  omega

theorem Grown.refl (root : Pa) (r : Ram) : Grown root r r :=
  ⟨rfl, List.suffix_refl _, fun _ _ => id, fun _ _ => Or.inl,
    fun _ member missing => absurd member missing, fun _ _ _ => rfl⟩

theorem Grown.trans (first : Grown root r r') (second : Grown root r' r'') : Grown root r r'' where
  kernelEnd := second.kernelEnd.trans first.kernelEnd
  free := second.free.trans first.free
  mono n t found := second.mono n t (first.mono n t found)
  tables n t found := by
    rcases second.tables n t found with old | new
    · exact first.tables n t old
    · exact Or.inr (first.free.subset new)
  taken pa member missing := by
    by_cases still : pa ∈ r'.free
    · exact second.taken pa still missing
    · obtain ⟨n, found⟩ := first.taken pa member still
      exact ⟨n, second.mono n pa found⟩
  elsewhere pa used other := by
    have used' : pa ∉ r'.free := fun member => used (first.free.subset member)
    have other' : ∀ n, table r'.mem root n ≠ some pa := by
      intro n found
      rcases first.tables n pa found with old | new
      · exact other n old
      · exact used new
    rw [second.elsewhere pa used' other', first.elsewhere pa used other]

theorem WellFormed.of_tables (wf : WellFormed r root)
    (tables : table r'.mem root = table r.mem root)
    (apart : ∀ n t, table r.mem root n = some t → t ∉ r'.free) (freeOk : FreeOk r') :
    WellFormed r' root := by
  refine ⟨fun n n' t found found' => ?_, fun n t found => ?_, freeOk⟩
  · rw [tables] at found found'
    exact wf.distinct n n' t found found'
  · rw [tables] at found
    exact apart n t found

theorem Ram.framed_of_frame (frame : r.frame pa = true) : Framed pa := by
  have limit := PHYSTOP_eq
  simp only [Ram.frame, Bool.and_eq_true, beq_iff_eq, decide_eq_true_eq] at frame
  exact ⟨frame.1.1, by omega⟩

/-! ## `walk` -/

theorem WellFormed.attach (wf : WellFormed r root) {m : Node} (inner : m.inner = true) {p : Pa}
    {rest : List Pa} (here : table r.mem root m = some p) {i : Fin 512}
    (vacant : next r.mem p i = none) (free : r.free = t :: rest) :
    Grown root r { r with mem := attach r.mem p i t, free := rest } ∧
      WellFormed { r with mem := attach r.mem p i t, free := rest } root ∧
      (∀ va, mapping (Frames.attach r.mem p i t) root va = mapping r.mem root va) ∧
      table (Frames.attach r.mem p i t) root (m.child i) = some t := by
  have nodup := wf.freeOk.nodup
  rw [free, List.nodup_cons] at nodup
  have listed : t ∈ r.free := by
    rw [free]
    exact List.mem_cons_self ..
  have fresh : ∀ n, table r.mem root n ≠ some t := fun n found => wf.apart n t found listed
  have framed := Ram.framed_of_frame (wf.freeOk.frames t listed)
  have tables := table_attach wf.distinct inner here vacant fresh framed
  have vacant' : table r.mem root (m.child i) = none := by
    rw [table_child inner here, vacant]
  have old : ∀ {n q}, table (Frames.attach r.mem p i t) root n = some q →
      table r.mem root n = some q ∨ q = t := by
    intro n q found
    rw [tables] at found
    by_cases same : n = m.child i
    · rw [same, update_self] at found
      cases found
      exact Or.inr rfl
    · rw [update_of_ne same] at found
      exact Or.inl found
  have grown : Grown root r { r with mem := Frames.attach r.mem p i t, free := rest } := by
    refine ⟨rfl, free ▸ List.suffix_cons t rest, ?_, ?_, ?_, ?_⟩
    · intro n q found
      rw [tables, update_of_ne]
      · exact found
      · rintro rfl
        rw [vacant'] at found
        cases found
    · intro n q found
      rcases old found with before | rfl
      · exact Or.inl before
      · exact Or.inr listed
    · intro pa member missing
      rw [free, List.mem_cons] at member
      rw [tables]
      exact ⟨m.child i, by rw [member.resolve_right missing, update_self]⟩
    · intro pa used other
      refine attach_of_ne i ?_ ?_
      · rintro rfl
        exact other m here
      · rintro rfl
        exact used listed
  refine ⟨grown, ⟨distinct_attach wf.distinct inner here vacant fresh framed, ?_, nodup.2, ?_⟩,
    mapping_attach wf.distinct inner here vacant fresh framed, ?_⟩
  · intro n q found member
    rcases old found with before | rfl
    · exact wf.apart n q before (grown.free.subset member)
    · exact nodup.1 member
  · intro pa member
    exact wf.freeOk.frames pa (grown.free.subset member)
  · rw [tables, update_self]

structure Walked (root : Pa) (alloc : Bool) (r r' : Ram) : Prop where
  grown : Grown root r r'
  wellFormed : WellFormed r' root
  mapping : ∀ va, mapping r'.mem root va = mapping r.mem root va
  passive : alloc = false → r' = r

theorem Walked.refl (wf : WellFormed r root) (alloc : Bool) : Walked root alloc r r :=
  ⟨Grown.refl root r, wf, fun _ => rfl, fun _ => rfl⟩

theorem Walked.trans {alloc : Bool} (first : Walked root alloc r r')
    (second : Walked root alloc r' r'') : Walked root alloc r r'' :=
  ⟨first.grown.trans second.grown, second.wellFormed,
    fun va => (second.mapping va).trans (first.mapping va),
    fun passive => (second.passive passive).trans (first.passive passive)⟩

theorem WellFormed.descend_leads (wf : WellFormed r root) {m : Node} (inner : m.inner = true)
    {p : Pa} (here : table r.mem root m = some p) (alloc : Bool) (i : Fin 512) :
    Leads (descend alloc p i r)
      (fun result r' => Walked root alloc r r' ∧ result = table r'.mem root (m.child i))
      fun _ => False := by
  have child := table_child inner here i
  have word : ∀ bit, valid (r.mem p i) = bit →
      next r.mem p i = if bit then some (pte2pa (r.mem p i)) else none := by
    rintro bit rfl
    rfl
  refine Leads.step rfl ?_
  cases bit : valid (r.mem p i) with
  | true => exact Leads.pure ⟨Walked.refl wf alloc, by rw [child, word true bit]; rfl⟩
  | false =>
    have vacant := word false bit
    cases alloc with
    | false => exact Leads.pure ⟨Walked.refl wf false, by rw [child, vacant]; rfl⟩
    | true =>
      cases free : r.free with
      | nil =>
        refine Leads.step (show kalloc r = .ok (none, r) by unfold kalloc; rw [free]) ?_
        exact Leads.pure ⟨Walked.refl wf true, by rw [child, vacant]; rfl⟩
      | cons t rest =>
        obtain ⟨grown, wf', same, found⟩ := wf.attach inner here vacant free
        refine Leads.step (show kalloc r = .ok (some t, _) by unfold kalloc; rw [free]) ?_
        refine Leads.step rfl (Leads.step rfl (Leads.pure ?_))
        rw [update_idem]
        exact ⟨⟨grown, wf', same, nofun⟩, found.symm⟩

theorem WellFormed.walk_leads (wf : WellFormed r root) (inside : va.toNat < MAXVA) (alloc : Bool) :
    Leads (walk root va alloc r)
      (fun result r' => Walked root alloc r r' ∧ result = entry r'.mem root va)
      fun _ => False := by
  unfold walk
  rw [if_neg (Nat.not_le.mpr inside)]
  refine Leads.bind (@WellFormed.descend_leads _ _ wf .root rfl _ rfl alloc (px 2 va)) ?_
  rintro middle r₁ ⟨first, rfl⟩
  cases top : table r₁.mem root (Node.root.child (px 2 va)) with
  | none =>
    refine Leads.pure ⟨first, ?_⟩
    change next r₁.mem root (px 2 va) = none at top
    rw [entry, table_leaf, top]
    rfl
  | some t =>
    refine Leads.bind (first.wellFormed.descend_leads rfl top alloc (px 1 va)) ?_
    rintro leaf r₂ ⟨second, rfl⟩
    cases bottom : table r₂.mem root ((Node.root.child (px 2 va)).child (px 1 va)) with
    | none | some t' =>
      exact Leads.pure ⟨first.trans second, congrArg (Option.map (·, px 0 va)) bottom.symm⟩

theorem WellFormed.walk_eq (wf : WellFormed r root)
    (inside : va.toNat < MAXVA) : walk root va false r = .ok (entry r.mem root va, r) := by
  have leads := wf.walk_leads inside false
  rcases outcome : walk root va false r with e | ⟨result, r'⟩
  · exact absurd (leads.of_error outcome) id
  · obtain ⟨walked, rfl⟩ := leads.of_ok outcome
    rw [walked.passive rfl]

theorem mapping_of_entry {mem : Pa → Frame} {bit : Bool} (here : entry mem root va = some (t, k))
    (word : valid (mem t k) = bit) : mapping mem root va =
      if bit then some (pte2pa (mem t k), pteFlags (mem t k)) else none := by
  rw [mapping, here, Option.bind_some, word]

theorem mapping_eq_none (absent : mapping r.mem root va = none)
    (here : entry r.mem root va = some (t, k)) : valid (r.mem t k) = false := by
  by_contra present
  rw [mapping_of_entry here (Bool.eq_true_of_not_eq_false present)] at absent
  cases absent

theorem leaf_of_entry {mem : Pa → Frame} (here : entry mem root va = some (t, k)) :
    table mem root (.leaf (px 2 va) (px 1 va)) = some t := by
  unfold entry at here
  rw [Option.map_eq_some_iff] at here
  obtain ⟨t', found, same⟩ := here
  rw [found, (Prod.mk.inj same).1]

theorem WellFormed.put (wf : WellFormed r root)
    (here : entry r.mem root va = some (t, k)) (w : BitVec 64) :
    WellFormed { r with mem := put r.mem t k w } root ∧
      table (Frames.put r.mem t k w) root = table r.mem root ∧
      Grown root r { r with mem := Frames.put r.mem t k w } := by
  have leaf := leaf_of_entry here
  have tables : table (Frames.put r.mem t k w) root = table r.mem root :=
    table_put_leaf wf.distinct leaf w
  refine ⟨wf.of_tables tables wf.apart ⟨wf.freeOk.nodup, wf.freeOk.frames⟩, tables, rfl,
    List.suffix_refl _, fun n q found => ?_, fun n q found => Or.inl ?_,
    fun _ member missing => absurd member missing, fun pa _ other => ?_⟩
  · exact (congrFun tables n).trans found
  · exact (congrFun tables n).symm.trans found
  · refine put_of_ne ?_ k w
    rintro rfl
    exact other _ leaf

/-! ## `mappages` -/

theorem flags_small {perm : BitVec 64} (small : perm.toNat < 2 ^ 10) :
    (perm ||| PTE_V).toNat < 2 ^ 10 := by
  exact Nat.or_lt_two_pow small (by decide)

/-- What `mappages` of a page that is not mapped does. -/
structure Mapped (root : Pa) (va : BitVec 64) (pa : Pa) (perm : BitVec 64) (done : Bool)
    (r r' : Ram) : Prop where
  grown : Grown root r r'
  wellFormed : WellFormed r' root
  mapping : ∀ va', va'.toNat % 4096 = 0 → va'.toNat < 2 ^ 39 → mapping r'.mem root va' =
      if va' = va ∧ done = true then some (pa, perm ||| PTE_V) else mapping r.mem root va'

theorem WellFormed.mappages_leads (wf : WellFormed r root) {va : BitVec 64} {pa : Pa}
    {perm : BitVec 64} (aligned : va.toNat % 4096 = 0) (inside : va.toNat < MAXVA)
    (framed : Framed pa) (small : perm.toNat < 2 ^ 10) (absent : mapping r.mem root va = none) :
    Leads (mappages root va pa perm r) (fun done r' => Mapped root va pa perm done r r')
      fun _ => False := by
  unfold mappages
  rw [if_neg (not_not.mpr aligned)]
  refine Leads.bind (wf.walk_leads inside true) ?_
  rintro result r₁ ⟨walked, rfl⟩
  cases found : entry r₁.mem root va with
  | none =>
    refine Leads.pure ⟨walked.grown, walked.wellFormed, fun va' _ _ => ?_⟩
    rw [if_neg (fun both => Bool.noConfusion both.2)]
    exact walked.mapping va'
  | some e =>
    have invalid := mapping_eq_none ((walked.mapping va).trans absent) found
    refine Leads.step rfl ?_
    rw [invalid]
    refine Leads.step rfl (Leads.pure ?_)
    have word : pa2pte pa ||| perm ||| PTE_V = pa2pte pa ||| (perm ||| PTE_V) := BitVec.or_assoc ..
    obtain ⟨wf', -, grown⟩ := walked.wellFormed.put found (pa2pte pa ||| perm ||| PTE_V)
    refine ⟨walked.grown.trans grown, wf', fun va' aligned' inside' => ?_⟩
    refine (mapping_put walked.wellFormed.distinct aligned (lt_sv39 inside) found _ aligned'
      inside').trans ?_
    by_cases same : va' = va
    · have both : va' = va ∧ true = true := ⟨same, rfl⟩
      rw [if_pos both, if_pos same, if_pos (valid_or _), word,
        pte2pa_pa2pte framed (flags_small small), pteFlags_pa2pte pa (flags_small small)]
    · rw [if_neg same, if_neg (fun both => same both.1), walked.mapping]

/-! ## `uvmunmap` -/

def Ram.freed (r : Ram) (pa : Pa) : Ram :=
  { r with
    mem := update r.mem pa
      (update (fun _ => 0x0101010101010101#64) 0 (r.free.head?.getD 0#64))
    free := pa :: r.free }

theorem kfree_eq (frame : r.frame pa = true) : kfree pa r = .ok ((), r.freed pa) := by
  unfold kfree
  rw [if_pos frame]
  rfl

theorem Ram.freed_of_ne {pa' : Pa} (other : pa' ≠ pa) : (r.freed pa).mem pa' = r.mem pa' :=
  update_of_ne other ..

theorem WellFormed.freed (wf : WellFormed r root) (frame : r.frame pa = true)
    (used : pa ∉ r.free) (other : ∀ n, table r.mem root n ≠ some pa) :
    WellFormed (r.freed pa) root ∧ table (r.freed pa).mem root = table r.mem root ∧
      ∀ va, mapping (r.freed pa).mem root va = mapping r.mem root va := by
  have same : ∀ n t, table r.mem root n = some t → (r.freed pa).mem t = r.mem t := by
    intro n t found
    refine Ram.freed_of_ne ?_
    rintro rfl
    exact other n found
  have tables := table_congr fun n t _ => same n t
  refine ⟨wf.of_tables tables (fun n q found member => ?_)
    ⟨List.nodup_cons.mpr ⟨used, wf.freeOk.nodup⟩, fun q member => ?_⟩, tables, mapping_congr same⟩
  · rcases List.mem_cons.mp member with rfl | listed
    · exact other n found
    · exact wf.apart n q found listed
  · rcases List.mem_cons.mp member with rfl | listed
    · exact frame
    · exact wf.freeOk.frames q listed

/-- The frames mapped at some addresses may be freed: they are frames in use, other than
the tables, and none of them is mapped twice. -/
structure Freeable (r : Ram) (root : Pa) (range : BitVec 64 → Prop) : Prop where
  frame : ∀ a, range a → ∀ pa flags, mapping r.mem root a = some (pa, flags) →
    r.frame pa = true ∧ pa ∉ r.free ∧ ∀ n, table r.mem root n ≠ some pa
  once : ∀ a, range a → ∀ a', range a' → ∀ pa flags flags',
    mapping r.mem root a = some (pa, flags) → mapping r.mem root a' = some (pa, flags') → a = a'

structure Unmapped (root : Pa) (doFree : Bool) (pages : List (BitVec 64)) (r r' : Ram) :
    Prop where
  kernelEnd : r'.kernelEnd = r.kernelEnd
  wellFormed : WellFormed r' root
  tables : table r'.mem root = table r.mem root
  mapping : ∀ va, va.toNat % 4096 = 0 → va.toNat < 2 ^ 39 →
    mapping r'.mem root va = if va ∈ pages then none else mapping r.mem root va
  free : ∀ pa, pa ∈ r'.free ↔ pa ∈ r.free ∨
    (doFree = true ∧ ∃ a ∈ pages, ∃ flags, Frames.mapping r.mem root a = some (pa, flags))
  elsewhere : ∀ pa, (∀ n, table r.mem root n ≠ some pa) →
    (doFree = true → ∀ a ∈ pages, ∀ flags, Frames.mapping r.mem root a ≠ some (pa, flags)) →
    r'.mem pa = r.mem pa

theorem Unmapped.absent (wf : WellFormed r root) (doFree : Bool)
    (absent : Frames.mapping r.mem root a = none) : Unmapped root doFree [a] r r := by
  refine ⟨rfl, wf, rfl, fun va _ _ => ?_, fun pa => ?_, fun _ _ _ => rfl⟩
  · by_cases same : va = a
    · rw [if_pos (List.mem_singleton.mpr same), same, absent]
    · rw [if_neg (fun member => same (List.mem_singleton.mp member))]
  · refine ⟨Or.inl, fun member => member.elim id ?_⟩
    rintro ⟨-, a', listed, flags, found⟩
    rw [List.mem_singleton.mp listed, absent] at found
    cases found

theorem WellFormed.clear (wf : WellFormed r root) (aligned : a.toNat % 4096 = 0)
    (inside : a.toNat < 2 ^ 39)
    (found : entry r.mem root a = some (t, k))
    (aligned' : va.toNat % 4096 = 0) (inside' : va.toNat < 2 ^ 39) :
    Frames.mapping (Frames.put r.mem t k 0#64) root va =
      if va ∈ [a] then none else Frames.mapping r.mem root va := by
  rw [mapping_put wf.distinct aligned inside found _ aligned' inside', valid_zero]
  simp only [List.mem_singleton, Bool.false_eq_true, if_false]

theorem WellFormed.unmapPage_leads (wf : WellFormed r root)
    (aligned : a.toNat % 4096 = 0) (inside : a.toNat < MAXVA)
    (freeable : doFree = true → Freeable r root (· ∈ [a])) :
    Leads (unmapPage root doFree a r) (fun _ r' => Unmapped root doFree [a] r r')
      fun _ => False := by
  unfold unmapPage
  refine Leads.step (wf.walk_eq inside) ?_
  cases found : entry r.mem root a with
  | none =>
    refine Leads.pure (Unmapped.absent wf doFree ?_)
    rw [Frames.mapping, found]
    rfl
  | some e =>
    obtain ⟨t, k⟩ := e
    refine Leads.step rfl ?_
    cases bit : valid (r.mem t k) with
    | false =>
      exact Leads.pure (Unmapped.absent wf doFree (mapping_of_entry found bit))
    | true =>
      have present := mapping_of_entry found bit
      have leaf := leaf_of_entry found
      cases doFree with
      | false =>
        obtain ⟨wf', tables, -⟩ := wf.put found 0#64
        refine Leads.ok ⟨rfl, wf', tables, fun va => wf.clear aligned (lt_sv39 inside) found,
          ?_, ?_⟩
        · intro pa
          exact ⟨Or.inl, fun member => member.elim id fun freed => nomatch freed.1⟩
        · intro pa other _
          refine put_of_ne ?_ k _
          rintro rfl
          exact other _ leaf
      | true =>
        obtain ⟨frame, used, other⟩ :=
          (freeable rfl).frame a (List.mem_singleton.mpr rfl) _ _ present
        obtain ⟨wf₁, tables₁, mapping₁⟩ := wf.freed frame used other
        have found₁ : entry (r.freed (pte2pa (r.mem t k))).mem root a = some (t, k) := by
          rw [entry, tables₁]
          exact found
        obtain ⟨wf', tables, -⟩ := wf₁.put found₁ 0#64
        refine Leads.step (kfree_eq frame) (Leads.ok
          ⟨rfl, wf', tables.trans tables₁, fun va aligned' inside' => ?_, ?_, ?_⟩)
        · refine (wf₁.clear aligned (lt_sv39 inside) found₁ aligned' inside').trans ?_
          rw [mapping₁]
        · intro pa
          refine List.mem_cons.trans (or_comm.trans (or_congr_right ?_))
          constructor
          · rintro rfl
            exact ⟨rfl, a, List.mem_singleton.mpr rfl, _, present⟩
          · rintro ⟨-, a', listed, flags, found'⟩
            rw [List.mem_singleton.mp listed, present] at found'
            cases found'
            rfl
        · intro pa outside freed
          have apart : pa ≠ pte2pa (r.mem t k) := by
            rintro rfl
            exact freed rfl a (List.mem_singleton.mpr rfl) _ present
          refine (put_of_ne ?_ k _).trans (Ram.freed_of_ne apart)
          rintro rfl
          exact outside _ leaf

section

variable {rest : List (BitVec 64)} (aligned : ∀ b ∈ a :: rest, b.toNat % 4096 = 0)
  (inside : ∀ b ∈ a :: rest, b.toNat < MAXVA) (distinct : a ∉ rest)
  (first : Unmapped root doFree [a] r r')
include aligned inside distinct first

theorem Unmapped.later (b : BitVec 64) (member : b ∈ rest) :
    Frames.mapping r'.mem root b = Frames.mapping r.mem root b := by
  rw [first.mapping b (aligned b (List.mem_cons_of_mem _ member))
    (lt_sv39 (inside b (List.mem_cons_of_mem _ member))), if_neg]
  intro here
  rw [List.mem_singleton.mp here] at member
  exact distinct member

theorem Unmapped.cons (second : Unmapped root doFree rest r' r'') :
    Unmapped root doFree (a :: rest) r r'' := by
  have later := first.later aligned inside distinct
  refine ⟨second.kernelEnd.trans first.kernelEnd, second.wellFormed,
    second.tables.trans first.tables, fun va aligned' inside' => ?_, fun pa => ?_,
    fun pa other freed => ?_⟩
  · rw [second.mapping va aligned' inside', first.mapping va aligned' inside']
    by_cases here : va = a
    · rw [if_pos (List.mem_singleton.mpr here), ite_self, here, if_pos (List.mem_cons_self ..)]
    · rw [if_neg (fun member => here (List.mem_singleton.mp member))]
      by_cases member : va ∈ rest
      · rw [if_pos member, if_pos (List.mem_cons_of_mem _ member)]
      · rw [if_neg member, if_neg]
        rw [List.mem_cons, not_or]
        exact ⟨here, member⟩
  · rw [second.free, first.free, or_assoc]
    apply or_congr_right
    constructor
    · rintro (⟨free, b, member, found⟩ | ⟨free, b, member, flags, found⟩)
      · rw [List.mem_singleton.mp member] at found
        exact ⟨free, a, List.mem_cons_self .., found⟩
      · rw [later b member] at found
        exact ⟨free, b, List.mem_cons_of_mem _ member, flags, found⟩
    · rintro ⟨free, b, member, flags, found⟩
      rcases List.mem_cons.mp member with rfl | listed
      · exact Or.inl ⟨free, b, List.mem_singleton.mpr rfl, flags, found⟩
      · exact Or.inr ⟨free, b, listed, flags, by rw [later b listed]; exact found⟩
  · rw [second.elsewhere pa (by rw [first.tables]; exact other), first.elsewhere pa other]
    · intro free b member
      rw [List.mem_singleton.mp member]
      exact freed free a (List.mem_cons_self ..)
    · intro free b member
      rw [later b member]
      exact freed free b (List.mem_cons_of_mem _ member)

theorem Freeable.tail (freeable : Freeable r root (· ∈ a :: rest)) :
    Freeable r' root (· ∈ rest) := by
  have later := first.later aligned inside distinct
  refine ⟨fun b member pa flags found => ?_,
    fun b member b' member' pa flags flags' found found' => ?_⟩
  · rw [later b member] at found
    obtain ⟨frame, used, other⟩ := freeable.frame b (List.mem_cons_of_mem _ member) pa flags found
    refine ⟨by rw [Ram.frame, first.kernelEnd]; exact frame, ?_, by rw [first.tables]; exact other⟩
    rw [first.free]
    rintro (listed | ⟨-, a', here, flags', found'⟩)
    · exact used listed
    · rw [List.mem_singleton.mp here] at found'
      have same := freeable.once b (List.mem_cons_of_mem _ member) a (List.mem_cons_self ..) pa
        flags flags' found found'
      rw [same] at member
      exact distinct member
  · rw [later b member] at found
    rw [later b' member'] at found'
    exact freeable.once b (List.mem_cons_of_mem _ member) b' (List.mem_cons_of_mem _ member') pa
      flags flags' found found'

end

theorem WellFormed.unmapPages_leads (wf : WellFormed r root)
    {pages : List (BitVec 64)} (aligned : ∀ a ∈ pages, a.toNat % 4096 = 0)
    (inside : ∀ a ∈ pages, a.toNat < MAXVA) (distinct : pages.Nodup)
    (freeable : doFree = true → Freeable r root (· ∈ pages)) :
    Leads (unmapPages root doFree pages r) (fun _ r' => Unmapped root doFree pages r r')
      fun _ => False := by
  induction pages generalizing r with
  | nil =>
    refine Leads.pure ⟨rfl, wf, rfl, fun _ _ _ => (if_neg List.not_mem_nil).symm, fun pa => ?_,
      fun _ _ _ => rfl⟩
    exact ⟨Or.inl, fun member => member.elim id fun freed => nomatch freed.2⟩
  | cons a rest ih =>
    rw [List.nodup_cons] at distinct
    refine Leads.bind (wf.unmapPage_leads (aligned a (List.mem_cons_self ..))
      (inside a (List.mem_cons_self ..)) fun free => ?_) ?_
    · have all := freeable free
      have head : ∀ b ∈ [a], b ∈ a :: rest := by
        intro b member
        rw [List.mem_singleton.mp member]
        exact List.mem_cons_self ..
      exact ⟨fun b member => all.frame b (head b member),
        fun b member b' member' => all.once b (head b member) b' (head b' member')⟩
    · intro _ r₁ first
      refine (ih first.wellFormed
        (fun b member => aligned b (List.mem_cons_of_mem _ member))
        (fun b member => inside b (List.mem_cons_of_mem _ member)) distinct.2
        fun free => Freeable.tail aligned inside distinct.1 first (freeable free)).mono ?_
        fun _ => id
      intro _ r₂ second
      exact first.cons aligned inside distinct.1 second

def InRange (va npages : BitVec 64) (a : BitVec 64) : Prop :=
  a.toNat % 4096 = 0 ∧ va.toNat ≤ a.toNat ∧ a.toNat < va.toNat + 4096 * npages.toNat

theorem WellFormed.uvmunmap_leads (wf : WellFormed r root) {va npages : BitVec 64}
    {doFree : Bool} (aligned : va.toNat % 4096 = 0)
    (inside : va.toNat + 4096 * npages.toNat ≤ MAXVA) :
    ∃ pages, (∀ a, a ∈ pages ↔ InRange va npages a) ∧
      ((doFree = true → Freeable r root (· ∈ pages)) →
        Leads (uvmunmap root va npages doFree r) (fun _ r' => Unmapped root doFree pages r r')
          fun _ => False) := by
  have limit := Memory.MAXVA_eq
  have stop : (va + npages * 4096#64).toNat = va.toNat + 4096 * npages.toNat := by
    change (va.toNat + npages.toNat * 4096 % 2 ^ 64) % 2 ^ 64 = _
    omega
  obtain ⟨pages, visited, nodup, members⟩ :=
    @Memory.strides_eq_some va (va + npages * 4096#64) (by omega)
  have range : ∀ a, a ∈ pages ↔ InRange va npages a := by
    intro a
    rw [members a, stop]
    constructor
    · rintro ⟨k, here, below⟩
      exact ⟨by omega, by omega, below⟩
    · rintro ⟨multiple, above, below⟩
      exact ⟨(a.toNat - va.toNat) / 4096, by omega, below⟩
  refine ⟨pages, range, fun freeable => ?_⟩
  unfold uvmunmap
  rw [if_neg (not_not.mpr aligned), visited]
  refine wf.unmapPages_leads (fun a member => ((range a).mp member).1) (fun a member => ?_) nodup
    freeable
  have := ((range a).mp member).2.2
  omega

end Xv6.Frames

import Xv6.Frames.Walks

/-!
# `uvmcopy`

The pages copied so far are mapped to frames of their own that were free at the start, with the
contents and the flags of the original, and nothing but free frames and the new table has
changed.
-/

namespace Xv6.Frames

open Memory (MAXVA)
open Outcome (Leads)
open Function

variable {pa : Pa} {k : Nat} {r' : Ram}

def pageAt (k : Nat) : BitVec 64 := BitVec.ofNat 64 (4096 * k)

theorem toNat_pageAt {k : Nat} (small : 4096 * k < 2 ^ 64) : (pageAt k).toNat = 4096 * k := by
  rw [pageAt, BitVec.toNat_ofNat, Nat.mod_eq_of_lt small]

/-- Two well-formed tables that share no frame, the second of them empty below `sz`; the
frames that the first one maps there are in use. -/
structure CopyReady (old new : Pa) (sz : Nat) (r : Ram) : Prop where
  wfOld : WellFormed r old
  wfNew : WellFormed r new
  apart : ∀ n n' t, table r.mem old n = some t → table r.mem new n' ≠ some t
  leaves : ∀ a pa flags, a.toNat % 4096 = 0 → a.toNat < sz →
    mapping r.mem old a = some (pa, flags) → pa ∉ r.free ∧ ∀ n, table r.mem new n ≠ some pa
  empty : ∀ a, a.toNat % 4096 = 0 → a.toNat < sz → mapping r.mem new a = none
  small : sz ≤ MAXVA

/-- The frame `pa'` is a new copy of `pa`. -/
structure FreshCopy (new : Pa) (r₀ r : Ram) (pa pa' : Pa) : Prop where
  fresh : pa' ∈ r₀.free
  used : pa' ∉ r.free
  frame : ∀ n, table r.mem new n ≠ some pa'
  contents : r.mem pa' = r₀.mem pa

/-- The pages below `bound` have been copied, since the state `r₀`. -/
structure CopiedTo (old new : Pa) (bound : Nat) (r₀ r : Ram) : Prop where
  wfNew : WellFormed r new
  kernelEnd : r.kernelEnd = r₀.kernelEnd
  free : ∀ pa ∈ r.free, pa ∈ r₀.free
  tables : ∀ n t, table r.mem new n = some t → table r₀.mem new n = some t ∨ t ∈ r₀.free
  kept : ∀ pa, pa ∉ r₀.free → (∀ n, table r₀.mem new n ≠ some pa) → r.mem pa = r₀.mem pa
  above : ∀ a, a.toNat % 4096 = 0 → a.toNat < MAXVA → bound ≤ a.toNat →
    mapping r.mem new a = mapping r₀.mem new a
  absent : ∀ a, a.toNat % 4096 = 0 → a.toNat < bound → mapping r₀.mem old a = none →
    mapping r.mem new a = none
  copied : ∀ a pa flags, a.toNat % 4096 = 0 → a.toNat < bound →
    mapping r₀.mem old a = some (pa, flags) →
    ∃ pa', mapping r.mem new a = some (pa', flags) ∧ FreshCopy new r₀ r pa pa'
  once : ∀ a a' pa flags flags', a.toNat % 4096 = 0 → a'.toNat % 4096 = 0 → a.toNat < bound →
    a'.toNat < bound → mapping r.mem new a = some (pa, flags) →
    mapping r.mem new a' = some (pa, flags') → a = a'

variable {old new : Pa} {sz bound : Nat} {r₀ r : Ram}

theorem CopiedTo.start (ready : CopyReady old new sz r₀) : CopiedTo old new 0 r₀ r₀ where
  wfNew := ready.wfNew
  kernelEnd := rfl
  free _ := id
  tables _ _ := Or.inl
  kept _ _ _ := rfl
  above _ _ _ _ := rfl
  absent _ _ below := absurd below (Nat.not_lt_zero _)
  copied _ _ _ _ below := absurd below (Nat.not_lt_zero _)
  once _ _ _ _ _ _ _ below := absurd below (Nat.not_lt_zero _)

theorem CopiedTo.sameOld (ready : CopyReady old new sz r₀) (copied : CopiedTo old new bound r₀ r) :
    WellFormed r old ∧ table r.mem old = table r₀.mem old ∧
      ∀ a, mapping r.mem old a = mapping r₀.mem old a := by
  have same : ∀ n t, table r₀.mem old n = some t → r.mem t = r₀.mem t := fun n t found =>
    copied.kept t (ready.wfOld.apart n t found) fun n' => ready.apart n n' t found
  have tables := table_congr fun n t _ => same n t
  exact ⟨ready.wfOld.of_tables tables (fun n t found mem =>
    ready.wfOld.apart n t found (copied.free t mem)) copied.wfNew.freeOk, tables,
    mapping_congr same⟩

theorem CopiedTo.freshCopy (copied : CopiedTo old new bound r₀ r) {a : BitVec 64}
    {flags : BitVec 64} (aligned : a.toNat % 4096 = 0) (below : a.toNat < bound)
    (found : mapping r.mem new a = some (pa, flags)) : ∃ pa₀, FreshCopy new r₀ r pa₀ pa := by
  cases original : mapping r₀.mem old a with
  | none =>
    rw [copied.absent a aligned below original] at found
    cases found
  | some e =>
    obtain ⟨pa', found', copy⟩ := copied.copied a e.1 e.2 aligned below original
    rw [found'] at found
    cases found
    exact ⟨e.1, copy⟩

theorem CopiedTo.freeable (ready : CopyReady old new sz r₀) (copied : CopiedTo old new bound r₀ r)
    {pages : List (BitVec 64)}
    (range : ∀ a ∈ pages, a.toNat % 4096 = 0 ∧ a.toNat < bound) : Freeable r new (· ∈ pages) := by
  constructor
  · intro a mem pa flags found
    obtain ⟨aligned, below⟩ := range a mem
    obtain ⟨pa₀, copy⟩ := copied.freshCopy aligned below found
    refine ⟨?_, copy.used, copy.frame⟩
    rw [Ram.frame, copied.kernelEnd]
    exact ready.wfNew.freeOk.frames _ copy.fresh
  · intro a mem a' mem' pa flags flags' found found'
    exact copied.once a a' pa flags flags' (range a mem).1 (range a' mem').1
      (range a mem).2 (range a' mem').2 found found'

theorem lt_or_eq_pageAt {k : Nat} (small : 4096 * k < 2 ^ 64) {a : BitVec 64}
    (aligned : a.toNat % 4096 = 0) (below : a.toNat < 4096 * (k + 1)) :
    a.toNat < 4096 * k ∨ a = pageAt k := by
  have address := toNat_pageAt small
  rcases Nat.lt_or_ge a.toNat (4096 * k) with before | here
  · exact Or.inl before
  · exact Or.inr (BitVec.eq_of_toNat_eq (by omega))

theorem CopiedTo.skip (ready : CopyReady old new sz r₀)
    (copied : CopiedTo old new (4096 * k) r₀ r) (inside : 4096 * k < sz)
    (original : mapping r₀.mem old (pageAt k) = none) :
    CopiedTo old new (4096 * (k + 1)) r₀ r := by
  have limit := Memory.MAXVA_eq
  have small := ready.small
  have address := @toNat_pageAt k (by omega)
  have split := @lt_or_eq_pageAt k (by omega)
  have vacant : mapping r.mem new (pageAt k) = none := by
    rw [copied.above (pageAt k) (by omega) (by omega) (by omega)]
    exact ready.empty (pageAt k) (by omega) (by omega)
  refine ⟨copied.wfNew, copied.kernelEnd, copied.free, copied.tables, copied.kept, ?_, ?_, ?_, ?_⟩
  · intro a aligned below above
    exact copied.above a aligned below (by omega)
  · intro a aligned below absent
    rcases split aligned below with before | rfl
    · exact copied.absent a aligned before absent
    · exact vacant
  · intro a pa flags aligned below found
    rcases split aligned below with before | rfl
    · exact copied.copied a pa flags aligned before found
    · rw [original] at found
      cases found
  · intro a a' pa flags flags' aligned aligned' below below' found found'
    rcases split aligned below with before | rfl
    · rcases split aligned' below' with before' | rfl
      · exact copied.once a a' pa flags flags' aligned aligned' before before' found found'
      · rw [vacant] at found'
        cases found'
    · rw [vacant] at found
      cases found

section

variable (copied : CopiedTo old new bound r₀ r)
include copied

section Changes

variable (wf : WellFormed r' new) (kernelEnd : r'.kernelEnd = r.kernelEnd)
    (free : ∀ pa ∈ r'.free, pa ∈ r₀.free)
    (tables : ∀ n t, table r'.mem new n = some t → table r.mem new n = some t ∨ t ∈ r.free)
    (elsewhere : ∀ pa, pa ∉ r.free → (∀ n, table r.mem new n ≠ some pa) →
      (pa ∈ r₀.free → ∃ a flags, a.toNat % 4096 = 0 ∧ a.toNat < bound ∧
        mapping r.mem new a = some (pa, flags)) → r'.mem pa = r.mem pa)
    (unfreed : ∀ a pa flags, a.toNat % 4096 = 0 → a.toNat < bound →
      mapping r.mem new a = some (pa, flags) → pa ∉ r.free → pa ∉ r'.free)
include wf kernelEnd free tables elsewhere unfreed

/-- Changes that leave alone what has been copied. -/
theorem CopiedTo.change {bound' : Nat} (further : bound ≤ bound') (small : bound' ≤ MAXVA)
    (maps : ∀ a, a.toNat % 4096 = 0 → a.toNat < MAXVA → a.toNat < bound ∨ bound' ≤ a.toNat →
      mapping r'.mem new a = mapping r.mem new a)
    (pages : ∀ a, a.toNat % 4096 = 0 → bound ≤ a.toNat → a.toNat < bound' →
      ∃ pa pa' flags, mapping r₀.mem old a = some (pa, flags) ∧
        mapping r'.mem new a = some (pa', flags) ∧ FreshCopy new r₀ r' pa pa' ∧
        (∀ a' flags', a'.toNat % 4096 = 0 → a'.toNat < bound' →
          mapping r'.mem new a' = some (pa', flags') → a' = a)) :
    CopiedTo old new bound' r₀ r' where
  wfNew := wf
  kernelEnd := kernelEnd.trans copied.kernelEnd
  free := free
  tables n t found := by
    rcases tables n t found with before | listed
    · exact copied.tables n t before
    · exact Or.inr (copied.free t listed)
  kept pa used other := by
    rw [elsewhere pa (fun mem => used (copied.free pa mem)) ?_ fun fresh => absurd fresh used,
      copied.kept pa used other]
    intro n found
    rcases copied.tables n pa found with before | listed
    · exact other n before
    · exact used listed
  above a aligned inside above := by
    rw [maps a aligned inside (Or.inr above), copied.above a aligned inside (by omega)]
  absent a aligned below absent := by
    rcases Nat.lt_or_ge a.toNat bound with before | here
    · rw [maps a aligned (by omega) (Or.inl before), copied.absent a aligned before absent]
    · obtain ⟨pa, pa', flags, found, -⟩ := pages a aligned here below
      rw [absent] at found
      cases found
  copied a pa flags aligned below found := by
    rcases Nat.lt_or_ge a.toNat bound with before | here
    · obtain ⟨pa', found', copy⟩ := copied.copied a pa flags aligned before found
      refine ⟨pa', by rw [maps a aligned (by omega) (Or.inl before)]; exact found', copy.fresh,
        unfreed a pa' flags aligned before found' copy.used, fun n present => ?_, ?_⟩
      · rcases tables n pa' present with earlier | listed
        · exact copy.frame n earlier
        · exact copy.used listed
      · rw [elsewhere pa' copy.used copy.frame fun _ => ⟨a, flags, aligned, before, found'⟩,
          copy.contents]
    · obtain ⟨pa₀, pa', flags', original, found', copy, -⟩ := pages a aligned here below
      rw [found] at original
      cases original
      exact ⟨pa', found', copy⟩
  once a a' pa flags flags' aligned aligned' below below' found found' := by
    have new : ∀ {b b' : BitVec 64} {f f' : BitVec 64}, b.toNat % 4096 = 0 → b'.toNat % 4096 = 0 →
        bound ≤ b.toNat → b.toNat < bound' → b'.toNat < bound' →
        mapping r'.mem new b = some (pa, f) → mapping r'.mem new b' = some (pa, f') → b' = b := by
      intro b b' f f' multiple multiple' above inside inside' here here'
      obtain ⟨-, pa', flags, -, copied', -, alone⟩ := pages b multiple above inside
      rw [here] at copied'
      cases copied'
      exact alone b' f' multiple' inside' here'
    rcases Nat.lt_or_ge a.toNat bound with before | here
    · rcases Nat.lt_or_ge a'.toNat bound with before' | here'
      · rw [maps a aligned (by omega) (Or.inl before)] at found
        rw [maps a' aligned' (by omega) (Or.inl before')] at found'
        exact copied.once a a' pa flags flags' aligned aligned' before before' found found'
      · exact new aligned' aligned here' below' below found' found
    · exact (new aligned aligned' here below below' found found').symm

theorem CopiedTo.same (small : bound ≤ MAXVA)
    (maps : ∀ a, a.toNat % 4096 = 0 → a.toNat < MAXVA →
      mapping r'.mem new a = mapping r.mem new a) : CopiedTo old new bound r₀ r' :=
  copied.change wf kernelEnd free tables elsewhere unfreed (Nat.le_refl bound) small
    (fun a aligned inside _ => maps a aligned inside)
    fun _ _ above below => absurd above (Nat.not_le.mpr below)

end Changes

theorem CopiedTo.take (small : bound ≤ MAXVA)
    {rest : List Pa} (free : r.free = pa :: rest) (contents : Frame) :
    CopiedTo old new bound r₀ { r with mem := update r.mem pa contents, free := rest } ∧
      pa ∈ r₀.free ∧ pa ∉ rest ∧ r.frame pa = true ∧
      (∀ n, table (update r.mem pa contents) new n ≠ some pa) ∧
      ∀ a, mapping (update r.mem pa contents) new a = mapping r.mem new a := by
  have listed : pa ∈ r.free := by
    rw [free]
    exact List.mem_cons_self ..
  have subset : ∀ pa' ∈ rest, pa' ∈ r.free := by
    intro pa' member
    rw [free]
    exact List.mem_cons_of_mem _ member
  have nodup := copied.wfNew.freeOk.nodup
  rw [free, List.nodup_cons] at nodup
  have fresh : ∀ n, table r.mem new n ≠ some pa := fun n found =>
    copied.wfNew.apart n pa found listed
  have same : ∀ n t, table r.mem new n = some t → update r.mem pa contents t = r.mem t := by
    intro n t found
    refine update_of_ne ?_ ..
    rintro rfl
    exact fresh n found
  have tables := table_congr fun n t _ => same n t
  refine ⟨?_, copied.free pa listed, nodup.1, copied.wfNew.freeOk.frames pa listed,
    by rw [tables]; exact fresh, mapping_congr same⟩
  have frames := fun pa' member => copied.wfNew.freeOk.frames pa' (subset pa' member)
  refine copied.same (copied.wfNew.of_tables tables (fun n t found member =>
      copied.wfNew.apart n t found (subset t member)) ⟨nodup.2, frames⟩) rfl
    (fun pa' member => copied.free pa' (subset pa' member))
    (fun n t found => Or.inl ((congrFun tables n).symm.trans found)) (fun pa' used _ _ => ?_)
    (fun _ pa' _ _ _ _ used member => used (subset pa' member)) small
    (fun a _ _ => mapping_congr same a)
  refine update_of_ne ?_ ..
  rintro rfl
  exact used listed

theorem CopiedTo.give (small : bound ≤ MAXVA)
    (fresh : pa ∈ r₀.free) (used : pa ∉ r.free) (frame : r.frame pa = true)
    (other : ∀ n, table r.mem new n ≠ some pa)
    (unmapped : ∀ a flags, a.toNat % 4096 = 0 → a.toNat < bound →
      mapping r.mem new a ≠ some (pa, flags)) :
    CopiedTo old new bound r₀ (r.freed pa) := by
  obtain ⟨wf, tables, maps⟩ := copied.wfNew.freed frame used other
  refine copied.same wf rfl ?_ ?_ ?_ ?_ small fun a _ _ => maps a
  · intro pa' mem
    rcases List.mem_cons.mp mem with rfl | listed
    · exact fresh
    · exact copied.free pa' listed
  · intro n t found
    rw [tables] at found
    exact Or.inl found
  · intro pa' _ _ mapped
    refine Ram.freed_of_ne ?_
    rintro rfl
    obtain ⟨a, flags, aligned, below, found⟩ := mapped fresh
    exact unmapped a flags aligned below found
  · intro a pa' flags aligned below found used' mem
    rcases List.mem_cons.mp mem with rfl | listed
    · exact unmapped a flags aligned below found
    · exact used' listed

end

theorem CopiedTo.mapped (ready : CopyReady old new sz r₀)
    (copied : CopiedTo old new (4096 * k) r₀ r) (inside : 4096 * k < sz) {pa' : Pa}
    {perm : BitVec 64} (original : mapping r₀.mem old (pageAt k) = some (pa, perm ||| PTE_V))
    (fresh : pa' ∈ r₀.free) (used : pa' ∉ r.free) (other : ∀ n, table r.mem new n ≠ some pa')
    (contents : r.mem pa' = r₀.mem pa)
    (unmapped : ∀ a flags, a.toNat % 4096 = 0 → a.toNat < 4096 * k →
      mapping r.mem new a ≠ some (pa', flags)) {done : Bool}
    (mapped : Mapped new (pageAt k) pa' perm done r r') :
    CopiedTo old new (if done then 4096 * (k + 1) else 4096 * k) r₀ r' := by
  have limit := Memory.MAXVA_eq
  have small := ready.small
  have address := @toNat_pageAt k (by omega)
  have grown := mapped.grown
  have free : ∀ pa ∈ r'.free, pa ∈ r₀.free := fun pa mem =>
    copied.free pa (grown.free.subset mem)
  have unfreed : ∀ a pa flags, a.toNat % 4096 = 0 → a.toNat < 4096 * k →
      mapping r.mem new a = some (pa, flags) → pa ∉ r.free → pa ∉ r'.free :=
    fun _ _ _ _ _ _ used mem => used (grown.free.subset mem)
  cases done with
  | false =>
    refine copied.same mapped.wellFormed grown.kernelEnd free grown.tables
      (fun pa used other _ => grown.elsewhere pa used other) unfreed (by omega)
      fun a aligned inside => ?_
    rw [mapped.mapping a aligned (lt_sv39 inside), if_neg (fun both => Bool.noConfusion both.2)]
  | true =>
    have maps : ∀ a, a.toNat % 4096 = 0 → a.toNat < MAXVA → a ≠ pageAt k →
        mapping r'.mem new a = mapping r.mem new a := by
      intro a aligned inside apart
      rw [mapped.mapping a aligned (lt_sv39 inside), if_neg (fun both => apart both.1)]
    have here : mapping r'.mem new (pageAt k) = some (pa', perm ||| PTE_V) := by
      have both : pageAt k = pageAt k ∧ true = true := ⟨rfl, rfl⟩
      rw [mapped.mapping (pageAt k) (by omega) (by omega), if_pos both]
    rw [if_pos rfl]
    refine copied.change mapped.wellFormed grown.kernelEnd free grown.tables
      (fun pa used other _ => grown.elsewhere pa used other) unfreed (by omega) (by omega) ?_ ?_
    · intro a aligned inside outside
      refine maps a aligned inside ?_
      rintro rfl
      omega
    · intro a aligned above below
      obtain rfl : a = pageAt k := by
        apply BitVec.eq_of_toNat_eq
        omega
      refine ⟨pa, pa', _, original, here, ⟨fresh, fun mem => used (grown.free.subset mem),
        fun n present => ?_, ?_⟩, fun a' flags' aligned' below' found => ?_⟩
      · rcases grown.tables n pa' present with earlier | listed
        · exact other n earlier
        · exact used listed
      · rw [grown.elsewhere pa' used other, contents]
      · rcases lt_or_eq_pageAt (by omega) aligned' below' with before | same
        · rw [maps a' aligned' (by omega) (by rintro rfl; omega)] at found
          exact absurd found (unmapped a' flags' aligned' before)
        · exact same

/-! ## Failure -/

/-- What a failed copy leaves: the new map is as empty as it was. -/
structure Restored (old new : Pa) (sz : Nat) (r₀ r : Ram) : Prop where
  wfNew : WellFormed r new
  wfOld : WellFormed r old
  tables : ∀ n t, table r.mem new n = some t → table r₀.mem new n = some t ∨ t ∈ r₀.free
  kept : ∀ pa, pa ∉ r₀.free → (∀ n, table r₀.mem new n ≠ some pa) → r.mem pa = r₀.mem pa
  sameOld : ∀ a, mapping r.mem old a = mapping r₀.mem old a
  empty : ∀ a, a.toNat % 4096 = 0 → a.toNat < sz → mapping r.mem new a = none
  above : ∀ a, a.toNat % 4096 = 0 → a.toNat < MAXVA → sz ≤ a.toNat →
    mapping r.mem new a = mapping r₀.mem new a

theorem CopiedTo.giveUp (ready : CopyReady old new sz r₀)
    (copied : CopiedTo old new (4096 * k) r₀ r) (inside : 4096 * k < sz) :
    Leads (uvmunmap new 0#64 (pageAt k / 4096#64) true r)
      (fun _ r' => Restored old new sz r₀ r') fun _ => False := by
  have limit := Memory.MAXVA_eq
  have small := ready.small
  have count : (pageAt k / 4096#64).toNat = k := by
    rw [BitVec.toNat_udiv, toNat_pageAt (by omega)]
    change 4096 * k / 4096 = k
    omega
  obtain ⟨pages, range, leads⟩ := @WellFormed.uvmunmap_leads r new copied.wfNew 0#64
    (pageAt k / 4096#64) true rfl (by rw [count]; change 0 + 4096 * k ≤ MAXVA; omega)
  have members : ∀ a, a ∈ pages ↔ a.toNat % 4096 = 0 ∧ a.toNat < 4096 * k := by
    intro a
    rw [range, InRange, count]
    change a.toNat % 4096 = 0 ∧ 0 ≤ a.toNat ∧ a.toNat < 0 + 4096 * k ↔ _
    omega
  have freeable := copied.freeable ready fun a mem => (members a).mp mem
  refine (leads fun _ => freeable).mono ?_ fun _ => id
  intro _ r' unmapped
  -- Frames that were not free at the start have not been freed now.
  have kept : ∀ pa, pa ∉ r₀.free → (∀ n, table r₀.mem new n ≠ some pa) → r'.mem pa = r₀.mem pa := by
    intro pa used other
    rw [unmapped.elsewhere pa, copied.kept pa used other]
    · intro n found
      rcases copied.tables n pa found with before | listed
      · exact other n before
      · exact used listed
    · intro _ a mem flags found
      obtain ⟨aligned, below⟩ := (members a).mp mem
      obtain ⟨pa₀, copy⟩ := copied.freshCopy aligned below found
      exact used copy.fresh
  have same : ∀ n t, table r₀.mem old n = some t → r'.mem t = r₀.mem t := fun n t found =>
    kept t (ready.wfOld.apart n t found) fun n' => ready.apart n n' t found
  have tables := table_congr fun n t _ => same n t
  have freed : ∀ pa ∈ r'.free, pa ∈ r₀.free := by
    intro pa mem
    rcases (unmapped.free pa).mp mem with before | ⟨-, a, listed, flags, found⟩
    · exact copied.free pa before
    · obtain ⟨aligned, below⟩ := (members a).mp listed
      obtain ⟨pa₀, copy⟩ := copied.freshCopy aligned below found
      exact copy.fresh
  refine ⟨unmapped.wellFormed, ready.wfOld.of_tables tables (fun n t found mem => ?_)
    unmapped.wellFormed.freeOk, ?_, kept, mapping_congr same, ?_, ?_⟩
  · exact ready.wfOld.apart n t found (freed t mem)
  · intro n t found
    rw [unmapped.tables] at found
    exact copied.tables n t found
  · intro a aligned below
    rw [unmapped.mapping a aligned (by omega)]
    split
    · rfl
    · next outside =>
      rw [members] at outside
      rw [copied.above a aligned (by omega) (by omega)]
      exact ready.empty a aligned below
  · intro a aligned below above
    rw [unmapped.mapping a aligned (lt_sv39 below), if_neg]
    · exact copied.above a aligned below (by omega)
    · rw [members]
      omega

/-! ## The loop -/

theorem pteFlags_or_valid {pte : BitVec 64} (bit : valid pte = true) :
    pteFlags pte ||| PTE_V = pteFlags pte := by
  apply BitVec.eq_of_getLsbD_eq
  intro i inside
  by_cases first : i = 0
  · subst first
    unfold valid at bit
    simp [pteFlags, PTE_V, bit]
  · have clear : PTE_V.getLsbD i = false := @getLsbD_of_small PTE_V 1 i (by decide) (by omega)
    rw [BitVec.getLsbD_or, clear, Bool.or_false]

theorem pteFlags_small (pte : BitVec 64) : (pteFlags pte).toNat < 2 ^ 10 := by
  exact Nat.and_lt_two_pow _ (by decide)

theorem CopiedTo.copyPage_leads (ready : CopyReady old new sz r₀)
    (copied : CopiedTo old new (4096 * k) r₀ r) (inside : 4096 * k < sz) {pte : BitVec 64}
    (bit : valid pte = true)
    (original : mapping r₀.mem old (pageAt k) = some (pte2pa pte, pteFlags pte)) :
    Leads (copyPage new (pageAt k) pte r)
      (fun done r' => CopiedTo old new (if done then 4096 * (k + 1) else 4096 * k) r₀ r')
      fun _ => False := by
  have limit := Memory.MAXVA_eq
  have small := ready.small
  have address := @toNat_pageAt k (by omega)
  obtain ⟨used, otherTable⟩ := ready.leaves (pageAt k) _ _ (by omega) (by omega) original
  cases free : r.free with
  | nil =>
    refine Leads.step (show kalloc r = .ok (none, r) by unfold kalloc; rw [free]) ?_
    exact Leads.pure copied
  | cons pa rest =>
    have listed : pa ∈ r.free := by
      rw [free]
      exact List.mem_cons_self ..
    have apart : pte2pa pte ≠ pa := by
      rintro rfl
      exact used (copied.free _ listed)
    refine Leads.step (show kalloc r = .ok (some pa, _) by unfold kalloc; rw [free]) ?_
    refine Leads.step rfl ?_
    dsimp only
    rw [update_of_ne apart, update_idem]
    obtain ⟨taken, fresh, missing, frame, otherTables, maps⟩ :=
      copied.take (by omega) free (r.mem (pte2pa pte))
    have vacant : mapping (update r.mem pa (r.mem (pte2pa pte))) new (pageAt k) =
        none := by
      rw [maps, copied.above _ (by omega) (by omega) (by omega)]
      exact ready.empty _ (by omega) (by omega)
    have unmapped : ∀ a flags, a.toNat % 4096 = 0 → a.toNat < 4096 * k →
        mapping (update r.mem pa (r.mem (pte2pa pte))) new a ≠ some (pa, flags) := by
      intro a flags aligned below mapped
      rw [maps] at mapped
      obtain ⟨pa₀, copy⟩ := copied.freshCopy aligned below mapped
      exact copy.used listed
    have contents : update r.mem pa (r.mem (pte2pa pte)) pa = r₀.mem (pte2pa pte) :=
      (update_self ..).trans (copied.kept _ used otherTable)
    rw [← pteFlags_or_valid bit] at original
    refine Leads.bind (taken.wfNew.mappages_leads (by omega) (by omega)
      (Ram.framed_of_frame frame) (pteFlags_small _) vacant) ?_
    intro done r' mapped
    have copied' := taken.mapped ready inside original fresh missing otherTables contents
      unmapped mapped
    cases done with
    | true => exact Leads.pure copied'
    | false =>
      have grown := mapped.grown
      have frame' : r'.frame pa = true := by
        rw [Ram.frame, grown.kernelEnd]
        exact frame
      refine Leads.step (kfree_eq frame') (Leads.pure ?_)
      refine CopiedTo.give copied' (by rw [if_neg Bool.false_ne_true]; omega) fresh
        (fun mem => missing (grown.free.subset mem)) frame' ?_ ?_
      · intro n present
        rcases grown.tables n pa present with before | listed'
        · exact otherTables n before
        · exact missing listed'
      · intro a flags aligned below found
        rw [if_neg Bool.false_ne_true] at below
        rw [mapped.mapping a aligned (by omega),
          if_neg (fun both => Bool.noConfusion both.2)] at found
        exact unmapped a flags aligned below found

/-- The pages from `k` on, `count` of them. -/
def pagesFrom (k count : Nat) : List (BitVec 64) := (List.range' k count).map pageAt

theorem CopiedTo.loop (ready : CopyReady old new sz r₀) (count : Nat) {k : Nat}
    (copied : CopiedTo old new (4096 * k) r₀ r)
    (inside : ∀ j, j < k + count → 4096 * j < sz) :
    Leads (uvmcopyLoop old new (pagesFrom k count) r)
      (fun done r' => if done then CopiedTo old new (4096 * (k + count)) r₀ r'
        else Restored old new sz r₀ r') fun _ => False := by
  have limit := Memory.MAXVA_eq
  have small := ready.small
  induction count generalizing k r with
  | zero => exact Leads.pure copied
  | succ count ih =>
    have here := inside k (by omega)
    have address := @toNat_pageAt k (by omega)
    obtain ⟨wfOld, -, sameOld⟩ := copied.sameOld ready
    have next : ∀ {r' : Ram}, CopiedTo old new (4096 * (k + 1)) r₀ r' →
        Leads (uvmcopyLoop old new (pagesFrom (k + 1) count) r')
          (fun done r' => if done then CopiedTo old new (4096 * (k + (count + 1))) r₀ r'
            else Restored old new sz r₀ r') fun _ => False := by
      intro r' copied'
      have same : k + 1 + count = k + (count + 1) := by omega
      rw [← same]
      exact ih copied' fun j below => inside j (by omega)
    refine Leads.step (wfOld.walk_eq (by omega)) ?_
    cases found : entry r.mem old (pageAt k) with
    | none =>
      refine next (copied.skip ready here ?_)
      rw [← sameOld, mapping, found]
      rfl
    | some e =>
      obtain ⟨t, i⟩ := e
      refine Leads.step rfl ?_
      cases bit : valid (r.mem t i) with
      | false =>
        exact next (copied.skip ready here ((sameOld _).symm.trans (mapping_of_entry found bit)))
      | true =>
        have original := (sameOld _).symm.trans (mapping_of_entry found bit)
        refine Leads.bind (copied.copyPage_leads ready here bit original) ?_
        intro done r' copied'
        cases done with
        | true => exact next copied'
        | false =>
          refine Leads.bind (CopiedTo.giveUp ready copied' here) ?_
          intro _ r'' restored
          exact Leads.pure restored

theorem CopyReady.uvmcopy_leads {sz : BitVec 64} (ready : CopyReady old new sz.toNat r) :
    Leads (uvmcopy old new sz r) (fun done r' =>
        if done then CopiedTo old new (4096 * ((sz.toNat + 4095) / 4096)) r r'
        else Restored old new sz.toNat r r') fun _ => False := by
  have limit := Memory.MAXVA_eq
  have small := ready.small
  have visited : Memory.strides 0#64 sz = some (pagesFrom 0 ((sz.toNat + 4095) / 4096)) := by
    unfold Memory.strides pagesFrom
    rw [if_pos (by omega), List.range_eq_range']
    simp [pageAt]
  unfold uvmcopy
  rw [visited]
  have leads := @CopiedTo.loop _ _ _ _ r ready ((sz.toNat + 4095) / 4096) 0
    (CopiedTo.start ready) (fun j below => by omega)
  rw [Nat.zero_add] at leads
  exact leads

end Xv6.Frames

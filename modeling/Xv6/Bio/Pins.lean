import Xv6.Bio.Integrity

/-!
# Pinned buffers

A list of blocks is pinned if each has a buffer of its own with one pin, and no other buffer
has any.
-/

namespace Xv6.Bio.State

open Function

variable {T D : Type} {owner : T → Nat} {s s' : State T D} {dev : Nat} {blocks : List Nat}
variable {t : T} {b : BufId}

def asked (s : State T D) (t : T) : Option (Nat × Nat) := (s.stage t).buf.map fun _ => s.wants t

theorem asked_eq_none : s.asked t = none ↔ s.stage t = .idle := by
  unfold asked
  cases s.stage t <;> simp [Stage.buf]

/-- The blocks of a list have a buffer each, which is pinned once, and no other is pinned. -/
structure Pinned (dev : Nat) (blocks : List Nat) (s : State T D) : Prop where
  pins : ∀ b, s.pins b = if (s.buf b).dev = dev ∧ (s.buf b).blockno ∈ blocks then 1 else 0
  cached : ∀ blockno ∈ blocks, ∃ b, (s.buf b).block = (dev, blockno)

theorem Pinned.of_blocks (block : ∀ b, (s'.buf b).block = (s.buf b).block) (pins : ∀ b, s'.pins b =
      if (s.buf b).dev = dev ∧ (s.buf b).blockno ∈ blocks then 1 else 0)
    (cached : ∀ blockno ∈ blocks, ∃ b, (s.buf b).block = (dev, blockno)) :
    Pinned dev blocks s' where
  pins := by
    intro b
    rw [pins, show (s'.buf b).dev = (s.buf b).dev from congrArg Prod.fst (block b),
      show (s'.buf b).blockno = (s.buf b).blockno from congrArg Prod.snd (block b)]
  cached := by
    intro blockno mem
    obtain ⟨b, here⟩ := cached blockno mem
    exact ⟨b, (block b).trans here⟩

theorem Pinned.congr (pinned : Pinned dev blocks s)
    (block : ∀ b, (s'.buf b).block = (s.buf b).block) (pins : s'.pins = s.pins) :
    Pinned dev blocks s' :=
  .of_blocks block (fun b => pins ▸ pinned.pins b) pinned.cached

theorem Pinned.pins_eq_one (pinned : Pinned dev blocks s) {blockno : Nat}
    (here : (s.buf b).block = (dev, blockno)) (mem : blockno ∈ blocks) : s.pins b = 1 := by
  rw [pinned.pins, if_pos]
  refine ⟨congrArg Prod.fst here, ?_⟩
  rwa [show (s.buf b).blockno = blockno from congrArg Prod.snd here]

theorem Pinned.pos_iff (pinned : Pinned dev blocks s) :
    0 < s.pins b ↔ (s.buf b).dev = dev ∧ (s.buf b).blockno ∈ blocks := by
  rw [pinned.pins]
  split <;> simp_all

section Turns

variable [DecidableEq T]

def askedAfter (s : State T D) : Action T D → Option (Nat × Nat)
  | .bget _ dev blockno => some (dev, blockno)
  | .brelse _ => none
  | action => s.asked action.call

theorem asked_update {stage : Stage} {after : Option (Nat × Nat)}
    (stages : s'.stage = update s.stage t stage)
    (wants : ∀ u, u ≠ t → s'.wants u = s.wants u)
    (here : (stage.buf.map fun _ => s'.wants t) = after) :
    s'.asked = update s.asked t after := by
  funext u
  by_cases same : u = t
  · subst same
    rw [update_self, asked, stages, update_self, here]
  · rw [update_of_ne same, asked, stages, update_of_ne same, wants u same, asked]

theorem asked_turn {action : Action T D} (turn : Turn owner s action s') :
    s'.asked = update s.asked action.call (s.askedAfter action) := by
  cases turn with
  | @cached t dev blockno b idle device here | @recycled t dev blockno b idle device missing free =>
    refine asked_update rfl (fun u other => update_of_ne other ..) ?_
    exact congrArg some (update_self ..)
  | @acquiresleep t b waiting unlocked =>
    refine asked_update rfl (fun _ _ => rfl) ?_
    change _ = s.asked t
    rw [asked, waiting]
    rfl
  | @fill t b entered =>
    refine asked_update rfl (fun _ _ => rfl) ?_
    change _ = s.asked t
    rw [asked, entered]
    rfl
  | @releasesleep t b holding =>
    refine asked_update rfl (fun _ _ => rfl) ?_
    change _ = s.asked t
    rw [asked, holding]
    rfl
  | brelse => exact asked_update rfl (fun _ _ => rfl) rfl
  | modify | bwrite | bpin | bunpin => exact (update_eq_self _ _).symm

variable [Fintype T]

theorem Pinned.turn (pinned : Pinned dev blocks s) (counted : Counted s) {action : Action T D}
    (turn : Turn owner s action s') (pin : ∀ t, action ≠ .bpin t)
    (unpin : ∀ t, action ≠ .bunpin t) : Pinned dev blocks s' := by
  cases turn with
  | cached b | acquiresleep | releasesleep =>
    exact pinned.congr (field_setBuf (s := s) Buf.block rfl) rfl
  | @recycled t dev' blockno' b idle device missing free =>
    have new := s.buf_setBuf_self b { s.buf b with
      dev := dev', blockno := blockno', valid := false, refcnt := 1 }
    have old : ∀ {b'}, b' ≠ b → _ := fun other => s.buf_setBuf_of_ne
      { s.buf b with dev := dev', blockno := blockno', valid := false, refcnt := 1 } other
    have unpinned : s.pins b = 0 := by
      have := counted.refcnt b
      omega
    constructor
    · intro b'
      change s.pins b' =
        if ((s.setBuf b _).buf b').dev = dev ∧ ((s.setBuf b _).buf b').blockno ∈ blocks then 1
          else 0
      by_cases same : b' = b
      · subst same
        rw [new, unpinned, if_neg]
        rintro ⟨device', mem⟩
        obtain ⟨b, here⟩ := pinned.cached _ mem
        exact missing b (here.trans (Prod.ext device'.symm rfl))
      · rw [old same, pinned.pins]
    · intro blockno mem
      obtain ⟨b', here⟩ := pinned.cached blockno mem
      have other : b' ≠ b := by
        rintro rfl
        rw [pinned.pins_eq_one here mem] at unpinned
        cases unpinned
      refine ⟨b', ?_⟩
      change ((s.setBuf b _).buf b').block = _
      rw [old other, here]
  | fill =>
    refine pinned.congr (field_setBuf (s := s) Buf.block ?_) rfl
    unfold State.fill
    split <;> rfl
  | modify => exact pinned.congr (field_setBuf Buf.block rfl) rfl
  | bwrite => exact pinned.congr (fun _ => rfl) rfl
  | @brelse t b links releasing relinked =>
    refine pinned.congr (fun b' => ?_) rfl
    rw [relinked]
    refine field_setBuf (s := s) Buf.block ?_ b'
    rfl
  | bpin => exact absurd rfl (pin _)
  | bunpin => exact absurd rfl (unpin _)

theorem Pinned.pin (pinned : Pinned dev blocks s) (counted : Counted s)
    (holding : s.stage t = .holding b) (device : (s.buf b).dev = dev)
    (fresh : (s.buf b).blockno ∉ blocks) (turn : Turn owner s (.bpin t) s') :
    Pinned dev (blocks ++ [(s.buf b).blockno]) s' := by
  cases turn with
  | @bpin _ b' holding' =>
  obtain rfl : b = b' := Stage.holding.inj (holding.symm.trans holding')
  have own : (s.buf b).dev ≠ 0 := (counted.wanted t b (by rw [holding]; rfl)).2
  refine .of_blocks (field_setBuf (s := s) Buf.block rfl) ?_ ?_
  · intro b'
    dsimp only
    by_cases same : b' = b
    · subst same
      rw [update_self, pinned.pins, if_neg (fun both => fresh both.2), if_pos ⟨device, by simp⟩]
    · have apart : (s.buf b').dev = dev → (s.buf b').blockno ≠ (s.buf b).blockno := by
        intro device' equal
        exact same (counted.unique b b' own (Prod.ext (device'.trans device.symm) equal))
      rw [update_of_ne same, pinned.pins]
      refine if_congr (and_congr_right fun device' => ?_) rfl rfl
      simp [apart device']
  · intro blockno mem
    obtain mem | last := List.mem_append.mp mem
    · exact pinned.cached blockno mem
    · exact ⟨b, Prod.ext device (List.mem_singleton.mp last).symm⟩

theorem Pinned.unpin {blockno : Nat} (pinned : Pinned dev (blockno :: blocks) s)
    (distinct : (blockno :: blocks).Nodup) (counted : Counted s)
    (asked : s.asked t = some (dev, blockno)) (turn : Turn owner s (.bunpin t) s') :
    Pinned dev blocks s' := by
  cases turn with
  | @bunpin _ b holding pos =>
  obtain ⟨wanted, own⟩ := counted.wanted t b (by rw [holding]; rfl)
  have here : (s.buf b).block = (dev, blockno) := by
    rw [State.asked, holding] at asked
    exact wanted.trans (Option.some.inj asked)
  have fresh : blockno ∉ blocks := (List.nodup_cons.mp distinct).1
  refine .of_blocks (field_setBuf (s := s) Buf.block rfl) ?_ ?_
  · intro b'
    dsimp only
    by_cases same : b' = b
    · subst same
      have number : (s.buf b').blockno = blockno := congrArg Prod.snd here
      rw [update_self, pinned.pins_eq_one here List.mem_cons_self, number,
        if_neg fun both => fresh both.2]
    · have apart : (s.buf b').dev = dev → (s.buf b').blockno ≠ blockno := by
        intro device' equal
        exact same (counted.unique b b' own ((Prod.ext device' equal).trans here.symm))
      rw [update_of_ne same, pinned.pins]
      refine if_congr (and_congr_right fun device' => ?_) rfl rfl
      simp [apart device']
  · intro blockno' mem
    exact pinned.cached blockno' (List.mem_cons_of_mem _ mem)

end Turns

variable [Fintype T]

/-- The number of buffers in use by calls that are not pinned as well. -/
def taken (s : State T D) : Nat := (Finset.univ.filter fun b => s.pins b = 0 ∧ 0 < s.uses b).card

omit [Fintype T] in
theorem Pinned.card (pinned : Pinned dev blocks s) (device : dev ≠ 0) (distinct : blocks.Nodup)
    (unique : ∀ b b', (s.buf b).dev ≠ 0 → (s.buf b').block = (s.buf b).block → b' = b) :
    (Finset.univ.filter fun b => 0 < s.pins b).card = blocks.length := by
  have image : (Finset.univ.filter fun b => 0 < s.pins b).image (fun b => (s.buf b).blockno) =
      blocks.toFinset := by
    ext blockno
    simp only [Finset.mem_image, Finset.mem_filter, Finset.mem_univ, true_and, List.mem_toFinset]
    constructor
    · rintro ⟨b, pos, rfl⟩
      exact (pinned.pos_iff.mp pos).2
    · intro mem
      obtain ⟨b, here⟩ := pinned.cached blockno mem
      refine ⟨b, ?_, congrArg Prod.snd here⟩
      rw [pinned.pins_eq_one here mem]
      exact Nat.one_pos
  have injective : Set.InjOn (fun b => (s.buf b).blockno)
      (Finset.univ.filter fun b => 0 < s.pins b : Finset BufId) := by
    intro b mem b' mem' equal
    have first := pinned.pos_iff.mp (Finset.mem_filter.mp mem).2
    have second := pinned.pos_iff.mp (Finset.mem_filter.mp mem').2
    refine unique b' b ?_ (Prod.ext (first.1.trans second.1.symm) equal)
    rw [second.1]
    exact device
  rw [← Finset.card_image_of_injOn injective, image, List.toFinset_card_of_nodup distinct]

theorem Pinned.busy_iff (pinned : Pinned dev blocks s) (device : dev ≠ 0)
    (distinct : blocks.Nodup) (counted : Counted s) :
    (∀ b, (s.buf b).refcnt ≠ 0) ↔ NBUF ≤ blocks.length + s.taken := by
  have busy : ∀ b, (s.buf b).refcnt ≠ 0 ↔ 0 < s.pins b ∨ (s.pins b = 0 ∧ 0 < s.uses b) := by
    intro b
    have := counted.refcnt b
    omega
  have apart : Disjoint (Finset.univ.filter fun b => 0 < s.pins b)
      (Finset.univ.filter fun b => s.pins b = 0 ∧ 0 < s.uses b) := by
    rw [Finset.disjoint_filter]
    intro b _ pos both
    omega
  have sum := Finset.card_union_of_disjoint apart
  rw [← Finset.filter_or, pinned.card device distinct counted.unique] at sum
  change _ = blocks.length + s.taken at sum
  rw [← sum]
  simp only [← busy]
  constructor
  · intro all
    rw [Finset.filter_true_of_mem fun b _ => all b, Finset.card_univ, Fintype.card_fin]
  · intro full b
    have all := Finset.eq_univ_of_card _ (le_antisymm (Finset.card_le_univ _)
      ((Fintype.card_fin NBUF).le.trans full))
    have here : b ∈ Finset.univ.filter fun b => (s.buf b).refcnt ≠ 0 := by
      rw [all]
      exact Finset.mem_univ b
    exact (Finset.mem_filter.mp here).2

end Xv6.Bio.State

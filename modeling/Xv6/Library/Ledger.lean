import Mathlib.Tactic

/-!
# Exact ownership

A unit is in use precisely when it is reserved or some slot holds it, and no unit is held by
two slots or held while it is reserved.
-/

namespace Xv6.Ledger

open Function

variable {Slot Item : Type*} {used : Item → Bool} {reserved : Item → Prop}
  {holds : Slot → Option Item}
variable {u : Item} {s : Slot}

structure Exact (used : Item → Bool) (reserved : Item → Prop) (holds : Slot → Option Item) :
    Prop where
  exclusive : ∀ s t u, holds s = some u → holds t = some u → s = t
  unreserved : ∀ s u, holds s = some u → ¬reserved u
  used_iff : ∀ u, used u = true ↔ reserved u ∨ ∃ s, holds s = some u

namespace Exact

theorem used_of_holds (exact : Exact used reserved holds)
    (held : holds s = some u) : used u = true :=
  (exact.used_iff u).mpr (Or.inr ⟨s, held⟩)

theorem not_holds (exact : Exact used reserved holds) (unused : used u = false)
    (s : Slot) : holds s ≠ some u := by
  intro held
  rw [exact.used_of_holds held] at unused
  cases unused

variable [DecidableEq Slot] [DecidableEq Item]

theorem take (exact : Exact used reserved holds) (unused : used u = false)
    (vacant : holds s = none) :
    Exact (update used u true) reserved (update holds s (some u)) where
  exclusive := by
    intro t t' w first second
    by_cases here : t = s
    · by_cases here' : t' = s
      · rw [here, here']
      · subst here
        rw [update_self, Option.some.injEq] at first
        rw [update_of_ne here', ← first] at second
        exact absurd second (exact.not_holds unused t')
    · rw [update_of_ne here] at first
      by_cases here' : t' = s
      · subst here'
        rw [update_self, Option.some.injEq] at second
        exact absurd (second ▸ first) (exact.not_holds unused t)
      · rw [update_of_ne here'] at second
        exact exact.exclusive t t' w first second
  unreserved := by
    intro t w held
    by_cases here : t = s
    · subst here
      rw [update_self, Option.some.injEq] at held
      subst held
      intro reserve
      rw [(exact.used_iff u).mpr (Or.inl reserve)] at unused
      cases unused
    · rw [update_of_ne here] at held
      exact exact.unreserved t w held
  used_iff := by
    intro w
    by_cases same : w = u
    · subst same
      rw [update_self]
      exact ⟨fun _ => Or.inr ⟨s, update_self ..⟩, fun _ => rfl⟩
    · rw [update_of_ne same, exact.used_iff]
      apply or_congr_right
      constructor
      · rintro ⟨t, held⟩
        have other : t ≠ s := by
          rintro rfl
          rw [vacant] at held
          cases held
        exact ⟨t, by rwa [update_of_ne other]⟩
      · rintro ⟨t, held⟩
        by_cases here : t = s
        · subst here
          rw [update_self, Option.some.injEq] at held
          exact absurd held.symm same
        · exact ⟨t, by rwa [update_of_ne here] at held⟩

theorem drop (exact : Exact used reserved holds) (held : holds s = some u) :
    Exact (update used u false) reserved (update holds s none) := by
  have kept : ∀ t w, update holds s none t = some w → t ≠ s ∧ holds t = some w := by
    intro t w holding
    by_cases here : t = s
    · subst here
      rw [update_self] at holding
      cases holding
    · rw [update_of_ne here] at holding
      exact ⟨here, holding⟩
  refine ⟨?_, ?_, ?_⟩
  · intro t t' w first second
    exact exact.exclusive t t' w (kept t w first).2 (kept t' w second).2
  · intro t w holding
    exact exact.unreserved t w (kept t w holding).2
  · intro w
    by_cases same : w = u
    · subst same
      rw [update_self]
      refine ⟨fun absurdly => (by cases absurdly), ?_⟩
      rintro (reserve | ⟨t, holding⟩)
      · exact absurd reserve (exact.unreserved s w held)
      · obtain ⟨other, holding⟩ := kept t w holding
        exact absurd (exact.exclusive t s w holding held) other
    · rw [update_of_ne same, exact.used_iff]
      apply or_congr_right
      constructor
      · rintro ⟨t, holding⟩
        have other : t ≠ s := by
          rintro rfl
          rw [held, Option.some.injEq] at holding
          exact same holding.symm
        exact ⟨t, by rwa [update_of_ne other]⟩
      · rintro ⟨t, holding⟩
        exact ⟨t, (kept t w holding).2⟩

end Exact

end Xv6.Ledger

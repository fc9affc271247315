import Mathlib.Tactic

/-!
# Reference counts

Slots hold items, and an item is worth the number of slots that hold it.
-/

namespace Xv6.RefCount

open Function

variable {Slot Item β M : Type*} [DecidableEq Slot]

theorem sum_change [AddCommMonoid M] {all : Finset Slot} {s : Slot} {f g : Slot → M}
    (inside : s ∈ all) (same : ∀ t, t ≠ s → f t = g t) :
    ∑ t ∈ all, f t + g s = ∑ t ∈ all, g t + f s := by
  rw [← Finset.add_sum_erase all f inside, ← Finset.add_sum_erase all g inside,
    Finset.sum_congr rfl fun t mem => same t (Finset.ne_of_mem_erase mem)]
  ac_rfl

theorem sum_update_mem (worth : Slot → β → Nat) (f : Slot → β) {all : Finset Slot} {s : Slot}
    (inside : s ∈ all) (v : β) : ∑ t ∈ all, worth t (update f s v t) + worth s (f s) =
      ∑ t ∈ all, worth t (f t) + worth s v := by
  rw [sum_change (g := fun t => worth t (f t)) inside fun t other => by rw [update_of_ne other],
    update_self]

variable [Fintype Slot]

theorem sum_update (worth : β → Nat) (f : Slot → β) (s : Slot) (v : β) :
    (∑ t, worth (update f s v t)) + worth (f s) = (∑ t, worth (f t)) + worth v :=
  sum_update_mem (fun _ => worth) f (Finset.mem_univ s) v

theorem card_update (test : β → Prop) [DecidablePred test] (f : Slot → β) (s : Slot) (v : β) :
    (Finset.univ.filter fun t => test (update f s v t)).card +
        (if test (f s) then 1 else 0) =
      (Finset.univ.filter fun t => test (f t)).card + if test v then 1 else 0 := by
  rw [Finset.card_filter, Finset.card_filter]
  exact sum_update (fun b => if test b then 1 else 0) f s v

variable [DecidableEq Item]

omit [DecidableEq Slot] in
/-- The number of slots that hold an item. -/
def count (holds : Slot → Option Item) (i : Item) : Nat :=
  (Finset.univ.filter fun s => holds s = some i).card

theorem count_update (holds : Slot → Option Item) (s : Slot) (v : Option Item) (i : Item) :
    count (update holds s v) i + (if holds s = some i then 1 else 0) =
      count holds i + if v = some i then 1 else 0 :=
  card_update (fun held => held = some i) holds s v

end Xv6.RefCount

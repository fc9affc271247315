import Mathlib.Tactic

/-!
# Outcomes of computations with state and errors

A computation in `StateT σ (Except ε)` leads to a value and a state or to an error.
-/

namespace Xv6.Outcome

variable {σ ε α β : Type} {s : σ} {a : α} {e : ε} {final : β → σ → Prop} {y : Except ε α}

/-- The run ends well in a way that `post` allows, or in an error that `err` allows. -/
def Leads (result : Except ε (α × σ)) (post : α → σ → Prop) (err : ε → Prop) : Prop :=
  match result with
  | .ok (a, s) => post a s
  | .error e => err e

namespace Leads

variable {result : Except ε (α × σ)} {post post' : α → σ → Prop} {err err' : ε → Prop}

theorem ok (done : post a s) : Leads (.ok (a, s)) post err := done

theorem error (failed : err e) : Leads (.error e) post err := failed

theorem pure (done : post a s) : Leads ((Pure.pure a : StateT σ (Except ε) α) s) post err := done

section

variable {x : StateT σ (Except ε) α} {f : α → StateT σ (Except ε) β}

theorem bind (first : Leads (x s) post err)
    (second : ∀ a s', post a s' → Leads (f a s') final err) :
    Leads ((x >>= f) s) final err := by
  change Leads ((x s).bind fun r => f r.1 r.2) final err
  rcases outcome : x s with e | ⟨a, s'⟩
  · rw [outcome] at first
    exact first
  · rw [outcome] at first
    exact second a s' first

theorem step {s' : σ} (ran : x s = .ok (a, s')) (next : Leads (f a s') final err) :
    Leads ((x >>= f) s) final err := by
  change Leads ((x s).bind fun r => f r.1 r.2) final err
  rw [ran]
  exact next

end

theorem read {f : σ → StateT σ (Except ε) β}
    (next : Leads (f s s) final err) : Leads ((get >>= f) s) final err := next

theorem mono (leads : Leads result post err) (weaker : ∀ a s, post a s → post' a s)
    (weaker' : ∀ e, err e → err' e) : Leads result post' err' := by
  rcases result with e | ⟨a, s⟩
  · exact weaker' e leads
  · exact weaker a s leads

theorem of_ok (leads : Leads result post err) (ended : result = .ok (a, s)) : post a s := by
  rw [ended] at leads
  exact leads

theorem of_error (leads : Leads result post err) (ended : result = .error e) : err e := by
  rw [ended] at leads
  exact leads

theorem ends (leads : Leads result post fun _ => False) :
    ∃ a s, result = .ok (a, s) ∧ post a s := by
  rcases result with e | ⟨a, s⟩
  · exact absurd leads id
  · exact ⟨a, s, rfl, leads⟩

end Leads

/-! ## Computations that return at least as often -/

/-- Whatever the first computation returns, the second returns it too. -/
def Below (x y : Except ε α) : Prop := ∀ a, x = .ok a → y = .ok a

namespace Below

theorem refl (x : Except ε α) : Below x x := fun _ returns => returns

theorem error : Below (.error e) y := nofun

theorem bind {x : Except ε α} {f g : α → Except ε β} (first : Below x y)
    (second : ∀ a, Below (f a) (g a)) : Below (x >>= f) (y >>= g) := by
  cases x with
  | error e => exact error
  | ok a =>
    rw [first a rfl]
    exact second a

theorem ite {p : Prop} [Decidable p] {x x' y' : Except ε α} (yes : Below x x')
    (no : Below y y') : Below (if p then x else y) (if p then x' else y') := by
  split
  · exact yes
  · exact no

end Below

end Xv6.Outcome

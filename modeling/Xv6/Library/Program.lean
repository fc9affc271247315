import Mathlib.Tactic

/-!
# Interleaved programs

A program is a tree of operations on a shared state. A contract says what an operation needs
of, and does to, the resources of its thread. If the operations keep an invariant that ties the
resources of all threads to the shared state, then every thread meets the weakest precondition
of the rest of its program at every moment.
-/

namespace Xv6.Program

open Function

variable {Op : Type} {Reply : Op → Type} {α β : Type}

inductive Prog (Op : Type) (Reply : Op → Type) (α : Type) where
  | done (a : α)
  | act (op : Op) (next : Reply op → Prog Op Reply α)

namespace Prog

protected def bind : Prog Op Reply α → (α → Prog Op Reply β) → Prog Op Reply β
  | .done a, f => f a
  | .act op next, f => .act op fun reply => (next reply).bind f

instance : Monad (Prog Op Reply) where
  pure := .done
  bind := Prog.bind

end Prog

def act (op : Op) : Prog Op Reply (Reply op) := .act op .done

/-! ## Weakest preconditions -/

/-- What an operation needs of the resources of its thread, and what becomes of them. -/
structure Contract (Op : Type) (Reply : Op → Type) (L : Type) where
  pre : L → Op → Prop
  post : L → (op : Op) → Reply op → L → Prop

namespace Contract

variable {L : Type} (C : Contract Op Reply L)

def wp : Prog Op Reply α → (α → L → Prop) → L → Prop
  | .done a, Q, l => Q a l
  | .act op next, Q, l => C.pre l op ∧ ∀ reply l', C.post l op reply l' → wp (next reply) Q l'

variable {C} {Q Q' : α → L → Prop} {l : L}

theorem wp_act {op : Op} {Q : Reply op → L → Prop} (pre : C.pre l op)
    (post : ∀ reply l', C.post l op reply l' → Q reply l') : C.wp (act op) Q l :=
  ⟨pre, post⟩

theorem wp_pure {a : α} (holds : Q a l) : C.wp (pure a : Prog Op Reply α) Q l := holds

variable {x : Prog Op Reply α}

theorem wp_bind {f : α → Prog Op Reply β} {Q : β → L → Prop}
    (first : C.wp x (fun a => C.wp (f a) Q) l) : C.wp (x >>= f) Q l := by
  induction x generalizing l with
  | done a => exact first
  | act op next ih =>
    obtain ⟨pre, post⟩ := first
    exact ⟨pre, fun reply l' step => ih reply (post reply l' step)⟩

theorem wp_mono (first : C.wp x Q l) (weaker : ∀ a l, Q a l → Q' a l) : C.wp x Q' l := by
  induction x generalizing l with
  | done a => exact weaker a l first
  | act op next ih =>
    obtain ⟨pre, post⟩ := first
    exact ⟨pre, fun reply l' step => ih reply (post reply l' step)⟩

theorem wp_then {f : α → Prog Op Reply β} {Q' : β → L → Prop}
    (first : C.wp x Q l) (rest : ∀ a l, Q a l → C.wp (f a) Q' l) : C.wp (x >>= f) Q' l :=
  wp_bind (wp_mono first rest)

theorem wp_forM {body : β → Prog Op Reply PUnit} {J : List β → L → Prop}
    (round : ∀ x rest l, J (x :: rest) l → C.wp (body x) (fun _ => J rest) l)
    {list : List β} (start : J list l) : C.wp (list.forM body) (fun _ => J []) l := by
  induction list generalizing l with
  | nil => exact start
  | cons x rest ih =>
    exact wp_then (round x rest l start) fun _ l' kept => ih kept

end Contract

/-! ## Threads -/

/-- The shared state, and the rest of the program of each thread that runs one. -/
structure Config (Op : Type) (Reply : Op → Type) (S P α : Type) where
  shared : S
  thread : P → Option (Prog Op Reply α)

section Threads

variable {S P L : Type} [DecidableEq P]

/-- One operation of one thread, or a thread that starts or ends a program. -/
inductive Step (exec : S → P → (op : Op) → Reply op → Option S)
    (may : S → P → Prog Op Reply α → Prop) :
    Config Op Reply S P α → Config Op Reply S P α → Prop
  | act {c : Config Op Reply S P α} (p : P) {op : Op} {next : Reply op → Prog Op Reply α}
      (reply : Reply op) {s' : S} (here : c.thread p = some (.act op next))
      (done : exec c.shared p op reply = some s') :
      Step exec may c ⟨s', update c.thread p (some (next reply))⟩
  | leave {c : Config Op Reply S P α} (p : P) {a : α} (here : c.thread p = some (.done a)) :
      Step exec may c ⟨c.shared, update c.thread p none⟩
  | enter {c : Config Op Reply S P α} (p : P) {prog : Prog Op Reply α}
      (here : c.thread p = none) (allowed : may c.shared p prog) :
      Step exec may c ⟨c.shared, update c.thread p (some prog)⟩

inductive Reachable (exec : S → P → (op : Op) → Reply op → Option S)
    (may : S → P → Prog Op Reply α → Prop) (start : S) : Config Op Reply S P α → Prop
  | start : Reachable exec may start ⟨start, fun _ => none⟩
  | step {c c' : Config Op Reply S P α} (reached : Reachable exec may start c)
      (step : Step exec may c c') : Reachable exec may start c'

/-- The operations keep an invariant of the shared state and the resources of all threads.
An operation may change the resources of another thread only if that one can do nothing
with them, and then leaves them at rest. -/
structure Sound (exec : S → P → (op : Op) → Reply op → Option S)
    (may : S → P → Prog Op Reply α → Prop) (C : Contract Op Reply L)
    (invariant : S → (P → L) → Prop) (rest : L → Prop) : Prop where
  keeps : ∀ {s g p op reply s'}, invariant s g → C.pre (g p) op → exec s p op reply = some s' →
    ∃ g', C.post (g p) op reply (g' p) ∧ invariant s' g' ∧
      ∀ q, q ≠ p → g' q = g q ∨ (∀ op, ¬C.pre (g q) op) ∧ rest (g' q)
  enters : ∀ {s g p prog}, invariant s g → may s p prog → rest (g p) →
    C.wp prog (fun _ => rest) (g p)

/-- The resources of a thread are those that the rest of its program needs. -/
def Meets (C : Contract Op Reply L) (rest : L → Prop) (l : L) : Option (Prog Op Reply α) → Prop
  | none => rest l
  | some prog => C.wp prog (fun _ => rest) l

variable {exec : S → P → (op : Op) → Reply op → Option S} {may : S → P → Prog Op Reply α → Prop}
  {C : Contract Op Reply L} {invariant : S → (P → L) → Prop} {rest : L → Prop}

omit [DecidableEq P] in
theorem Meets.replace {l l' : L} {thread : Option (Prog Op Reply α)}
    (meets : Meets C rest l thread) (stuck : ∀ op, ¬C.pre l op) (rested : rest l') :
    Meets C rest l' thread := by
  match thread, meets with
  | none, _ => exact rested
  | some (.done a), _ => exact rested
  | some (.act op next), meets => exact absurd meets.1 (stuck op)

theorem Sound.step (sound : Sound exec may C invariant rest) {c c' : Config Op Reply S P α}
    {g : P → L} (holds : invariant c.shared g) (meets : ∀ p, Meets C rest (g p) (c.thread p))
    (step : Step exec may c c') :
    ∃ g', invariant c'.shared g' ∧ ∀ p, Meets C rest (g' p) (c'.thread p) := by
  cases step with
  | @act p op next reply s' here done =>
    have own := meets p
    rw [here] at own
    obtain ⟨pre, post⟩ := own
    obtain ⟨g', effect, holds', others⟩ := sound.keeps holds pre done
    refine ⟨g', holds', fun q => ?_⟩
    dsimp only
    by_cases same : q = p
    · subst same
      rw [update_self]
      exact post reply _ effect
    · rw [update_of_ne same]
      obtain kept | ⟨stuck, rested⟩ := others q same
      · rw [kept]
        exact meets q
      · exact (meets q).replace stuck rested
  | @leave p a here =>
    refine ⟨g, holds, fun q => ?_⟩
    have own := meets q
    dsimp only
    by_cases same : q = p
    · subst same
      rw [here] at own
      rw [update_self]
      exact own
    · rw [update_of_ne same]
      exact own
  | @enter p prog here allowed =>
    refine ⟨g, holds, fun q => ?_⟩
    have own := meets q
    dsimp only
    by_cases same : q = p
    · subst same
      rw [here] at own
      rw [update_self]
      exact sound.enters holds allowed own
    · rw [update_of_ne same]
      exact own

theorem Sound.reachable (sound : Sound exec may C invariant rest) {start : S} {g : P → L}
    (holds : invariant start g) (rested : ∀ p, rest (g p)) {c : Config Op Reply S P α}
    (reached : Reachable exec may start c) :
    ∃ g, invariant c.shared g ∧ ∀ p, Meets C rest (g p) (c.thread p) := by
  induction reached with
  | start => exact ⟨g, holds, rested⟩
  | step _ step ih =>
    obtain ⟨g, holds, meets⟩ := ih
    exact sound.step holds meets step

end Threads

end Xv6.Program

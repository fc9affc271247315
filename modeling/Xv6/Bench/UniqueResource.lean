import Mathlib.Tactic

/-!
# Owners of resources

`UniqueResource` of `kernel/unique_page.hpp`, and what programs do with such objects: they
construct them in the innermost scope, move from, read and release objects in scope, and leave
a scope at any point. What `AcquireFn` returns is an input; a resource that was handed out by
`release` may come to an end elsewhere.
-/

namespace Xv6.Bench

variable {R : Type} [DecidableEq R]

/-- A resource acquired, given to `FreeFn`, handed out by `release`, or disposed of by
whoever it was handed to. -/
inductive OwnerEvent (R : Type)
  | acquired (r : R)
  | freed (r : R)
  | released (r : R)
  | disposed (r : R)
  deriving DecidableEq

/-- `ptr_` of the objects, which are numbered in the order of construction, and the objects
of the scopes, the innermost scope and the last object first. -/
structure Owners (R : Type) where
  ptr : Nat → Option R := fun _ => none
  scopes : List (List Nat) := []
  next : Nat := 0
  log : List (OwnerEvent R) := []

inductive OwnerOp (R : Type)
  | construct
  | acquire (result : Option R)
  | move (other : Nat)
  | get (x : Nat)
  | release (x : Nat)
  | enter
  | destroy
  | leave
  | dispose (r : R)

inductive Life
  | idle
  | owned
  | out
  deriving DecidableEq

/-- The next place, unless the event is one that must not happen. -/
def OwnerEvent.advance : OwnerEvent R → Life → Option Life
  | .acquired _, .idle => some .owned
  | .freed _, .owned => some .idle
  | .released _, .owned => some .out
  | .disposed _, .out => some .idle
  | _, _ => none

def OwnerEvent.resource : OwnerEvent R → R
  | .acquired r | .freed r | .released r | .disposed r => r

/-- Where a resource is after the events of a log, the latest first. -/
def life (r : R) : List (OwnerEvent R) → Option Life
  | [] => some .idle
  | event :: earlier =>
    if event.resource = r then (life r earlier).bind event.advance else life r earlier

theorem life_cons {r : R} {log : List (OwnerEvent R)} {before after : Life}
    (here : life r log = some before) {event : OwnerEvent R} (about : event.resource = r)
    (moves : event.advance before = some after) (q : R) :
    life q (event :: log) = if q = r then some after else life q log := by
  rw [life, about]
  by_cases same : q = r
  · rw [if_pos same.symm, if_pos same, same, here]
    exact moves
  · rw [if_neg (Ne.symm same), if_neg same]

namespace Owners

/-- A new object in the innermost scope. -/
def add (s : Owners R) (p : Option R) : Option (Owners R) :=
  match s.scopes with
  | [] => none
  | scope :: outer => some
    { s with
      ptr := Function.update s.ptr s.next p
      scopes := (s.next :: scope) :: outer
      next := s.next + 1 }

def destruct (s : Owners R) (x : Nat) : Owners R :=
  match s.ptr x with
  | none => s
  | some r => { s with log := .freed r :: s.log }

/-- One operation, or `none` if it is not well scoped or not one of this environment. -/
def step (s : Owners R) : OwnerOp R → Option (Owners R)
  | .construct => s.add none
  | .acquire none => s.add none
  | .acquire (some r) =>
    if life r s.log = some .idle then
      { s with log := .acquired r :: s.log }.add (some r)
    else none
  | .move other =>
    if other ∈ s.scopes.flatten then
      { s with ptr := Function.update s.ptr other none }.add (s.ptr other)
    else none
  | .get x => if x ∈ s.scopes.flatten then some s else none
  | .release x =>
    if x ∈ s.scopes.flatten then some
      { s with
        ptr := Function.update s.ptr x none
        log := ((s.ptr x).map OwnerEvent.released).toList ++ s.log }
    else none
  | .enter => some { s with scopes := [] :: s.scopes }
  | .destroy =>
    match s.scopes with
    | (x :: scope) :: outer => some { s.destruct x with scopes := scope :: outer }
    | _ => none
  | .leave =>
    match s.scopes with
    | [] :: outer => some { s with scopes := outer }
    | _ => none
  | .dispose r =>
    if life r s.log = some .out then some { s with log := .disposed r :: s.log } else none

def run (s : Owners R) (ops : List (OwnerOp R)) : Option (Owners R) := ops.foldlM step s

def Holds (s : Owners R) (x : Nat) (r : R) : Prop := x ∈ s.scopes.flatten ∧ s.ptr x = some r

end Owners

/-! ## One holder for each owned resource -/

/-- The resources that the log has as owned are those with a holder, which is the only one,
and the log has no forbidden event. -/
structure Sole (holds : Nat → R → Prop) (log : List (OwnerEvent R)) : Prop where
  once : ∀ x y r, holds x r → holds y r → x = y
  owned : ∀ r, life r log = some .owned ↔ ∃ x, holds x r
  legal : ∀ r, life r log ≠ none

namespace Sole

variable {holds holds' : Nat → R → Prop} {log : List (OwnerEvent R)} {r : R} {x : Nat}

section

variable (sole : Sole holds log)
include sole

theorem congr (same : ∀ y q, holds' y q ↔ holds y q) : Sole holds' log := by
  obtain rfl : holds' = holds := by
    funext y q
    exact propext (same y q)
  exact sole

/-- The object `x` acquires an idle resource. -/
theorem take (idle : life r log = some .idle)
    (new : ∀ y q, holds' y q ↔ holds y q ∨ y = x ∧ q = r) :
    Sole holds' (.acquired r :: log) := by
  have unheld : ∀ y, ¬holds y r := by
    rw [← not_exists, ← sole.owned, idle]
    exact nofun
  have now := @life_cons _ _ r log _ _ idle (.acquired r) rfl rfl
  have alone := sole.once
  refine ⟨by grind, fun q => ?_, fun q => ?_⟩
  · rw [now]
    split
    · next same => exact ⟨fun _ => ⟨x, (new x q).mpr (Or.inr ⟨rfl, same⟩)⟩, fun _ => rfl⟩
    · next other => simp only [sole.owned, new, other, and_false, or_false]
  · rw [now]
    split
    · exact nofun
    · exact sole.legal q

/-- The holder of a resource gives it up. -/
theorem drop (held : holds x r) (only : ∀ q, holds x q → q = r)
    {event : OwnerEvent R} {after : Life} (about : event.resource = r)
    (moves : event.advance .owned = some after) (other : after ≠ .owned)
    (new : ∀ y q, holds' y q ↔ holds y q ∧ y ≠ x) :
    Sole holds' (event :: log) := by
  have now := life_cons ((sole.owned r).mpr ⟨x, held⟩) about moves
  have alone := sole.once
  refine ⟨by grind, fun q => ?_, fun q => ?_⟩
  · rw [now]
    split
    · grind
    · rw [sole.owned]
      grind
  · rw [now]
    split
    · exact nofun
    · exact sole.legal q

/-- The resource of `x`, if it has one, goes to the new object `n`. -/
theorem move {n : Nat}
    (new : ∀ y q, holds' y q ↔ holds y q ∧ y ≠ x ∨ y = n ∧ holds x q) : Sole holds' log := by
  have alone := sole.once
  refine ⟨?_, fun q => ?_, sole.legal⟩
  · grind
  · rw [sole.owned]
    constructor
    · rintro ⟨y, held⟩
      by_cases same : y = x
      · exact ⟨n, by grind⟩
      · exact ⟨y, by grind⟩
    · rintro ⟨y, held⟩
      grind

end

end Sole

namespace Owners

variable {s s' : Owners R}

structure Linear (s : Owners R) : Prop where
  order : s.scopes.flatten.Pairwise (· > ·)
  below : ∀ x ∈ s.scopes.flatten, x < s.next
  sole : Sole s.Holds s.log

/-- A new object is the last one of the innermost scope. -/
theorem Linear.add {s₁ : Owners R} {p : Option R} (linear : s.Linear)
    (ok : s₁.add p = some s') (scopes : s₁.scopes = s.scopes) (next : s₁.next = s.next)
    (sole : Sole (fun y q => y ∈ s.scopes.flatten ∧ s₁.ptr y = some q ∨ y = s.next ∧ p = some q)
      s₁.log) : s'.Linear := by
  have below := linear.below
  have order := linear.order
  unfold Owners.add at ok
  rw [← scopes] at below order sole
  split at ok
  · cases ok
  · next scope outer shape =>
    cases ok
    rw [shape, List.flatten_cons] at below order sole
    refine ⟨?_, ?_, sole.congr fun y q => ?_⟩
    · simp only [List.flatten_cons, List.cons_append, List.pairwise_cons]
      exact ⟨fun x mem => by rw [next]; exact below x mem, order⟩
    · simp only [List.flatten_cons, List.cons_append, List.mem_cons, next]
      rintro x (rfl | mem)
      · exact Nat.lt_succ_self _
      · exact (below x mem).trans (Nat.lt_succ_self _)
    · simp only [Holds, List.flatten_cons, List.cons_append, List.mem_cons, next]
      grind

theorem Linear.step (linear : s.Linear) {op : OwnerOp R} (ok : s.step op = some s') :
    s'.Linear := by
  obtain ⟨order, below, sole⟩ := linear
  cases op with
  | construct => exact Linear.add ⟨order, below, sole⟩ ok rfl rfl (sole.congr (by simp [Holds]))
  | acquire result =>
    cases result with
    | none => exact Linear.add ⟨order, below, sole⟩ ok rfl rfl (sole.congr (by simp [Holds]))
    | some r =>
      simp only [Owners.step] at ok
      split at ok
      · next idle =>
        refine Linear.add ⟨order, below, sole⟩ ok rfl rfl
          (sole.take (x := s.next) idle fun y q => ?_)
        rw [Option.some.injEq, eq_comm (a := r)]
        rfl
      · cases ok
  | move other =>
    simp only [Owners.step] at ok
    split at ok
    · next alive =>
      refine Linear.add ⟨order, below, sole⟩ ok rfl rfl
        (sole.move (x := other) (n := s.next) fun y q => ?_)
      by_cases same : y = other <;> simp [Holds, same, alive]
    · cases ok
  | get x =>
    simp only [Owners.step] at ok
    split at ok
    · cases ok
      exact ⟨order, below, sole⟩
    · cases ok
  | release x =>
    simp only [Owners.step] at ok
    split at ok
    · next alive =>
      cases ok
      refine ⟨order, below, ?_⟩
      cases held : s.ptr x with
      | none => exact sole.congr fun y q => by by_cases same : y = x <;> simp [Holds, same, held]
      | some r =>
        refine sole.drop ⟨alive, held⟩ (fun q other => ?_) rfl rfl nofun fun y q => ?_
        · exact Option.some.inj (other.2.symm.trans held)
        · by_cases same : y = x <;> simp [Holds, same]
    · cases ok
  | enter =>
    cases ok
    exact ⟨order, below, sole⟩
  | destroy =>
    simp only [Owners.step] at ok
    split at ok
    · next x scope outer shape =>
      cases ok
      simp only [shape, List.flatten_cons, List.cons_append, List.pairwise_cons] at order
      have mem : ∀ y, y ∈ s.scopes.flatten ↔ y = x ∨ y ∈ scope ++ outer.flatten := by
        simp [shape]
      unfold destruct
      cases held : s.ptr x with
      | none =>
        refine ⟨order.2, fun y inside => below y ((mem y).mpr (Or.inr inside)),
          sole.congr fun y q => ?_⟩
        simp only [Holds, mem, List.flatten_cons]
        grind
      | some r =>
        refine ⟨order.2, fun y inside => below y ((mem y).mpr (Or.inr inside)),
          sole.drop (x := x) (r := r) ⟨(mem x).mpr (Or.inl rfl), held⟩ (fun q other => ?_)
            rfl rfl nofun fun y q => ?_⟩
        · exact Option.some.inj (other.2.symm.trans held)
        · simp only [Holds, mem, List.flatten_cons]
          grind
    · cases ok
  | leave =>
    simp only [Owners.step] at ok
    split at ok
    · next outer shape =>
      cases ok
      simp only [shape, List.flatten_cons, List.nil_append] at order below
      exact ⟨order, below, sole.congr (by simp [Holds, shape])⟩
    · cases ok
  | dispose r =>
    simp only [Owners.step] at ok
    split at ok
    · next out =>
      cases ok
      have now := @life_cons _ _ r s.log _ _ out (.disposed r) rfl rfl
      refine ⟨order, below, sole.once, fun q => ?_, fun q => ?_⟩
      · refine Iff.trans ?_ (sole.owned q)
        rw [now]
        split
        · next same => simp [same, out]
        · rfl
      · rw [now]
        split
        · exact nofun
        · exact sole.legal q
    · cases ok

theorem Linear.run {ops : List (OwnerOp R)} (linear : s.Linear) (ran : s.run ops = some s') :
    s'.Linear := by
  induction ops generalizing s with
  | nil =>
    cases ran
    exact linear
  | cons op rest ih =>
    obtain ⟨s₁, ok, later⟩ := Option.bind_eq_some_iff.mp ran
    exact ih (linear.step ok) later

/-- The objects of the innermost scope are destroyed, and then the scope is left. -/
theorem run_leave {scope : List Nat} {outer : List (List Nat)} (shape : s.scopes = scope :: outer) :
    s.run (List.replicate scope.length .destroy ++ [.leave]) = some
      { s with
        scopes := outer
        log := ((scope.filterMap s.ptr).map OwnerEvent.freed).reverse ++ s.log } := by
  induction scope generalizing s with
  | nil => simp [Owners.run, Owners.step, shape]
  | cons x scope ih =>
    rw [List.length_cons, List.replicate_succ, List.cons_append, Owners.run, List.foldlM_cons]
    simp only [Owners.step, shape, Option.bind_eq_bind, Option.bind_some]
    refine (ih rfl).trans ?_
    unfold destruct
    cases held : s.ptr x <;> simp [held]

end Owners

/-- Each acquisition is ended by one call of `FreeFn` or one `release`, and each of the latter
is still out or has been disposed of. -/
theorem count_of_life {r : R} {log : List (OwnerEvent R)} {place : Life}
    (here : life r log = some place) :
    log.count (.acquired r) = log.count (.freed r) + log.count (.released r) +
        (if place = .owned then 1 else 0) ∧
      log.count (.released r) = log.count (.disposed r) + if place = .out then 1 else 0 := by
  induction log generalizing place with
  | nil =>
    cases here
    exact ⟨rfl, rfl⟩
  | cons event earlier ih =>
    rw [life] at here
    by_cases about : event.resource = r
    · rw [if_pos about] at here
      obtain ⟨before, there, moves⟩ := Option.bind_eq_some_iff.mp here
      have := ih there
      subst about
      cases event <;> cases before <;> cases moves <;>
        simp [OwnerEvent.resource] at this ⊢ <;> omega
    · cases event <;> simp_all [OwnerEvent.resource]

/-- An acquired resource is owned by exactly one object until it is freed or released, and by none
after that, so every acquisition but the owned ones ended in one call of `FreeFn` or one `release`.
The objects of a scope free what they own in the reverse order of their construction. -/
theorem linear_ownership (ops : List (OwnerOp R)) {s : Owners R}
    (ran : Owners.run {} ops = some s) :
    (∀ r, ∃ place, life r s.log = some place ∧
      (place = .owned → ∃! x, s.Holds x r) ∧ (place ≠ .owned → ∀ x, ¬s.Holds x r) ∧
      s.log.count (.acquired r) = s.log.count (.freed r) + s.log.count (.released r) +
        (if place = .owned then 1 else 0) ∧
      s.log.count (.released r) = s.log.count (.disposed r) + if place = .out then 1 else 0) ∧
    ∀ scope outer, s.scopes = scope :: outer → scope.Pairwise (· > ·) ∧
      s.run (List.replicate scope.length .destroy ++ [.leave]) = some
        { s with
          scopes := outer
          log := ((scope.filterMap s.ptr).map OwnerEvent.freed).reverse ++ s.log } := by
  have start : Owners.Linear ({} : Owners R) :=
    ⟨List.Pairwise.nil, nofun, ⟨nofun, fun r => ⟨nofun, nofun⟩, nofun⟩⟩
  obtain ⟨order, -, sole⟩ := start.run ran
  refine ⟨fun r => ?_, fun scope outer shape => ⟨?_, Owners.run_leave shape⟩⟩
  · obtain ⟨place, here⟩ := Option.ne_none_iff_exists'.mp (sole.legal r)
    have owned := sole.owned r
    rw [here, Option.some.injEq] at owned
    refine ⟨place, here, fun yes => ?_, fun no x held => no (owned.mpr ⟨x, held⟩),
      count_of_life here⟩
    obtain ⟨x, held⟩ := owned.mp yes
    exact ⟨x, held, fun y other => sole.once y x r other held⟩
  · rw [shape, List.flatten_cons] at order
    exact (List.pairwise_append.mp order).1

/-- An object is moved from, and both objects go out of scope. -/
theorem linear_ownership_move : ∃ s : Owners Nat,
      Owners.run {} [.enter, .acquire (some 7), .move 0, .destroy, .destroy, .leave] = some s ∧
      s.log.count (.freed 7) = 1 ∧
      ∃ place, life 7 s.log = some place ∧ (place ≠ .owned → ∀ x, ¬s.Holds x 7) := by
  refine ⟨_, rfl, by decide, ?_⟩
  obtain ⟨place, here, -, unheld, -⟩ := (linear_ownership
    [.enter, .acquire (some 7), .move 0, .destroy, .destroy, .leave] rfl).1 7
  exact ⟨place, here, unheld⟩

end Xv6.Bench

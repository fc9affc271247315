import Mathlib.Tactic

/-!
# Circular doubly linked lists

`Path` says that the links lead from one node to another through the nodes of a list, and that
`prev` undoes `next` on the way; a ring is a path from the head to itself that meets no node
twice.
-/

namespace Xv6.LinkedRing

open Function

variable {α : Type} {rounds : Nat}

structure Links (α : Type) where
  next : α → α
  prev : α → α

namespace Links

def empty (head : α) : Links α where
  next := fun _ => head
  prev := fun _ => head

/-- The ring the other way round. -/
def flip (r : Links α) : Links α where
  next := r.prev
  prev := r.next

variable [DecidableEq α]

def setNext (r : Links α) (a b : α) : Links α := { r with next := update r.next a b }

def setPrev (r : Links α) (a b : α) : Links α := { r with prev := update r.prev a b }

def unlink (r : Links α) (b : α) : Links α :=
  let r := r.setPrev (r.next b) (r.prev b)
  r.setNext (r.prev b) (r.next b)

/-- `b` is put between the head and its successor. -/
def insertFront (r : Links α) (head b : α) : Links α :=
  let r := r.setNext b (r.next head)
  let r := r.setPrev b head
  let r := r.setPrev (r.next head) b
  r.setNext head b

end Links

/-- The links lead from `a` through the nodes of a list to `b`. -/
def Path (r : Links α) (b : α) : α → List α → Prop
  | a, [] => r.next a = b ∧ r.prev b = a
  | a, x :: rest => r.next a = x ∧ r.prev x = a ∧ Path r b x rest

namespace Path

variable {r r' : Links α} {a b x : α} {l l' : List α}

theorem congr (path : Path r b a l) (next : ∀ y ∈ a :: l, r'.next y = r.next y)
    (prev : ∀ y ∈ l ++ [b], r'.prev y = r.prev y) : Path r' b a l := by
  induction l generalizing a with
  | nil =>
    obtain ⟨out, back⟩ := path
    exact ⟨(next a List.mem_cons_self).trans out, (prev b (by simp)).trans back⟩
  | cons x rest ih =>
    obtain ⟨out, back, tail⟩ := path
    refine ⟨(next a List.mem_cons_self).trans out, (prev x (by simp)).trans back, ?_⟩
    exact ih tail (fun y mem => next y (List.mem_cons_of_mem _ mem))
      fun y mem => prev y (List.mem_cons_of_mem _ mem)

theorem append (r : Links α) (a b x : α) (l l' : List α) :
    Path r b a (l ++ x :: l') ↔ Path r x a l ∧ Path r b x l' := by
  induction l generalizing a with
  | nil => simp [Path, and_assoc]
  | cons y rest ih => simp [Path, ih, and_assoc]

section

variable (path : Path r b a l)
include path

theorem next_of_mem (mem : x ∈ a :: l) : r.next x ∈ l ++ [b] := by
  induction l generalizing a with
  | nil =>
    simp only [List.mem_singleton] at mem
    subst mem
    simp [path.1]
  | cons y rest ih =>
    obtain ⟨out, back, tail⟩ := path
    rcases List.mem_cons.mp mem with rfl | later
    · simp [out]
    · exact List.mem_cons_of_mem _ (ih tail later)

theorem prev_next (mem : x ∈ a :: l) : r.prev (r.next x) = x := by
  induction l generalizing a with
  | nil =>
    simp only [List.mem_singleton] at mem
    subst mem
    rw [path.1, path.2]
  | cons y rest ih =>
    obtain ⟨out, back, tail⟩ := path
    rcases List.mem_cons.mp mem with rfl | later
    · rw [out, back]
    · exact ih tail later

theorem next_prev (mem : x ∈ l ++ [b]) : r.next (r.prev x) = x := by
  induction l generalizing a with
  | nil =>
    simp only [List.nil_append, List.mem_singleton] at mem
    subst mem
    rw [path.2, path.1]
  | cons y rest ih =>
    obtain ⟨out, back, tail⟩ := path
    rcases List.mem_cons.mp mem with rfl | later
    · rw [back, out]
    · exact ih tail later

theorem prev_mem : r.prev b ∈ a :: l := by
  induction l generalizing a with
  | nil => simp [path.2]
  | cons y rest ih =>
    exact List.mem_cons_of_mem _ (ih path.2.2)

theorem redirect {c : α} (nodup : (a :: l).Nodup)
    (next : ∀ y ∈ a :: l, y ≠ r.prev b → r'.next y = r.next y)
    (prev : ∀ y ∈ l, r'.prev y = r.prev y) (out : r'.next (r.prev b) = c)
    (back : r'.prev c = r.prev b) : Path r' c a l := by
  induction l generalizing a with
  | nil =>
    obtain ⟨-, before⟩ := path
    rw [before] at out back
    exact ⟨out, back⟩
  | cons x rest ih =>
    obtain ⟨first, second, tail⟩ := path
    obtain ⟨notLater, nodup'⟩ := List.nodup_cons.mp nodup
    have notLast : a ≠ r.prev b := fun same => notLater (same ▸ tail.prev_mem)
    refine ⟨(next a List.mem_cons_self notLast).trans first,
      (prev x List.mem_cons_self).trans second, ?_⟩
    exact ih tail nodup' (fun y mem => next y (List.mem_cons_of_mem _ mem))
      fun y mem => prev y (List.mem_cons_of_mem _ mem)

theorem flip : Path r.flip a b l.reverse := by
  induction l generalizing a with
  | nil => exact ⟨path.2, path.1⟩
  | cons x rest ih =>
    obtain ⟨out, back, tail⟩ := path
    rw [List.reverse_cons]
    exact (append _ _ _ _ _ _).mpr ⟨ih tail, back, out⟩

end

end Path

/-- A ring: from the head through the nodes of `l` and back, without meeting a node twice. -/
structure Ring (r : Links α) (head : α) (l : List α) : Prop where
  path : Path r head head l
  nodup : (head :: l).Nodup

namespace Ring

theorem empty (head : α) : Ring (Links.empty head) head [] :=
  ⟨⟨rfl, rfl⟩, List.nodup_singleton head⟩

variable [DecidableEq α] {r : Links α} {head b : α} {l left right : List α}

theorem insertFront (ring : Ring r head l) (fresh : b ∉ head :: l) :
    Ring (r.insertFront head b) head (b :: l) := by
  obtain ⟨path, nodup⟩ := ring
  simp only [List.mem_cons, not_or] at fresh
  obtain ⟨notHead, notIn⟩ := fresh
  have headOut : head ∉ l := (List.nodup_cons.mp nodup).1
  refine ⟨?_, ?_⟩
  · cases l with
    | nil =>
      obtain ⟨out, back⟩ := path
      simp [Path, Links.insertFront, Links.setNext, Links.setPrev, out, notHead, Ne.symm notHead]
    | cons x rest =>
      obtain ⟨out, back, tail⟩ := path
      have other : x ≠ b := fun same => notIn (by simp [same])
      have other' : x ≠ head := fun same => headOut (by simp [same])
      have notHere : x ∉ rest := (List.nodup_cons.mp (List.nodup_cons.mp nodup).2).1
      refine ⟨?_, ?_, ?_, ?_, tail.congr ?_ ?_⟩
      · simp [Links.insertFront, Links.setNext, Links.setPrev]
      · simp [Links.insertFront, Links.setNext, Links.setPrev, out, Ne.symm notHead, Ne.symm other]
      · simp [Links.insertFront, Links.setNext, Links.setPrev, out, notHead]
      · simp [Links.insertFront, Links.setNext, Links.setPrev, out, Ne.symm notHead]
      · intro y mem
        have notB : y ≠ b := fun same => notIn (same ▸ mem)
        have notHead' : y ≠ head := fun same => headOut (same ▸ mem)
        simp [Links.insertFront, Links.setNext, Links.setPrev, notB, notHead']
      · intro y mem
        have notB : y ≠ b := by
          rintro rfl
          rcases List.mem_append.mp mem with inside | last
          · exact notIn (List.mem_cons_of_mem _ inside)
          · exact notHead (List.mem_singleton.mp last)
        have notX : y ≠ x := by
          rintro rfl
          rcases List.mem_append.mp mem with inside | last
          · exact notHere inside
          · exact other' (List.mem_singleton.mp last)
        simp [Links.insertFront, Links.setNext, Links.setPrev, out, notB, notX, Ne.symm notHead]
  · simp only [List.nodup_cons, List.mem_cons, not_or] at nodup ⊢
    exact ⟨⟨Ne.symm notHead, nodup.1⟩, notIn, nodup.2⟩

theorem unlink (ring : Ring r head (left ++ b :: right)) :
    Ring (r.unlink b) head (left ++ right) := by
  obtain ⟨path, nodup⟩ := ring
  obtain ⟨before, after⟩ := (Path.append r head head b left right).mp path
  have nodupAll : (head :: left ++ b :: right).Nodup := nodup
  have nodupLeft : (head :: left).Nodup := (List.nodup_append.mp nodupAll).1
  have apart : ∀ y ∈ head :: left, y ≠ b ∧ y ∉ right := by
    intro y mem
    have disjoint := (List.nodup_append.mp nodupAll).2.2 y mem
    exact ⟨disjoint b List.mem_cons_self,
      fun later => disjoint y (List.mem_cons_of_mem _ later) rfl⟩
  have nodupRight : (b :: right).Nodup := (List.nodup_append.mp nodupAll).2.1
  have notHead : head ≠ b := (apart head List.mem_cons_self).1
  have suffix : r.next b ∈ right ++ [head] := after.next_of_mem List.mem_cons_self
  have notSelf : r.next b ≠ b := by
    intro same
    rw [same] at suffix
    rcases List.mem_append.mp suffix with inside | last
    · exact (List.nodup_cons.mp nodupRight).1 inside
    · exact notHead (List.mem_singleton.mp last).symm
  have nexts : (r.unlink b).next = update r.next (r.prev b) (r.next b) := by
    simp [Links.unlink, Links.setNext, Links.setPrev, Ne.symm notSelf]
  have prevs : (r.unlink b).prev = update r.prev (r.next b) (r.prev b) := rfl
  have redirected : Path (r.unlink b) (r.next b) head left := by
    refine before.redirect nodupLeft ?_ ?_ ?_ ?_
    · intro y _ other
      rw [nexts, update_of_ne other]
    · intro y mem
      have other : y ≠ r.next b := by
        rintro rfl
        rcases List.mem_append.mp suffix with inside | last
        · exact (apart _ (List.mem_cons_of_mem _ mem)).2 inside
        · exact (List.nodup_cons.mp nodupLeft).1 (List.mem_singleton.mp last ▸ mem)
      rw [prevs, update_of_ne other]
    · rw [nexts, update_self]
    · rw [prevs, update_self]
  refine ⟨?_, nodupAll.sublist ?_⟩
  · cases right with
    | nil =>
      obtain ⟨out, -⟩ := after
      rw [out] at redirected
      simpa using redirected
    | cons y rest =>
      obtain ⟨out, -, tail⟩ := after
      rw [out] at redirected
      refine (Path.append _ _ _ _ _ _).mpr ⟨redirected, tail.congr ?_ ?_⟩
      · intro z mem
        have other : z ≠ r.prev b := by
          rintro rfl
          exact (apart _ before.prev_mem).2 mem
        rw [nexts, update_of_ne other]
      · intro z mem
        have other : z ≠ r.next b := by
          rw [out]
          rintro rfl
          rcases List.mem_append.mp mem with inside | last
          · exact (List.nodup_cons.mp (List.nodup_cons.mp nodupRight).2).1 inside
          · exact (apart head List.mem_cons_self).2
              ((List.mem_singleton.mp last) ▸ List.mem_cons_self)
        rw [prevs, update_of_ne other]
  · exact (List.Sublist.refl (head :: left)).append (List.sublist_cons_self b right)

theorem moveToFront (ring : Ring r head (left ++ b :: right)) :
    Ring ((r.unlink b).insertFront head b) head (b :: (left ++ right)) := by
  refine ring.unlink.insertFront ?_
  have nodupAll : (head :: (left ++ b :: right)).Nodup := ring.nodup
  intro mem
  have moved : (b :: (head :: left ++ right)).Nodup :=
    List.perm_middle.nodup_iff.mp (show (head :: left ++ b :: right).Nodup from nodupAll)
  exact (List.nodup_cons.mp moved).1 mem

end Ring

/-! ## Walking along the links -/

/-- `for(b = start; b != stop; b = step(b)) if(found(b)) return b;`: the node found, or that
there is none; `none` if the walk has not ended after so many nodes. -/
def walk [DecidableEq α] (step : α → α) (stop : α) (found : α → Bool) :
    (rounds : Nat) → (start : α) → Option (Option α)
  | 0, _ => none
  | rounds + 1, b =>
    if b = stop then some none
    else if found b then some (some b)
    else walk step stop found rounds (step b)

section Walk

variable [DecidableEq α] {r : Links α} {head : α} {l : List α}

theorem walk_path {found : α → Bool} {a : α} (path : Path r head a l) (outside : head ∉ l)
    (enough : l.length < rounds) :
    walk r.next head found rounds (r.next a) = some (l.find? found) := by
  induction l generalizing a rounds with
  | nil =>
    obtain ⟨rounds, rfl⟩ := Nat.exists_eq_succ_of_ne_zero (Nat.ne_of_gt enough)
    rw [path.1, walk, if_pos rfl]
    rfl
  | cons x rest ih =>
    obtain ⟨rounds, rfl⟩ := Nat.exists_eq_succ_of_ne_zero (Nat.ne_of_gt (Nat.zero_lt_of_lt enough))
    obtain ⟨out, -, tail⟩ := path
    simp only [List.mem_cons, not_or] at outside
    rw [out, walk, if_neg (Ne.symm outside.1), List.find?_cons]
    cases here : found x with
    | true => simp
    | false =>
      exact ih tail outside.2 (Nat.lt_of_succ_lt_succ enough)

theorem walk_next (ring : Ring r head l) (found : α → Bool) (enough : l.length < rounds) :
    walk r.next head found rounds (r.next head) = some (l.find? found) :=
  walk_path ring.path (List.nodup_cons.mp ring.nodup).1 enough

theorem walk_prev (ring : Ring r head l) (found : α → Bool) (enough : l.length < rounds) :
    walk r.prev head found rounds (r.prev head) = some (l.reverse.find? found) := by
  refine walk_path (r := r.flip) ring.path.flip ?_ (by simpa using enough)
  simpa using (List.nodup_cons.mp ring.nodup).1

end Walk

end Xv6.LinkedRing

import Xv6.Frames.Ram

/-!
# The tree of a page table

`table` says which frame each node of a page table is, and `mapping` is the finite map it
stands for. Both depend only on the frames of the table.
-/

namespace Xv6.Frames

open Function

variable {va va' : BitVec 64} {k : Fin 512} {flags : BitVec 64} {i k' : Fin 512}

/-! ## Entries -/

/-- The addresses of frames that an entry can name. -/
def Framed (pa : Pa) : Prop := pa.toNat % 4096 = 0 ∧ pa.toNat < 2 ^ 56

theorem getLsbD_of_small {x : BitVec 64} {n i : Nat} (small : x.toNat < 2 ^ n) (above : n ≤ i) :
    x.getLsbD i = false := by
  exact Nat.testBit_lt_two_pow (small.trans_le (Nat.pow_le_pow_right (by decide) above))

theorem getLsbD_of_multiple {x : BitVec 64} {n i : Nat} (aligned : x.toNat % 2 ^ n = 0)
    (below : i < n) : x.getLsbD i = false := by
  have low : (x.toNat % 2 ^ n).testBit i = x.toNat.testBit i := by
    simp [below]
  rw [BitVec.getLsbD, ← low, aligned]
  exact Nat.zero_testBit i

theorem pte2pa_pa2pte {pa : Pa} (framed : Framed pa)
    (small : flags.toNat < 2 ^ 10) : pte2pa (pa2pte pa ||| flags) = pa := by
  apply BitVec.eq_of_getLsbD_eq
  intro i inside
  simp only [pte2pa, pa2pte, BitVec.getLsbD_shiftLeft, BitVec.getLsbD_ushiftRight,
    BitVec.getLsbD_or]
  by_cases low : i < 12
  · have clear := @getLsbD_of_multiple pa 12 i framed.1 low
    simp [low, clear]
  · have clear := @getLsbD_of_small flags 10 (10 + (i - 12)) small (by omega)
    have place : 12 + (i - 12) = i := by omega
    have room : 10 + (i - 12) < 64 := by omega
    rw [clear]
    simp [low, inside, place, room]

theorem pteFlags_pa2pte (pa : Pa) (small : flags.toNat < 2 ^ 10) :
    pteFlags (pa2pte pa ||| flags) = flags := by
  apply BitVec.eq_of_getLsbD_eq
  intro i inside
  simp only [pteFlags, pa2pte, BitVec.getLsbD_shiftLeft, BitVec.getLsbD_or, BitVec.getLsbD_and]
  by_cases low : i < 10
  · have set : (0x3ff#64).getLsbD i = true := by
      interval_cases i <;> rfl
    simp [low, set]
  · have clear := @getLsbD_of_small (0x3ff#64) 10 i (by decide) (by omega)
    rw [clear, @getLsbD_of_small flags 10 i small (by omega)]
    simp

theorem valid_or (pte : BitVec 64) : valid (pte ||| PTE_V) = true := by
  simp [valid, PTE_V]

theorem valid_zero : valid 0#64 = false := by
  simp [valid]

/-! ## Nodes -/

/-- The frame a valid entry points to. -/
def next (mem : Pa → Frame) (t : Pa) (i : Fin 512) : Option Pa :=
  if valid (mem t i) then some (pte2pa (mem t i)) else none

/-- The nodes of a page table, by the indices that lead to them. -/
inductive Node where
  | root
  | middle (i : Fin 512)
  | leaf (i j : Fin 512)
  deriving DecidableEq, Repr

/-- The nodes whose entries point to other nodes. -/
def Node.inner : Node → Bool
  | .root | .middle _ => true
  | .leaf _ _ => false

/-- The node that entry `i` of an inner node points to. -/
def Node.child : Node → Fin 512 → Node
  | .root, i => .middle i
  | .middle i, j => .leaf i j
  | .leaf i j, _ => .leaf i j

def table (mem : Pa → Frame) (root : Pa) : Node → Option Pa
  | .root => some root
  | .middle i => next mem root i
  | .leaf i j => (next mem root i).bind fun t => next mem t j

/-- The entry for a virtual address: `walk(pagetable, va, 0)`. -/
def entry (mem : Pa → Frame) (root : Pa) (va : BitVec 64) : Option (Pa × Fin 512) :=
  (table mem root (.leaf (px 2 va) (px 1 va))).map fun t => (t, px 0 va)

/-- The map that a page table stands for: the frame and the flags of a valid entry. -/
def mapping (mem : Pa → Frame) (root : Pa) (va : BitVec 64) : Option (Pa × BitVec 64) :=
  (entry mem root va).bind fun e =>
    if valid (mem e.1 e.2) then some (pte2pa (mem e.1 e.2), pteFlags (mem e.1 e.2)) else none

/-- The nodes of a page table are distinct frames. -/
def Distinct (mem : Pa → Frame) (root : Pa) : Prop :=
  ∀ n n' t, table mem root n = some t → table mem root n' = some t → n = n'

variable {mem mem' : Pa → Frame} {root : Pa}

theorem next_congr {t : Pa} (same : mem' t = mem t) (i : Fin 512) :
    next mem' t i = next mem t i := by
  unfold next
  rw [same]

theorem table_leaf (mem : Pa → Frame) (root : Pa) (i j : Fin 512) :
    table mem root (.leaf i j) = (next mem root i).bind fun t => next mem t j := rfl

theorem table_congr (same : ∀ n t, n.inner = true → table mem root n = some t → mem' t = mem t) :
    table mem' root = table mem root := by
  have top : ∀ i, next mem' root i = next mem root i := next_congr (same .root root rfl rfl)
  funext n
  cases n with
  | root => rfl
  | middle i => exact top i
  | leaf i j =>
    rw [table_leaf, table_leaf, top i]
    cases middle : next mem root i with
    | none => rfl
    | some t => exact next_congr (same (.middle i) t rfl middle) j

theorem mapping_congr (same : ∀ n t, table mem root n = some t → mem' t = mem t)
    (va : BitVec 64) : mapping mem' root va = mapping mem root va := by
  unfold mapping entry
  rw [table_congr fun n t _ => same n t]
  cases leaf : table mem root (.leaf (px 2 va) (px 1 va)) with
  | none => rfl
  | some t =>
    dsimp only [Option.map_some, Option.bind_some]
    rw [same _ t leaf]

/-! ## Addresses -/

theorem px_inj (aligned : va.toNat % 4096 = 0)
    (aligned' : va'.toNat % 4096 = 0) (inside : va.toNat < 2 ^ 39) (inside' : va'.toNat < 2 ^ 39)
    (top : px 2 va = px 2 va') (middle : px 1 va = px 1 va') (leaf : px 0 va = px 0 va') :
    va = va' := by
  simp only [px, Fin.mk.injEq] at top middle leaf
  apply BitVec.eq_of_toNat_eq
  omega

theorem entry_inj (distinct : Distinct mem root)
    (aligned : va.toNat % 4096 = 0) (aligned' : va'.toNat % 4096 = 0)
    (inside : va.toNat < 2 ^ 39) (inside' : va'.toNat < 2 ^ 39) {e : Pa × Fin 512}
    (here : entry mem root va = some e) (here' : entry mem root va' = some e) : va = va' := by
  unfold entry at here here'
  rw [Option.map_eq_some_iff] at here here'
  obtain ⟨t, first, rfl⟩ := here
  obtain ⟨t', second, same⟩ := here'
  rw [Prod.mk.injEq] at same
  obtain ⟨rfl, index⟩ := same
  have node := distinct _ _ _ first second
  rw [Node.leaf.injEq] at node
  exact px_inj aligned aligned' inside inside' node.1 node.2 index.symm

/-! ## Stores -/

def put (mem : Pa → Frame) (t : Pa) (k : Fin 512) (w : BitVec 64) : Pa → Frame :=
  update mem t (update (mem t) k w)

theorem put_of_ne {t t' : Pa} (other : t' ≠ t) (k : Fin 512) (w : BitVec 64) :
    put mem t k w t' = mem t' :=
  update_of_ne other ..

theorem put_self (t : Pa) (k : Fin 512) (w : BitVec 64) : put mem t k w t k = w := by
  unfold put
  rw [update_self, update_self]

theorem put_self_of_ne (t : Pa) (other : k' ≠ k) (w : BitVec 64) :
    put mem t k w t k' = mem t k' := by
  unfold put
  rw [update_self, update_of_ne other]

theorem next_put_of_ne {t : Pa} (w : BitVec 64) (other : k' ≠ k) :
    next (put mem t k w) t k' = next mem t k' := by
  unfold next
  rw [put_self_of_ne t other]

theorem table_put_leaf (distinct : Distinct mem root) {j : Fin 512} {t : Pa}
    (here : table mem root (.leaf i j) = some t) (w : BitVec 64) :
    table (put mem t k w) root = table mem root := by
  apply table_congr
  intro n t' inner found
  refine put_of_ne ?_ k w
  rintro rfl
  rw [distinct _ _ _ found here] at inner
  cases inner

theorem mapping_put (distinct : Distinct mem root) {t : Pa}
    (aligned : va.toNat % 4096 = 0) (inside : va.toNat < 2 ^ 39)
    (here : entry mem root va = some (t, k)) (w : BitVec 64)
    (aligned' : va'.toNat % 4096 = 0) (inside' : va'.toNat < 2 ^ 39) :
    mapping (put mem t k w) root va' =
      if va' = va then (if valid w then some (pte2pa w, pteFlags w) else none)
      else mapping mem root va' := by
  have leaf : table mem root (.leaf (px 2 va) (px 1 va)) = some t := by
    unfold entry at here
    rw [Option.map_eq_some_iff] at here
    obtain ⟨t', found, same⟩ := here
    rw [Prod.mk.injEq] at same
    rw [found, same.1]
  have entries : ∀ va', entry (put mem t k w) root va' = entry mem root va' := by
    intro va'
    unfold entry
    rw [table_put_leaf distinct leaf]
  by_cases same : va' = va
  · subst same
    rw [if_pos rfl]
    unfold mapping
    rw [entries, here, Option.bind_some]
    rw [put_self]
  · rw [if_neg same]
    unfold mapping
    rw [entries]
    cases found : entry mem root va' with
    | none => rfl
    | some e =>
      obtain ⟨t', k'⟩ := e
      dsimp only [Option.bind_some]
      have word : put mem t k w t' k' = mem t' k' := by
        by_cases frame : t' = t
        · subst frame
          have index : k' ≠ k := by
            rintro rfl
            exact same (entry_inj distinct aligned' aligned inside' inside found here)
          exact put_self_of_ne t' index w
        · rw [put_of_ne frame]
      rw [word]

/-! ## New nodes -/

theorem table_child {m : Node} (inner : m.inner = true) {p : Pa}
    (here : table mem root m = some p) (i : Fin 512) :
    table mem root (m.child i) = next mem p i := by
  cases m with
  | root =>
    cases here
    rfl
  | middle a =>
    change next mem root a = some p at here
    change (next mem root a).bind _ = _
    rw [here]
    rfl
  | leaf a b => cases inner

/-- Memory after an empty table in the frame `t` is entered in another one. -/
def attach (mem : Pa → Frame) (p : Pa) (i : Fin 512) (t : Pa) : Pa → Frame :=
  put (update mem t fun _ => 0#64) p i (pa2pte t ||| PTE_V)

theorem attach_of_ne {p t q : Pa} (i : Fin 512) (other : q ≠ p) (other' : q ≠ t) :
    attach mem p i t q = mem q := by
  unfold attach
  rw [put_of_ne other, update_of_ne other']

theorem attach_new {p t : Pa} (other : t ≠ p) (i k : Fin 512) : attach mem p i t t k = 0#64 := by
  unfold attach
  rw [put_of_ne other, update_self]

theorem next_attach_self {p t : Pa} (framed : Framed t) (i : Fin 512) :
    next (attach mem p i t) p i = some t := by
  unfold next attach
  rw [put_self, if_pos (valid_or _), pte2pa_pa2pte framed (by decide)]

theorem next_attach_of_ne {p t : Pa} (other : p ≠ t) (other' : k ≠ i) :
    next (attach mem p i t) p k = next mem p k := by
  unfold attach
  rw [next_put_of_ne _ other']
  exact next_congr (update_of_ne other ..) k

theorem next_attach_new {p t : Pa} (other : t ≠ p) (i k : Fin 512) :
    next (attach mem p i t) t k = none := by
  unfold next
  rw [attach_new other, valid_zero]
  rfl

section Attach

variable {m : Node} {p t : Pa}

section

variable (distinct : Distinct mem root) (inner : m.inner = true) (here : table mem root m = some p)
  (vacant : next mem p i = none) (fresh : ∀ n, table mem root n ≠ some t) (framed : Framed t)
include distinct inner here vacant fresh framed

theorem table_attach :
    table (attach mem p i t) root = update (table mem root) (m.child i) (some t) := by
  have new : p ≠ t := fun same => fresh m (same ▸ here)
  have kept : ∀ {n q}, table mem root n = some q → n ≠ m → ∀ k,
      next (attach mem p i t) q k = next mem q k := by
    intro n q found other k
    refine next_congr (attach_of_ne i ?_ ?_) k
    · rintro rfl
      exact other (distinct _ _ _ found here)
    · rintro rfl
      exact fresh n found
  cases m with
  | leaf a b => cases inner
  | root =>
    cases here
    dsimp only [Node.child]
    funext n
    cases n with
    | root => rfl
    | middle i' =>
      by_cases same : i' = i
      · rw [same, update_self]
        exact next_attach_self framed i
      · rw [update_of_ne (fun equal => same (Node.middle.inj equal))]
        exact next_attach_of_ne new same
    | leaf i' j =>
      rw [update_of_ne Node.noConfusion, table_leaf, table_leaf]
      by_cases same : i' = i
      · rw [same, next_attach_self framed, vacant]
        exact next_attach_new new.symm i j
      · rw [next_attach_of_ne new same]
        cases middle : next mem root i' with
        | none => rfl
        | some q => exact @kept (.middle i') q middle Node.noConfusion j
  | middle a =>
    have top := @kept .root root rfl Node.noConfusion
    dsimp only [Node.child]
    funext n
    cases n with
    | root => rfl
    | middle i' => exact top i'
    | leaf i' j =>
      rw [table_leaf, top i']
      by_cases same : i' = a
      · subst same
        change next mem root i' = some p at here
        rw [here]
        by_cases index : j = i
        · rw [index, update_self]
          exact next_attach_self framed i
        · rw [update_of_ne (fun equal => index (Node.leaf.inj equal).2), table_leaf, here]
          exact next_attach_of_ne new index
      · rw [update_of_ne (fun equal => same (Node.leaf.inj equal).1), table_leaf]
        cases middle : next mem root i' with
        | none => rfl
        | some q =>
          exact @kept (.middle i') q middle (fun equal => same (Node.middle.inj equal)) j

theorem distinct_attach : Distinct (attach mem p i t) root := by
  intro n n' q found found'
  rw [table_attach distinct inner here vacant fresh framed] at found found'
  by_cases first : n = m.child i
  · by_cases second : n' = m.child i
    · rw [first, second]
    · rw [first, update_self] at found
      cases found
      rw [update_of_ne second] at found'
      exact absurd found' (fresh n')
  · rw [update_of_ne first] at found
    by_cases second : n' = m.child i
    · rw [second, update_self] at found'
      cases found'
      exact absurd found (fresh n)
    · rw [update_of_ne second] at found'
      exact distinct n n' q found found'

theorem mapping_attach (va : BitVec 64) :
    mapping (attach mem p i t) root va = mapping mem root va := by
  have new : p ≠ t := fun same => fresh m (same ▸ here)
  unfold mapping entry
  rw [table_attach distinct inner here vacant fresh framed]
  by_cases same : Node.leaf (px 2 va) (px 1 va) = m.child i
  · rw [same, update_self, table_child inner here, vacant, Option.map_some, Option.bind_some]
    rw [attach_new new.symm, valid_zero]
    rfl
  · rw [update_of_ne same]
    cases leaf : table mem root (.leaf (px 2 va) (px 1 va)) with
    | none => rfl
    | some q =>
      have apart : q ≠ p := by
        rintro rfl
        rw [distinct _ _ _ here leaf] at inner
        cases inner
      rw [Option.map_some, Option.bind_some, Option.bind_some]
      rw [attach_of_ne i apart fun same => fresh _ (same ▸ leaf)]

end

end Attach

end Xv6.Frames

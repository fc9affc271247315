import Xv6.Library.Outcome
import Xv6.Library.RedBlack

/-!
# `rbtree.cpp`

The tree is a heap of nodes with pointers. A null pointer that is dereferenced is an error, and
so is a loop that is still running after a given number of rounds.
-/

namespace Xv6.RbTree

open RedBlack

inductive Fault where
  | null
  | neverReturns
  deriving DecidableEq, Repr

/-- The fields of every `struct rb_node`, and the `root` of the `struct rb_tree`. -/
structure Heap (N K : Type) where
  child : Dir → N → Option N
  parent : N → Option N
  color : N → Color
  key : N → K
  root : Option N

def deref {N : Type} : Option N → Except Fault N
  | none => .error .null
  | some n => .ok n

namespace Heap

variable {N K : Type} [DecidableEq N]

def setChild (h : Heap N K) (d : Dir) (n : N) (p : Option N) : Heap N K :=
  { h with child := fun e m => if e = d ∧ m = n then p else h.child e m }

def setParent (h : Heap N K) (n : N) (p : Option N) : Heap N K :=
  { h with parent := Function.update h.parent n p }

def setColor (h : Heap N K) (n : N) (c : Color) : Heap N K :=
  { h with color := Function.update h.color n c }

/-- `p != 0 && p->color == RED`. -/
def isRed (h : Heap N K) (p : Option N) : Bool := p.any fun n => h.color n = .red

/-- `p == 0 || p->color == BLACK`. -/
def isBlack (h : Heap N K) (p : Option N) : Bool := p.all fun n => h.color n = .black

/-- `if (p != 0) p->parent = q`. -/
def setParentOf (h : Heap N K) (p q : Option N) : Heap N K :=
  match p with
  | none => h
  | some n => h.setParent n q

/-- `if (p) p->color = BLACK`. -/
def blacken (h : Heap N K) (p : Option N) : Heap N K :=
  match p with
  | none => h
  | some n => h.setColor n .black

/-- `v` takes the place of `u` at its parent. -/
def redirect (h : Heap N K) (u : N) (v : Option N) : Heap N K :=
  match h.parent u with
  | none => { h with root := v }
  | some p => if h.child .left p = some u then h.setChild .left p v else h.setChild .right p v

/-! ## Rotations -/

def rotate (d : Dir) (h : Heap N K) (x : N) : Except Fault (Heap N K) := do
  let y ← deref (h.child d.other x)
  let h := h.setChild d.other x (h.child d y)
  let h := h.setParentOf (h.child d y) (some x)
  let h := h.setParent y (h.parent x)
  let h := h.redirect x (some y)
  let h := h.setChild d y (some x)
  let h := h.setParent x (some y)
  .ok h

def leftRotate : Heap N K → N → Except Fault (Heap N K) := rotate .left

def rightRotate : Heap N K → N → Except Fault (Heap N K) := rotate .right

/-! ## Insertion -/

/-- The body of the loop of `_insert_fixup` when the parent of `z` is on the given side. -/
def insertSide (d : Dir) (h : Heap N K) (z : N) : Except Fault (Heap N K × N) := do
  let p ← deref (h.parent z)
  let g ← deref (h.parent p)
  let y := h.child d.other g
  if h.isRed y then
    let y ← deref y
    let h := h.setColor p .black
    let h := h.setColor y .black
    let h := h.setColor g .red
    .ok (h, g)
  else
    let (h, z) ←
      if h.child d.other p = some z then do
        let h ← rotate d h p
        .ok (h, p)
      else .ok (h, z)
    let p ← deref (h.parent z)
    let h := h.setColor p .black
    let g ← deref (h.parent p)
    let h := h.setColor g .red
    let h ← rotate d.other h g
    .ok (h, z)

def insertLoop : Nat → Heap N K → N → Except Fault (Heap N K)
  | 0, _, _ => .error .neverReturns
  | rounds + 1, h, z =>
    match h.parent z with
    | none => .ok h
    | some p =>
      if h.color p = .red then do
        let g ← deref (h.parent p)
        let d : Dir := if h.child .left g = some p then .left else .right
        let (h, z) ← insertSide d h z
        insertLoop rounds h z
      else .ok h

def insertFixup (rounds : Nat) (h : Heap N K) (z : N) : Except Fault (Heap N K) := do
  let h ← insertLoop rounds h z
  let root ← deref h.root
  .ok (h.setColor root .black)

/-- The search of `rb_insert`: the last node it visits. -/
def descend [LT K] [DecidableLT K] (h : Heap N K) (z : N) :
    Nat → Option N → Option N → Except Fault (Option N)
  | 0, _, _ => .error .neverReturns
  | _ + 1, y, none => .ok y
  | rounds + 1, _, some x =>
    if h.key z < h.key x then descend h z rounds (some x) (h.child .left x)
    else descend h z rounds (some x) (h.child .right x)

def attach [LT K] [DecidableLT K] (h : Heap N K) (y : Option N) (z : N) : Heap N K :=
  match y with
  | none => { h with root := some z }
  | some y =>
    if h.key z < h.key y then h.setChild .left y (some z) else h.setChild .right y (some z)

/-- `rb_insert` after its search: `z` becomes a red child of `y`. -/
def link [LT K] [DecidableLT K] (h : Heap N K) (y : Option N) (z : N) : Heap N K :=
  let h := h.setParent z y
  let h := h.attach y z
  let h := h.setChild .left z none
  let h := h.setChild .right z none
  h.setColor z .red

def rbInsert [LT K] [DecidableLT K] (rounds : Nat) (h : Heap N K) (z : N) :
    Except Fault (Heap N K) := do
  let y ← descend h z rounds none h.root
  insertFixup rounds (h.link y z) z

/-! ## Deletion -/

def rbTransplant (h : Heap N K) (u : N) (v : Option N) : Heap N K :=
  (h.redirect u v).setParentOf v (h.parent u)

/-- Case 1 of `_delete_fixup`, with `x` on the given side of `x_parent`: a red sibling. -/
def deleteCase1 (d : Dir) (h : Heap N K) (xParent w : N) : Except Fault (Heap N K × N) :=
  if h.color w = .red then do
    let h := h.setColor w .black
    let h := h.setColor xParent .red
    let h ← rotate d h xParent
    let w ← deref (h.child d.other xParent)
    .ok (h, w)
  else .ok (h, w)

/-- Case 3: the far child of the sibling is black. -/
def deleteCase3 (d : Dir) (h : Heap N K) (xParent w : N) : Except Fault (Heap N K × N) :=
  if h.isBlack (h.child d.other w) then do
    let h := h.blacken (h.child d w)
    let h := h.setColor w .red
    let h ← rotate d.other h w
    let w ← deref (h.child d.other xParent)
    .ok (h, w)
  else .ok (h, w)

/-- Case 4: the far child of the sibling is red. -/
def deleteCase4 (d : Dir) (h : Heap N K) (xParent w : N) : Except Fault (Heap N K) :=
  let h := h.setColor w (h.color xParent)
  let h := h.setColor xParent .black
  let h := h.blacken (h.child d.other w)
  rotate d h xParent

/-- Cases 2 to 4: the heap, `x` and `x_parent`. -/
def deleteCases (d : Dir) (h : Heap N K) (xParent w : N) :
    Except Fault (Heap N K × Option N × Option N) :=
  if h.isBlack (h.child d w) && h.isBlack (h.child d.other w) then
    -- Case 2: both children of the sibling are black.
    let h := h.setColor w .red
    .ok (h, some xParent, h.parent xParent)
  else do
    let (h, w) ← deleteCase3 d h xParent w
    let h ← deleteCase4 d h xParent w
    .ok (h, h.root, some xParent)

/-- The body of the loop of `_delete_fixup` when `x` is on the given side of `x_parent`. -/
def deleteSide (d : Dir) (h : Heap N K) (xParent : N) :
    Except Fault (Heap N K × Option N × Option N) := do
  let w ← deref (h.child d.other xParent)
  let (h, w) ← deleteCase1 d h xParent w
  deleteCases d h xParent w

def deleteFixup : Nat → Heap N K → Option N → Option N → Except Fault (Heap N K)
  | 0, _, _, _ => .error .neverReturns
  | rounds + 1, h, x, xParent =>
    if x ≠ h.root ∧ h.isBlack x then do
      let p ← deref xParent
      let d : Dir := if x = h.child .left p then .left else .right
      let (h, x, xParent) ← deleteSide d h p
      deleteFixup rounds h x xParent
    else .ok (h.blacken x)

/-- The loops of `rb_first` and `rb_last`. -/
def lastOn (d : Dir) (h : Heap N K) : Nat → N → Except Fault N
  | 0, _ => .error .neverReturns
  | rounds + 1, n =>
    match h.child d n with
    | none => .ok n
    | some m => lastOn d h rounds m

/-- `rb_first` and `rb_last`. -/
def extreme (d : Dir) (h : Heap N K) (rounds : Nat) : Option N → Except Fault (Option N)
  | none => .ok none
  | some n => do
      let m ← lastOn d h rounds n
      .ok (some m)

def rbFirst : Heap N K → Nat → Option N → Except Fault (Option N) := extreme .left

def rbLast : Heap N K → Nat → Option N → Except Fault (Option N) := extreme .right

/-- `rb_delete` takes `y`, which is deeper in the right subtree of `z`, out of its place and
puts it above that subtree. -/
def detach (h : Heap N K) (z y : N) : Except Fault (Heap N K) := do
  let h := h.rbTransplant y (h.child .right y)
  let h := h.setChild .right y (h.child .right z)
  let right ← deref (h.child .right y)
  .ok (h.setParent right (some y))

/-- `rb_delete` puts `y` in the place of `z`. -/
def replace (h : Heap N K) (z y : N) : Except Fault (Heap N K) := do
  let h := h.rbTransplant z (some y)
  let h := h.setChild .left y (h.child .left z)
  let left ← deref (h.child .left y)
  let h := h.setParent left (some y)
  .ok (h.setColor y (h.color z))

/-- The branch of `rb_delete` for a node with two children: the heap, the color that `y` had,
`x` and `x_parent`. -/
def splice (rounds : Nat) (h : Heap N K) (z : N) :
    Except Fault (Heap N K × Color × Option N × Option N) := do
  let y ← deref (← h.rbFirst rounds (h.child .right z))
  let color := h.color y
  let x := h.child .right y
  if h.parent y = some z then
    let h ← h.replace z y
    .ok (h, color, x, some y)
  else
    let xParent := h.parent y
    let h ← h.detach z y
    let h ← h.replace z y
    .ok (h, color, x, xParent)

def rbDelete (rounds : Nat) (h : Heap N K) (z : N) : Except Fault (Heap N K) := do
  let (h, color, x, xParent) ←
    match h.child .left z, h.child .right z with
    | none, x => .ok (h.rbTransplant z x, h.color z, x, h.parent z)
    | x, none => .ok (h.rbTransplant z x, h.color z, x, h.parent z)
    | _, _ => splice rounds h z
  if color = .black then deleteFixup rounds h x xParent else .ok h

/-! ## More rounds

A loop that returns within some rounds returns the same within more of them. -/

section Rounds

open Outcome

variable {rounds more : Nat}

section

variable (le : rounds ≤ more)
include le

theorem insertLoop_below (h : Heap N K) (z : N) :
    Below (insertLoop rounds h z) (insertLoop more h z) := by
  induction rounds generalizing more h z with
  | zero => exact .error
  | succ rounds ih =>
    obtain ⟨more, rfl⟩ : ∃ k, more = k + 1 := ⟨more - 1, by omega⟩
    rw [insertLoop, insertLoop]
    cases h.parent z with
    | none => exact .refl _
    | some p =>
      refine .ite (.bind (.refl _) fun g => .bind (.refl _) fun next => ?_) (.refl _)
      exact ih (by omega) next.1 next.2

omit [DecidableEq N] in
theorem descend_below [LT K] [DecidableLT K] (h : Heap N K) (z : N)
    (y x : Option N) : Below (descend h z rounds y x) (descend h z more y x) := by
  induction rounds generalizing more y x with
  | zero => exact .error
  | succ rounds ih =>
    obtain ⟨more, rfl⟩ : ∃ k, more = k + 1 := ⟨more - 1, by omega⟩
    cases x with
    | none => exact .refl _
    | some x =>
      exact .ite (ih (by omega) _ _) (ih (by omega) _ _)

theorem deleteFixup_below (h : Heap N K) (x xParent : Option N) :
    Below (deleteFixup rounds h x xParent) (deleteFixup more h x xParent) := by
  induction rounds generalizing more h x xParent with
  | zero => exact .error
  | succ rounds ih =>
    obtain ⟨more, rfl⟩ : ∃ k, more = k + 1 := ⟨more - 1, by omega⟩
    refine .ite (.bind (.refl _) fun p => .bind (.refl _) fun next => ?_) (.refl _)
    exact ih (by omega) next.1 next.2.1 next.2.2

omit [DecidableEq N] in
theorem lastOn_below (d : Dir) (h : Heap N K) (n : N) :
    Below (lastOn d h rounds n) (lastOn d h more n) := by
  induction rounds generalizing more n with
  | zero => exact .error
  | succ rounds ih =>
    obtain ⟨more, rfl⟩ : ∃ k, more = k + 1 := ⟨more - 1, by omega⟩
    rw [lastOn, lastOn]
    cases h.child d n with
    | none => exact .refl _
    | some m => exact ih (by omega) m

omit [DecidableEq N] in
theorem extreme_below (d : Dir) (h : Heap N K) (p : Option N) :
    Below (extreme d h rounds p) (extreme d h more p) := by
  cases p with
  | none => exact .refl _
  | some n => exact .bind (lastOn_below le d h n) fun m => .refl _

theorem rbInsert_below [LT K] [DecidableLT K] (h : Heap N K) (z : N) :
    Below (rbInsert rounds h z) (rbInsert more h z) :=
  .bind (descend_below le h z none h.root) fun y =>
    .bind (insertLoop_below le (h.link y z) z) fun _ => .refl _

theorem splice_below (h : Heap N K) (z : N) : Below (splice rounds h z) (splice more h z) :=
  .bind (extreme_below le .left h (h.child .right z)) fun _ => .refl _

theorem rbDelete_below (h : Heap N K) (z : N) :
    Below (rbDelete rounds h z) (rbDelete more h z) := by
  rw [rbDelete, rbDelete]
  cases h.child .left z with
  | none => exact .ite (deleteFixup_below le _ _ _) (.refl _)
  | some l =>
    cases h.child .right z with
    | none => exact .ite (deleteFixup_below le _ _ _) (.refl _)
    | some r =>
      refine .bind (splice_below le h z) fun next => ?_
      exact .ite (deleteFixup_below le next.1 next.2.2.1 next.2.2.2) (.refl _)

end

end Rounds

end Heap

end Xv6.RbTree

import Mathlib.Tactic

/-!
# Red-black trees seen from a node

A tree with one subtree taken out is a list of frames, the parent of the hole first. The
invariant splits into one for the subtree and one for the frames.
-/

namespace Xv6.RedBlack

variable {k : Nat}

inductive Dir where
  | left
  | right
  deriving DecidableEq, Repr

def Dir.other : Dir → Dir
  | .left => .right
  | .right => .left

@[simp]
theorem Dir.other_ne (d : Dir) : d.other ≠ d := by
  cases d <;> decide

@[simp]
theorem Dir.ne_other (d : Dir) : d ≠ d.other := by
  cases d <;> decide

theorem Dir.eq_or (d e : Dir) : e = d ∨ e = d.other := by
  cases d <;> cases e <;> simp [Dir.other]

inductive Color where
  | red
  | black
  deriving DecidableEq, Repr

theorem Color.ne_red {c : Color} : c ≠ .red ↔ c = .black := by
  cases c <;> simp

inductive ColorTree (N : Type*) where
  | nil
  | node (c : Color) (l : ColorTree N) (n : N) (r : ColorTree N)

variable {N : Type*}

namespace ColorTree

def ptr : ColorTree N → Option N
  | nil => none
  | node _ _ n _ => some n

/-- The color of the root; nothing is black. -/
def color : ColorTree N → Color
  | nil => .black
  | node c _ _ _ => c

def inorder : ColorTree N → List N
  | nil => []
  | node _ l n r => l.inorder ++ n :: r.inorder

/-- The node with one subtree on the given side and one on the other. -/
def branch (d : Dir) (c : Color) (a : ColorTree N) (n : N) (b : ColorTree N) : ColorTree N :=
  match d with
  | .left => node c a n b
  | .right => node c b n a

section

variable (d : Dir) (c : Color) (a : ColorTree N) (n : N) (b : ColorTree N)

@[simp]
theorem ptr_branch : (branch d c a n b).ptr = some n := by
  cases d <;> rfl

@[simp]
theorem color_branch : (branch d c a n b).color = c := by
  cases d <;> rfl

theorem branch_other : branch d.other c a n b = branch d c b n a := by
  cases d <;> rfl

end

variable {n : N} {a b : ColorTree N} {d : Dir}

theorem mem_inorder_branch {c : Color} {m : N} :
    m ∈ (branch d c a n b).inorder ↔ m = n ∨ m ∈ a.inorder ∨ m ∈ b.inorder := by
  cases d <;> (simp [branch, inorder]; try tauto)

theorem inorder_branch_perm (d : Dir) (c : Color) (a : ColorTree N) (n : N) (b : ColorTree N) :
    (branch d c a n b).inorder.Perm (n :: (a.inorder ++ b.inorder)) := by
  cases d with
  | left => exact List.perm_middle
  | right => exact List.perm_middle.trans (List.perm_append_comm.cons n)

theorem exists_branch {t : ColorTree N} {n : N} (root : t.ptr = some n) (d : Dir) :
    ∃ c a b, t = branch d c a n b := by
  cases t with
  | nil => cases root
  | node c l m r =>
    cases root
    cases d with
    | left => exact ⟨c, l, r, rfl⟩
    | right => exact ⟨c, r, l, rfl⟩

variable {t : ColorTree N}

theorem ptr_eq_none : t.ptr = none ↔ t = nil := by
  cases t <;> simp [ptr]

theorem ptr_mem (root : t.ptr = some n) : n ∈ t.inorder := by
  obtain ⟨c, a, b, rfl⟩ := exists_branch root .left
  exact mem_inorder_branch.mpr (.inl rfl)

theorem exists_red (red : t.color = .red) (d : Dir) : ∃ a n b, t = branch d .red a n b := by
  cases t with
  | nil => cases red
  | node c l n r =>
    obtain ⟨c', a, b, same⟩ := @exists_branch N (node c l n r) n rfl d
    refine ⟨a, n, b, ?_⟩
    rw [same] at red ⊢
    rw [color_branch] at red
    rw [red]

/-! ## Rotations -/

theorem inorder_rotate (d : Dir) (c c' c₂ c₂' : Color) (a b e : ColorTree N) (x y : N) :
    (branch d c' (branch d c a x b) y e).inorder =
      (branch d c₂ a x (branch d c₂' b y e)).inorder := by
  cases d <;> simp [branch, inorder]

theorem inorder_recolor (d : Dir) (c c' : Color) {a' b' : ColorTree N} (n : N)
    (left : a.inorder = a'.inorder) (right : b.inorder = b'.inorder) :
    (branch d c a n b).inorder = (branch d c' a' n b').inorder := by
  cases d <;> simp [branch, inorder, left, right]

/-! ## The invariant -/

/-- No red node has a red child, and each path has `k` black nodes. -/
def Ok : ColorTree N → Nat → Prop
  | nil, k => k = 0
  | node .red l _ r, k => l.Ok k ∧ r.Ok k ∧ l.color = .black ∧ r.color = .black
  | node .black l _ r, k => ∃ j, k = j + 1 ∧ l.Ok j ∧ r.Ok j

structure Valid (t : ColorTree N) : Prop where
  root : t.color = .black
  ok : ∃ k, t.Ok k

theorem ok_red :
    (branch d .red a n b).Ok k ↔ a.Ok k ∧ b.Ok k ∧ a.color = .black ∧ b.color = .black := by
  cases d <;> (simp only [branch, Ok]; try tauto)

theorem ok_black : (branch d .black a n b).Ok (k + 1) ↔ a.Ok k ∧ b.Ok k := by
  cases d with
  | left => simp [branch, Ok]
  | right =>
    simp only [branch, Ok, Nat.add_right_cancel_iff]
    constructor
    · rintro ⟨j, rfl, first, second⟩
      exact ⟨second, first⟩
    · rintro ⟨first, second⟩
      exact ⟨k, rfl, second, first⟩

theorem ok_black_zero : ¬(branch d .black a n b).Ok 0 := by
  cases d <;> simp [branch, Ok]

theorem Ok.exists_black (ok : t.Ok (k + 1)) (black : t.color = .black)
    (d : Dir) : ∃ a n b, t = branch d .black a n b ∧ a.Ok k ∧ b.Ok k := by
  cases t with
  | nil => cases ok
  | node c l n r =>
    obtain ⟨c', a, b, same⟩ := @exists_branch N (node c l n r) n rfl d
    rw [same] at black ok
    rw [color_branch] at black
    subst black
    exact ⟨a, n, b, same, ok_black.mp ok⟩

theorem Ok.blacken (ok : (branch d .red a n b).Ok k) : (branch d .black a n b).Ok (k + 1) :=
  ok_black.mpr ⟨(ok_red.mp ok).1, (ok_red.mp ok).2.1⟩

def blackened : ColorTree N → ColorTree N
  | nil => nil
  | node _ l n r => node .black l n r

theorem inorder_blackened (t : ColorTree N) : t.blackened.inorder = t.inorder := by
  cases t <;> rfl

theorem color_blackened (t : ColorTree N) : t.blackened.color = .black := by
  cases t <;> rfl

theorem blackened_of_black (black : t.color = .black) : t.blackened = t := by
  cases t with
  | nil => rfl
  | node c l n r =>
    cases black
    rfl

theorem Ok.blackened (ok : t.Ok k) (red : t.color = .red) : t.blackened.Ok (k + 1) := by
  obtain ⟨a, n, b, rfl⟩ := exists_red red .left
  exact Ok.blacken (d := .left) ok

end ColorTree

/-! ## Frames -/

/-- A node without its subtree on one side. -/
structure Frame (N : Type*) where
  d : Dir
  c : Color
  n : N
  sibling : ColorTree N

abbrev Context (N : Type*) := List (Frame N)

def Frame.plug (f : Frame N) (t : ColorTree N) : ColorTree N := .branch f.d f.c t f.n f.sibling

namespace Context

def plug : Context N → ColorTree N → ColorTree N
  | [], t => t
  | f :: ctx, t => plug ctx (f.plug t)

def parent : Context N → Option N
  | [] => none
  | f :: _ => some f.n

def nodes : Context N → List N
  | [] => []
  | f :: ctx => f.n :: (f.sibling.inorder ++ nodes ctx)

def before : Context N → List N
  | [] => []
  | ⟨.left, _, _, _⟩ :: ctx => before ctx
  | ⟨.right, _, n, s⟩ :: ctx => before ctx ++ (s.inorder ++ [n])

def after : Context N → List N
  | [] => []
  | ⟨.left, _, n, s⟩ :: ctx => (n :: s.inorder) ++ after ctx
  | ⟨.right, _, _, _⟩ :: ctx => after ctx

theorem inorder_plug (ctx : Context N) (t : ColorTree N) :
    (plug ctx t).inorder = before ctx ++ t.inorder ++ after ctx := by
  induction ctx generalizing t with
  | nil => simp [plug, before, after]
  | cons f ctx ih =>
    obtain ⟨d, c, n, s⟩ := f
    rw [plug, ih]
    cases d <;> simp [Frame.plug, ColorTree.branch, ColorTree.inorder, before, after]

variable {t : ColorTree N}

theorem inorder_plug_congr {ctx : Context N} {t' : ColorTree N} (same : t.inorder = t'.inorder) :
    (plug ctx t).inorder = (plug ctx t').inorder := by
  rw [inorder_plug, inorder_plug, same]

theorem inorder_plug_perm (ctx : Context N) (t : ColorTree N) :
    (plug ctx t).inorder.Perm (t.inorder ++ nodes ctx) := by
  induction ctx generalizing t with
  | nil => simp [plug, nodes]
  | cons f ctx ih =>
    refine (ih _).trans ?_
    refine ((ColorTree.inorder_branch_perm ..).append_right _).trans ?_
    rw [List.cons_append, List.append_assoc]
    exact List.perm_middle.symm

theorem plug_append (inner outer : Context N) (t : ColorTree N) :
    plug (inner ++ outer) t = plug outer (plug inner t) := by
  induction inner generalizing t with
  | nil => rfl
  | cons f inner ih => exact ih _

theorem nodes_append (inner outer : Context N) :
    nodes (inner ++ outer) = nodes inner ++ nodes outer := by
  induction inner with
  | nil => rfl
  | cons f inner ih =>
    rw [List.cons_append, nodes, nodes, ih, List.cons_append, List.append_assoc]

theorem ptr_plug_cons (f : Frame N) (ctx : Context N) (t : ColorTree N) :
    ∃ n, (plug (f :: ctx) t).ptr = some n := by
  induction ctx generalizing f t with
  | nil => exact ⟨f.n, ColorTree.ptr_branch ..⟩
  | cons g ctx ih => exact ih g (f.plug t)

theorem length_le_nodes (ctx : Context N) : ctx.length ≤ (nodes ctx).length := by
  induction ctx with
  | nil => exact le_refl 0
  | cons f ctx ih =>
    rw [nodes, List.length_cons, List.length_cons, List.length_append]
    omega

theorem length_le_inorder (ctx : Context N) (t : ColorTree N) :
    ctx.length ≤ (plug ctx t).inorder.length := by
  rw [(inorder_plug_perm ctx t).length_eq, List.length_append]
  exact le_trans (length_le_nodes ctx) (Nat.le_add_left _ _)

theorem before_of_left {spine : Context N} (sides : ∀ f ∈ spine, f.d = .left) :
    before spine = [] := by
  induction spine with
  | nil => rfl
  | cons f spine ih =>
    obtain ⟨d, c, n, s⟩ := f
    have side : d = .left := sides _ List.mem_cons_self
    subst side
    exact ih fun f mem => sides f (List.mem_cons_of_mem _ mem)

theorem after_of_right {spine : Context N} (sides : ∀ f ∈ spine, f.d = .right) :
    after spine = [] := by
  induction spine with
  | nil => rfl
  | cons f spine ih =>
    obtain ⟨d, c, n, s⟩ := f
    have side : d = .right := sides _ List.mem_cons_self
    subst side
    exact ih fun f mem => sides f (List.mem_cons_of_mem _ mem)

theorem exists_plug {n : N} (mem : n ∈ t.inorder) :
    ∃ ctx c l r, t = plug ctx (.node c l n r) := by
  induction t with
  | nil => cases mem
  | node c l m r left right =>
    rw [ColorTree.inorder, List.mem_append, List.mem_cons] at mem
    rcases mem with inside | rfl | inside
    · obtain ⟨ctx, c', l', r', rfl⟩ := left inside
      exact ⟨ctx ++ [⟨.left, c, m, r⟩], c', l', r', by rw [plug_append]; rfl⟩
    · exact ⟨[], c, l, r, rfl⟩
    · obtain ⟨ctx, c', l', r', rfl⟩ := right inside
      exact ⟨ctx ++ [⟨.right, c, m, l⟩], c', l', r', by rw [plug_append]; rfl⟩

/-! ## The invariant around the hole -/

/-- A red subtree may be in the hole. -/
def TakesRed : Context N → Prop
  | [] => False
  | f :: _ => f.c = .black

/-- The invariant for a hole with `k` black nodes on each path in it. -/
def Ok : Context N → Nat → Prop
  | [], _ => True
  | ⟨_, .red, _, s⟩ :: ctx, k => s.Ok k ∧ s.color = .black ∧ TakesRed ctx ∧ Ok ctx k
  | ⟨_, .black, _, s⟩ :: ctx, k => s.Ok k ∧ Ok ctx (k + 1)

theorem valid_plug_iff {ctx : Context N} :
    (plug ctx t).Valid ↔ ∃ k, Ok ctx k ∧ t.Ok k ∧ (t.color = .red → TakesRed ctx) := by
  induction ctx generalizing t with
  | nil =>
    constructor
    · rintro ⟨black, k, ok⟩
      rw [plug] at black ok
      exact ⟨k, trivial, ok, fun red => by rw [black] at red; cases red⟩
    · rintro ⟨k, -, ok, black⟩
      exact ⟨Color.ne_red.mp black, k, ok⟩
  | cons f ctx ih =>
    obtain ⟨d, c, n, s⟩ := f
    rw [plug, ih]
    cases c with
    | red =>
      simp only [Frame.plug, ColorTree.ok_red, ColorTree.color_branch, Ok, TakesRed]
      constructor
      · rintro ⟨k, outer, ⟨inner, sibling, black, black'⟩, takes⟩
        exact ⟨k, ⟨sibling, black', takes trivial, outer⟩, inner,
          fun red => by rw [black] at red; cases red⟩
      · rintro ⟨k, ⟨sibling, black', takes, outer⟩, inner, black⟩
        have plain : t.color = .black := Color.ne_red.mp fun red => nomatch black red
        exact ⟨k, outer, ⟨inner, sibling, plain, black'⟩, fun _ => takes⟩
    | black =>
      simp only [Frame.plug, ColorTree.color_branch, Ok, TakesRed]
      constructor
      · rintro ⟨k, outer, inner, -⟩
        cases k with
        | zero => exact absurd inner ColorTree.ok_black_zero
        | succ k =>
          obtain ⟨first, second⟩ := ColorTree.ok_black.mp inner
          exact ⟨k, ⟨second, outer⟩, first, fun _ => trivial⟩
      · rintro ⟨k, ⟨sibling, outer⟩, inner, -⟩
        exact ⟨k + 1, outer, ColorTree.ok_black.mpr ⟨inner, sibling⟩, nofun⟩

end Context

end Xv6.RedBlack

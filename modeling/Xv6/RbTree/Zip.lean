import Xv6.RbTree.Model

/-!
# A heap that holds a tree

`Zip h ctx t` says that the pointers of the heap are those of the tree `t` in the context `ctx`.
-/

namespace Xv6.RbTree

open RedBlack ColorTree Context Function

variable {N K : Type} {t : ColorTree N} {h' : Heap N K}

namespace Heap

/-- The subtree below a pointer, whose parent is `q`. -/
def Holds (h : Heap N K) : Option N → ColorTree N → Prop
  | _, .nil => True
  | q, .node c l n r =>
    h.color n = c ∧ h.parent n = q ∧ h.child .left n = l.ptr ∧ h.child .right n = r.ptr ∧
      Holds h (some n) l ∧ Holds h (some n) r

/-- What surrounds the pointer `p`. -/
def Around (h : Heap N K) : Context N → Option N → Prop
  | [], p => h.root = p
  | f :: ctx, p =>
    h.color f.n = f.c ∧ h.parent f.n = Context.parent ctx ∧ h.child f.d f.n = p ∧
      h.child f.d.other f.n = f.sibling.ptr ∧ Holds h (some f.n) f.sibling ∧
      Around h ctx (some f.n)

theorem holds_branch {h : Heap N K} {q : Option N} {d : Dir} {c : Color}
    {a b : ColorTree N} {n : N} : h.Holds q (.branch d c a n b) ↔
      h.color n = c ∧ h.parent n = q ∧ h.child d n = a.ptr ∧ h.child d.other n = b.ptr ∧
        h.Holds (some n) a ∧ h.Holds (some n) b := by
  cases d <;> (simp only [branch, Holds, Dir.other]; try tauto)

def SameAt (h h' : Heap N K) (n : N) : Prop :=
  h'.color n = h.color n ∧ h'.parent n = h.parent n ∧ ∀ d, h'.child d n = h.child d n

theorem Holds.congr {h : Heap N K} {q : Option N} (holds : h.Holds q t)
    (same : ∀ n ∈ t.inorder, SameAt h h' n) : h'.Holds q t := by
  induction t generalizing q with
  | nil => trivial
  | node c l n r left right =>
    obtain ⟨color, parent, leftChild, rightChild, holdsLeft, holdsRight⟩ := holds
    obtain ⟨sameColor, sameParent, sameChild⟩ := same n (by simp [inorder])
    refine ⟨by rw [sameColor, color], by rw [sameParent, parent], by rw [sameChild, leftChild],
      by rw [sameChild, rightChild], left holdsLeft fun m mem => same m ?_,
      right holdsRight fun m mem => same m ?_⟩
    · simp [inorder, mem]
    · simp [inorder, mem]

theorem Around.congr {h : Heap N K} {ctx : Context N} {p : Option N} (around : h.Around ctx p)
    (root : h'.root = h.root) (same : ∀ n ∈ Context.nodes ctx, SameAt h h' n) :
    h'.Around ctx p := by
  induction ctx generalizing p with
  | nil => exact root.trans around
  | cons f ctx ih =>
    obtain ⟨color, parent, child, other, holds, rest⟩ := around
    obtain ⟨sameColor, sameParent, sameChild⟩ := same f.n (by simp [Context.nodes])
    refine ⟨by rw [sameColor, color], by rw [sameParent, parent], by rw [sameChild, child],
      by rw [sameChild, other], holds.congr fun m mem => same m ?_,
      ih rest fun m mem => same m ?_⟩
    · simp [Context.nodes, mem]
    · simp [Context.nodes, mem]

theorem Holds.reparent {h : Heap N K} {q q' : Option N} (holds : h.Holds q t)
    (nodup : t.inorder.Nodup)
    (inside : ∀ n ∈ t.inorder, t.ptr ≠ some n → SameAt h h' n)
    (root : ∀ n, t.ptr = some n →
      h'.color n = h.color n ∧ h'.parent n = q' ∧ ∀ d, h'.child d n = h.child d n) :
    h'.Holds q' t := by
  cases t with
  | nil => trivial
  | node c l n r =>
    obtain ⟨color, parent, leftChild, rightChild, holdsLeft, holdsRight⟩ := holds
    obtain ⟨sameColor, newParent, sameChild⟩ := root n rfl
    have apart : ∀ m, m ∈ l.inorder ∨ m ∈ r.inorder → ptr (.node c l n r) ≠ some m := by
      intro m mem same
      cases same
      rw [inorder, List.nodup_middle, List.nodup_cons, List.mem_append] at nodup
      exact nodup.1 mem
    refine ⟨by rw [sameColor, color], newParent, by rw [sameChild, leftChild],
      by rw [sameChild, rightChild],
      holdsLeft.congr fun m mem => inside m ?_ (apart m (.inl mem)),
      holdsRight.congr fun m mem => inside m ?_ (apart m (.inr mem))⟩
    · simp [inorder, mem]
    · simp [inorder, mem]

/-- The heap holds the tree `t` in the context `ctx`. -/
structure Zip (h : Heap N K) (ctx : Context N) (t : ColorTree N) : Prop where
  inside : h.Holds (Context.parent ctx) t
  around : h.Around ctx t.ptr
  nodup : (t.inorder ++ Context.nodes ctx).Nodup

theorem zip_cons_iff {h : Heap N K} {f : Frame N} {ctx : Context N} :
    h.Zip (f :: ctx) t ↔ h.Zip ctx (f.plug t) := by
  have perm : (t.inorder ++ Context.nodes (f :: ctx)).Perm
      ((f.plug t).inorder ++ Context.nodes ctx) := by
    refine List.perm_middle.trans ?_
    rw [← List.append_assoc, ← List.cons_append]
    exact ((inorder_branch_perm ..).append_right _).symm
  constructor
  · rintro ⟨inside, ⟨color, parent, child, other, sibling, around⟩, nodup⟩
    refine ⟨holds_branch.mpr ⟨color, parent, child, other, inside, sibling⟩, ?_,
      perm.nodup_iff.mp nodup⟩
    rw [Frame.plug, ptr_branch]
    exact around
  · rintro ⟨inside, around, nodup⟩
    obtain ⟨color, parent, child, other, holds, sibling⟩ := holds_branch.mp inside
    rw [Frame.plug, ptr_branch] at around
    exact ⟨holds, ⟨color, parent, child, other, sibling, around⟩, perm.nodup_iff.mpr nodup⟩

theorem zip_plug_iff {h : Heap N K} {ctx ctx' : Context N} :
    h.Zip (ctx ++ ctx') t ↔ h.Zip ctx' (plug ctx t) := by
  induction ctx generalizing t with
  | nil => rfl
  | cons f ctx ih =>
    rw [List.cons_append, zip_cons_iff, ih]
    rfl

theorem zip_nil_iff {h : Heap N K} {ctx : Context N} :
    h.Zip ctx t ↔ h.Zip [] (plug ctx t) := by
  rw [← zip_plug_iff, List.append_nil]

namespace Zip

variable {h : Heap N K} {ctx : Context N} {d : Dir} {c : Color} {a b : ColorTree N} {n : N}

section

variable (zip : h.Zip ctx (.branch d c a n b))
include zip

theorem color : h.color n = c := (holds_branch.mp zip.inside).1

theorem parent : h.parent n = Context.parent ctx := (holds_branch.mp zip.inside).2.1

theorem near : h.child d n = a.ptr := (holds_branch.mp zip.inside).2.2.1

theorem far : h.child d.other n = b.ptr := (holds_branch.mp zip.inside).2.2.2.1

theorem down : h.Zip (⟨d, c, n, b⟩ :: ctx) a := zip_cons_iff.mpr zip

theorem downOther : h.Zip (⟨d.other, c, n, a⟩ :: ctx) b :=
  zip_cons_iff.mpr (by rw [Frame.plug, branch_other]; exact zip)

end

theorem up (zip : h.Zip (⟨d, c, n, b⟩ :: ctx) a) : h.Zip ctx (.branch d c a n b) :=
  zip_cons_iff.mp zip

theorem upOther (zip : h.Zip (⟨d.other, c, n, a⟩ :: ctx) b) : h.Zip ctx (.branch d c a n b) := by
  have moved := zip_cons_iff.mp zip
  rwa [Frame.plug, branch_other] at moved

theorem isRed_iff (zip : h.Zip ctx t) : h.isRed t.ptr = true ↔ t.color = .red := by
  cases t with
  | nil => simp [isRed, ptr, ColorTree.color]
  | node c l n r =>
    have color : h.color n = c := zip.inside.1
    simp [isRed, ptr, ColorTree.color, color]

theorem isBlack_iff (zip : h.Zip ctx t) : h.isBlack t.ptr = true ↔ t.color = .black := by
  cases t with
  | nil => simp [isBlack, ptr, ColorTree.color]
  | node c l n r =>
    have color : h.color n = c := zip.inside.1
    simp [isBlack, ptr, ColorTree.color, color]

theorem not_mem (zip : h.Zip ctx (.branch d c a n b)) :
    n ∉ a.inorder ∧ n ∉ b.inorder ∧ n ∉ Context.nodes ctx := by
  have nodup := ((inorder_branch_perm d c a n b).append_right _).nodup_iff.mp zip.nodup
  rw [List.cons_append, List.nodup_cons, List.mem_append, List.mem_append, not_or, not_or] at nodup
  exact ⟨nodup.1.1.1, nodup.1.1.2, nodup.1.2⟩

theorem apart (zip : h.Zip ctx (.branch d c a n b)) :
    a.inorder.Nodup ∧ b.inorder.Nodup ∧ (∀ m ∈ a.inorder, m ∉ b.inorder) ∧
      (∀ m ∈ a.inorder, m ∉ Context.nodes ctx) ∧ ∀ m ∈ b.inorder, m ∉ Context.nodes ctx := by
  have nodup := ((inorder_branch_perm d c a n b).append_right _).nodup_iff.mp zip.nodup
  rw [List.cons_append, List.nodup_cons, List.append_assoc, List.nodup_append, List.nodup_append]
    at nodup
  obtain ⟨-, first, ⟨second, -, apart⟩, apart'⟩ := nodup
  refine ⟨first, second, fun m left right => ?_, fun m left right => ?_, fun m left right => ?_⟩
  · exact apart' m left m (List.mem_append_left _ right) rfl
  · exact apart' m left m (List.mem_append_right _ right) rfl
  · exact apart m left m right rfl

section

variable {s : ColorTree N} (zip : h.Zip (⟨d, c, n, s⟩ :: ctx) t)
  (some : t.ptr ≠ none ∨ s.ptr ≠ none)
include zip some

theorem ptr_ne : t.ptr ≠ s.ptr := by
  intro same
  obtain ⟨-, -, apart, -⟩ := zip.up.apart
  cases root : t.ptr with
  | none =>
    rw [← same, root] at some
    tauto
  | some m => exact apart m (ptr_mem root) (ptr_mem (same ▸ root))

theorem side_eq [DecidableEq N] :
    (if h.child .left n = t.ptr then Dir.left else Dir.right) = d := by
  obtain ⟨-, -, child, other, -⟩ := zip.around
  cases d with
  | left => exact if_pos child
  | right =>
    change h.child .left n = _ at other
    rw [other]
    exact if_neg fun same => zip.ptr_ne some same.symm

end

variable [DecidableEq N]

theorem setColor (zip : h.Zip ctx (.branch d c a n b)) (c' : Color) :
    (h.setColor n c').Zip ctx (.branch d c' a n b) := by
  obtain ⟨notLeft, notRight, notAround⟩ := zip.not_mem
  have same : ∀ m, m ≠ n → SameAt h (h.setColor n c') m := fun m other =>
    ⟨update_of_ne other .., rfl, fun _ => rfl⟩
  obtain ⟨-, parent, near, far, holdsNear, holdsFar⟩ := holds_branch.mp zip.inside
  refine ⟨holds_branch.mpr ⟨update_self .., parent, near, far, ?_, ?_⟩, ?_, ?_⟩
  · exact holdsNear.congr fun m mem => same m fun here => notLeft (here ▸ mem)
  · exact holdsFar.congr fun m mem => same m fun here => notRight (here ▸ mem)
  · have around := zip.around
    rw [ptr_branch] at around ⊢
    exact around.congr rfl fun m mem => same m fun here => notAround (here ▸ mem)
  · refine (((inorder_branch_perm ..).trans (inorder_branch_perm ..).symm).append_right
      _).nodup_iff.mp zip.nodup

end Zip

/-! ## Redirection -/

variable [DecidableEq N]

theorem redirect_around {h : Heap N K} {ctx : Context N} {u : N} (around : h.Around ctx (some u))
    (parent : h.parent u = Context.parent ctx) (nodup : (Context.nodes ctx).Nodup)
    (fresh : u ∉ Context.nodes ctx) (v : Option N) :
    (h.redirect u v).Around ctx v ∧ (h.redirect u v).color = h.color ∧
      (h.redirect u v).parent = h.parent ∧ (h.redirect u v).key = h.key ∧
      ∀ d n, n ∉ Context.nodes ctx → (h.redirect u v).child d n = h.child d n := by
  cases ctx with
  | nil =>
    have result : h.redirect u v = { h with root := v } := by
      rw [redirect, parent]
      rfl
    rw [result]
    exact ⟨rfl, rfl, rfl, rfl, fun _ _ _ => rfl⟩
  | cons f ctx =>
    obtain ⟨color, up, child, other, sibling, rest⟩ := around
    rw [Context.nodes, List.nodup_cons, List.mem_append, not_or] at nodup
    obtain ⟨⟨notSibling, notRest⟩, -⟩ := nodup
    have result : h.redirect u v = h.setChild f.d f.n v := by
      rw [redirect, parent]
      dsimp only [Context.parent]
      cases side : f.d with
      | left =>
        rw [side] at child
        rw [if_pos child]
      | right =>
        rw [side] at other
        change h.child .left f.n = _ at other
        rw [if_neg]
        rw [other]
        intro same
        exact fresh (List.mem_cons_of_mem _ (List.mem_append_left _ (ptr_mem same)))
    have same : ∀ m, m ≠ f.n → SameAt h (h.setChild f.d f.n v) m := fun m apart =>
      ⟨rfl, rfl, fun d => if_neg fun both => apart both.2⟩
    rw [result]
    refine ⟨⟨color, up, if_pos ⟨rfl, rfl⟩, ?_, ?_, ?_⟩, rfl, rfl, rfl, fun d n outside => ?_⟩
    · exact (if_neg fun both => f.d.other_ne both.1).trans other
    · exact sibling.congr fun m mem => same m fun here => notSibling (here ▸ mem)
    · exact rest.congr rfl fun m mem => same m fun here => notRest (here ▸ mem)
    · refine if_neg fun both => outside ?_
      rw [both.2]
      exact List.mem_cons_self

/-! ## Rotations -/

section Fields

variable (h : Heap N K) (m : N) (p q : Option N)

theorem setParentOf_parent :
    (h.setParentOf p q).parent m = if p = some m then q else h.parent m := by
  cases p with
  | none => rfl
  | some k =>
    by_cases same : m = k
    · subst same
      rw [if_pos rfl]
      exact update_self ..
    · rw [if_neg fun equal => same (Option.some.inj equal).symm]
      exact update_of_ne same ..

theorem setParentOf_child : (h.setParentOf p q).child = h.child := by
  cases p <;> rfl

theorem setParentOf_color : (h.setParentOf p q).color = h.color := by
  cases p <;> rfl

theorem setParentOf_key : (h.setParentOf p q).key = h.key := by
  cases p <;> rfl

theorem setParentOf_root : (h.setParentOf p q).root = h.root := by
  cases p <;> rfl

end Fields

/-- A rotation. -/
theorem rotate_zip {h : Heap N K} {ctx : Context N} {d : Dir} {c c' : Color}
    {a b e : ColorTree N} {x y : N}
    (zip : h.Zip ctx (.branch d c a x (.branch d c' b y e))) :
    ∃ h', rotate d h x = .ok h' ∧ h'.Zip ctx (.branch d c' (.branch d c a x b) y e) ∧
      h'.key = h.key := by
  have lower := zip.downOther
  have childX := zip.far
  rw [ptr_branch] at childX
  have childY := lower.near
  obtain ⟨xa, xy, xctx⟩ := zip.not_mem
  rw [mem_inorder_branch, not_or, not_or] at xy
  obtain ⟨differ, xb, xe⟩ := xy
  obtain ⟨yb, ye, yctx⟩ := lower.not_mem
  rw [Context.nodes, List.mem_cons, List.mem_append, not_or, not_or] at yctx
  obtain ⟨-, ya, yctx⟩ := yctx
  obtain ⟨nodupA, -, ab, actx, bectx⟩ := zip.apart
  obtain ⟨nodupB, -, be, -, -⟩ := lower.apart
  have bctx : ∀ m ∈ b.inorder, m ∉ Context.nodes ctx := fun m mem =>
    bectx m (mem_inorder_branch.mpr (.inr (.inl mem)))
  have ectx : ∀ m ∈ e.inorder, m ∉ Context.nodes ctx := fun m mem =>
    bectx m (mem_inorder_branch.mpr (.inr (.inr mem)))
  have rootB : ∀ {m}, b.ptr = some m → m ∈ b.inorder := fun root => ptr_mem root
  -- The heap when the parent of `x` is redirected.
  let h₁ := h.setChild d.other x b.ptr
  let h₂ := h₁.setParentOf b.ptr (some x)
  let h₃ := h₂.setParent y (h₂.parent x)
  have parentX : h₂.parent x = h.parent x := by
    rw [setParentOf_parent, if_neg fun root => xb (rootB root)]
    rfl
  have parent₃ : ∀ m, h₃.parent m = if m = y then h.parent x else
      if b.ptr = some m then some x else h.parent m := by
    intro m
    change update h₂.parent y (h₂.parent x) m = _
    rw [update_apply, parentX]
    split
    · rfl
    · exact setParentOf_parent ..
  have child₃ : ∀ k m, h₃.child k m = if k = d.other ∧ m = x then b.ptr else h.child k m := by
    intro k m
    change h₂.child k m = _
    rw [setParentOf_child]
    rfl
  have color₃ : h₃.color = h.color := setParentOf_color ..
  have key₃ : h₃.key = h.key := setParentOf_key ..
  have around₃ : h₃.Around ctx (some x) := by
    have around := zip.around
    rw [ptr_branch] at around
    refine around.congr (setParentOf_root ..) fun m mem => ⟨?_, ?_, fun k => ?_⟩
    · rw [color₃]
    · have notY : m ≠ y := fun same => yctx (same ▸ mem)
      rw [parent₃, if_neg notY, if_neg fun root => bctx m (rootB root) mem]
    · have notX : ¬(k = d.other ∧ m = x) := fun both => xctx (both.2 ▸ mem)
      rw [child₃, if_neg notX]
  have up : h₃.parent x = Context.parent ctx := by
    rw [parent₃, if_neg differ, if_neg fun root => xb (rootB root)]
    exact zip.parent
  obtain ⟨around₄, color₄, parent₄, key₄, child₄⟩ := redirect_around around₃ up
    (List.nodup_append.mp zip.nodup).2.1 xctx (some y)
  -- The fields of all nodes outside of the context at the end.
  let h₅ := ((h₃.redirect x (some y)).setChild d y (some x)).setParent x (some y)
  have parent₅ : ∀ m, h₅.parent m = if m = x then some y else h₃.parent m := by
    intro m
    change update (h₃.redirect x (some y)).parent x (some y) m = _
    rw [update_apply, parent₄]
  have child₅ : ∀ k m, m ∉ Context.nodes ctx →
      h₅.child k m = if k = d ∧ m = y then some x else h₃.child k m := by
    intro k m outside
    rw [← child₄ k m outside]
    rfl
  have color₅ : h₅.color = h.color := color₄.trans color₃
  have result : rotate d h x = .ok h₅ := by
    have unchanged : h₁.child d y = b.ptr := (if_neg fun both => d.ne_other both.1).trans childY
    simp only [rotate, childX, deref, bind, Except.bind, childY]
    rw [show (h.setChild d.other x b.ptr).child d y = b.ptr from unchanged]
  have same : ∀ m, m ∉ Context.nodes ctx → m ≠ x → m ≠ y → b.ptr ≠ some m → SameAt h h₅ m := by
    intro m outside notX notY notRoot
    refine ⟨by rw [color₅], ?_, fun k => ?_⟩
    · rw [parent₅, if_neg notX, parent₃, if_neg notY, if_neg notRoot]
    · rw [child₅ k m outside, if_neg fun both => notY both.2, child₃,
        if_neg fun both => notX both.2]
  refine ⟨h₅, result, ⟨?_, ?_, ?_⟩, key₄.trans key₃⟩
  · refine holds_branch.mpr ⟨?_, ?_, ?_, ?_, holds_branch.mpr ⟨?_, ?_, ?_, ?_, ?_, ?_⟩, ?_⟩
    · rw [color₅, lower.color]
    · rw [parent₅, if_neg (Ne.symm differ), parent₃, if_pos rfl]
      exact zip.parent
    · rw [child₅ d y yctx, if_pos ⟨rfl, rfl⟩, ptr_branch]
    · rw [child₅ _ y yctx, if_neg fun both => d.other_ne both.1, child₃,
        if_neg fun both => differ both.2.symm]
      exact lower.far
    · rw [color₅, zip.color]
    · rw [parent₅, if_pos rfl]
    · rw [child₅ d x xctx, if_neg fun both => differ both.2, child₃,
        if_neg fun both => d.ne_other both.1]
      exact zip.near
    · rw [child₅ _ x xctx, if_neg fun both => d.other_ne both.1, child₃, if_pos ⟨rfl, rfl⟩]
    · refine zip.down.inside.congr fun m mem => ?_
      refine same m (actx m mem) (fun here => xa (here ▸ mem)) (fun here => ya (here ▸ mem))
        fun root => ab m mem ?_
      exact mem_inorder_branch.mpr (.inr (.inl (rootB root)))
    · refine lower.down.inside.reparent nodupB (fun m mem inner => ?_) fun m root => ?_
      · exact same m (bctx m mem) (fun here => xb (here ▸ mem))
          (fun here => yb (here ▸ mem)) inner
      · have mem := rootB root
        have notX : m ≠ x := fun here => xb (here ▸ mem)
        have notY : m ≠ y := fun here => yb (here ▸ mem)
        refine ⟨by rw [color₅], ?_, fun k => ?_⟩
        · rw [parent₅, if_neg notX, parent₃, if_neg notY, if_pos root]
        · rw [child₅ k m (bctx m mem), if_neg fun both => notY both.2, child₃,
            if_neg fun both => notX both.2]
    · refine lower.downOther.inside.congr fun m mem => ?_
      exact same m (ectx m mem) (fun here => xe (here ▸ mem)) (fun here => ye (here ▸ mem))
        fun root => be m (rootB root) mem
  · rw [ptr_branch]
    refine around₄.congr rfl fun m mem => ⟨rfl, ?_, fun k => ?_⟩
    · have notX : m ≠ x := fun here => xctx (here ▸ mem)
      rw [parent₅, if_neg notX, parent₄]
    · have notY : ¬(k = d ∧ m = y) := fun both => yctx (both.2 ▸ mem)
      exact if_neg notY
  · rw [inorder_rotate d c c' c c' a b e x y]
    exact zip.nodup

end Heap

end Xv6.RbTree

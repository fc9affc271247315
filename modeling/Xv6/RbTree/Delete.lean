import Xv6.RbTree.DeleteFixup

/-!
# `rb_delete`

A node with at most one child is replaced by that child; a node with two children by its
successor, which is first taken out of the right subtree.
-/

namespace Xv6.RbTree

open RedBlack ColorTree Context

variable {N K : Type} [DecidableEq N]
variable {h : Heap N K} {ctx : Context N} {r l : ColorTree N} {rounds : Nat} {c : Color}
    {y z : N}

namespace Heap

/-! ## `_rb_transplant` -/

theorem transplant_zip {u : N} {q : Option N}
    (around : h.Around ctx (some u)) (parent : h.parent u = Context.parent ctx)
    (fresh : u ∉ Context.nodes ctx) (holds : h.Holds q r)
    (nodup : (r.inorder ++ Context.nodes ctx).Nodup) :
    (h.rbTransplant u r.ptr).Zip ctx r ∧ (h.rbTransplant u r.ptr).key = h.key ∧
      ∀ m, m ∉ Context.nodes ctx → r.ptr ≠ some m → SameAt h (h.rbTransplant u r.ptr) m := by
  obtain ⟨nodupR, nodupCtx, apart⟩ := List.nodup_append.mp nodup
  obtain ⟨around', color', parent', key', child'⟩ :=
    redirect_around around parent nodupCtx fresh r.ptr
  have color : (h.rbTransplant u r.ptr).color = h.color := by
    rw [rbTransplant, setParentOf_color, color']
  have child : (h.rbTransplant u r.ptr).child = (h.redirect u r.ptr).child := setParentOf_child ..
  have same : ∀ m, m ∉ Context.nodes ctx → r.ptr ≠ some m →
      SameAt h (h.rbTransplant u r.ptr) m := by
    intro m outside notRoot
    refine ⟨by rw [color], ?_, fun d => ?_⟩
    · rw [rbTransplant, setParentOf_parent, if_neg notRoot, parent']
    · rw [child, child' d m outside]
  have outside : ∀ m ∈ r.inorder, m ∉ Context.nodes ctx := fun m inside mem =>
    apart m inside m mem rfl
  refine ⟨⟨?_, ?_, nodup⟩, ?_, same⟩
  · refine holds.reparent nodupR (fun m mem inner => same m (outside m mem) inner)
      fun m root => ⟨by rw [color], ?_, fun d => ?_⟩
    · rw [rbTransplant, setParentOf_parent, if_pos root, parent]
    · rw [child, child' d m (outside m (ptr_mem root))]
  · refine around'.congr (setParentOf_root ..) fun m mem => ⟨?_, ?_, fun d => ?_⟩
    · rw [color, color']
    · have notRoot : r.ptr ≠ some m := fun root => outside m (ptr_mem root) mem
      rw [rbTransplant, setParentOf_parent, if_neg notRoot]
    · rw [child]
  · rw [rbTransplant, setParentOf_key, key']

/-! ## `rb_first` and `rb_last` -/

omit [DecidableEq N] in
theorem lastOn_zip (d : Dir) {t : ColorTree N} {n : N} (zip : h.Zip ctx t) (root : t.ptr = some n)
    (enough : t.inorder.length ≤ rounds) :
    ∃ spine c m b, lastOn d h rounds n = .ok m ∧
      t = plug spine (.branch d c .nil m b) ∧ ∀ f ∈ spine, f.d = d := by
  induction rounds generalizing ctx t n with
  | zero =>
    have mem := ptr_mem root
    rw [List.length_eq_zero_iff.mp (Nat.le_zero.mp enough)] at mem
    cases mem
  | succ rounds ih =>
    obtain ⟨c, a, b, rfl⟩ := exists_branch root d
    have lengths := (inorder_branch_perm d c a n b).length_eq
    rw [List.length_cons, List.length_append] at lengths
    rw [lastOn, zip.near]
    cases next : a.ptr with
    | none =>
      rw [ptr_eq_none.mp next]
      exact ⟨[], c, n, b, rfl, rfl, by simp⟩
    | some m =>
      obtain ⟨spine, c', m', b', found, same, sides⟩ := ih zip.down next (by omega)
      refine ⟨spine ++ [⟨d, c, n, b⟩], c', m', b', found, ?_, fun f mem => ?_⟩
      · rw [plug_append, ← same]
        rfl
      · rcases List.mem_append.mp mem with inner | last
        · exact sides f inner
        · rw [List.mem_singleton] at last
          rw [last]

/-! ## The successor -/

theorem graft_zip {q : Option N} (zip : h.Zip ctx (.node c .nil y r)) (holds : h.Holds q l)
    (nodup : (inorder (.node c l y r) ++ Context.nodes ctx).Nodup) :
    ((h.setChild .left y l.ptr).setParentOf l.ptr (some y)).Zip ctx (.node c l y r) := by
  obtain ⟨color, parent, -, right, -, holdsR⟩ := zip.inside
  have parts := ((inorder_branch_perm .left c l y r).append_right _).nodup_iff.mp nodup
  rw [List.cons_append, List.nodup_cons, List.append_assoc, List.nodup_append,
    List.nodup_append] at parts
  obtain ⟨notY, nodupL, ⟨-, -, -⟩, apart⟩ := parts
  simp only [List.mem_append, not_or] at notY apart
  generalize result : (h.setChild .left y l.ptr).setParentOf l.ptr (some y) = h'
  have color' : h'.color = h.color := by
    rw [← result, setParentOf_color]
    rfl
  have parent' : ∀ m, l.ptr ≠ some m → h'.parent m = h.parent m := by
    intro m notRoot
    rw [← result, setParentOf_parent, if_neg notRoot]
    rfl
  have child' : ∀ d m, m ≠ y → h'.child d m = h.child d m := by
    intro d m other
    rw [← result, setParentOf_child]
    exact if_neg fun both => other both.2
  have notRoot : ∀ m, m ∉ l.inorder → l.ptr ≠ some m := fun m outside root =>
    outside (ptr_mem root)
  refine ⟨⟨?_, ?_, ?_, ?_, ?_, ?_⟩, ?_, nodup⟩
  · rw [color', color]
  · rw [parent' y (notRoot y notY.1), parent]
  · rw [← result, setParentOf_child]
    exact if_pos ⟨rfl, rfl⟩
  · have other : ¬(Dir.right = Dir.left ∧ y = y) := fun both => nomatch both.1
    rw [← right, ← result, setParentOf_child]
    change (if Dir.right = Dir.left ∧ y = y then l.ptr else h.child .right y) = _
    rw [if_neg other]
  · refine holds.reparent nodupL (fun m mem inner => ?_) fun m root => ⟨?_, ?_, fun d => ?_⟩
    · have other : m ≠ y := fun here => notY.1 (here ▸ mem)
      exact ⟨by rw [color'], parent' m inner, fun d => child' d m other⟩
    · rw [color']
    · rw [← result, setParentOf_parent, if_pos root]
    · exact child' d m fun here => notY.1 (here ▸ ptr_mem root)
  · refine holdsR.congr fun m mem => ⟨by rw [color'], ?_, fun d => ?_⟩
    · exact parent' m (notRoot m fun inside => apart m inside m (.inl mem) rfl)
    · exact child' d m fun here => notY.2.1 (here ▸ mem)
  · have around : h.Around ctx (some y) := zip.around
    refine around.congr ?_ fun m mem => ⟨by rw [color'], ?_, fun d => ?_⟩
    · rw [← result, setParentOf_root]
      rfl
    · exact parent' m (notRoot m fun inside => apart m inside m (.inr mem) rfl)
    · exact child' d m fun here => notY.2.2 (here ▸ mem)

/-- The node `z` in its place, and its successor `y` out of its place, above the rest of the
right subtree. -/
structure Detached (h : Heap N K) (ctx : Context N) (c : Color) (l : ColorTree N) (z y : N)
    (r : ColorTree N) : Prop where
  around : h.Around ctx (some z)
  parent : h.parent z = Context.parent ctx
  color : h.color z = c
  left : h.child .left z = l.ptr
  holdsLeft : h.Holds (some z) l
  holds : ∃ q c', h.Holds q (.node c' .nil y r)
  nodup : ((l.inorder ++ z :: y :: r.inorder) ++ Context.nodes ctx).Nodup

theorem Detached.replace {v : N} (det : h.Detached ctx c l z y r) (left : l.ptr = some v) :
    ∃ h', h.replace z y = .ok h' ∧ h'.Zip ctx (.node c l y r) ∧ h'.key = h.key := by
  obtain ⟨q, c', holds⟩ := det.holds
  -- Which nodes are different.
  have parts := det.nodup
  rw [List.append_assoc, List.nodup_append, List.cons_append, List.cons_append, List.nodup_cons,
    List.nodup_cons, List.nodup_append] at parts
  obtain ⟨nodupL, ⟨notZ, notY, nodupR, nodupCtx, apartR⟩, apartL⟩ := parts
  simp only [List.mem_cons, List.mem_append, not_or] at notZ notY apartL
  have fresh : (inorder (.node c' .nil y r) ++ Context.nodes ctx).Nodup := by
    rw [inorder, inorder, List.nil_append, List.cons_append, List.nodup_cons,
      List.mem_append, not_or, List.nodup_append]
    exact ⟨notY, nodupR, nodupCtx, apartR⟩
  obtain ⟨zip, key, same⟩ := transplant_zip det.around det.parent notZ.2.2 holds fresh
  have sameZ : SameAt h (h.rbTransplant z (some y)) z :=
    same z notZ.2.2 fun here => notZ.1 (Option.some.inj here).symm
  have holdsL : (h.rbTransplant z (some y)).Holds (some z) l := by
    refine det.holdsLeft.congr fun m mem => same m (fun outside => ?_) fun here => ?_
    · exact apartL m mem m (.inr (.inr (.inr outside))) rfl
    · exact apartL m mem m (.inr (.inl (Option.some.inj here).symm)) rfl
  have nodup : (inorder (.node c' l y r) ++ Context.nodes ctx).Nodup := by
    rw [inorder, List.append_assoc]
    refine List.nodup_append.mpr ⟨nodupL, fresh, fun m mem m' listed => ?_⟩
    rw [List.cons_append, List.mem_cons, List.mem_append] at listed
    exact apartL m mem m' (.inr listed)
  have grafted := graft_zip zip holdsL nodup
  have child : (h.rbTransplant z (some y)).child .left z = some v := by
    rw [sameZ.2.2, det.left, left]
  rw [left] at grafted
  have painted := Zip.setColor (d := .left) grafted c
  refine ⟨_, ?_, painted, key⟩
  have colorZ : (h.rbTransplant z (some y)).color z = c := by
    rw [sameZ.1, det.color]
  have found : ((h.rbTransplant z (some y)).setChild .left y (some v)).child .left y = some v :=
    if_pos ⟨rfl, rfl⟩
  simp only [Heap.replace, child, found, deref, bind, Except.bind]
  change Except.ok (Heap.setColor _ y ((h.rbTransplant z (some y)).color z)) = _
  rw [colorZ]
  rfl

omit [DecidableEq N] in
theorem Zip.detached {c' : Color}
    (zip : h.Zip ctx (.node c l z (.node c' .nil y r))) : h.Detached ctx c l z y r where
  around := zip.around
  parent := zip.inside.2.1
  color := zip.inside.1
  left := zip.inside.2.2.1
  holdsLeft := zip.inside.2.2.2.2.1
  holds := ⟨some z, c', zip.inside.2.2.2.2.2⟩
  nodup := zip.nodup

/-- The successor is taken out of the right subtree, whose root stays. -/
theorem detach_zip {spine : Context N} {c' : Color}
    {root : N} (zip : h.Zip ctx (.node c l z (plug spine (.node c' .nil y r))))
    (sides : ∀ f ∈ spine, f.d = .left) (present : (plug spine r).ptr = some root) :
    ∃ h', h.detach z y = .ok h' ∧ h'.Detached ctx c l z y (plug spine r) ∧ h'.key = h.key := by
  have atRight : h.Zip (⟨.right, c, z, l⟩ :: ctx) (plug spine (.node c' .nil y r)) :=
    Zip.downOther (d := .left) zip
  have atY := zip_plug_iff.mpr atRight
  obtain ⟨-, parentY, -, rightY, -, holdsR⟩ := atY.inside
  obtain ⟨-, notR, notAround⟩ := Zip.not_mem (d := .left) atY
  have nodupY := atY.nodup
  rw [inorder, inorder, List.nil_append, List.cons_append,
    List.nodup_cons] at nodupY
  obtain ⟨zip₁, key₁, same₁⟩ := transplant_zip atY.around parentY notAround holdsR nodupY.2
  have notPtr : r.ptr ≠ some y := fun here => notR (ptr_mem here)
  have sameY := same₁ y notAround notPtr
  have atZ := zip_plug_iff.mp zip₁
  rw [detach, rightY]
  generalize h.rbTransplant y r.ptr = h₁ at zip₁ key₁ same₁ sameY atZ
  generalize rest : plug spine r = t at present atZ
  -- Which nodes are different.
  have nodup : ((l.inorder ++ z :: y :: t.inorder) ++ Context.nodes ctx).Nodup := by
    have whole := zip.nodup
    have first : (plug spine (.node c' .nil y r)).inorder = y :: t.inorder := by
      rw [← rest, inorder_plug, inorder_plug, before_of_left sides]
      rfl
    rw [inorder, first] at whole
    exact whole
  have parts := nodup
  rw [List.append_assoc, List.nodup_append, List.cons_append, List.cons_append, List.nodup_cons,
    List.nodup_cons, List.nodup_append] at parts
  obtain ⟨-, ⟨notZ, notY, nodupT, -, apartT⟩, apartL⟩ := parts
  simp only [List.mem_cons, List.mem_append, not_or] at notZ notY apartL
  have inside := ptr_mem present
  obtain ⟨colorZ, parentZ, rightZ, leftZ, holdsL, around⟩ := atZ.around
  change h₁.child .left z = l.ptr at leftZ
  rw [present] at rightZ
  let h₂ := (h₁.setChild .right y (some root)).setParent root (some y)
  have parent₂ : ∀ m, m ≠ root → h₂.parent m = h₁.parent m := fun m other =>
    Function.update_of_ne other ..
  have child₂ : ∀ d m, m ≠ y → h₂.child d m = h₁.child d m := fun d m other =>
    if_neg fun both => other both.2
  have same₂ : ∀ m, m ≠ root → m ≠ y → SameAt h₁ h₂ m := fun m notRoot other =>
    ⟨rfl, parent₂ m notRoot, fun d => child₂ d m other⟩
  have leftY : h₂.child .left y = none := by
    have before : h₁.child .left y = none := by
      rw [sameY.2.2]
      exact atY.inside.2.2.1
    have other : ¬(Dir.left = Dir.right ∧ y = y) := fun both => by cases both.1
    rw [← before]
    change (if Dir.left = Dir.right ∧ y = y then some root else h₁.child .left y) = _
    rw [if_neg other]
  have rightY₂ : h₂.child .right y = some root := if_pos ⟨rfl, rfl⟩
  refine ⟨h₂, ?_, ⟨?_, ?_, colorZ, ?_, ?_, ?_, nodup⟩, key₁⟩
  · have found : (h₁.setChild .right y (some root)).child .right y = some root := if_pos ⟨rfl, rfl⟩
    simp only [rightZ, found, deref, bind, Except.bind]
    rfl
  · refine around.congr rfl fun m mem => same₂ m (fun here => ?_) fun here => ?_
    · exact apartT root inside m mem here.symm
    · exact notY.2 (here ▸ mem)
  · rw [parent₂ z fun here => notZ.2.1 (here ▸ inside), parentZ]
  · rw [child₂ _ z notZ.1, leftZ]
  · refine holdsL.congr fun m mem => same₂ m (fun here => ?_) fun here => ?_
    · exact apartL m mem root (.inr (.inr (.inl inside))) here
    · exact apartL m mem y (.inr (.inl rfl)) here
  · refine ⟨h₂.parent y, h₂.color y, rfl, rfl, leftY, rightY₂.trans present.symm, trivial, ?_⟩
    refine atZ.inside.reparent nodupT (fun m mem inner => ?_) fun m here => ?_
    · refine same₂ m (fun here => inner ?_) fun here => notY.1 (here ▸ mem)
      rw [here, present]
    · rw [present] at here
      cases here
      exact ⟨rfl, Function.update_self ..,
        fun d => child₂ d root fun same => notY.1 (same ▸ inside)⟩

theorem splice_zip {v n : N} (zip : h.Zip ctx (.node c l z r)) (left : l.ptr = some v)
    (right : r.ptr = some n) (enough : r.inorder.length ≤ rounds) :
    ∃ h' spine c' y yr, r = plug spine (.node c' .nil y yr) ∧ (∀ f ∈ spine, f.d = .left) ∧
      splice rounds h z = .ok (h', c', yr.ptr, Context.parent (spine ++ ⟨.right, c, y, l⟩ :: ctx)) ∧
      h'.Zip (spine ++ ⟨.right, c, y, l⟩ :: ctx) yr ∧ h'.key = h.key := by
  have atRight : h.Zip (⟨.right, c, z, l⟩ :: ctx) r := Zip.downOther (d := .left) zip
  obtain ⟨spine, c', y, yr, found, rfl, sides⟩ := lastOn_zip .left atRight right enough
  have atY := zip_plug_iff.mpr atRight
  have colorY : h.color y = c' := atY.color
  have rightY : h.child .right y = yr.ptr := atY.far
  have first : h.rbFirst rounds (h.child .right z) = .ok (some y) := by
    have child : h.child .right z = some n := atRight.around.2.2.1.trans right
    rw [child]
    simp only [rbFirst, extreme, found, bind, Except.bind]
  have finish : ∀ h₁ : Heap N K, h₁.key = h.key →
      h₁.Detached ctx c l z y (plug spine yr) → ∃ h', h₁.replace z y = .ok h' ∧
        h'.Zip (spine ++ ⟨.right, c, y, l⟩ :: ctx) yr ∧ h'.key = h.key := by
    intro h₁ key₁ det
    obtain ⟨h', ok, zip', key⟩ := det.replace left
    exact ⟨h', ok, zip_plug_iff.mpr (Zip.downOther (d := .left) zip'), key.trans key₁⟩
  cases spine with
  | nil =>
    have parentY : h.parent y = some z := atY.parent
    obtain ⟨h', ok, zip', key⟩ := finish h rfl zip.detached
    refine ⟨h', [], c', y, yr, rfl, sides, ?_, zip', key⟩
    simp only [splice, first, deref, bind, Except.bind, parentY, if_true, ok, colorY, rightY]
    rfl
  | cons f spine =>
    have parentY : h.parent y = some f.n := atY.parent
    have notChild : f.n ≠ z := by
      have nodup := (List.nodup_append.mp atY.nodup).2.1
      rw [List.cons_append, Context.nodes, List.nodup_cons] at nodup
      rintro rfl
      refine nodup.1 (List.mem_append_right _ ?_)
      rw [nodes_append]
      exact List.mem_append_right _ List.mem_cons_self
    have other : ¬(some f.n = some z) := fun same => notChild (Option.some.inj same)
    obtain ⟨root, present⟩ : ∃ root, (plug (f :: spine) yr).ptr = some root :=
      ptr_plug_cons f spine yr
    obtain ⟨h₁, ok₁, det, key₁⟩ := detach_zip zip sides present
    obtain ⟨h', ok, zip', key⟩ := finish h₁ key₁ det
    refine ⟨h', f :: spine, c', y, yr, rfl, sides, ?_, zip', key⟩
    simp only [splice, first, deref, bind, Except.bind, parentY, if_neg other, ok₁, ok, colorY,
      rightY]
    rfl

/-! ## Deletion -/

omit [DecidableEq N] in
theorem ok_rename {spine : Context N} {d : Dir} {s : ColorTree N}
    {k : Nat} (ok : Context.Ok (spine ++ ⟨d, c, z, s⟩ :: ctx) k) :
    Context.Ok (spine ++ ⟨d, c, y, s⟩ :: ctx) k := by
  induction spine generalizing k with
  | nil =>
    cases c with
    | red | black => exact ok
  | cons f spine ih =>
    obtain ⟨d', c', n, s'⟩ := f
    cases c' with
    | red =>
      obtain ⟨sibling, black, takes, above⟩ := ok
      refine ⟨sibling, black, ?_, ih above⟩
      cases spine with
      | nil | cons g spine => exact takes
    | black => exact ⟨ok.1, ih ok.2⟩

theorem removed_fixed {x : ColorTree N} (enough : ctx.length + 1 < rounds) (zip : h.Zip ctx x)
    {k : Nat} (around : Context.Ok ctx k) {d : Dir} (ok : (branch d c .nil y x).Ok k) :
    Fixed h (plug ctx x).inorder
      (if c = .black then deleteFixup rounds h x.ptr (Context.parent ctx) else .ok h) := by
  cases c with
  | red =>
    obtain ⟨zero, okX, -, blackX⟩ := ok_red.mp ok
    refine ⟨h, plug ctx x, rfl, zip_nil_iff.mp zip, ?_, rfl, rfl⟩
    exact valid_plug_iff.mpr ⟨k, around, okX, fun red => by rw [blackX] at red; cases red⟩
  | black =>
    cases k with
    | zero => exact absurd ok ok_black_zero
    | succ k =>
      obtain ⟨-, okX⟩ := ok_black.mp ok
      exact deleteFixup_fixed enough zip okX around

theorem erase_middle {before after : List N} (nodup : (before ++ z :: after).Nodup) :
    (before ++ z :: after).erase z = before ++ after := by
  have fresh : z ∉ before := fun mem =>
    (List.nodup_append.mp nodup).2.2 z mem z List.mem_cons_self rfl
  rw [List.erase_append_right _ fresh, List.erase_cons_head]

/-- `rb_delete` takes the node out, and keeps the order of the others. -/
theorem rbDelete_spec {t : ColorTree N} (zip : h.Zip [] t)
    (valid : t.Valid) (mem : z ∈ t.inorder) (enough : t.inorder.length < rounds) :
    Fixed h (t.inorder.erase z) (rbDelete rounds h z) := by
  obtain ⟨ctx, c, l, r, rfl⟩ := exists_plug mem
  have atZ := zip_nil_iff.mpr zip
  obtain ⟨k, around, ok, -⟩ := valid_plug_iff.mp valid
  obtain ⟨color, parent, left, right, holdsL, holdsR⟩ := atZ.inside
  obtain ⟨-, -, notAround⟩ := Zip.not_mem (d := .left) atZ
  have nodup := (inorder_plug_perm ctx (.node c l z r)).nodup_iff.mpr atZ.nodup
  have erased : (plug ctx (.node c l z r)).inorder.erase z =
      Context.before ctx ++ (l.inorder ++ r.inorder) ++ Context.after ctx := by
    have parts : (plug ctx (.node c l z r)).inorder =
        (Context.before ctx ++ l.inorder) ++ z :: (r.inorder ++ Context.after ctx) := by
      rw [inorder_plug, inorder]
      simp only [List.append_assoc, List.cons_append]
    rw [parts] at nodup ⊢
    rw [erase_middle nodup]
    simp only [List.append_assoc]
  have sizes := (inorder_plug_perm ctx (.node c l z r)).length_eq
  have levels := length_le_nodes ctx
  rw [inorder, List.length_append, List.length_append, List.length_cons] at sizes
  have short : ctx.length + 1 < rounds := by omega
  have small : r.inorder.length ≤ rounds := by omega
  rw [erased]
  have nodupParts := ((inorder_branch_perm .left c l z r).append_right _).nodup_iff.mp
    atZ.nodup
  rw [List.cons_append, List.nodup_cons] at nodupParts
  unfold rbDelete
  rw [left, right]
  cases leftPtr : l.ptr with
  | none =>
    obtain rfl := ptr_eq_none.mp leftPtr
    obtain ⟨zip', key, -⟩ := transplant_zip atZ.around parent notAround holdsR nodupParts.2
    have fixed := removed_fixed (d := .left) short zip' around ok
    rw [← color, ← parent] at fixed
    exact fixed.congr key (inorder_plug ..)
  | some v =>
    cases rightPtr : r.ptr with
    | none =>
      obtain rfl := ptr_eq_none.mp rightPtr
      have nodupL : (l.inorder ++ Context.nodes ctx).Nodup := by
        have both := nodupParts.2
        rwa [inorder, List.append_nil] at both
      obtain ⟨zip', key, -⟩ := transplant_zip atZ.around parent notAround holdsL nodupL
      have fixed := removed_fixed (d := .right) short zip' around ok
      rw [← color, ← parent] at fixed
      rw [leftPtr] at fixed key
      refine fixed.congr key ?_
      rw [inorder_plug, inorder, List.append_nil]
    | some n =>
      obtain ⟨h₁, spine, c', y, yr, rfl, sides, result₁, zip', key⟩ :=
        splice_zip atZ leftPtr rightPtr small
      have whole : plug ctx (.node c l z (plug spine (.node c' .nil y yr))) =
          plug (spine ++ ⟨.right, c, z, l⟩ :: ctx) (.node c' .nil y yr) := by
        rw [plug_append]
        rfl
      rw [whole] at valid
      obtain ⟨k, around, ok, -⟩ := valid_plug_iff.mp valid
      have short' : (spine ++ ⟨.right, c, y, l⟩ :: ctx : Context N).length + 1 < rounds := by
        have inner := (inorder_plug_perm spine (.node c' .nil y yr)).length_eq
        have spines := length_le_nodes spine
        rw [inorder, inorder, List.nil_append, List.length_append,
          List.length_cons] at inner
        rw [List.length_append, List.length_cons]
        omega
      have fixed := removed_fixed (d := .left) short' zip' (ok_rename around) ok
      rw [result₁]
      refine fixed.congr key ?_
      have first : (plug spine (.node c' .nil y yr)).inorder =
          y :: (plug spine yr).inorder := by
        rw [inorder_plug, inorder_plug, before_of_left sides]
        rfl
      rw [plug_append, plug, inorder_plug ctx, Frame.plug, first]
      rfl

end Heap

end Xv6.RbTree

import Xv6.RbTree.Zip

/-!
# `rb_insert`

The new node goes to the empty subtree at which the search ends. Then the subtree in focus is
red, and everything else satisfies the invariant, except that the parent may be red as well.
-/

namespace Xv6.RbTree

open RedBlack ColorTree Context Function

variable {N K : Type} [DecidableEq N]
variable {h : Heap N K} {z p g : N} {ctx : Context N} {t s : ColorTree N} {d e : Dir}
    {rounds : Nat}

namespace Heap

theorem insertSide_red {ul ur : ColorTree N} {u : N}
    (zip : h.Zip (⟨e, .red, p, s⟩ :: ⟨d, .black, g, .branch d .red ul u ur⟩ :: ctx) t)
    (root : t.ptr = some z) :
    ∃ h', insertSide d h z = .ok (h', g) ∧
      h'.Zip ctx (.branch d .red (.branch e .black t p s) g (.branch d .black ul u ur)) ∧
      h'.key = h.key := by
  have parentZ : h.parent z = some p := by
    obtain ⟨c, a, b, rfl⟩ := exists_branch root d
    exact zip.parent
  have atParent := zip.up
  have parentP : h.parent p = some g := atParent.parent
  have atGrand := atParent.up
  have uncle : h.child d.other g = some u := by
    rw [atGrand.far, ptr_branch]
  have red : h.isRed (some u) = true := by
    have test := atGrand.downOther.isRed_iff
    rw [ptr_branch, color_branch] at test
    exact test.mpr rfl
  have step₁ := (atParent.setColor .black).up
  have step₂ := (step₁.downOther.setColor .black).upOther
  have step₃ := step₂.setColor .red
  refine ⟨_, ?_, step₃, rfl⟩
  simp only [insertSide, parentZ, parentP, deref, bind, Except.bind, uncle, red, if_true]

theorem insertSide_rotate {u : ColorTree N}
    (zip : h.Zip (⟨d, .red, p, s⟩ :: ⟨d, .black, g, u⟩ :: ctx) t)
    (root : t.ptr = some z) :
    ∃ h', (do
        let p ← deref (h.parent z)
        let h := h.setColor p .black
        let g ← deref (h.parent p)
        let h := h.setColor g .red
        let h ← rotate d.other h g
        .ok (h, z)) = (Except.ok (h', z) : Except Fault (Heap N K × N)) ∧
      h'.Zip (⟨d, .black, p, .branch d .red s g u⟩ :: ctx) t ∧ h'.key = h.key := by
  have parentZ : h.parent z = some p := by
    obtain ⟨c, a, b, rfl⟩ := exists_branch root d
    exact zip.parent
  have atParent := zip.up
  have parentP : h.parent p = some g := atParent.parent
  have step₁ := (atParent.setColor .black).up
  have step₂ := step₁.setColor .red
  have turned : ((h.setColor p .black).setColor g .red).Zip ctx
      (.branch d.other .red u g (.branch d.other .black s p t)) := by
    rw [branch_other, branch_other]
    exact step₂
  obtain ⟨h', ok, zip', key⟩ := rotate_zip turned
  have parentP' : (h.setColor p .black).parent p = some g := parentP
  refine ⟨h', ?_, ?_, key⟩
  · simp only [parentZ, deref, bind, Except.bind, parentP', ok]
  · rw [branch_other, branch_other] at zip'
    exact zip'.down

theorem insertSide_black {u zl zr : ColorTree N}
    (zip : h.Zip (⟨e, .red, p, s⟩ :: ⟨d, .black, g, u⟩ :: ctx) (.branch d .red zl z zr))
    (black : u.color = .black) :
    ∃ h' z' p' s' t, insertSide d h z = .ok (h', z') ∧ t.ptr = some z' ∧
      h'.Zip (⟨d, .black, p', .branch d .red s' g u⟩ :: ctx) t ∧ h'.key = h.key ∧
      (e = d ∧ p' = p ∧ s' = s ∧ t = .branch d .red zl z zr ∨
        e = d.other ∧ p' = z ∧ s' = zr ∧ t = .branch d .red s p zl) := by
  have parentZ : h.parent z = some p := zip.parent
  have atParent := zip.up
  have parentP : h.parent p = some g := atParent.parent
  have atGrand := atParent.up
  have notRed : h.isRed (h.child d.other g) = false := by
    rw [atGrand.far, Bool.eq_false_iff]
    intro red
    rw [atGrand.downOther.isRed_iff, black] at red
    cases red
  rcases Dir.eq_or d e with rfl | rfl
  · have outer : h.child e.other p ≠ some z := by
      rw [atParent.far]
      have apart := zip.ptr_ne (.inl (by rw [ptr_branch]; exact Option.some_ne_none z))
      rw [ptr_branch] at apart
      exact apart.symm
    obtain ⟨h', ok, zip', key⟩ := insertSide_rotate zip (ptr_branch ..)
    refine ⟨h', z, p, s, _, ?_, ptr_branch .., zip', key, .inl ⟨rfl, rfl, rfl, rfl⟩⟩
    simp only [insertSide, parentZ, parentP, deref, bind, Except.bind, notRed, if_neg outer,
      Bool.false_eq_true, if_false]
    simpa only [parentZ, deref, bind, Except.bind] using ok
  · have inner : h.child d.other p = some z := by
      have child := atParent.near
      rwa [ptr_branch] at child
    rw [branch_other] at atParent
    obtain ⟨h₁, ok₁, zip₁, key₁⟩ := rotate_zip atParent
    obtain ⟨h', ok, zip', key⟩ := insertSide_rotate zip₁.down (ptr_branch ..)
    refine ⟨h', p, z, zr, _, ?_, ptr_branch .., zip', key.trans key₁,
      .inr ⟨rfl, rfl, rfl, rfl⟩⟩
    simp only [insertSide, parentZ, parentP, deref, bind, Except.bind, notRed, if_pos inner, ok₁,
      Bool.false_eq_true, if_false]
    simpa only [deref, bind, Except.bind] using ok

theorem insertLoop_stop (zip : h.Zip ctx t) (root : t.ptr = some z)
    (stop : ∀ f ∈ ctx.head?, f.c = .black)
    (rounds : Nat) : insertLoop (rounds + 1) h z = .ok h := by
  have parent : h.parent z = Context.parent ctx := by
    obtain ⟨c, a, b, rfl⟩ := exists_branch root .left
    exact zip.parent
  cases ctx with
  | nil =>
    change h.parent z = none at parent
    rw [insertLoop, parent]
  | cons f ctx =>
    have color : h.color f.n = .black := zip.around.1.trans (stop f rfl)
    change h.parent z = some f.n at parent
    rw [insertLoop, parent]
    dsimp only
    rw [if_neg]
    simp [color]

/-- The tree after the loop satisfies the invariant but for the color of its root. -/
theorem insertLoop_zip {a b : ColorTree N} {k : Nat} (enough : ctx.length < rounds)
    (zip : h.Zip ctx (.branch e .red a z b)) (ok : (branch e .red a z b).Ok k)
    (around : Context.Ok ctx k) :
    ∃ h' t', insertLoop rounds h z = .ok h' ∧ h'.Zip [] t' ∧ h'.key = h.key ∧ (∃ j, t'.Ok j) ∧
      t'.inorder = (plug ctx (.branch e .red a z b)).inorder := by
  induction rounds generalizing h ctx e a b z k with
  | zero => exact absurd enough (Nat.not_lt_zero _)
  | succ rounds ih =>
    have root : (branch e .red a z b).ptr = some z := ptr_branch ..
    rcases ctx with _ | ⟨⟨e', c, p, s⟩, ctx⟩
    · exact ⟨h, _, insertLoop_stop zip root (by simp) rounds, zip, rfl, ⟨k, ok⟩, rfl⟩
    cases c with
    | black =>
      refine ⟨h, _, insertLoop_stop zip root (fun f mem => ?_) rounds,
        zip_nil_iff.mp zip, rfl, ?_, rfl⟩
      · cases mem
        rfl
      · exact (valid_plug_iff.mpr ⟨k, around, ok, fun _ => rfl⟩).ok
    | red =>
      obtain ⟨sibling, siblingBlack, takes, above⟩ := around
      rcases ctx with _ | ⟨⟨d, c, g, u⟩, ctx⟩
      · cases takes
      cases c with
      | red => cases takes
      | black =>
        obtain ⟨uncle, above⟩ := above
        have parentZ : h.parent z = some p := zip.parent
        have colorP : h.color p = .red := zip.up.color
        have parentP : h.parent p = some g := zip.up.parent
        have side := zip.up.side_eq (.inl (by rw [ptr_branch]; exact Option.some_ne_none p))
        rw [ptr_branch] at side
        rw [insertLoop, parentZ]
        dsimp only
        rw [if_pos colorP, parentP]
        change ∃ h' t', (insertSide (if h.child .left g = some p then .left else .right) h z >>=
          _) = .ok h' ∧ _
        rw [side]
        have short : ctx.length < rounds := by
          simp only [List.length_cons] at enough
          omega
        cases uncleColor : u.color with
        | red =>
          obtain ⟨ul, m, ur, rfl⟩ := exists_red uncleColor d
          obtain ⟨h₁, ok₁, zip₁, key₁⟩ := insertSide_red zip root
          obtain ⟨h', t', ok', zip', key', valid, inorder⟩ :=
            ih (k := k + 1) short zip₁
              (ok_red.mpr ⟨ok_black.mpr ⟨ok, sibling⟩,
                uncle.blacken, color_branch .., color_branch ..⟩) above
          refine ⟨h', t', ?_, zip', key'.trans key₁, valid, inorder.trans ?_⟩
          · rw [ok₁]
            exact ok'
          · refine inorder_plug_congr (inorder_recolor _ _ _ _ ?_ ?_)
            · exact inorder_recolor _ _ _ _ rfl rfl
            · exact inorder_recolor _ _ _ _ rfl rfl
        | black =>
          obtain ⟨c', zl, zr, same⟩ := exists_branch root d
          have color := congrArg ColorTree.color same
          rw [color_branch, color_branch] at color
          subst color
          rw [same] at zip ok ⊢
          obtain ⟨okLeft, okRight, blackLeft, blackRight⟩ := ok_red.mp ok
          obtain ⟨h₁, z', p', s', t, ok₁, root', zip₁, key₁, shape⟩ :=
            insertSide_black zip uncleColor
          have stop := insertLoop_stop zip₁ root' (fun f mem => by cases mem; rfl)
          refine ⟨h₁, _, ?_, zip_nil_iff.mp zip₁, key₁, ?_, ?_⟩
          · rw [ok₁]
            obtain ⟨rounds, rfl⟩ : ∃ j, rounds = j + 1 := ⟨rounds - 1, by omega⟩
            exact stop rounds
          · have valid : Context.Ok (⟨d, .black, p', .branch d .red s' g u⟩ :: ctx) k ∧
                t.Ok k → ∃ j, (plug
                  (⟨d, .black, p', .branch d .red s' g u⟩ :: ctx) t).Ok j :=
              fun both => (valid_plug_iff.mpr ⟨k, both.1, both.2, fun _ => rfl⟩).ok
            refine valid ⟨⟨?_, above⟩, ?_⟩
            · rcases shape with ⟨-, -, rfl, -⟩ | ⟨-, -, rfl, -⟩
              · exact ok_red.mpr ⟨sibling, uncle, siblingBlack, uncleColor⟩
              · exact ok_red.mpr ⟨okRight, uncle, blackRight, uncleColor⟩
            · rcases shape with ⟨-, -, -, rfl⟩ | ⟨-, -, -, rfl⟩
              · exact ok
              · exact ok_red.mpr ⟨sibling, okLeft, siblingBlack, blackLeft⟩
          · change (plug ctx (Frame.plug _ t)).inorder =
              (plug ctx (Frame.plug _ (Frame.plug _ _))).inorder
            refine inorder_plug_congr ?_
            rcases shape with ⟨rfl, rfl, rfl, rfl⟩ | ⟨rfl, rfl, rfl, rfl⟩
            · cases e' <;> simp [Frame.plug, branch, inorder]
            · cases d <;> simp [Frame.plug, branch, inorder, Dir.other]

theorem insertFixup_valid (enough : ctx.length < rounds) (zip : h.Zip ctx (.node .red .nil z .nil))
    (around : Context.Ok ctx 0) :
    ∃ h' t', insertFixup rounds h z = .ok h' ∧ h'.Zip [] t' ∧ h'.key = h.key ∧ t'.Valid ∧
      t'.inorder = (plug ctx (.node .red .nil z .nil)).inorder := by
  obtain ⟨h₁, t, ok, zip₁, key, ⟨j, balanced⟩, order⟩ :=
    insertLoop_zip (e := .left) enough zip (ok_red.mpr ⟨rfl, rfl, rfl, rfl⟩) around
  cases t with
  | nil =>
    have some := congrArg List.length order
    rw [inorder_plug] at some
    simp [branch, inorder] at some
  | node c l n r =>
    have root : h₁.root = some n := zip₁.around
    refine ⟨h₁.setColor n .black, .node .black l n r, ?_, ?_, key, ⟨rfl, ?_⟩, order⟩
    · simp only [insertFixup, ok, bind, Except.bind, root, deref]
    · exact Zip.setColor (d := .left) zip₁ .black
    · cases c with
      | red => exact ⟨j + 1, ColorTree.Ok.blacken (d := .left) balanced⟩
      | black => exact ⟨j, balanced⟩

/-! ## Insertion -/

section Search

variable [LinearOrder K]

def Sorted (h : Heap N K) (nodes : List N) : Prop := nodes.Pairwise fun m n => h.key m ≤ h.key n

/-- The hole is the place for a new node with the key of `z`. -/
structure Place (h : Heap N K) (ctx : Context N) (z : N) : Prop where
  low : ∀ n ∈ Context.before ctx, h.key n ≤ h.key z
  high : ∀ n ∈ Context.after ctx, h.key z < h.key n

omit [DecidableEq N] in
theorem Place.side {f : Frame N}
    (place : h.Place (f :: ctx) z) : h.key z < h.key f.n ↔ f.d = .left := by
  obtain ⟨d, c, n, s⟩ := f
  cases d with
  | left => exact ⟨fun _ => rfl, fun _ => place.high n (by simp [Context.after])⟩
  | right =>
    have low := place.low n (by simp [Context.before])
    exact ⟨fun less => absurd less (not_lt.mpr low), by simp⟩

omit [DecidableEq N] in
theorem descend_zip (zip : h.Zip ctx t) (sorted : h.Sorted (plug ctx t).inorder)
    (place : h.Place ctx z)
    (enough : t.inorder.length < rounds) :
    ∃ ctx', descend h z rounds (Context.parent ctx) t.ptr = .ok (Context.parent ctx') ∧
      h.Zip ctx' .nil ∧ plug ctx' .nil = plug ctx t ∧ h.Place ctx' z := by
  induction t generalizing ctx rounds with
  | nil =>
    obtain ⟨rounds, rfl⟩ : ∃ j, rounds = j + 1 := ⟨rounds - 1, by omega⟩
    exact ⟨ctx, rfl, zip, rfl, place⟩
  | node c l x r left right =>
    obtain ⟨rounds, rfl⟩ : ∃ j, rounds = j + 1 := ⟨rounds - 1, by omega⟩
    rw [inorder, List.length_append, List.length_cons] at enough
    have order := sorted
    rw [inorder_plug, inorder, Sorted, List.pairwise_append,
      List.pairwise_append, List.pairwise_append, List.pairwise_cons] at order
    obtain ⟨⟨-, ⟨-, ⟨above, -⟩, below⟩, -⟩, -, -⟩ := order
    have zipLeft : h.Zip (⟨.left, c, x, r⟩ :: ctx) l := Zip.down (d := .left) zip
    have zipRight : h.Zip (⟨.right, c, x, l⟩ :: ctx) r := Zip.downOther (d := .left) zip
    rw [ptr, descend]
    by_cases less : h.key z < h.key x
    · rw [if_pos less, zipLeft.around.2.2.1]
      refine left zipLeft sorted ⟨place.low, fun n mem => ?_⟩ (by omega)
      rcases List.mem_append.mp mem with inner | outer
      · rcases List.mem_cons.mp inner with rfl | inner
        · exact less
        · exact lt_of_lt_of_le less (above n inner)
      · exact place.high n outer
    · rw [if_neg less, zipRight.around.2.2.1]
      refine right zipRight sorted ⟨fun n mem => ?_, place.high⟩ (by omega)
      rcases List.mem_append.mp mem with outer | inner
      · exact place.low n outer
      · rcases List.mem_append.mp inner with inner | last
        · exact (below n inner x List.mem_cons_self).trans (not_lt.mp less)
        · rw [List.mem_singleton] at last
          subst last
          exact not_lt.mp less

theorem link_key (h : Heap N K) (y : Option N) (z : N) : (h.link y z).key = h.key := by
  cases y with
  | none => rfl
  | some y =>
    change (if h.key z < h.key y then _ else _ : Heap N K).key = h.key
    split <;> rfl

theorem link_zip (zip : h.Zip ctx .nil) (fresh : z ∉ Context.nodes ctx) (place : h.Place ctx z) :
    (h.link (Context.parent ctx) z).Zip ctx (.node .red .nil z .nil) := by
  rw [link]
  generalize linked : (h.setParent z (Context.parent ctx)).attach (Context.parent ctx) z = h₁
  have spec : h₁.Around ctx (some z) ∧ h₁.parent z = Context.parent ctx := by
    cases ctx with
    | nil =>
      subst linked
      exact ⟨rfl, update_self ..⟩
    | cons f ctx =>
      have nodup := zip.nodup
      rw [inorder, List.nil_append, Context.nodes, List.nodup_cons, List.mem_append,
        not_or] at nodup
      rw [Context.nodes, List.mem_cons, List.mem_append, not_or, not_or] at fresh
      obtain ⟨color, parent, child, other, sibling, rest⟩ := zip.around
      have result : h₁ = (h.setParent z (some f.n)).setChild f.d f.n (some z) := by
        rw [← linked]
        by_cases less : h.key z < h.key f.n
        · rw [place.side.mp less]
          exact if_pos less
        · have side : f.d = .right := by
            cases side : f.d with
            | left => exact absurd (place.side.mpr side) less
            | right => rfl
          rw [side]
          exact if_neg less
      have same' : ∀ m, m ≠ z → m ≠ f.n → SameAt h h₁ m := by
        intro m notZ notParent
        rw [result]
        exact ⟨rfl, update_of_ne notZ .., fun k => if_neg fun both => notParent both.2⟩
      refine ⟨⟨?_, ?_, ?_, ?_, ?_, ?_⟩, ?_⟩
      · rw [result]
        exact color
      · rw [result]
        exact (update_of_ne (Ne.symm fresh.1) ..).trans parent
      · rw [result]
        exact if_pos ⟨rfl, rfl⟩
      · rw [result]
        exact (if_neg fun both => f.d.other_ne both.1).trans other
      · exact sibling.congr fun m mem => same' m (fun here => fresh.2.1 (here ▸ mem))
          fun here => nodup.1.1 (here ▸ mem)
      · refine rest.congr (by rw [result]; rfl) fun m mem => same' m
          (fun here => fresh.2.2 (here ▸ mem)) fun here => nodup.1.2 (here ▸ mem)
      · rw [result]
        exact update_self ..
  refine ⟨⟨update_self .., spec.2, ?_, ?_, trivial, trivial⟩, ?_, ?_⟩
  · simp [Heap.setColor, Heap.setChild, ptr]
  · simp [Heap.setColor, Heap.setChild, ptr]
  · refine spec.1.congr rfl fun m mem => ?_
    have other : m ≠ z := fun here => fresh (here ▸ mem)
    refine ⟨update_of_ne other .., rfl, fun k => ?_⟩
    exact (if_neg fun both => other both.2).trans (if_neg fun both => other both.2)
  · exact List.nodup_cons.mpr ⟨fresh, zip.nodup⟩

theorem rbInsert_spec (zip : h.Zip [] t)
    (valid : t.Valid) (sorted : h.Sorted t.inorder) (fresh : z ∉ t.inorder)
    (enough : t.inorder.length < rounds) :
    ∃ h' t', rbInsert rounds h z = .ok h' ∧ h'.Zip [] t' ∧ t'.Valid ∧ h'.key = h.key ∧
      t'.inorder = t.inorder.takeWhile (h.key · ≤ h.key z) ++
        z :: t.inorder.dropWhile (h.key · ≤ h.key z) := by
  obtain ⟨ctx, found, hole, same, place⟩ :=
    descend_zip zip sorted (⟨nofun, nofun⟩ : h.Place [] z) enough
  change plug ctx .nil = t at same
  have members := inorder_plug_perm ctx .nil
  rw [same, inorder, List.nil_append] at members
  have linked := link_zip hole (fun mem => fresh (members.mem_iff.mpr mem)) place
  have short : ctx.length < rounds := by
    have levels := length_le_inorder ctx .nil
    rw [same] at levels
    omega
  obtain ⟨k, around, height, -⟩ := valid_plug_iff.mp (same.symm ▸ valid)
  cases height
  obtain ⟨h', t', ok, zip', key, valid', order⟩ := insertFixup_valid short linked around
  refine ⟨h', t', ?_, zip', valid', ?_, ?_⟩
  · have start : h.root = t.ptr := zip.around
    change descend h z rounds none t.ptr = _ at found
    simp only [rbInsert, start, found, bind, Except.bind]
    exact ok
  · exact key.trans (link_key h _ z)
  · have parts : t.inorder = Context.before ctx ++ Context.after ctx := by
      rw [← same, inorder_plug, inorder, List.append_nil]
    let small : N → Bool := fun n => decide (h.key n ≤ h.key z)
    have low : ∀ n ∈ Context.before ctx, small n = true :=
      fun n mem => decide_eq_true (place.low n mem)
    have high : ∀ n ∈ Context.after ctx, ¬small n = true :=
      fun n mem holds => absurd (of_decide_eq_true holds) (not_le.mpr (place.high n mem))
    rw [order, inorder_plug, parts, List.takeWhile_append_of_pos low,
      List.dropWhile_append_of_pos low]
    cases rest : Context.after ctx with
    | nil => simp [inorder]
    | cons n rest' =>
      have stop := high n (by rw [rest]; exact List.mem_cons_self)
      have taken : (n :: rest').takeWhile small = [] := List.takeWhile_cons_of_neg stop
      have dropped : (n :: rest').dropWhile small = n :: rest' := List.dropWhile_cons_of_neg stop
      rw [taken, dropped]
      simp [inorder]

end Search

end Heap

end Xv6.RbTree

import Xv6.RbTree.Zip

/-!
# `_delete_fixup`

The subtree in focus has one black node too few on each path, and everything else satisfies the
invariant.
-/

namespace Xv6.RbTree

open RedBlack ColorTree Context

variable {N K : Type} {t s wi wo : ColorTree N} {k : Nat}
variable {h : Heap N K} {ctx : Context N} {d : Dir} {c : Color} {x : ColorTree N} {p v w : N}

namespace Heap

theorem Zip.ptr_ne_root {f : Frame N} (zip : h.Zip (f :: ctx) t) : t.ptr ≠ h.root := by
  have outside : ∀ (ctx : Context N) (f : Frame N) (p : Option N), h.Around (f :: ctx) p →
      ∃ n ∈ Context.nodes (f :: ctx), h.root = some n := by
    intro ctx
    induction ctx with
    | nil => exact fun f p around => ⟨f.n, List.mem_cons_self, around.2.2.2.2.2⟩
    | cons f' ctx ih =>
      intro f p around
      obtain ⟨n, mem, root⟩ := ih f' _ around.2.2.2.2.2
      exact ⟨n, List.mem_cons_of_mem _ (List.mem_append_right _ mem), root⟩
  obtain ⟨n, mem, root⟩ := outside ctx f _ zip.around
  intro same
  rw [root] at same
  exact (List.nodup_append.mp zip.nodup).2.2 n (ptr_mem same) n mem rfl

theorem Zip.sibling (zip : h.Zip (⟨d, c, p, s⟩ :: ctx) t) : h.child d.other p = s.ptr :=
  zip.around.2.2.2.1

theorem Zip.atSibling (zip : h.Zip (⟨d, c, p, s⟩ :: ctx) t) :
    h.Zip (⟨d.other, c, p, t⟩ :: ctx) s :=
  zip.up.downOther

theorem Zip.fromSibling (zip : h.Zip (⟨d.other, c, p, t⟩ :: ctx) s) :
    h.Zip (⟨d, c, p, s⟩ :: ctx) t :=
  zip.upOther.down

variable [DecidableEq N]

/-! ## Cases -/

section Cases

theorem deleteCase1_red (zip : h.Zip (⟨d, .black, p, .branch d .red wi w wo⟩ :: ctx) x)
    (inner : wi.ptr = some v) : ∃ h', deleteCase1 d h p w = .ok (h', v) ∧
      h'.Zip (⟨d, .red, p, wi⟩ :: ⟨d, .black, w, wo⟩ :: ctx) x ∧ h'.key = h.key := by
  have red : h.color w = .red := zip.atSibling.color
  have painted := ((zip.atSibling.setColor .black).fromSibling.up.setColor .red)
  obtain ⟨h', ok, zip', key⟩ := rotate_zip painted
  have result := zip'.down.down
  have child := result.sibling
  rw [inner] at child
  refine ⟨h', ?_, result, key⟩
  rw [deleteCase1, if_pos red]
  simp only [ok, bind, Except.bind, child, deref]

theorem deleteCase1_black (zip : h.Zip (⟨d, c, p, .branch d .black wi w wo⟩ :: ctx) x) :
    deleteCase1 d h p w = .ok (h, w) := by
  have black : h.color w = .black := zip.atSibling.color
  rw [deleteCase1, if_neg]
  rw [black]
  nofun

theorem deleteCase3_rotate {vi vo : ColorTree N}
    (zip : h.Zip (⟨d, c, p, .branch d .black (.branch d .red vi v vo) w wo⟩ :: ctx) x)
    (black : wo.color = .black) : ∃ h', deleteCase3 d h p w = .ok (h', v) ∧
      h'.Zip (⟨d, c, p, .branch d .black vi v (.branch d .red vo w wo)⟩ :: ctx) x ∧
      h'.key = h.key := by
  have atW := zip.atSibling
  have outer : h.isBlack (h.child d.other w) = true := by
    rw [atW.far]
    exact atW.downOther.isBlack_iff.mpr black
  have inner : h.child d w = some v := by
    rw [atW.near, ptr_branch]
  have painted := ((atW.down.setColor .black).up.setColor .red)
  have turned : ((h.setColor v .black).setColor w .red).Zip (⟨d.other, c, p, x⟩ :: ctx)
      (.branch d.other .red wo w (.branch d.other .black vo v vi)) := by
    rw [branch_other, branch_other]
    exact painted
  obtain ⟨h', ok, zip', key⟩ := rotate_zip turned
  rw [branch_other, branch_other] at zip'
  have result := zip'.fromSibling
  have child := result.sibling
  rw [ptr_branch] at child
  refine ⟨h', ?_, result, key⟩
  rw [deleteCase3, if_pos outer, inner]
  simp only [blacken, ok, bind, Except.bind, child, deref]

theorem deleteCase3_red (zip : h.Zip (⟨d, c, p, .branch d .black wi w wo⟩ :: ctx) x)
    (red : wo.color = .red) :
    deleteCase3 d h p w = .ok (h, w) := by
  have atW := zip.atSibling
  rw [deleteCase3, if_neg]
  rw [atW.far, atW.downOther.isBlack_iff, red]
  nofun

theorem deleteCase4_rotate {o₁ o₂ : ColorTree N} {u : N}
    (zip : h.Zip (⟨d, c, p, .branch d .black wi w (.branch d .red o₁ u o₂)⟩ :: ctx) x) :
    ∃ h', deleteCase4 d h p w = .ok h' ∧
      h'.Zip ctx (.branch d c (.branch d .black x p wi) w (.branch d .black o₁ u o₂)) ∧
      h'.key = h.key := by
  have atW := zip.atSibling
  have color : h.color p = c := zip.up.color
  have outer : h.child d.other w = some u := by
    rw [atW.far, ptr_branch]
  have painted₁ := ((atW.setColor c).fromSibling.up.setColor .black)
  have painted₂ := (painted₁.downOther.downOther.setColor .black).upOther.upOther
  obtain ⟨h', ok, zip', key⟩ := rotate_zip painted₂
  refine ⟨h', ?_, zip', key⟩
  have outer' : ((h.setColor w c).setColor p .black).child d.other w = some u := outer
  simp only [deleteCase4, color, outer', blacken, ok]

theorem deleteCases_spec (zip : h.Zip (⟨d, c, p, .branch d .black wi w wo⟩ :: ctx) x)
    (okX : x.Ok k) (okI : wi.Ok k) (okO : wo.Ok k) :
    (∃ h', deleteCases d h p w = .ok (h', some p, Context.parent ctx) ∧
      h'.Zip ctx (.branch d c x p (.branch d .red wi w wo)) ∧ h'.key = h.key ∧
      wi.color = .black ∧ wo.color = .black) ∨
    ∃ h' a n b, deleteCases d h p w = .ok (h', h'.root, some p) ∧
      h'.Zip ctx (.branch d c a n b) ∧ h'.key = h.key ∧
      (a.Ok (k + 1) ∧ b.Ok (k + 1) ∧ a.color = .black ∧ b.color = .black) ∧
      (branch d c a n b).inorder =
        (branch d c x p (.branch d .black wi w wo)).inorder := by
  have atW := zip.atSibling
  have testI := atW.down.isBlack_iff
  have testO := atW.downOther.isBlack_iff
  rw [← atW.near] at testI
  rw [← atW.far] at testO
  by_cases both : wi.color = .black ∧ wo.color = .black
  · left
    have tests : (h.isBlack (h.child d w) && h.isBlack (h.child d.other w)) = true := by
      rw [testI.mpr both.1, testO.mpr both.2]
      rfl
    refine ⟨h.setColor w .red, ?_, (atW.setColor .red).fromSibling.up, rfl, both⟩
    rw [deleteCases, if_pos tests]
    have parent : h.parent p = Context.parent ctx := zip.up.parent
    rw [← parent]
    rfl
  · right
    have tests : ¬((h.isBlack (h.child d w) && h.isBlack (h.child d.other w)) = true) := by
      rw [Bool.and_eq_true, testI, testO]
      exact both
    rw [deleteCases, if_neg tests]
    cases outer : wo.color with
    | red =>
      obtain ⟨o₁, u, o₂, rfl⟩ := exists_red outer d
      obtain ⟨h', ok, zip', key⟩ := deleteCase4_rotate zip
      refine ⟨h', _, w, _, ?_, zip', key, ⟨ok_black.mpr ⟨okX, okI⟩, okO.blacken,
        color_branch .., color_branch ..⟩, ?_⟩
      · rw [deleteCase3_red zip outer]
        simp only [bind, Except.bind, ok]
      · cases d <;> simp [branch, inorder]
    | black =>
      have inner : wi.color = .red := by
        by_contra notRed
        exact both ⟨Color.ne_red.mp notRed, outer⟩
      obtain ⟨vi, v, vo, rfl⟩ := exists_red inner d
      obtain ⟨okVi, okVo, -, -⟩ := ok_red.mp okI
      obtain ⟨h₁, ok₁, zip₁, key₁⟩ := deleteCase3_rotate zip outer
      obtain ⟨h', ok, zip', key⟩ := deleteCase4_rotate zip₁
      refine ⟨h', _, v, _, ?_, zip', key.trans key₁, ⟨ok_black.mpr ⟨okX, okVi⟩,
        ok_black.mpr ⟨okVo, okO⟩, color_branch ..,
        color_branch ..⟩, ?_⟩
      · rw [ok₁]
        simp only [bind, Except.bind, ok]
      · cases d <;> simp [branch, inorder]

end Cases

/-! ## The loop -/

theorem Zip.blacken (zip : h.Zip ctx t) : (h.blacken t.ptr).Zip ctx t.blackened := by
  cases t with
  | nil => exact zip
  | node c l n r => exact Zip.setColor (d := .left) zip .black

theorem blacken_key (h : Heap N K) (p : Option N) : (h.blacken p).key = h.key := by
  cases p <;> rfl

def Fixed (h : Heap N K) (nodes : List N) (result : Except Fault (Heap N K)) : Prop :=
  ∃ h' t', result = .ok h' ∧ h'.Zip [] t' ∧ t'.Valid ∧ h'.key = h.key ∧ t'.inorder = nodes

omit [DecidableEq N] in
theorem Fixed.congr {h₀ : Heap N K} {nodes nodes₀ : List N} {result : Except Fault (Heap N K)}
    (fixed : Fixed h nodes result) (key : h.key = h₀.key) (same : nodes = nodes₀) :
    Fixed h₀ nodes₀ result := by
  obtain ⟨h', t', ok, zip, valid, key', inorder⟩ := fixed
  exact ⟨h', t', ok, zip, valid, key'.trans key, inorder.trans same⟩

section

variable (rounds : Nat)

theorem deleteFixup_root (zip : h.Zip [] t) (ok : ∃ k, t.Ok k) (xParent : Option N) :
    Fixed h t.inorder (deleteFixup (rounds + 1) h h.root xParent) := by
  have root : h.root = t.ptr := zip.around
  refine ⟨h.blacken t.ptr, t.blackened, ?_, zip.blacken, ⟨color_blackened t, ?_⟩,
    blacken_key .., inorder_blackened t⟩
  · rw [deleteFixup, if_neg fun both => both.1 rfl, root]
  · obtain ⟨k, ok⟩ := ok
    cases color : t.color with
    | red => exact ⟨k + 1, ColorTree.Ok.blackened ok color⟩
    | black => exact ⟨k, by rwa [blackened_of_black color]⟩

theorem deleteFixup_red (zip : h.Zip ctx t) (ok : t.blackened.Ok (k + 1))
    (red : t.color = .red) (around : Context.Ok ctx (k + 1)) (xParent : Option N) :
    Fixed h (plug ctx t).inorder (deleteFixup (rounds + 1) h t.ptr xParent) := by
  have notBlack : ¬(h.isBlack t.ptr = true) := by
    rw [zip.isBlack_iff, red]
    nofun
  refine ⟨h.blacken t.ptr, plug ctx t.blackened, ?_, zip_nil_iff.mp zip.blacken, ?_,
    blacken_key .., inorder_plug_congr (inorder_blackened t)⟩
  · rw [deleteFixup, if_neg fun both => notBlack both.2]
  · refine valid_plug_iff.mpr ⟨k + 1, around, ok, fun impossible => ?_⟩
    rw [color_blackened] at impossible
    cases impossible

theorem deleteFixup_done {a b : ColorTree N} {n : N}
    (zip : h.Zip ctx (.branch d c a n b)) (okA : a.Ok k) (okB : b.Ok k)
    (blackA : a.color = .black) (blackB : b.color = .black)
    (around : Context.Ok (⟨d, c, p, s⟩ :: ctx) k) (xParent : Option N) :
    Fixed h (plug ctx (.branch d c a n b)).inorder
      (deleteFixup (rounds + 1) h h.root xParent) := by
  refine deleteFixup_root rounds (zip_nil_iff.mp zip) ?_ xParent
  cases c with
  | red =>
    obtain ⟨-, -, takes, above⟩ := around
    exact (valid_plug_iff.mpr ⟨k, above,
      ok_red.mpr ⟨okA, okB, blackA, blackB⟩, fun _ => takes⟩).ok
  | black =>
    refine (valid_plug_iff.mpr ⟨k + 1, around.2, ok_black.mpr ⟨okA, okB⟩,
      fun impossible => ?_⟩).ok
    rw [color_branch] at impossible
    cases impossible

theorem deleteCases_fixed (zip : h.Zip (⟨d, c, p, .branch d .black wi w wo⟩ :: ctx) x)
    (ok : x.Ok k) (okI : wi.Ok k)
    (okO : wo.Ok k) (around : Context.Ok (⟨d, c, p, .branch d .black wi w wo⟩ :: ctx) (k + 1))
    (again : ∀ h' : Heap N K, h'.Zip ctx (.branch d c x p (.branch d .red wi w wo)) →
      (branch d .red wi w wo).Ok k →
      Fixed h' (plug ctx (.branch d c x p (.branch d .red wi w wo))).inorder
        (deleteFixup (rounds + 1) h' (some p) (Context.parent ctx))) :
    Fixed h (plug (⟨d, c, p, .branch d .black wi w wo⟩ :: ctx) x).inorder (do
      let (h, x, xParent) ← deleteCases d h p w
      deleteFixup (rounds + 1) h x xParent) := by
  rcases deleteCases_spec zip ok okI okO with
    ⟨h', result, zip', key, blackI, blackO⟩ |
    ⟨h', a, n, b, result, zip', key, ⟨okA, okB, blackA, blackB⟩, inorder⟩
  · rw [result]
    refine (again h' zip' ?_).congr key (inorder_plug_congr
      (inorder_recolor _ _ _ _ rfl (inorder_recolor _ _ _ _ rfl rfl)))
    exact ok_red.mpr ⟨okI, okO, blackI, blackO⟩
  · rw [result]
    exact (deleteFixup_done rounds zip' okA okB blackA blackB around (some p)).congr key
      (inorder_plug_congr inorder)

theorem deleteCases_red_parent (zip : h.Zip (⟨d, .red, p, .branch d .black wi w wo⟩ :: ctx) x)
    (ok : x.Ok k)
    (around : Context.Ok (⟨d, .red, p, .branch d .black wi w wo⟩ :: ctx) (k + 1)) :
    Fixed h (plug (⟨d, .red, p, .branch d .black wi w wo⟩ :: ctx) x).inorder (do
      let (h, x, xParent) ← deleteCases d h p w
      deleteFixup (rounds + 1) h x xParent) := by
  obtain ⟨okI, okO⟩ := ok_black.mp around.1
  refine deleteCases_fixed rounds zip ok okI okO around fun h' zip' okW => ?_
  have same : (branch d .red x p (.branch d .red wi w wo)).blackened =
      .branch d .black x p (.branch d .red wi w wo) := by
    cases d <;> rfl
  have fixed := deleteFixup_red rounds zip' (by rw [same]; exact ok_black.mpr ⟨ok, okW⟩)
    (color_branch ..) around.2.2.2 (Context.parent ctx)
  rwa [ptr_branch] at fixed

theorem deleteFixup_side (zip : h.Zip (⟨d, c, p, s⟩ :: ctx) x)
    (present : s.ptr ≠ none) (black : x.color = .black) :
    deleteFixup (rounds + 1) h x.ptr (some p) = (do
      let (h, x, xParent) ← deleteSide d h p
      deleteFixup rounds h x xParent) := by
  have side : (if x.ptr = h.child .left p then Dir.left else Dir.right) = d := by
    simpa only [eq_comm] using zip.side_eq (.inr present)
  have test : x.ptr ≠ h.root ∧ h.isBlack x.ptr = true :=
    ⟨zip.ptr_ne_root, zip.isBlack_iff.mpr black⟩
  rw [deleteFixup, if_pos test]
  simp only [deref, bind, Except.bind, side]

end

theorem deleteFixup_fixed {rounds : Nat}
    (enough : ctx.length + 1 < rounds) (zip : h.Zip ctx x) (ok : x.Ok k)
    (around : Context.Ok ctx (k + 1)) :
    Fixed h (plug ctx x).inorder (deleteFixup rounds h x.ptr (Context.parent ctx)) := by
  induction rounds generalizing h ctx x k with
  | zero => exact absurd enough (Nat.not_lt_zero _)
  | succ rounds ih =>
    cases color : x.color with
    | red => exact deleteFixup_red rounds zip (ok.blackened color) color around _
    | black =>
      match ctx, zip, around, enough with
      | [], zip, _, _ =>
        have root : h.root = x.ptr := zip.around
        rw [← root]
        exact deleteFixup_root rounds zip ⟨k, ok⟩ _
      | ⟨d, c, p, s⟩ :: ctx, zip, around, enough =>
        rw [List.length_cons] at enough
        obtain ⟨rounds, rfl⟩ : ∃ j, rounds = j + 1 := ⟨rounds - 1, by omega⟩
        have okS : s.Ok (k + 1) := by
          cases c with
          | red | black => exact around.1
        have present : s.ptr ≠ none := by
          intro none
          rw [ptr_eq_none.mp none] at okS
          cases okS
        rw [Context.parent, deleteFixup_side _ zip present color]
        cases colorS : s.color with
        | black =>
          obtain ⟨wi, w, wo, rfl, okI, okO⟩ := okS.exists_black colorS d
          have start : deleteSide d h p = deleteCases d h p w := by
            rw [deleteSide, zip.sibling, ptr_branch]
            simp only [deref, bind, Except.bind, deleteCase1_black zip]
          rw [start]
          cases c with
          | red => exact deleteCases_red_parent rounds zip ok around
          | black =>
            refine deleteCases_fixed rounds zip ok okI okO around fun h' zip' okW => ?_
            have fixed := ih (by omega) zip' (ok_black.mpr ⟨ok, okW⟩) around.2
            rwa [ptr_branch] at fixed
        | red =>
          -- The parent of a red sibling is black.
          cases c with
          | red =>
            rw [around.2.1] at colorS
            cases colorS
          | black =>
            obtain ⟨wi, w, wo, rfl⟩ := exists_red colorS d
            obtain ⟨okI, okO, blackI, blackO⟩ := ok_red.mp okS
            obtain ⟨vi, v, vo, rfl, -, -⟩ := okI.exists_black blackI d
            obtain ⟨h₁, ok₁, zip₁, key₁⟩ :=
              deleteCase1_red zip (ptr_branch d .black vi v vo)
            have start : deleteSide d h p = deleteCases d h₁ p v := by
              rw [deleteSide, zip.sibling, ptr_branch]
              simp only [deref, bind, Except.bind, ok₁]
            rw [start]
            have fixed := deleteCases_red_parent rounds zip₁ ok ⟨okI, blackI, rfl, okO, around.2⟩
            exact fixed.congr key₁ (inorder_plug_congr (inorder_rotate ..))

end Heap

end Xv6.RbTree

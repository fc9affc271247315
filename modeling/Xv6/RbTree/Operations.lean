import Xv6.RbTree.Insert
import Xv6.RbTree.Delete

/-!
# Sequences of operations on a tree

Any insertions of nodes that are not in the tree and deletions of nodes that are, with anything
done to the nodes outside of the tree in between.
-/

namespace Xv6.RbTree

open RedBlack ColorTree Context

variable {rounds : Nat}

namespace Heap

variable {N K : Type}

/-! ## The tree in the heap -/

inductive Linked (h : Heap N K) : N → Prop
  | root {n : N} (here : h.root = some n) : Linked h n
  | child {m n : N} {d : Dir} (parent : Linked h m) (here : h.child d m = some n) : Linked h n

/-- A path from a pointer down to a null pointer, with `k` black nodes on it. -/
inductive Path (h : Heap N K) : Option N → Nat → Prop
  | null : Path h none 0
  | node {n : N} {k : Nat} (d : Dir) (rest : Path h (h.child d n) k) :
      Path h (some n) (k + if h.color n = .black then 1 else 0)

/-- The nodes below a pointer from left to right. -/
inductive Visits (h : Heap N K) : Option N → List N → Prop
  | null : Visits h none []
  | node {n : N} {l r : List N} (left : Visits h (h.child .left n) l)
      (right : Visits h (h.child .right n) r) : Visits h (some n) (l ++ n :: r)

variable {h : Heap N K} {t : ColorTree N} {ctx : Context N} {n : N}

theorem Zip.linked_of_mem (zip : h.Zip ctx t) (linked : ∀ m, t.ptr = some m → h.Linked m)
    (mem : n ∈ t.inorder) :
    h.Linked n := by
  induction t generalizing ctx with
  | nil => cases mem
  | node c l m r left right =>
    have here := linked m rfl
    rw [inorder, List.mem_append, List.mem_cons] at mem
    rcases mem with inside | rfl | inside
    · exact left (Zip.down (d := .left) zip)
        (fun m' root => .child here (zip.inside.2.2.1.trans root)) inside
    · exact here
    · exact right (Zip.downOther (d := .left) zip)
        (fun m' root => .child here (zip.inside.2.2.2.1.trans root)) inside

theorem Zip.child_mem {m : N} {d : Dir} (zip : h.Zip [] t)
    (mem : m ∈ t.inorder) (here : h.child d m = some n) :
    n ∈ t.inorder ∧ h.parent n = some m := by
  obtain ⟨ctx, c, l, r, rfl⟩ := exists_plug mem
  obtain ⟨c', a, b, same⟩ := @exists_branch N (.node c l m r) m rfl d
  rw [same] at zip ⊢
  have atM := zip_nil_iff.mpr zip
  rw [atM.near] at here
  refine ⟨(inorder_plug_perm ctx _).mem_iff.mpr (List.mem_append_left _ ?_), ?_⟩
  · exact mem_inorder_branch.mpr (.inr (.inl (ptr_mem here)))
  · obtain ⟨c'', a', b', rfl⟩ := exists_branch here .left
    exact atM.down.parent

theorem Zip.linked_iff (zip : h.Zip [] t) : h.Linked n ↔ n ∈ t.inorder := by
  constructor
  · intro linked
    induction linked with
    | root here => exact ptr_mem (zip.around.symm.trans here)
    | child _ here mem => exact (zip.child_mem mem here).1
  · exact zip.linked_of_mem fun m root => .root (zip.around.trans root)

theorem Zip.visits (zip : h.Zip ctx t) : h.Visits t.ptr t.inorder := by
  induction t generalizing ctx with
  | nil => exact .null
  | node c l n r left right =>
    have visitsL := left (Zip.down (d := .left) zip)
    have visitsR := right (Zip.downOther (d := .left) zip)
    rw [← zip.inside.2.2.1] at visitsL
    rw [← zip.inside.2.2.2.1] at visitsR
    exact .node visitsL visitsR

theorem Zip.path {k k' : Nat}
    (zip : h.Zip ctx t) (ok : t.Ok k) (path : h.Path t.ptr k') : k' = k := by
  induction t generalizing ctx k k' with
  | nil =>
    cases ok
    cases path
    rfl
  | node c l n r left right =>
    have zipL : h.Zip _ l := Zip.down (d := .left) zip
    have zipR : h.Zip _ r := Zip.downOther (d := .left) zip
    have color : h.color n = c := zip.inside.1
    -- The rest of the path is in one of the subtrees.
    have below : ∀ {j j' d}, l.Ok j → r.Ok j → h.Path (h.child d n) j' → j' = j := by
      intro j j' d okL okR rest
      cases d with
      | left =>
        rw [zip.inside.2.2.1] at rest
        exact left zipL okL rest
      | right =>
        rw [zip.inside.2.2.2.1] at rest
        exact right zipR okR rest
    cases path with
    | node d rest =>
      cases c with
      | red =>
        have red : ¬(h.color n = .black) := by
          rw [color]
          nofun
        rw [if_neg red]
        exact below ok.1 ok.2.1 rest
      | black =>
        obtain ⟨j, rfl, okL, okR⟩ := ok
        rw [if_pos color]
        exact congrArg (· + 1) (below okL okR rest)

structure IsRedBlack (h : Heap N K) : Prop where
  root : ∀ n, h.root = some n → h.parent n = none ∧ h.color n = .black
  parent_of_child : ∀ m n d, h.Linked m → h.child d m = some n → h.parent n = some m
  child_of_parent : ∀ m n, h.Linked n → h.parent n = some m → h.Linked m ∧ ∃ d, h.child d m = some n
  one_side : ∀ m n, h.Linked m → h.child .left m = some n → h.child .right m ≠ some n
  no_red_red : ∀ m n d, h.Linked m → h.color m = .red → h.child d m = some n → h.color n = .black
  black_height : ∀ n k k', h.Linked n → h.Path (some n) k → h.Path (some n) k' → k = k'

theorem Zip.isRedBlack (zip : h.Zip [] t) (valid : t.Valid) : h.IsRedBlack where
  root := by
    intro n here
    have root : t.ptr = some n := zip.around.symm.trans here
    obtain ⟨c, a, b, rfl⟩ := exists_branch root .left
    have black := valid.root
    rw [color_branch] at black
    exact ⟨zip.parent, by rw [zip.color, black]⟩
  parent_of_child := by
    intro m n d linked here
    exact (zip.child_mem (zip.linked_iff.mp linked) here).2
  child_of_parent := by
    intro m n linked here
    obtain ⟨ctx, c, l, r, rfl⟩ := exists_plug (zip.linked_iff.mp linked)
    have atN := zip_nil_iff.mpr zip
    have parent : h.parent n = Context.parent ctx := atN.inside.2.1
    rw [here] at parent
    cases ctx with
    | nil => cases parent
    | cons f ctx =>
      cases parent
      refine ⟨zip.linked_iff.mpr ?_, f.d, atN.around.2.2.1⟩
      refine (inorder_plug_perm _ _).mem_iff.mpr (List.mem_append_right _ ?_)
      exact List.mem_cons_self
  one_side := by
    intro m n linked left right
    obtain ⟨ctx, c, l, r, rfl⟩ := exists_plug (zip.linked_iff.mp linked)
    have atM := zip_nil_iff.mpr zip
    obtain ⟨-, -, apart, -⟩ := Zip.apart (d := .left) atM
    rw [atM.inside.2.2.1] at left
    rw [atM.inside.2.2.2.1] at right
    exact apart n (ptr_mem left) (ptr_mem right)
  no_red_red := by
    intro m n d linked red here
    obtain ⟨ctx, c, l, r, rfl⟩ := exists_plug (zip.linked_iff.mp linked)
    obtain ⟨k, -, ok, -⟩ := valid_plug_iff.mp valid
    obtain ⟨c', a, b, same⟩ := @exists_branch N (.node c l m r) m rfl d
    rw [same] at zip ok
    have atM := zip_nil_iff.mpr zip
    rw [atM.color] at red
    subst red
    rw [atM.near] at here
    have black := (ok_red.mp ok).2.2.1
    obtain ⟨c'', a', b', rfl⟩ := exists_branch here .left
    rw [color_branch] at black
    rw [atM.down.color, black]
  black_height := by
    intro n k k' linked path path'
    obtain ⟨ctx, c, l, r, rfl⟩ := exists_plug (zip.linked_iff.mp linked)
    obtain ⟨j, -, ok, -⟩ := valid_plug_iff.mp valid
    have atN := zip_nil_iff.mpr zip
    rw [atN.path ok path, atN.path ok path']

/-! ## Operations -/

variable [DecidableEq N] [LinearOrder K]

inductive Op (N : Type) where
  | insert (z : N)
  | delete (z : N)

/-- Nodes are inserted when they are not in the tree, and deleted when they are. -/
def Op.Allowed (h : Heap N K) : Op N → Prop
  | .insert z => ¬h.Linked z
  | .delete z => h.Linked z

def apply (rounds : Nat) (h : Heap N K) : Op N → Except Fault (Heap N K)
  | .insert z => h.rbInsert rounds z
  | .delete z => h.rbDelete rounds z

/-- The operation returns, in some number of rounds of its loops. -/
def Returns (h : Heap N K) (op : Op N) (h' : Heap N K) : Prop :=
  ∃ rounds, h.apply rounds op = .ok h'

theorem apply_below {more : Nat} (le : rounds ≤ more) (h : Heap N K) (op : Op N) :
    Outcome.Below (h.apply rounds op) (h.apply more op) := by
  cases op with
  | insert z => exact rbInsert_below le h z
  | delete z => exact rbDelete_below le h z

/-- The heaps after any operations, from an empty tree. -/
inductive Reachable : Heap N K → Prop
  | empty {h : Heap N K} (none : h.root = none) : Reachable h
  | op {h h' : Heap N K} {op : Op N} (before : Reachable h) (allowed : op.Allowed h)
      (returns : h.Returns op h') : Reachable h'
  /-- Nodes outside of the tree may change in any way. -/
  | outside {h h' : Heap N K} (before : Reachable h) (root : h'.root = h.root)
      (same : ∀ n, h.Linked n → SameAt h h' n ∧ h'.key n = h.key n) : Reachable h'

structure Ordered (h : Heap N K) (t : ColorTree N) : Prop where
  zip : h.Zip [] t
  valid : t.Valid
  sorted : h.Sorted t.inorder

omit [DecidableEq N] in
theorem Ordered.visits (ordered : h.Ordered t) : h.Visits h.root t.inorder := by
  have root : h.root = t.ptr := ordered.zip.around
  rw [root]
  exact ordered.zip.visits

omit [DecidableEq N] in
theorem Ordered.nodup (ordered : h.Ordered t) : t.inorder.Nodup := by
  have nodup := ordered.zip.nodup
  rwa [Context.nodes, List.append_nil] at nodup

variable {nodes : List N}

omit [DecidableEq N] in
theorem takeWhile_eq_filter (k : K) (sorted : h.Sorted nodes) :
    nodes.takeWhile (h.key · ≤ k) = nodes.filter (h.key · ≤ k) := by
  induction nodes with
  | nil => rfl
  | cons n rest ih =>
    obtain ⟨above, sortedRest⟩ := List.pairwise_cons.mp sorted
    by_cases le : h.key n ≤ k
    · have pass : decide (h.key n ≤ k) = true := decide_eq_true le
      simp only [List.takeWhile_cons, List.filter_cons, pass, if_true,
        ih sortedRest]
    · rw [List.takeWhile_cons_of_neg (by simpa using le), eq_comm, List.filter_eq_nil_iff]
      intro m mem
      rcases List.mem_cons.mp mem with rfl | later
      · simpa using le
      · simpa using (not_le.mp le).trans_le (above m later)

omit [DecidableEq N] in
theorem dropWhile_eq_filter (k : K) (sorted : h.Sorted nodes) :
    nodes.dropWhile (h.key · ≤ k) = nodes.filter (k < h.key ·) := by
  induction nodes with
  | nil => rfl
  | cons n rest ih =>
    obtain ⟨above, sortedRest⟩ := List.pairwise_cons.mp sorted
    by_cases le : h.key n ≤ k
    · have pass : decide (h.key n ≤ k) = true := decide_eq_true le
      rw [List.dropWhile_cons, if_pos pass, List.filter_cons_of_neg (by simpa using le),
        ih sortedRest]
    · rw [List.dropWhile_cons_of_neg (by simpa using le), eq_comm, List.filter_eq_self]
      intro m mem
      rcases List.mem_cons.mp mem with rfl | later
      · simpa using le
      · simpa using (not_le.mp le).trans_le (above m later)

/-- `z` after the nodes with keys up to its own, and before those with larger keys. -/
def inserted (h : Heap N K) (z : N) (nodes : List N) : List N :=
  nodes.filter (h.key · ≤ h.key z) ++ z :: nodes.filter (h.key z < h.key ·)

omit [DecidableEq N] in
theorem sorted_inserted (z : N) (sorted : h.Sorted nodes) : h.Sorted (h.inserted z nodes) := by
  have low : ∀ n ∈ nodes.filter (h.key · ≤ h.key z), h.key n ≤ h.key z := fun n mem =>
    of_decide_eq_true (List.mem_filter.mp mem).2
  have high : ∀ n ∈ nodes.filter (h.key z < h.key ·), h.key z ≤ h.key n := fun n mem =>
    (of_decide_eq_true (List.mem_filter.mp mem).2).le
  refine List.pairwise_append.mpr
    ⟨sorted.filter _, List.pairwise_cons.mpr ⟨high, sorted.filter _⟩, ?_⟩
  intro m left n right
  rcases List.mem_cons.mp right with rfl | later
  · exact low m left
  · exact (low m left).trans (high n later)

theorem Ordered.insert (ordered : h.Ordered t) {z : N}
    (fresh : z ∉ t.inorder) (enough : t.inorder.length < rounds) :
    ∃ h' t', h.rbInsert rounds z = .ok h' ∧ h'.Ordered t' ∧ h'.key = h.key ∧
      t'.inorder = h.inserted z t.inorder := by
  obtain ⟨h', t', ok, zip, valid, key, inorder⟩ :=
    rbInsert_spec ordered.zip ordered.valid ordered.sorted fresh enough
  rw [takeWhile_eq_filter _ ordered.sorted, dropWhile_eq_filter _ ordered.sorted] at inorder
  refine ⟨h', t', ok, ⟨zip, valid, ?_⟩, key, inorder⟩
  rw [Sorted, key, inorder]
  exact sorted_inserted z ordered.sorted

theorem Ordered.delete (ordered : h.Ordered t) {z : N}
    (mem : z ∈ t.inorder) (enough : t.inorder.length < rounds) :
    ∃ h' t', h.rbDelete rounds z = .ok h' ∧ h'.Ordered t' ∧ h'.key = h.key ∧
      t'.inorder = t.inorder.erase z := by
  obtain ⟨h', t', ok, zip, valid, key, inorder⟩ :=
    rbDelete_spec ordered.zip ordered.valid mem enough
  refine ⟨h', t', ok, ⟨zip, valid, ?_⟩, key, inorder⟩
  rw [Sorted, key, inorder]
  exact List.Pairwise.sublist List.erase_sublist ordered.sorted

theorem Ordered.apply (ordered : h.Ordered t) {op : Op N}
    (allowed : op.Allowed h) (enough : t.inorder.length < rounds) :
    ∃ h' t', h.apply rounds op = .ok h' ∧ h'.Ordered t' := by
  cases op with
  | insert z =>
    obtain ⟨h', t', ok, ordered', -⟩ :=
      ordered.insert (fun mem => allowed (ordered.zip.linked_iff.mpr mem)) enough
    exact ⟨h', t', ok, ordered'⟩
  | delete z =>
    obtain ⟨h', t', ok, ordered', -⟩ := ordered.delete (ordered.zip.linked_iff.mp allowed) enough
    exact ⟨h', t', ok, ordered'⟩

omit [DecidableEq N] [LinearOrder K] in
theorem not_linked_of_root_none (none : h.root = none) (n : N) : ¬h.Linked n := by
  intro linked
  induction linked with
  | root here =>
    rw [none] at here
    cases here
  | child _ _ ih => exact ih

theorem Reachable.ordered (reach : h.Reachable) : ∃ t, h.Ordered t := by
  induction reach with
  | empty none =>
    exact ⟨.nil, ⟨⟨trivial, none, List.nodup_nil⟩, ⟨rfl, 0, rfl⟩, List.Pairwise.nil⟩⟩
  | @op h h' op before allowed returns ih =>
    obtain ⟨t, ordered⟩ := ih
    obtain ⟨rounds, returned⟩ := returns
    obtain ⟨h'', t', ok, ordered'⟩ :=
      ordered.apply allowed (lt_max_of_lt_right (Nat.lt_succ_self _))
    rw [apply_below (le_max_left _ _) h op h' returned] at ok
    cases ok
    exact ⟨t', ordered'⟩
  | @outside h h' before root same ih =>
    obtain ⟨t, ordered⟩ := ih
    have sameIn : ∀ n ∈ t.inorder, SameAt h h' n ∧ h'.key n = h.key n := fun n mem =>
      same n (ordered.zip.linked_iff.mpr mem)
    refine ⟨t, ⟨ordered.zip.inside.congr fun n mem => (sameIn n mem).1,
      root.trans ordered.zip.around, ordered.zip.nodup⟩, ordered.valid, ?_⟩
    refine ordered.sorted.imp_of_mem fun first second le => ?_
    rw [(sameIn _ first).2, (sameIn _ second).2]
    exact le

/-- An empty tree over nodes whose keys are their halves. -/
def emptyHeap : Heap Nat Nat where
  child _ _ := none
  parent _ := none
  color _ := .red
  key n := n / 2
  root := none

/-- The tree of the nodes from 1 to `k`, inserted in this order. -/
def grown : Nat → Heap Nat Nat
  | 0 => emptyHeap
  | k + 1 => ((grown k).rbInsert 8 (k + 1)).toOption.getD emptyHeap

omit [DecidableEq N] [LinearOrder K] in
theorem Linked.mem (nodes : List N) (linked : h.Linked n) (root : ∀ m ∈ h.root, m ∈ nodes)
    (left : ∀ m ∈ nodes, ∀ n ∈ h.child .left m, n ∈ nodes)
    (right : ∀ m ∈ nodes, ∀ n ∈ h.child .right m, n ∈ nodes) : n ∈ nodes := by
  induction linked with
  | root here => exact root _ here
  | @child m n d _ here mem =>
    cases d with
    | left => exact left m mem n here
    | right => exact right m mem n here

theorem grown_reachable : (grown 4).Reachable := by
  have grows {k : Nat} (before : (grown k).Reachable) (fresh : ¬(grown k).Linked (k + 1))
      (ok : (grown k).rbInsert 8 (k + 1) = .ok (grown (k + 1))) : (grown (k + 1)).Reachable :=
    @Reachable.op _ _ _ _ _ _ (.insert (k + 1)) before fresh ⟨8, ok⟩
  have first := grows (.empty rfl) (not_linked_of_root_none rfl 1) rfl
  have second := grows first (fun linked => absurd
    (linked.mem [1] (by decide) (by decide) (by decide)) (by decide)) rfl
  have third := grows second (fun linked => absurd
    (linked.mem [1, 2] (by decide) (by decide) (by decide)) (by decide)) rfl
  exact grows third (fun linked => absurd
    (linked.mem [1, 2, 3] (by decide) (by decide) (by decide)) (by decide)) rfl

/-- Every tree that operations make is a red-black tree, and every further operation returns
without using a null pointer. -/
theorem rb_tree_invariant (h : Heap N K) (reachable : h.Reachable) :
    h.IsRedBlack ∧ (∃ nodes, h.Visits h.root nodes ∧ nodes.Nodup ∧ ∀ n, h.Linked n ↔ n ∈ nodes) ∧
      ∀ op : Op N, op.Allowed h → ∃ h', h.Returns op h' := by
  obtain ⟨t, ordered⟩ := reachable.ordered
  refine ⟨ordered.zip.isRedBlack ordered.valid,
    ⟨t.inorder, ordered.visits, ordered.nodup, fun n => ordered.zip.linked_iff⟩, ?_⟩
  intro op allowed
  obtain ⟨h', -, ok, -⟩ := ordered.apply allowed (Nat.lt_succ_self _)
  exact ⟨h', _, ok⟩

/-- The third insertion has rotated the root, and so does the deletion of node 1. -/
theorem rb_tree_invariant_rotated : (grown 2).root = some 1 ∧ (grown 4).root = some 2 ∧
    (grown 4).IsRedBlack ∧ (∃ h', (grown 4).Returns (.delete 1) h') ∧
    ((grown 4).rbDelete 8 1).toOption.bind Heap.root = some 3 := by
  obtain ⟨redBlack, -, returns⟩ := rb_tree_invariant (grown 4) grown_reachable
  exact ⟨rfl, rfl, redBlack, returns (.delete 1) (.child (.root rfl) (d := .left) rfl), rfl⟩

omit [DecidableEq N] [LinearOrder K] in
theorem Zip.extreme (d : Dir) (zip : h.Zip [] t) (enough : t.inorder.length ≤ rounds) :
    (h.root = none ∧ t = .nil ∧ h.extreme d rounds h.root = .ok none) ∨
      ∃ spine c m b, h.extreme d rounds h.root = .ok (some m) ∧
        t = plug spine (.branch d c .nil m b) ∧ ∀ f ∈ spine, f.d = d := by
  have root : h.root = t.ptr := zip.around
  cases t with
  | nil =>
    left
    exact ⟨root, rfl, by rw [root]; rfl⟩
  | node c l n r =>
    right
    obtain ⟨spine, c', m, b, found, same, sides⟩ := lastOn_zip d zip rfl enough
    refine ⟨spine, c', m, b, ?_, same, sides⟩
    rw [root]
    simp only [ptr, Heap.extreme, found, bind, Except.bind]

omit [DecidableEq N] in
theorem Ordered.first (ordered : h.Ordered t)
    (enough : t.inorder.length ≤ rounds) : h.rbFirst rounds h.root = .ok t.inorder.head? := by
  rcases ordered.zip.extreme .left enough with ⟨-, rfl, found⟩ | ⟨spine, c, m, b, found, rfl, sides⟩
  · exact found
  · rw [inorder_plug, before_of_left sides]
    exact found

omit [DecidableEq N] in
theorem Ordered.last (ordered : h.Ordered t)
    (enough : t.inorder.length ≤ rounds) : h.rbLast rounds h.root = .ok t.inorder.getLast? := by
  rcases ordered.zip.extreme .right enough with
    ⟨-, rfl, found⟩ | ⟨spine, c, m, b, found, rfl, sides⟩
  · exact found
  · rw [inorder_plug, after_of_right sides]
    simp only [branch, inorder, List.append_nil, ← List.append_assoc,
      List.getLast?_append, List.getLast?_singleton, Option.some_or]
    exact found

/-- The operations on a tree are those on the list of its nodes in the order of their keys. -/
theorem rb_operations_on_list (h : Heap N K) (reachable : h.Reachable) :
    ∃ nodes, h.Visits h.root nodes ∧ h.Sorted nodes ∧
      (∀ z, ¬h.Linked z → ∃ h', h.Returns (.insert z) h' ∧ h'.key = h.key ∧
        h'.Visits h'.root (h.inserted z nodes)) ∧
      (∀ z, h.Linked z → ∃ h', h.Returns (.delete z) h' ∧ h'.key = h.key ∧
        h'.Visits h'.root (nodes.erase z)) ∧
      ∃ rounds, h.rbFirst rounds h.root = .ok nodes.head? ∧
        h.rbLast rounds h.root = .ok nodes.getLast? := by
  obtain ⟨t, ordered⟩ := reachable.ordered
  refine ⟨t.inorder, ordered.visits, ordered.sorted, ?_, ?_, ?_⟩
  · intro z fresh
    obtain ⟨h', t', ok, ordered', key, inorder⟩ := ordered.insert
      (fun member => fresh (ordered.zip.linked_iff.mpr member)) (Nat.lt_succ_self _)
    rw [← inorder]
    exact ⟨h', ⟨_, ok⟩, key, ordered'.visits⟩
  · intro z linked
    obtain ⟨h', t', ok, ordered', key, inorder⟩ := ordered.delete
      (ordered.zip.linked_iff.mp linked) (Nat.lt_succ_self _)
    rw [← inorder]
    exact ⟨h', ⟨_, ok⟩, key, ordered'.visits⟩
  · exact ⟨_, ordered.first le_rfl, ordered.last le_rfl⟩

theorem rb_operations_on_list_rotated :
    ∃ nodes, (grown 4).Visits (grown 4).root nodes ∧ (grown 4).Sorted nodes ∧
      ∃ h', (grown 4).Returns (.delete 1) h' ∧ h'.Visits h'.root (nodes.erase 1) := by
  obtain ⟨nodes, visits, sorted, -, delete, -⟩ := rb_operations_on_list (grown 4) grown_reachable
  obtain ⟨h', returns, -, visits'⟩ := delete 1 (.child (.root rfl) (d := .left) rfl)
  exact ⟨nodes, visits, sorted, h', returns, visits'⟩

end Heap

end Xv6.RbTree

import Xv6.Fs.DirectoryLinks

/-!
# Changes of a directory tree

A link count changes alone, an inode is taken into use or given back, an entry is written or
erased.
-/

namespace Xv6.Directory

open Blocks (FileType)
open Function

variable {n : Nat} {inodes : Nat → Inode} {linked : Nat → Bool} {slack : Nat → Nat} {i : Nat}

namespace DiskOk

/-! ## Counts -/

section

variable (ok : DiskOk slack n inodes linked)
include ok

section

variable {inodes' : Nat → Inode} {linked' : Nat → Bool} {slack' : Nat → Nat}
  (type : ∀ j, (inodes' j).type = (inodes j).type)
include type

/-- No inode changes its type, and no directory its parent. -/
theorem keepTypes (parent : ∀ {d}, (inodes d).type = .dir → (inodes' d).parent = (inodes d).parent)
    (root : linked' ROOTINO = true) (shape : ∀ d, (inodes d).type = .dir → (inodes' d).DirShape n d)
    (child : ∀ d e, (inodes d).type = .dir → e ∈ (inodes' d).rest → e.inum ≠ 0#16 →
      (inodes e.inum.toNat).type = .dir → (inodes e.inum.toNat).parent = d)
    (once : ∀ j, (inodes j).type = .dir →
      named n inodes' j = if linked' j = true ∧ j ≠ ROOTINO then 1 else 0)
    (parents : ∀ d, (inodes d).type = .dir → linked' d = true →
      (inodes (inodes d).parent).type = .dir)
    (count : ∀ j, (inodes' j).nlink.toInt = links n inodes' linked' j + slack' j)
    (freed : ∀ j, (inodes j).type = .free → (inodes' j).nlink = 0#16) :
    DiskOk slack' n inodes' linked' where
  small := ok.small
  rootInside := ok.rootInside
  zero := (type 0).trans ok.zero
  outside j beyond := (type j).trans (ok.outside j beyond)
  root := (type ROOTINO).trans ok.root
  rootLinked := root
  rootParent := (parent ok.root).trans ok.rootParent
  shape d dir := shape d ((type d).symm.trans dir)
  child d e dir mem nonempty below := by
    rw [type] at dir below
    rw [parent below]
    exact child d e dir mem nonempty below
  once j dir := once j ((type j).symm.trans dir)
  parents d dir entered := by
    rw [type] at dir
    rw [parent dir, type]
    exact parents d dir entered
  proper d dir notRoot := by
    rw [type] at dir
    rw [parent dir]
    exact ok.proper d dir notRoot
  count := count
  freed j free := freed j ((type j).symm.trans free)

/-- The directories and what they are entered in stay the same. -/
theorem keepDirectories
    (entries : ∀ {d}, (inodes d).type = .dir → (inodes' d).entries = (inodes d).entries)
    (flag : ∀ {d}, (inodes d).type = .dir → linked' d = linked d)
    (count : ∀ j, (inodes' j).nlink.toInt = links n inodes linked j + slack' j)
    (freed : ∀ j, (inodes j).type = .free → (inodes' j).nlink = 0#16) :
    DiskOk slack' n inodes' linked' := by
  have parent {d : Nat} (dir : (inodes d).type = .dir) :
      (inodes' d).parent = (inodes d).parent := by
    simp only [Inode.parent, entries dir]
  have rest {d : Nat} (dir : (inodes d).type = .dir) :
      (inodes' d).rest = (inodes d).rest := by
    simp only [Inode.rest, entries dir]
  have linksSame (j : Nat) : links n inodes' linked' j = links n inodes linked j := by
    refine Finset.sum_congr rfl fun d _ => ?_
    by_cases dir : (inodes d).type = .dir
    · simp only [Inode.linksTo, type, entries dir, flag dir]
    · rw [linksTo_of_type_ne dir, linksTo_of_type_ne (by rwa [type])]
  have namedSame (j : Nat) : named n inodes' j = named n inodes j := by
    refine Finset.sum_congr rfl fun d _ => ?_
    by_cases dir : (inodes d).type = .dir
    · simp only [Inode.restTo, type, rest dir]
    · rw [restTo_of_type_ne dir, restTo_of_type_ne (by rwa [type])]
  refine ok.keepTypes type parent ((flag ok.root).trans ok.rootLinked) (fun d dir => ?_)
    (fun d e dir mem => ?_) (fun j dir => ?_) (fun d dir entered => ?_)
    (fun j => ?_) freed
  · obtain ⟨form, pos, inside, plain⟩ := ok.shape d dir
    refine ⟨?_, ?_, ?_, ?_⟩ <;>
      simpa only [entries dir, parent dir, rest dir]
  · rw [rest dir] at mem
    exact ok.child d e dir mem
  · rw [namedSame, flag dir]
    exact ok.once j dir
  · rw [flag dir] at entered
    exact ok.parents d dir entered
  · rw [linksSame]
    exact count j

end

theorem setNlink (allocated : (inodes i).type ≠ .free) {v : BitVec 16} {slack' : Nat}
    (counted : v.toInt = links n inodes linked i + slack') :
    DiskOk (update slack i slack') n (update inodes i { inodes i with nlink := v }) linked := by
  have other (j : Nat) : j = i ∨ update inodes i { inodes i with nlink := v } j = inodes j :=
    or_iff_not_imp_left.mpr fun other => update_of_ne other ..
  refine ok.keepDirectories (fun j => ?_) (fun {d} _ => ?_) (fun _ => rfl) (fun j => ?_)
    fun j free => ?_
  · rcases other j with rfl | same
    · rw [update_self]
    · rw [same]
  · rcases other d with rfl | same
    · rw [update_self]
    · rw [same]
  · by_cases here : j = i
    · subst here
      rw [update_self, update_self]
      exact counted
    · rw [update_of_ne here, update_of_ne here]
      exact ok.count j
  · have apart : j ≠ i := by
      rintro rfl
      exact allocated free
    rw [update_of_ne apart]
    exact ok.freed j free

/-! ## Inodes given back -/

theorem linksTo_abandoned (unlinked : (inodes i).nlink = 0#16) (j : Nat) :
    (inodes i).linksTo (linked i) j = (inodes i).restTo j := by
  by_cases dir : (inodes i).type = .dir
  · rw [ok.linksTo_eq dir, (ok.abandoned unlinked dir).2]
    simp
  · rw [linksTo_of_type_ne dir, restTo_of_type_ne dir]

theorem restTo_abandoned (unlinked : (inodes i).nlink = 0#16) {j : Nat}
    (below : (inodes j).type = .dir) :
    (inodes i).restTo j = 0 := by
  by_cases dir : (inodes i).type = .dir
  · rw [Inode.restTo, if_pos dir, List.countP_eq_zero]
    intro e mem names
    simp only [Dirent.names, ne_eq, decide_not, Bool.and_eq_true, Bool.not_eq_true',
      decide_eq_false_iff_not, beq_iff_eq] at names
    obtain ⟨nonempty, rfl⟩ := names
    have entered := (ok.entered dir mem nonempty below).1
    have pos := ok.links_pos_of_parent below entered
    rw [ok.child i e dir mem nonempty below] at pos
    have := (ok.links_eq_zero unlinked).1
    omega
  · exact restTo_of_type_ne dir j

/-- An inode that nothing links to, and that names no directory, becomes another such inode. -/
theorem replaceInode {node : Inode} {l : Bool} {slack' : Nat → Nat} (pos : 0 < i)
    (inside : i < n) (unnamed : links n inodes linked i = 0)
    (old : ∀ j, (inodes j).type = .dir → (inodes i).restTo j = 0)
    (empty : node.type = .dir →
      node.rest = [] ∧ node.DirShape n i ∧ node.parent ≠ i ∧ l = false)
    (count : ∀ j, (update inodes i node j).nlink.toInt + (inodes i).linksTo (linked i) j =
      links n inodes linked j + slack' j)
    (freed : node.type = .free → node.nlink = 0#16) :
    DiskOk slack' n (update inodes i node) (update linked i l) := by
  have notRoot : ROOTINO ≠ i := by
    rintro rfl
    have linked := ok.links_pos_of_parent ok.root ok.rootLinked
    rw [ok.rootParent] at linked
    omega
  have restTo (j : Nat) : node.restTo j = 0 := by
    by_cases dir : node.type = .dir
    · rw [Inode.restTo, if_pos dir, (empty dir).1, List.countP_nil]
    · exact restTo_of_type_ne dir j
  have linksTo (j : Nat) : node.linksTo l j = 0 := by
    by_cases dir : node.type = .dir
    · obtain ⟨-, shape, -, unlinked⟩ := empty dir
      rw [Directory.linksTo_eq ok.small dir shape, restTo, unlinked]
      simp
    · exact linksTo_of_type_ne dir l j
  have linksLost (j : Nat) : links n (update inodes i node) (update linked i l) j +
      (inodes i).linksTo (linked i) j = links n inodes linked j := by
    have first := @links_update_linked n inodes linked i inside l j
    have second := @links_update_inode n inodes (update linked i l) i inside node j
    rw [update_self, linksTo] at second
    omega
  refine ⟨ok.small, ok.rootInside, ?_, ?_, ?_, ?_, ?_, ?_, ?_, ?_, ?_, ?_, ?_, ?_⟩
  · rw [update_of_ne (by omega)]
    exact ok.zero
  · intro j beyond
    rw [update_of_ne (by omega)]
    exact ok.outside j beyond
  · rw [update_of_ne notRoot]
    exact ok.root
  · rw [update_of_ne notRoot]
    exact ok.rootLinked
  · rw [update_of_ne notRoot]
    exact ok.rootParent
  · intro d dir
    by_cases same : d = i
    · subst same
      rw [update_self] at dir ⊢
      exact (empty dir).2.1
    · rw [update_of_ne same] at dir ⊢
      exact ok.shape d dir
  · intro d e dir mem nonempty below
    by_cases same : d = i
    · subst same
      rw [update_self] at dir mem
      rw [(empty dir).1] at mem
      exact absurd mem List.not_mem_nil
    · rw [update_of_ne same] at dir mem
      have apart : e.inum.toNat ≠ i := by
        rintro rfl
        have := ok.links_pos_of_entry dir mem nonempty
        omega
      rw [update_of_ne apart] at below ⊢
      exact ok.child d e dir mem nonempty below
  · intro j dir
    have change := @named_update_inode n inodes i inside node j
    rw [restTo] at change
    by_cases same : j = i
    · subst same
      rw [update_self] at dir ⊢
      have := ok.named_le_links j
      rw [(empty dir).2.2.2, if_neg (by simp)]
      omega
    · rw [update_of_ne same] at dir ⊢
      rw [old j dir] at change
      exact change.trans (ok.once j dir)
  · intro d dir entered
    by_cases same : d = i
    · subst same
      rw [update_self] at dir entered
      cases (empty dir).2.2.2.symm.trans entered
    · rw [update_of_ne same] at dir entered ⊢
      have apart : (inodes d).parent ≠ i := by
        rintro rfl
        have := ok.links_pos_of_parent dir entered
        omega
      rw [update_of_ne apart]
      exact ok.parents d dir entered
  · intro d dir notRoot
    by_cases same : d = i
    · subst same
      rw [update_self] at dir ⊢
      exact (empty dir).2.2.1
    · rw [update_of_ne same] at dir ⊢
      exact ok.proper d dir notRoot
  · intro j
    have lost := linksLost j
    have counted := count j
    omega
  · intro j unused
    by_cases same : j = i
    · subst same
      rw [update_self] at unused ⊢
      exact freed unused
    · rw [update_of_ne same] at unused ⊢
      exact ok.freed j unused

theorem free (allocated : (inodes i).type ≠ .free) (unlinked : (inodes i).nlink = 0#16) :
    DiskOk (fun j => slack j + (inodes i).restTo j) n
      (update inodes i { inodes i with type := .free, entries := [] }) linked := by
  have replaced := @replaceInode n inodes linked slack i ok
    { inodes i with type := .free, entries := [] } (linked i)
    (fun j => slack j + (inodes i).restTo j) (ok.positive allocated) (ok.inside allocated)
    (ok.links_eq_zero unlinked).1 (fun _ => ok.restTo_abandoned unlinked) (by rintro ⟨⟩)
    (fun j => ?_) fun _ => unlinked
  · rwa [Function.update_eq_self] at replaced
  · have counted := ok.count j
    rw [ok.linksTo_abandoned unlinked]
    by_cases same : j = i
    · subst same
      rw [update_self]
      push_cast
      omega
    · rw [update_of_ne same]
      push_cast
      omega

/-! ## Inodes taken into use -/

theorem refree (free : (inodes i).type = .free)
    {node : Inode} (stays : node.type = .free) (unlinked : node.nlink = 0#16) (l : Bool) :
    DiskOk slack n (update inodes i node) (update linked i l) := by
  have other {d : Nat} (dir : (inodes d).type = .dir) : d ≠ i := by
    rintro rfl
    rw [free] at dir
    cases dir
  refine ok.keepDirectories (fun j => ?_) (fun dir => by rw [update_of_ne (other dir)])
    (fun dir => update_of_ne (other dir) ..) (fun j => ?_) fun j unused => ?_
  · by_cases here : j = i
    · rw [here, update_self, stays, free]
    · rw [update_of_ne here]
  · by_cases here : j = i
    · subst here
      rw [update_self, unlinked, ← ok.freed j free]
      exact ok.count j
    · rw [update_of_ne here]
      exact ok.count j
  · by_cases here : j = i
    · rw [here, update_self, unlinked]
    · rw [update_of_ne here]
      exact ok.freed j unused

/-- A new inode with a link count of 1 and no entry that names it. -/
theorem new {dp : Nat} (free : (inodes i).type = .free)
    (pos : 0 < i) (inside : i < n) (above : (inodes dp).type = .dir) {node : Inode}
    (used : node.type ≠ .free) (counted : node.nlink = 1#16)
    (dots : node.type = .dir →
      node.entries = [⟨BitVec.ofNat 16 i, dot⟩, ⟨BitVec.ofNat 16 dp, dotdot⟩]) :
    DiskOk (update slack i (slack i + 1)) n (update inodes i node) (update linked i false) := by
  have notDir : (inodes i).type ≠ .dir := free.trans_ne FileType.noConfusion
  have dpInside := ok.inside_of_dir above
  have zero := ok.links_eq_zero (ok.freed i free)
  refine ok.replaceInode pos inside zero.1 (fun j _ => restTo_of_type_ne notDir j)
    (fun dir => ?_) (fun j => ?_) fun unused => absurd unused used
  · have rest : node.rest = [] := by
      rw [Inode.rest, dots dir]
      rfl
    have parent : node.parent = dp := by
      rw [Inode.parent, dots dir]
      exact toNat_ofNat_of_lt ok.small dpInside
    refine ⟨rest, ⟨?_, ?_, ?_, ?_⟩, ?_, rfl⟩
    · rw [parent, rest, dots dir]
    · rw [parent]
      exact ok.positive (above.trans_ne FileType.noConfusion)
    · rw [parent]
      exact dpInside
    · rw [rest]
      exact fun e mem => absurd mem List.not_mem_nil
    · rw [parent]
      rintro rfl
      exact notDir above
  · rw [linksTo_of_type_ne notDir]
    have before := ok.count j
    by_cases same : j = i
    · subst same
      rw [update_self, update_self, counted]
      push_cast
      omega
    · rw [update_of_ne same, update_of_ne same]
      push_cast
      omega

end

/-! ## Entries -/

section

variable {dp : Nat} {node : Inode} {delta : Int}

/-- One entry more or less in `dp` names the inode `i`. -/
theorem named_rewire (inside : dp < n)
    (counted : ∀ j, (node.restTo j : Int) = (inodes dp).restTo j + if j = i then delta else 0)
    (j : Nat) :
    (named n (update inodes dp node) j : Int) = named n inodes j + if j = i then delta else 0 := by
  have change := @named_update_inode n inodes dp inside node j
  have := counted j
  zify at change
  linarith

/-- If the inode `i` is a directory, its `..` becomes a link to `dp`, or is one no more. -/
theorem links_rewire (ok : DiskOk slack n inodes linked) (directory : (inodes dp).type = .dir)
    (other : i ≠ dp) (allocated : (inodes i).type ≠ .free) (type : node.type = .dir)
    (shape : node.DirShape n dp) (parent : node.parent = (inodes dp).parent) {l : Bool}
    (counted : ∀ j, (node.restTo j : Int) = (inodes dp).restTo j + if j = i then delta else 0)
    (below : (inodes i).type = .dir → (inodes i).parent = dp ∧ i ≠ ROOTINO ∧
      (if l = true then 1 else 0 : Int) = (if linked i = true then 1 else 0) + delta) (j : Nat) :
    (links n (update inodes dp node) (update linked i l) j : Int) =
      links n inodes linked j + (if j = i then delta else 0) +
        if j = dp ∧ (inodes i).type = .dir then delta else 0 := by
  have first := @links_update_inode n inodes linked dp (ok.inside_of_dir directory) node j
  rw [Directory.linksTo_eq ok.small type shape, ok.linksTo_eq directory, parent] at first
  have second := @links_update_linked n (update inodes dp node) linked i (ok.inside allocated) l j
  rw [update_of_ne other] at second
  have rest := counted j
  by_cases dir : (inodes i).type = .dir
  · obtain ⟨up, -, flip⟩ := below dir
    rw [ok.linksTo_eq dir, ok.linksTo_eq dir, up] at second
    by_cases mine : j = dp
    · subst mine
      simp only [dir, and_true, if_true] at second ⊢
      zify at first second
      linarith
    · simp only [mine, Ne.symm mine, false_and, and_false, if_false] at second ⊢
      zify at first second
      linarith
  · rw [linksTo_of_type_ne dir, linksTo_of_type_ne dir] at second
    simp only [dir, and_false, if_false]
    zify at first second
    linarith

end

/-- One more (`delta = 1`) or one less (`delta = -1`) entry in the directory `dp` names the
inode `i`. If `i` is a directory, it is entered or removed thereby, and `dp` gains or
loses the link from its `..`. -/
theorem rewire (ok : DiskOk slack n inodes linked) {dp i : Nat}
    (directory : (inodes dp).type = .dir) (other : i ≠ dp)
    (allocated : (inodes i).type ≠ .free) {rest : List Dirent} {v : BitVec 16} {l : Bool}
    {delta : Int}
    (same : ∀ j, j ≠ i → rest.countP (·.names j) = (inodes dp).rest.countP (·.names j))
    (changed : (rest.countP (·.names i) : Int) = (inodes dp).rest.countP (·.names i) + delta)
    (plain : ∀ e ∈ rest, e.inum ≠ 0#16 → e.name ≠ dot ∧ e.name ≠ dotdot ∧ e.inum.toNat < n ∧
      (e ∈ (inodes dp).rest ∨ e.inum.toNat = i))
    (below : (inodes i).type = .dir → (inodes i).parent = dp ∧ i ≠ ROOTINO ∧
      (if l = true then 1 else 0 : Int) = (if linked i = true then 1 else 0) + delta)
    (count : v.toInt = (inodes dp).nlink.toInt + if (inodes i).type = .dir then delta else 0)
    {slack' : Nat → Nat} (elsewhere : ∀ j, j ≠ i → slack' j = slack j)
    (here : (slack' i : Int) = slack i - delta) :
    DiskOk slack' n (update inodes dp
        { inodes dp with
          entries := ⟨BitVec.ofNat 16 dp, dot⟩ ::
            ⟨BitVec.ofNat 16 (inodes dp).parent, dotdot⟩ :: rest
          nlink := v })
      (update linked i l) := by
  have shape := ok.shape dp directory
  -- The directory `dp` with its new entries.
  set node : Inode :=
    { inodes dp with
      entries := ⟨BitVec.ofNat 16 dp, dot⟩ :: ⟨BitVec.ofNat 16 (inodes dp).parent, dotdot⟩ :: rest
      nlink := v } with node_def
  have nodeType : node.type = .dir := directory
  have nodeParent : node.parent = (inodes dp).parent := toNat_ofNat_of_lt ok.small shape.parent_lt
  have nodeRest : node.rest = rest := rfl
  have nodeShape : node.DirShape n dp := by
    refine ⟨?_, by rw [nodeParent]; exact shape.parent_pos,
      by rw [nodeParent]; exact shape.parent_lt, fun e mem nonempty => ?_⟩
    · rw [nodeParent, nodeRest]
    · obtain ⟨notDot, notDotdot, bound, -⟩ := plain e mem nonempty
      exact ⟨notDot, notDotdot, bound⟩
  have restCount : ∀ j, (node.restTo j : Int) =
      (inodes dp).restTo j + if j = i then delta else 0 := by
    intro j
    rw [Inode.restTo, if_pos nodeType, Inode.restTo, if_pos directory, nodeRest]
    by_cases here' : j = i
    · subst here'
      rw [if_pos rfl]
      exact changed
    · rw [if_neg here', same j here']
      simp
  have flag : ∀ {d}, d ≠ i → update linked i l d = linked d := fun apart => update_of_ne apart ..
  refine ok.keepTypes (fun j => ?_) (fun {d} _ => ?_) ?_ (fun d dir => ?_)
    (fun d e dir mem nonempty dir' => ?_) (fun j dir => ?_) (fun d dir entered => ?_)
    (fun j => ?_) fun j unused => ?_
  · by_cases mine : j = dp
    · rw [mine, update_self]
    · rw [update_of_ne mine]
  · by_cases mine : d = dp
    · rw [mine, update_self, nodeParent]
    · rw [update_of_ne mine]
  · by_cases isRoot : ROOTINO = i
    · exact absurd isRoot.symm (below (isRoot ▸ ok.root)).2.1
    · rw [flag isRoot]
      exact ok.rootLinked
  · by_cases mine : d = dp
    · rw [mine, update_self]
      exact nodeShape
    · rw [update_of_ne mine]
      exact ok.shape d dir
  · by_cases mine : d = dp
    · subst mine
      rw [update_self, nodeRest] at mem
      rcases (plain e mem nonempty).2.2.2 with old | new
      · exact ok.child d e dir old nonempty dir'
      · rw [new] at dir' ⊢
        exact (below dir').1
    · rw [update_of_ne mine] at mem
      exact ok.child d e dir mem nonempty dir'
  · have counted := named_rewire (ok.inside_of_dir directory) restCount j
    have once := ok.once j dir
    by_cases mine : j = i
    · subst mine
      obtain ⟨-, notRoot, flip⟩ := below dir
      rw [if_pos rfl] at counted
      simp only [notRoot, ne_eq, not_false_eq_true, and_true] at once ⊢
      rw [update_self]
      zify
      linarith
    · rw [flag mine]
      omega
  · by_cases mine : d = i
    · subst mine
      rw [(below dir).1]
      exact directory
    · rw [flag mine] at entered
      exact ok.parents d dir entered
  · rw [ok.links_rewire directory other allocated nodeType nodeShape nodeParent restCount below]
    have counted := ok.count j
    by_cases mine : j = dp
    · subst mine
      rw [update_self, elsewhere j other.symm, if_neg other.symm]
      simp only [true_and]
      rw [count, counted]
      ring
    · simp only [update_of_ne mine, mine, false_and, if_false]
      by_cases mine' : j = i
      · subst mine'
        rw [if_pos rfl, here, counted]
        ring
      · rw [if_neg mine', elsewhere j mine', counted]
        ring
  · have apart : j ≠ dp := by
      rintro rfl
      rw [directory] at unused
      cases unused
    rw [update_of_ne apart]
    exact ok.freed j unused

end DiskOk

/-! ## Lists of entries -/

theorem addEntry_rest {a b e : Dirent} {rest entries : List Dirent} {full : Bool}
    (first : a.inum ≠ 0#16) (second : b.inum ≠ 0#16)
    (added : addEntry (a :: b :: rest) e full = some entries) :
    ∃ rest', entries = a :: b :: rest' ∧ (∀ x ∈ rest', x ∈ rest ∨ x = e) ∧
      ∀ j, rest'.countP (·.names j) = rest.countP (·.names j) + if e.names j then 1 else 0 := by
  unfold addEntry at added
  split at added
  · next off found =>
    cases added
    obtain ⟨inside, empty, -⟩ := List.findIdx?_eq_some_iff_getElem.mp found
    rcases off with _ | _ | k
    · simp [first] at empty
    · simp [second] at empty
    · refine ⟨rest.set k e, rfl, fun x mem => List.mem_or_eq_of_mem_set mem, fun j => ?_⟩
      have inside' : k < rest.length := by simpa using inside
      have vacant : rest[k].names j = false := by
        simp only [List.getElem_cons_succ, beq_iff_eq] at empty
        simp [Dirent.names, empty]
      rw [List.countP_set inside', vacant]
      simp
  · split at added
    · cases added
    · cases added
      refine ⟨rest ++ [e], rfl, fun x mem => ?_, fun j => ?_⟩
      · rcases List.mem_append.mp mem with old | new
        · exact Or.inl old
        · exact Or.inr (List.mem_singleton.mp new)
      · rw [List.countP_append, List.countP_singleton]

theorem erase_rest {rest : List Dirent} {k : Nat} (inside : k < rest.length)
    (names : rest[k].names i = true) :
    (∀ x ∈ rest.set k ⟨0#16, []⟩, x ∈ rest ∨ x.inum = 0#16) ∧
      (∀ j, j ≠ i → (rest.set k ⟨0#16, []⟩).countP (·.names j) = rest.countP (·.names j)) ∧
      ((rest.set k ⟨0#16, []⟩).countP (·.names i) : Int) = rest.countP (·.names i) - 1 := by
  have blank : ∀ j, Dirent.names ⟨0#16, []⟩ j = false := fun j => by simp [Dirent.names]
  refine ⟨fun x mem => ?_, fun j other => ?_, ?_⟩
  · rcases List.mem_or_eq_of_mem_set mem with old | new
    · exact Or.inl old
    · exact Or.inr (new ▸ rfl)
  · have refused : rest[k].names j = false := by
      simp only [Dirent.names, ne_eq, decide_not, Bool.and_eq_true, Bool.not_eq_true',
        decide_eq_false_iff_not, beq_iff_eq] at names
      simp [Dirent.names, names.2, Ne.symm other]
    rw [List.countP_set inside, refused, blank]
    simp
  · rw [List.countP_set inside, names, blank]
    have pos : 0 < rest.countP (·.names i) :=
      List.countP_pos_iff.mpr ⟨rest[k], List.getElem_mem inside, names⟩
    simp
    omega

theorem findEntry_eq_some {entries : List Dirent} {name : Name} {off inum : Nat}
    (found : findEntry entries name = some (off, inum)) :
    ∃ inside : off < entries.length, entries[off].inum ≠ 0#16 ∧ entries[off].name = name ∧
      entries[off].inum.toNat = inum := by
  unfold findEntry at found
  split at found
  · cases found
  · next off' position =>
    obtain ⟨inside, matching, -⟩ := List.findIdx?_eq_some_iff_getElem.mp position
    rw [List.getElem?_eq_getElem inside, Option.map_some] at found
    cases found
    simp only [ne_eq, decide_not, Bool.and_eq_true, Bool.not_eq_true', decide_eq_false_iff_not,
      beq_iff_eq] at matching
    exact ⟨inside, matching.1, matching.2, rfl⟩

theorem name_ne_of_findEntry_eq_none {entries : List Dirent} {name : Name}
    (absent : findEntry entries name = none) {e : Dirent} (mem : e ∈ entries)
    (nonempty : e.inum ≠ 0#16) : e.name ≠ name := by
  unfold findEntry at absent
  split at absent
  · next missing =>
    have := List.findIdx?_eq_none_iff.mp missing e mem
    simpa [nonempty] using this
  · next off position =>
    obtain ⟨inside, -, -⟩ := List.findIdx?_eq_some_iff_getElem.mp position
    rw [List.getElem?_eq_getElem inside] at absent
    cases absent

end Xv6.Directory

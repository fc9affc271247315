import Xv6.Fs.Directory
import Xv6.Library.RefCount

/-!
# Link counts of a directory tree

The link count of an inode is compared with the number of entries that name it, with a slack
for links that are counted but have no entry.
-/

namespace Xv6.Directory

open Blocks (FileType)
open Function

variable {d i : Nat} {e : Dirent} {node : Inode}

/-- An entry that counts as a link to inode `i`, in a directory that has been entered in
its parent if `linked`. -/
def Dirent.counts (e : Dirent) (linked : Bool) (i : Nat) : Bool :=
  e.inum ≠ 0#16 && e.inum.toNat == i && e.name ≠ dot && (e.name ≠ dotdot || linked)

def Dirent.names (e : Dirent) (i : Nat) : Bool := e.inum ≠ 0#16 && e.inum.toNat == i

namespace Inode

/-- The links to inode `i` in a directory. -/
def linksTo (node : Inode) (linked : Bool) (i : Nat) : Nat :=
  if node.type = .dir then node.entries.countP (·.counts linked i) else 0

/-- The entries after `.` and `..`. -/
def rest (node : Inode) : List Dirent := node.entries.drop 2

/-- What the entry `..` names. -/
def parent (node : Inode) : Nat :=
  match node.entries[1]? with
  | none => 0
  | some e => e.inum.toNat

/-- The links to inode `i` apart from `..`. -/
def restTo (node : Inode) (i : Nat) : Nat :=
  if node.type = .dir then node.rest.countP (·.names i) else 0

/-- The form of the directory `d` among `n` inodes. -/
structure DirShape (n d : Nat) (node : Inode) : Prop where
  entries : node.entries =
    ⟨BitVec.ofNat 16 d, dot⟩ :: ⟨BitVec.ofNat 16 node.parent, dotdot⟩ :: node.rest
  parent_pos : 0 < node.parent
  parent_lt : node.parent < n
  rest : ∀ e ∈ node.rest, e.inum ≠ 0#16 → e.name ≠ dot ∧ e.name ≠ dotdot ∧ e.inum.toNat < n

end Inode

/-- The links to inode `i` in all directories. -/
def links (n : Nat) (inodes : Nat → Inode) (linked : Nat → Bool) (i : Nat) : Nat :=
  ∑ d ∈ Finset.range n, (inodes d).linksTo (linked d) i

/-- The links to inode `i` apart from `..`. -/
def named (n : Nat) (inodes : Nat → Inode) (i : Nat) : Nat :=
  ∑ d ∈ Finset.range n, (inodes d).restTo i

/-- A directory tree whose link counts are exact up to `slack`. -/
structure DiskOk (slack : Nat → Nat) (n : Nat) (inodes : Nat → Inode) (linked : Nat → Bool) :
    Prop where
  small : n ≤ 2 ^ 16
  rootInside : ROOTINO < n
  zero : (inodes 0).type = .free
  outside : ∀ i, n ≤ i → (inodes i).type = .free
  root : (inodes ROOTINO).type = .dir
  rootLinked : linked ROOTINO = true
  rootParent : (inodes ROOTINO).parent = ROOTINO
  shape : ∀ d, (inodes d).type = .dir → (inodes d).DirShape n d
  child : ∀ d e, (inodes d).type = .dir → e ∈ (inodes d).rest → e.inum ≠ 0#16 →
    (inodes e.inum.toNat).type = .dir → (inodes e.inum.toNat).parent = d
  once : ∀ i, (inodes i).type = .dir →
    named n inodes i = if linked i = true ∧ i ≠ ROOTINO then 1 else 0
  parents : ∀ d, (inodes d).type = .dir → linked d = true → (inodes (inodes d).parent).type = .dir
  proper : ∀ d, (inodes d).type = .dir → d ≠ ROOTINO → (inodes d).parent ≠ d
  count : ∀ i, (inodes i).nlink.toInt = links n inodes linked i + slack i
  freed : ∀ i, (inodes i).type = .free → (inodes i).nlink = 0#16

/-! ## Sums over all directories -/

variable {n : Nat} {inodes : Nat → Inode} {linked : Nat → Bool} {slack : Nat → Nat}

theorem links_update_inode {d : Nat} (inside : d < n) (node : Inode) (i : Nat) :
    links n (update inodes d node) linked i + (inodes d).linksTo (linked d) i =
      links n inodes linked i + node.linksTo (linked d) i :=
  RefCount.sum_update_mem (fun j node => node.linksTo (linked j) i) inodes
    (Finset.mem_range.mpr inside) node

theorem links_update_linked {d : Nat} (inside : d < n) (l : Bool) (i : Nat) :
    links n inodes (update linked d l) i + (inodes d).linksTo (linked d) i =
      links n inodes linked i + (inodes d).linksTo l i :=
  RefCount.sum_update_mem (fun j l => (inodes j).linksTo l i) linked (Finset.mem_range.mpr inside) l

theorem named_update_inode {d : Nat} (inside : d < n) (node : Inode) (i : Nat) :
    named n (update inodes d node) i + (inodes d).restTo i =
      named n inodes i + node.restTo i :=
  RefCount.sum_update_mem (fun _ node => node.restTo i) inodes (Finset.mem_range.mpr inside) node

/-! ## The links in one directory -/

theorem toNat_ofNat_of_lt (small : n ≤ 2 ^ 16) (inside : d < n) :
    (BitVec.ofNat 16 d).toNat = d := by
  rw [BitVec.toNat_ofNat, Nat.mod_eq_of_lt (by omega)]

theorem ofNat_ne_zero (small : n ≤ 2 ^ 16) (inside : d < n) (pos : 0 < d) :
    BitVec.ofNat 16 d ≠ 0#16 := by
  intro zero
  have value := toNat_ofNat_of_lt small inside
  rw [zero] at value
  exact absurd value.symm (Nat.pos_iff_ne_zero.mp pos)

theorem counts_eq_names (plain : e.inum ≠ 0#16 → e.name ≠ dot ∧ e.name ≠ dotdot)
    (l : Bool) (i : Nat) : e.counts l i = e.names i := by
  by_cases empty : e.inum = 0#16
  · simp [Dirent.counts, Dirent.names, empty]
  · simp [Dirent.counts, Dirent.names, plain empty]

theorem linksTo_of_type_ne (other : node.type ≠ .dir) (l : Bool) (i : Nat) : node.linksTo l i = 0 :=
  if_neg other

theorem restTo_of_type_ne (other : node.type ≠ .dir) (i : Nat) : node.restTo i = 0 := if_neg other

theorem linksTo_eq (small : n ≤ 2 ^ 16) (dir : node.type = .dir)
    (shape : node.DirShape n d) (l : Bool) (i : Nat) :
    node.linksTo l i = (if l = true ∧ node.parent = i then 1 else 0) + node.restTo i := by
  have plain : node.rest.countP (·.counts l i) = node.rest.countP (·.names i) := by
    apply List.countP_congr
    intro e mem
    rw [counts_eq_names fun nonempty =>
      ⟨(shape.rest e mem nonempty).1, (shape.rest e mem nonempty).2.1⟩]
  have above : Dirent.counts ⟨BitVec.ofNat 16 node.parent, dotdot⟩ l i =
      (l && node.parent == i) := by
    have value := toNat_ofNat_of_lt small shape.parent_lt
    have nonzero := ofNat_ne_zero small shape.parent_lt shape.parent_pos
    simp only [Dirent.counts, value, ne_eq, nonzero, not_false_eq_true, decide_true, Bool.true_and]
    cases l <;> simp [dot, dotdot]
  have self : Dirent.counts ⟨BitVec.ofNat 16 d, dot⟩ l i = false := by
    simp [Dirent.counts]
  rw [Inode.linksTo, if_pos dir, Inode.restTo, if_pos dir, shape.entries,
    List.countP_cons, List.countP_cons, plain, above, self]
  by_cases here : l = true ∧ node.parent = i
  · simp [here.1, here.2]
    omega
  · rw [if_neg here]
    have refused : (l && node.parent == i) = false := by
      cases l with
      | false => rfl
      | true =>
        rw [Bool.true_and, beq_eq_false_iff_ne]
        exact fun same => here ⟨rfl, same⟩
    simp [refused]

namespace DiskOk

section

variable (ok : DiskOk slack n inodes linked)
include ok

theorem inside (allocated : (inodes i).type ≠ .free) : i < n := by
  by_contra beyond
  exact allocated (ok.outside i (by omega))

theorem positive (allocated : (inodes i).type ≠ .free) : 0 < i := by
  rcases Nat.eq_zero_or_pos i with rfl | pos
  · exact absurd ok.zero allocated
  · exact pos

theorem inside_of_dir (dir : (inodes i).type = .dir) : i < n :=
  ok.inside (dir.trans_ne FileType.noConfusion)

theorem linksTo_eq (dir : (inodes d).type = .dir) (l : Bool) (i : Nat) :
    (inodes d).linksTo l i =
      (if l = true ∧ (inodes d).parent = i then 1 else 0) + (inodes d).restTo i :=
  Directory.linksTo_eq ok.small dir (ok.shape d dir) l i

theorem links_pos_of_parent (dir : (inodes d).type = .dir) (entered : linked d = true) :
    0 < links n inodes linked (inodes d).parent := by
  apply Finset.sum_pos_iff.mpr
  refine ⟨d, Finset.mem_range.mpr (ok.inside_of_dir dir), ?_⟩
  rw [ok.linksTo_eq dir, if_pos ⟨entered, rfl⟩]
  omega

end

theorem restTo_pos (dir : node.type = .dir)
    (mem : e ∈ node.rest) (nonempty : e.inum ≠ 0#16) : 0 < node.restTo e.inum.toNat := by
  rw [Inode.restTo, if_pos dir, List.countP_pos_iff]
  exact ⟨e, mem, by simp [Dirent.names, nonempty]⟩

section

variable (ok : DiskOk slack n inodes linked)
include ok

section

variable (dir : (inodes d).type = .dir) (mem : e ∈ (inodes d).rest) (nonempty : e.inum ≠ 0#16)
include dir mem nonempty

theorem links_pos_of_entry : 0 < links n inodes linked e.inum.toNat := by
  apply Finset.sum_pos_iff.mpr
  refine ⟨d, Finset.mem_range.mpr (ok.inside_of_dir dir), ?_⟩
  have := restTo_pos dir mem nonempty
  rw [ok.linksTo_eq dir]
  omega

theorem named_pos_of_entry : 0 < named n inodes e.inum.toNat := by
  apply Finset.sum_pos_iff.mpr
  exact ⟨d, Finset.mem_range.mpr (ok.inside_of_dir dir), restTo_pos dir mem nonempty⟩

end

theorem allocated_of_links (linked' : 0 < links n inodes linked i) : (inodes i).type ≠ .free := by
  intro free
  have counted := ok.count i
  rw [ok.freed i free] at counted
  simp only [BitVec.toInt_zero] at counted
  omega

theorem entered (dir : (inodes d).type = .dir) (mem : e ∈ (inodes d).rest)
    (nonempty : e.inum ≠ 0#16) (below : (inodes e.inum.toNat).type = .dir) :
    linked e.inum.toNat = true ∧ e.inum.toNat ≠ ROOTINO := by
  have pos := ok.named_pos_of_entry dir mem nonempty
  have counted := ok.once _ below
  by_contra absent
  rw [if_neg absent] at counted
  omega

theorem named_le_links (i : Nat) : named n inodes i ≤ links n inodes linked i := by
  apply Finset.sum_le_sum
  intro d _
  by_cases dir : (inodes d).type = .dir
  · rw [ok.linksTo_eq dir]
    omega
  · rw [restTo_of_type_ne dir]
    omega

theorem links_eq_zero (unlinked : (inodes i).nlink = 0#16) :
    links n inodes linked i = 0 ∧ slack i = 0 := by
  have counted := ok.count i
  rw [unlinked] at counted
  simp only [BitVec.toInt_zero] at counted
  omega

theorem abandoned (unlinked : (inodes i).nlink = 0#16) (dir : (inodes i).type = .dir) :
    i ≠ ROOTINO ∧ linked i = false := by
  have none := (ok.links_eq_zero unlinked).1
  have notRoot : i ≠ ROOTINO := by
    rintro rfl
    have pos := ok.links_pos_of_parent ok.root ok.rootLinked
    rw [ok.rootParent] at pos
    omega
  refine ⟨notRoot, ?_⟩
  by_contra entered
  rw [Bool.not_eq_false] at entered
  have once := ok.once i dir
  rw [if_pos ⟨entered, notRoot⟩] at once
  have below := ok.named_le_links i
  omega

end

end DiskOk

end Xv6.Directory

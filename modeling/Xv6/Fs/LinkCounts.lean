import Xv6.Fs.DirectoryRuns

/-!
# Link counts and dangling entries

If no entry is made in a directory that has been unlinked, and no link count overflows, then
link counts are exact and nothing is leaked. If no directory is made in such a directory, none
is unlinked that the `..` of another one still names, and no link count overflows, then every
entry names an inode in use.
-/

namespace Xv6.Directory

open Blocks (FileType)
open Outcome (Leads)
open Function

variable {node : Inode} {i : Nat} {linked' : Nat → Bool}

theorem parent_congr {node' : Inode} (entries : node'.entries = node.entries) :
    node'.parent = node.parent := by
  unfold Inode.parent
  rw [entries]

theorem rest_congr {node' : Inode} (entries : node'.entries = node.entries) :
    node'.rest = node.rest := by
  unfold Inode.rest
  rw [entries]

theorem ne_of_dir {inodes : Nat → Inode} {d : Nat} (free : node.type = .free)
    (dir : (update inodes i node d).type = .dir) : d ≠ i := by
  rintro rfl
  rw [update_self, free] at dir
  cases dir

variable {n : Nat} {inodes : Nat → Inode} {linked : Nat → Bool} {slack : Nat → Nat}

/-! ## Exact link counts -/

/-- A directory that has been unlinked contains nothing. -/
def Bare (inodes : Nat → Inode) (linked : Nat → Bool) : Prop :=
  ∀ d, (inodes d).type = .dir → linked d = false → ∀ e ∈ (inodes d).rest, e.inum = 0#16

namespace Bare

section

variable (bare : Bare inodes linked)
include bare

theorem setNlink (i : Nat) (v : BitVec 16) :
    Bare (update inodes i { inodes i with nlink := v }) linked := by
  intro d dir removed
  obtain ⟨type, entries⟩ := update_nlink inodes i v d
  rw [type] at dir
  rw [rest_congr entries]
  exact bare d dir removed

theorem vacate (free : node.type = .free) (same : ∀ d, d ≠ i → linked' d = linked d) :
    Bare (update inodes i node) linked' := by
  intro d dir removed
  have other := ne_of_dir free dir
  rw [update_of_ne other] at dir ⊢
  rw [same d other] at removed
  exact bare d dir removed

theorem restTo_eq_zero (ok : DiskOk slack n inodes linked)
    (unlinked : (inodes i).nlink = 0#16) (j : Nat) : (inodes i).restTo j = 0 := by
  by_cases dir : (inodes i).type = .dir
  · have empty := bare i dir (ok.abandoned unlinked dir).2
    rw [Inode.restTo, if_pos dir, List.countP_eq_zero]
    intro e mem
    simp [Dirent.names, empty e mem]
  · exact restTo_of_type_ne dir j

theorem new (empty : node.type = .dir → node.rest = []) (l : Bool) :
    Bare (update inodes i node) (update linked i l) := by
  intro d dir removed
  by_cases same : d = i
  · subst same
    rw [update_self] at dir ⊢
    rw [empty dir]
    nofun
  · rw [update_of_ne same] at dir removed ⊢
    exact bare d dir removed

theorem enter {i dp : Nat} {node : Inode} {l : Bool} (other : i ≠ dp) (above : linked dp = true)
    (child : (inodes i).type = .dir → l = true) :
    Bare (update inodes dp node) (update linked i l) := by
  intro d dir removed
  by_cases here : d = dp
  · subst here
    rw [update_of_ne (Ne.symm other), above] at removed
    cases removed
  · rw [update_of_ne here] at dir ⊢
    by_cases same : d = i
    · subst same
      rw [update_self, child dir] at removed
      cases removed
    · rw [update_of_ne same] at removed
      exact bare d dir removed

theorem remove {dp : Nat} {l : Bool} (other : i ≠ dp) (dir : (inodes dp).type = .dir)
    (members : ∀ e ∈ node.rest, e ∈ (inodes dp).rest ∨ e.inum = 0#16)
    (child : (inodes i).type = .dir → ∀ e ∈ (inodes i).rest, e.inum = 0#16) :
    Bare (update inodes dp node) (update linked i l) := by
  intro d dir' removed e mem
  by_cases here : d = dp
  · subst here
    rw [update_of_ne (Ne.symm other)] at removed
    rw [update_self] at mem
    rcases members e mem with old | empty
    · exact bare d dir removed e old
    · exact empty
  · rw [update_of_ne here] at dir' mem
    by_cases same : d = i
    · subst same
      exact child dir' e mem
    · rw [update_of_ne same] at removed
      exact bare d dir' removed e mem

end

end Bare

/-- No entry is made in a directory that has been unlinked. -/
def linkedParents : Discipline where
  keeps _ inodes linked := Bare inodes linked
  mayEnter linked _ := linked = true
  mayRemove _ _ := True
  mayLose slack := ∀ i, slack i = 0
  mayPanic _ := True
  lose_zero _ := rfl
  lose_add first second i := by
    dsimp only
    rw [first i, second i]
  panics _ := trivial
  dots _ _ := Or.inr trivial
  setNlink i v bare := bare.setNlink i v
  free _ bare _ _ := bare.vacate rfl fun _ _ => rfl
  lost ok bare unlinked j := bare.restTo_eq_zero ok unlinked j
  refree l bare _ stays := bare.vacate stays fun _ other => update_of_ne other ..
  new _ bare _ _ dots _ := bare.new (fun directory => (dots directory).2) false
  enter _ bare _ other above _ child := bare.enter other above fun directory => (child directory).1
  remove _ bare directory other child _ members :=
    bare.remove other directory members fun below => (child below).2.2

section Runs

variable {P F : Type} [Fintype P] [Fintype F] [DecidableEq P] [DecidableEq F]

/-- Link counts are exact in every run that makes no entry in an unlinked directory and
lets no link count overflow, and an inode without links is open or a current directory. -/
theorem nlink_eq_links {s : Fs P F} (reachable : Reachable (MayStep linkedParents) s) {i : Nat}
    (allocated : (s.inodes i).type ≠ .free) :
    (s.inodes i).nlink.toInt = links s.ninodes s.inodes s.linked i ∧
      (links s.ninodes s.inodes s.linked i = 0 →
        (s.inodes i).nlink = 0#16 ∧ ((∃ p, s.cwd p = some i) ∨ ∃ f, s.file f = some i)) := by
  obtain ⟨slack, exact, ok⟩ := reachable.holding fun s booted d directory removed => by
    rw [booted.entered d directory] at removed
    cases removed
  have counted := ok.disk.count i
  rw [exact i] at counted
  refine ⟨by omega, fun none => ?_⟩
  have unlinked : (s.inodes i).nlink = 0#16 := by
    apply BitVec.eq_of_toInt_eq
    rw [counted, none]
    rfl
  refine ⟨unlinked, holders_pos ?_⟩
  have referenced := (ok.refs.orphans i allocated unlinked).1
  rw [ok.refs.ref i] at referenced
  exact referenced

end Runs

theorem nlink_eq_links_mkdir : ∃ s : Fs Unit Unit, (s.inodes 2).type = .dir ∧
      (s.inodes 2).nlink.toInt = links s.ninodes s.inodes s.linked 2 := by
  obtain ⟨s, reachable, directory, -⟩ := @emptyFs_mkdir linkedParents rfl
  refine ⟨s, directory, (nlink_eq_links reachable ?_).1⟩
  exact directory.trans_ne FileType.noConfusion

/-- A file is made in a directory that has been unlinked and is lost with it: its link
count stays 1 though no entry names it and nobody has it open. -/
theorem file_lost_with_directory : ∃ s : Fs Unit Unit, Reachable (fun _ _ => True) s ∧ ∃ i,
      (s.inodes i).type ≠ .free ∧
      (s.inodes i).nlink.toInt ≠ links s.ninodes s.inodes s.linked i ∧
      links s.ninodes s.inodes s.linked i = 0 ∧ (s.inodes i).nlink ≠ 0#16 ∧
      (∀ p, s.cwd p ≠ some i) ∧ ∀ f, s.file f ≠ some i := by
  -- mkdir("d"), chdir("d"), unlink("/d"), open("f", O_CREATE), chdir("/")
  obtain ⟨s, reachable, ended⟩ := (Reachable.boot emptyFs_booted).ends
    [.mkdir () [100] {}, .chdir () [100], .unlink () [47, 100],
      .open () [102] 0x200 none {}, .chdir () [47]]
    (fun s => (s.inodes 3).type = .file ∧ (s.inodes 3).nlink = 1#16 ∧
      links s.ninodes s.inodes s.linked 3 = 0 ∧ s.cwd () = some 1 ∧ s.file () = none)
    (by decide +kernel)
  simp only [decide_eq_true_eq] at ended
  obtain ⟨type, nlink, none, cwd, file⟩ := ended
  refine ⟨s, reachable, 3, ?_, ?_, none, ?_, fun p => ?_, fun f => ?_⟩
  · exact type.trans_ne FileType.noConfusion
  · rw [nlink, none]
    decide
  · rw [nlink]
    decide
  · rw [cwd]
    decide
  · rw [file]
    decide

/-! ## Dangling entries -/

/-- Every `..` names a directory, and that of a directory which has been unlinked names
itself only. -/
structure Anchored (inodes : Nat → Inode) (linked : Nat → Bool) : Prop where
  above : ∀ d, (inodes d).type = .dir → (inodes (inodes d).parent).type = .dir
  alone : ∀ p d, (inodes p).type = .dir → linked p = false → (inodes d).type = .dir →
    (inodes d).parent = p → d = p

namespace Anchored

section

variable (anchored : Anchored inodes linked)
include anchored

theorem congr {inodes' : Nat → Inode} (type : ∀ d, (inodes' d).type = .dir ↔ (inodes d).type = .dir)
    (parent : ∀ d, (inodes d).type = .dir → (inodes' d).parent = (inodes d).parent)
    (alone : ∀ p, (inodes p).type = .dir → linked' p = false →
      linked p = false ∨ ∀ d, (inodes d).type = .dir → (inodes d).parent = p → d = p) :
    Anchored inodes' linked' := by
  refine ⟨fun d dir => ?_, fun p d above removed dir below => ?_⟩
  · rw [type d] at dir
    rw [parent d dir, type]
    exact anchored.above d dir
  · rw [type p] at above
    rw [type d] at dir
    rw [parent d dir] at below
    rcases alone p above removed with removed' | alone'
    · exact anchored.alone p d above removed' dir below
    · exact alone' d dir below

theorem vacate (free : node.type = .free) (same : ∀ d, d ≠ i → linked' d = linked d)
    (alone : ∀ d, (inodes d).type = .dir → (inodes d).parent = i → d = i) :
    Anchored (update inodes i node) linked' := by
  refine ⟨fun d dir => ?_, fun p d above removed dir below => ?_⟩
  · have other := ne_of_dir free dir
    rw [update_of_ne other] at dir ⊢
    rw [update_of_ne fun parent => other (alone d dir parent)]
    exact anchored.above d dir
  · have other := ne_of_dir free dir
    have other' := ne_of_dir free above
    rw [update_of_ne other] at dir below
    rw [update_of_ne other'] at above
    rw [same p other'] at removed
    exact anchored.alone p d above removed dir below

theorem new {dp : Nat} {l : Bool} (free : (inodes i).type = .free) (dir : (inodes dp).type = .dir)
    (parent : node.type = .dir → node.parent = dp ∧ linked dp = true) :
    Anchored (update inodes i node) (update linked i l) := by
  have apart : ∀ {d}, (inodes d).type = .dir → d ≠ i := by
    rintro d used rfl
    rw [free] at used
    cases used
  refine ⟨fun d dir' => ?_, fun p d above removed dir' below => ?_⟩
  · by_cases same : d = i
    · subst same
      rw [update_self] at dir' ⊢
      rw [(parent dir').1, update_of_ne (apart dir)]
      exact dir
    · rw [update_of_ne same] at dir' ⊢
      have used := anchored.above d dir'
      rw [update_of_ne (apart used)]
      exact used
  · by_cases same : d = i
    · subst same
      rw [update_self] at dir' below
      obtain ⟨isParent, entered⟩ := parent dir'
      rw [isParent] at below
      rw [← below, update_of_ne (apart dir), entered] at removed
      cases removed
    · rw [update_of_ne same] at dir' below
      have used := anchored.above d dir'
      rw [below] at used
      have other := apart used
      rw [update_of_ne other] at above removed
      exact anchored.alone p d above removed dir' below

theorem rewire {i dp : Nat} {entries : List Dirent} {v : BitVec 16} {l : Bool}
    (parent : Inode.parent { inodes dp with entries := entries } = (inodes dp).parent)
    (alone : (inodes i).type = .dir → l = false →
      ∀ d, (inodes d).type = .dir → (inodes d).parent = i → d = i) :
    Anchored (update inodes dp { inodes dp with entries := entries, nlink := v })
      (update linked i l) := by
  refine anchored.congr (fun d => ?_) (fun d _ => ?_) fun p above removed => ?_
  · by_cases here : d = dp
    · rw [here, update_self]
    · rw [update_of_ne here]
  · by_cases here : d = dp
    · rw [here, update_self]
      exact parent
    · rw [update_of_ne here]
  · by_cases same : p = i
    · subst same
      rw [update_self] at removed
      exact Or.inr (alone above removed)
    · rw [update_of_ne same] at removed
      exact Or.inl removed

end

end Anchored

/-- No directory is made in a directory that has been unlinked, and none is unlinked that is
the parent of another one. -/
def linkedAncestors : Discipline where
  keeps _ inodes linked := Anchored inodes linked
  mayEnter linked directory := directory = true → linked = true
  mayRemove inodes i := ∀ d, (inodes d).type = .dir → (inodes d).parent = i → d = i
  mayLose _ := True
  mayPanic e := e ≠ .ilockNoType
  lose_zero := trivial
  lose_add _ _ := trivial
  panics other := other
  dots anchored directory := Or.inl ((anchored.above _ directory).trans_ne FileType.noConfusion)
  setNlink i v anchored := anchored.congr (fun d => by rw [(update_nlink _ i v d).1])
    (fun d _ => parent_congr (update_nlink _ i v d).2) fun _ _ removed => Or.inl removed
  free ok anchored _ unlinked := anchored.vacate rfl (fun _ _ => rfl) fun d directory parent => by
    have above := anchored.above d directory
    rw [parent] at above
    exact anchored.alone _ d above (ok.abandoned unlinked above).2 directory parent
  lost _ _ _ := trivial
  refree _ anchored free stays := anchored.vacate stays (fun _ other => update_of_ne other ..)
      fun d directory parent => by
        have above := anchored.above d directory
        rw [parent, free] at above
        cases above
  new _ anchored free above dots may := anchored.new free above fun directory =>
    ⟨(dots directory).1, may (beq_iff_eq.mpr directory)⟩
  enter _ anchored _ _ _ parent child := anchored.rewire parent fun directory removed => by
    rw [(child directory).1] at removed
    cases removed
  remove _ anchored _ _ child parent _ := anchored.rewire parent fun directory _ =>
    (child directory).2.1

section Runs

variable {P F : Type} [Fintype P] [Fintype F] [DecidableEq P] [DecidableEq F]

/-- In every run that makes no directory in an unlinked one, unlinks no parent of another
directory and lets no link count overflow, every entry names an inode in use, every `..`
names a directory, and no lookup finds an inode without a type. -/
theorem entries_name_inodes {s : Fs P F} (reachable : Reachable (MayStep linkedAncestors) s) :
    (∀ d e, (s.inodes d).type = .dir → e ∈ (s.inodes d).entries → e.inum ≠ 0#16 →
      (s.inodes e.inum.toNat).type ≠ .free ∧
      (e.name = dotdot → (s.inodes e.inum.toNat).type = .dir)) ∧
    ∀ p cwd path nameiparent, s.cwd p = some cwd →
      namex cwd path nameiparent s ≠ .error .ilockNoType := by
  obtain ⟨slack, -, ok⟩ := reachable.holding fun s booted => by
    refine ⟨fun d directory => booted.tree.parents d directory (booted.entered d directory), ?_⟩
    intro p d above removed
    rw [booted.entered p above] at removed
    cases removed
  refine ⟨fun d e directory member nonempty => ?_, fun p cwd path np current panicked => ?_⟩
  · have used : (s.inodes d).type ≠ .free := directory.trans_ne FileType.noConfusion
    have shape := ok.disk.shape d directory
    rw [shape.entries, List.mem_cons, List.mem_cons] at member
    rcases member with rfl | rfl | listed
    · rw [toNat_ofNat_of_lt ok.disk.small (ok.disk.inside used)]
      exact ⟨used, nofun⟩
    · have above := ok.kept.above d directory
      rw [toNat_ofNat_of_lt ok.disk.small shape.parent_lt, above]
      exact ⟨FileType.noConfusion, fun _ => rfl⟩
    · exact ⟨ok.disk.allocated_of_links (ok.disk.links_pos_of_entry directory listed nonempty),
        fun named => absurd named (shape.rest e listed nonempty).2.1⟩
  · exact (ok.namex_leads (holders_of_cwd current) path np).of_error panicked rfl

end Runs

theorem entries_name_inodes_mkdir : ∃ s : Fs Unit Unit, (s.inodes 2).type = .dir ∧
      (∀ e ∈ (s.inodes 2).entries, e.inum ≠ 0#16 → (s.inodes e.inum.toNat).type ≠ .free) ∧
      namex ROOTINO [100, 47, 46, 46] false s ≠ .error .ilockNoType := by
  obtain ⟨s, reachable, directory, current⟩ := @emptyFs_mkdir linkedAncestors fun _ => rfl
  obtain ⟨entries, lookups⟩ := entries_name_inodes reachable
  exact ⟨s, directory, fun e member nonempty => (entries 2 e directory member nonempty).1,
    lookups () ROOTINO _ _ current⟩

/-- A directory that is still the current one is unlinked, and then its parent: the entry
`..` names a free inode, and the lookup of `../x` panics. -/
theorem parent_freed_first : ∃ s : Fs Unit Unit, Reachable (fun _ _ => True) s ∧
      (∃ d e, (s.inodes d).type = .dir ∧ e ∈ (s.inodes d).entries ∧ e.inum ≠ 0#16 ∧
        e.name = dotdot ∧ (s.inodes e.inum.toNat).type = .free) ∧
      ∃ cwd path, s.cwd () = some cwd ∧ namex cwd path false s = .error .ilockNoType := by
  -- mkdir("p"), mkdir("p/d"), chdir("p/d"), unlink("/p/d"), unlink("/p")
  obtain ⟨s, reachable, ended⟩ := (Reachable.boot emptyFs_booted).ends
    [.mkdir () [112] {}, .mkdir () [112, 47, 100] {}, .chdir () [112, 47, 100],
      .unlink () [47, 112, 47, 100], .unlink () [47, 112]]
    (fun s => (s.inodes 3).type = .dir ∧ ⟨2#16, dotdot⟩ ∈ (s.inodes 3).entries ∧
      (s.inodes 2).type = .free ∧ s.cwd () = some 3 ∧
      (match namex 3 [46, 46, 47, 120] false s with
        | .error .ilockNoType => true
        | _ => false) = true)
    (by decide +kernel)
  simp only [decide_eq_true_eq] at ended
  obtain ⟨directory, member, free, current, panics⟩ := ended
  refine ⟨s, reachable, ⟨3, ⟨2#16, dotdot⟩, directory, member, by decide, rfl, free⟩,
    3, [46, 46, 47, 120], current, ?_⟩
  split at panics
  · assumption
  · cases panics

end Xv6.Directory

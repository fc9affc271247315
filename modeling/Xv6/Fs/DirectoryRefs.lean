import Xv6.Fs.DirectoryChanges

/-!
# References and path lookup

The invariant of the calls: the tree on disk, the reference counts, and a property that depends
on the discipline the calls keep. A lookup takes and drops references and changes nothing else.
-/

namespace Xv6.Directory

open Blocks (FileType)
open Outcome (Leads)
open Function

variable {i : Nat}

/-- A discipline of the calls: a property of the tree that every change keeps under the
conditions `mayEnter` on the directory of a new entry and `mayRemove` on a directory to be
removed, the slacks that may be left behind, and the panics that may be reached. -/
structure Discipline where
  keeps : Nat → (Nat → Inode) → (Nat → Bool) → Prop
  mayEnter : (linked : Bool) → (directory : Bool) → Prop
  mayRemove : (inodes : Nat → Inode) → Nat → Prop
  mayLose : (Nat → Nat) → Prop
  mayPanic : Panic → Prop
  lose_zero : mayLose fun _ => 0
  lose_add : ∀ {a b}, mayLose a → mayLose b → mayLose fun j => a j + b j
  panics : ∀ {e}, e ≠ .ilockNoType → mayPanic e
  dots : ∀ {n inodes linked d}, keeps n inodes linked → (inodes d).type = .dir →
    (inodes (inodes d).parent).type ≠ .free ∨ mayPanic .ilockNoType
  setNlink : ∀ {n inodes linked} (i : Nat) (v : BitVec 16), keeps n inodes linked →
    keeps n (update inodes i { inodes i with nlink := v }) linked
  free : ∀ {slack n inodes linked i}, DiskOk slack n inodes linked → keeps n inodes linked →
    (inodes i).type ≠ .free → (inodes i).nlink = 0#16 →
    keeps n (update inodes i { inodes i with type := .free, entries := [] }) linked
  lost : ∀ {slack n inodes linked i}, DiskOk slack n inodes linked → keeps n inodes linked →
    (inodes i).nlink = 0#16 → mayLose (inodes i).restTo
  refree : ∀ {n inodes linked i node} (l : Bool), keeps n inodes linked →
    (inodes i).type = .free → node.type = .free →
    keeps n (update inodes i node) (update linked i l)
  new : ∀ {slack n inodes linked i dp node}, DiskOk slack n inodes linked →
    keeps n inodes linked → (inodes i).type = .free → (inodes dp).type = .dir →
    (node.type = .dir → node.parent = dp ∧ node.rest = []) →
    mayEnter (linked dp) (node.type == .dir) →
    keeps n (update inodes i node) (update linked i false)
  enter : ∀ {slack n inodes linked i dp entries v l}, DiskOk slack n inodes linked →
    keeps n inodes linked → (inodes dp).type = .dir → i ≠ dp →
    mayEnter (linked dp) ((inodes i).type == .dir) →
    Inode.parent { inodes dp with entries := entries } = (inodes dp).parent →
    ((inodes i).type = .dir → l = true ∧ (inodes i).parent = dp) →
    keeps n (update inodes dp { inodes dp with entries := entries, nlink := v }) (update linked i l)
  remove : ∀ {slack n inodes linked i dp entries v l}, DiskOk slack n inodes linked →
    keeps n inodes linked → (inodes dp).type = .dir → i ≠ dp →
    ((inodes i).type = .dir → l = false ∧ mayRemove inodes i ∧
      ∀ e ∈ (inodes i).rest, e.inum = 0#16) →
    Inode.parent { inodes dp with entries := entries } = (inodes dp).parent →
    (∀ e ∈ Inode.rest { inodes dp with entries := entries }, e ∈ (inodes dp).rest ∨ e.inum = 0#16) →
    keeps n (update inodes dp { inodes dp with entries := entries, nlink := v }) (update linked i l)

variable {P F : Type}

/-- Everything but the inode table is the same. -/
structure SameTree (s s' : Fs P F) : Prop where
  ninodes : s'.ninodes = s.ninodes
  inodes : s'.inodes = s.inodes
  linked : s'.linked = s.linked
  cwd : s'.cwd = s.cwd
  file : s'.file = s.file

theorem SameTree.refl (s : Fs P F) : SameTree s s := ⟨rfl, rfl, rfl, rfl, rfl⟩

variable {s' : Fs P F}

theorem SameTree.trans {s s'' : Fs P F} (first : SameTree s s') (second : SameTree s' s'') :
    SameTree s s'' :=
  ⟨second.ninodes.trans first.ninodes, second.inodes.trans first.inodes,
    second.linked.trans first.linked, second.cwd.trans first.cwd, second.file.trans first.file⟩

/-- One more reference. -/
def bump (extra : Nat → Nat) (i : Nat) : Nat → Nat := update extra i (extra i + 1)

theorem bump_self (extra : Nat → Nat) (i : Nat) : bump extra i i = extra i + 1 := update_self ..

theorem bump_of_ne {extra : Nat → Nat} {j : Nat} (other : j ≠ i) : bump extra i j = extra j :=
  update_of_ne other ..

theorem bump_comm (extra : Nat → Nat) (i j : Nat) :
    bump (bump extra i) j = bump (bump extra j) i := by
  by_cases same : i = j
  · rw [same]
  · unfold bump
    rw [update_of_ne (Ne.symm same), update_of_ne same, update_comm same]

/-- An inode without links has a reference besides the one that is about to be dropped. -/
def Safe (s : Fs P F) (i : Nat) : Prop :=
  (s.inodes i).type ≠ .free → (s.inodes i).nlink = 0#16 → 2 ≤ s.ref i

variable [Fintype P] [Fintype F]

/-- The number of current directories and open files that refer to an inode. -/
def holders (cwd : P → Option Nat) (file : F → Option Nat) (i : Nat) : Nat :=
  (∑ p, if cwd p = some i then 1 else 0) + ∑ f, if file f = some i then 1 else 0

/-- The reference counts, while the running call holds `extra` references. -/
structure RefsOk (extra : Nat → Nat) (s : Fs P F) : Prop where
  ref : ∀ i, s.ref i = holders s.cwd s.file i + extra i
  held : ∀ i, 0 < holders s.cwd s.file i → (s.inodes i).type ≠ .free
  valid : ∀ i, 0 < s.ref i → s.valid i = true → (s.inodes i).type ≠ .free
  orphans : ∀ i, (s.inodes i).type ≠ .free → (s.inodes i).nlink = 0#16 →
    0 < s.ref i ∧ s.valid i = true

structure FsOk (G : Discipline) (extra slack : Nat → Nat) (s : Fs P F) : Prop where
  disk : DiskOk slack s.ninodes s.inodes s.linked
  refs : RefsOk extra s
  kept : G.keeps s.ninodes s.inodes s.linked

variable {G : Discipline} {extra slack : Nat → Nat} {s : Fs P F}

/-- Only the inode `i` and its entry in the inode table may differ. -/
structure Elsewhere (i : Nat) (s s' : Fs P F) : Prop where
  cwd : s'.cwd = s.cwd
  file : s'.file = s.file
  inodes : ∀ j, j ≠ i → s'.inodes j = s.inodes j
  ref : ∀ j, j ≠ i → s'.ref j = s.ref j
  valid : ∀ j, j ≠ i → s'.valid j = s.valid j

theorem RefsOk.change (ok : RefsOk extra s) {extra' : Nat → Nat}
    (elsewhere : Elsewhere i s s') (same : ∀ j, j ≠ i → extra' j = extra j)
    (ref : s'.ref i = holders s.cwd s.file i + extra' i)
    (held : 0 < holders s.cwd s.file i → (s'.inodes i).type ≠ .free)
    (valid : 0 < s'.ref i → s'.valid i = true → (s'.inodes i).type ≠ .free)
    (orphans : (s'.inodes i).type ≠ .free → (s'.inodes i).nlink = 0#16 →
      0 < s'.ref i ∧ s'.valid i = true) : RefsOk extra' s' := by
  obtain ⟨cwd, file, inodes, refs, valids⟩ := elsewhere
  refine ⟨fun j => ?_, fun j => ?_, fun j => ?_, fun j => ?_⟩
  all_goals
    try rw [cwd, file]
    by_cases here : j = i
    · rw [here]
      assumption
  · rw [refs j here, same j here]
    exact ok.ref j
  · rw [inodes j here]
    exact ok.held j
  · rw [refs j here, valids j here, inodes j here]
    exact ok.valid j
  · rw [refs j here, valids j here, inodes j here]
    exact ok.orphans j

theorem FsOk.same (ok : FsOk G extra slack s) {extra' : Nat → Nat}
    (refs : RefsOk extra' s') (same : SameTree s s') : FsOk G extra' slack s' := by
  obtain ⟨ninodes, inodes, linked, -, -⟩ := same
  exact ⟨by rw [ninodes, inodes, linked]; exact ok.disk, refs,
    by rw [ninodes, inodes, linked]; exact ok.kept⟩

theorem FsOk.ref_pos (ok : FsOk G (bump extra i) slack s) : 0 < s.ref i := by
  rw [ok.refs.ref i, bump_self]
  omega

omit [Fintype P] [Fintype F] in
theorem Safe.same (safe : Safe s i) (same : SameTree s s')
    (more : s.ref i ≤ s'.ref i) : Safe s' i := by
  intro allocated unlinked
  rw [same.inodes] at allocated unlinked
  exact (safe allocated unlinked).trans more

/-! ## The inode table -/

section

variable (ok : FsOk G extra slack s)
include ok

theorem FsOk.addRef (valid : Nat → Bool) (others : ∀ j, j ≠ i → valid j = s.valid j)
    (here : (0 < s.ref i ∧ valid i = s.valid i) ∨ (s.ref i = 0 ∧ valid i = false)) :
    FsOk G (bump extra i) slack { s with ref := update s.ref i (s.ref i + 1), valid := valid } := by
  have counted := ok.refs.ref i
  have refs : RefsOk (bump extra i)
      { s with ref := update s.ref i (s.ref i + 1), valid := valid } := by
    refine ok.refs.change ⟨rfl, rfl, fun _ _ => rfl, fun j apart => update_of_ne apart .., others⟩
      (fun j apart => bump_of_ne apart) ?_ (ok.refs.held i) ?_ ?_
    · dsimp only
      rw [update_self, bump_self]
      omega
    · intro _ current
      dsimp only at current ⊢
      rcases here with ⟨pos, unchanged⟩ | ⟨-, reset⟩
      · rw [unchanged] at current
        exact ok.refs.valid i pos current
      · rw [reset] at current
        cases current
    · intro allocated unlinked
      obtain ⟨referenced, current⟩ := ok.refs.orphans i allocated unlinked
      dsimp only
      rw [update_self]
      rcases here with ⟨-, unchanged⟩ | ⟨zero, -⟩
      · exact ⟨by omega, by rw [unchanged]; exact current⟩
      · omega
  exact ok.same refs ⟨rfl, rfl, rfl, rfl, rfl⟩

theorem FsOk.safe_of_ref (same : SameTree s s') (more : s'.ref i = s.ref i + 1) : Safe s' i := by
  intro allocated unlinked
  rw [same.inodes] at allocated unlinked
  have := (ok.refs.orphans i allocated unlinked).1
  omega

theorem FsOk.iget_leads (i : Nat) :
    Leads (iget i s) (fun _ s' => SameTree s s' ∧ FsOk G (bump extra i) slack s' ∧
      s'.ref = update s.ref i (s.ref i + 1) ∧
      ∀ j, 0 < s.ref j → s'.valid j = s.valid j) G.mayPanic := by
  unfold iget
  split
  · next zero =>
    split
    · exact Leads.error (G.panics Panic.noConfusion)
    · refine Leads.ok ⟨⟨rfl, rfl, rfl, rfl, rfl⟩, ?_, by rw [zero], ?_⟩
      · have added := ok.addRef (i := i) (update s.valid i false)
          (fun j other => update_of_ne other ..)
          (Or.inr ⟨zero, update_self ..⟩)
        rw [zero] at added
        exact added
      · intro j pos
        have other : j ≠ i := by
          rintro rfl
          omega
        exact update_of_ne other ..
  · next pos =>
    exact Leads.ok ⟨⟨rfl, rfl, rfl, rfl, rfl⟩,
      ok.addRef s.valid (fun _ _ => rfl) (Or.inl ⟨Nat.pos_of_ne_zero pos, rfl⟩), rfl,
      fun _ _ => rfl⟩

theorem FsOk.idup_leads (pos : 0 < s.ref i) :
    Leads (idup i s) (fun _ s' => SameTree s s' ∧ FsOk G (bump extra i) slack s' ∧
      s'.ref = update s.ref i (s.ref i + 1)) G.mayPanic :=
  Leads.ok ⟨⟨rfl, rfl, rfl, rfl, rfl⟩,
    ok.addRef s.valid (fun _ _ => rfl) (Or.inl ⟨pos, rfl⟩), rfl⟩

theorem FsOk.ilock_leads (pos : 0 < s.ref i)
    (typed : (s.inodes i).type ≠ .free ∨ G.mayPanic .ilockNoType) :
    Leads (ilock i s) (fun _ s' => SameTree s s' ∧ FsOk G extra slack s' ∧ s'.ref = s.ref ∧
      (s.inodes i).type ≠ .free ∧ s'.valid i = true ∧
      ∀ j, s.valid j = true → s'.valid j = true) G.mayPanic := by
  unfold ilock
  split
  · next current =>
    exact Leads.ok ⟨SameTree.refl s, ok, rfl, ok.refs.valid i pos current, current,
      fun _ => id⟩
  · split
    · next free => exact Leads.error (typed.resolve_left (not_not.mpr free))
    · next allocated =>
      have others : ∀ j, s.valid j = true → update s.valid i true j = true := by
        intro j current
        by_cases same : j = i
        · rw [same, update_self]
        · rwa [update_of_ne same]
      have refs : RefsOk extra { s with valid := update s.valid i true } := ok.refs.change
          ⟨rfl, rfl, fun _ _ => rfl, fun _ _ => rfl, fun j apart => update_of_ne apart ..⟩
          (fun _ _ => rfl) (ok.refs.ref i) (ok.refs.held i) (fun _ _ => allocated)
          (fun _ _ => ⟨pos, update_self ..⟩)
      exact Leads.ok ⟨⟨rfl, rfl, rfl, rfl, rfl⟩, ok.same refs ⟨rfl, rfl, rfl, rfl, rfl⟩, rfl,
        allocated, update_self .., others⟩

end

section

variable (ok : FsOk G (bump extra i) slack s)
include ok

theorem FsOk.dropRef (kept : (s.inodes i).type ≠ .free → (s.inodes i).nlink = 0#16 → s.ref i ≠ 1) :
    FsOk G extra slack { s with ref := update s.ref i (s.ref i - 1) } := by
  have counted := ok.refs.ref i
  rw [bump_self] at counted
  have refs : RefsOk extra { s with ref := update s.ref i (s.ref i - 1) } := by
    refine ok.refs.change
      ⟨rfl, rfl, fun _ _ => rfl, fun j apart => update_of_ne apart .., fun _ _ => rfl⟩
      (fun j apart => (bump_of_ne apart).symm) ?_ (ok.refs.held i)
      (fun _ current => ok.refs.valid i (by omega) current) ?_
    · dsimp only
      rw [update_self]
      omega
    · intro allocated unlinked
      obtain ⟨referenced, current⟩ := ok.refs.orphans i allocated unlinked
      have := kept allocated unlinked
      refine ⟨?_, current⟩
      dsimp only
      rw [update_self]
      omega
  exact ok.same refs ⟨rfl, rfl, rfl, rfl, rfl⟩

theorem FsOk.iput_safe (safe : Safe s i) :
    Leads (iput i s) (fun _ s' => SameTree s s' ∧ FsOk G extra slack s' ∧
      s'.ref = update s.ref i (s.ref i - 1) ∧ s'.valid = s.valid) G.mayPanic := by
  unfold iput
  split
  · next last =>
    obtain ⟨one, current, unlinked⟩ := last
    have := safe (ok.refs.valid i (by omega) current) unlinked
    omega
  · exact Leads.ok ⟨⟨rfl, rfl, rfl, rfl, rfl⟩, ok.dropRef fun allocated unlinked one => by
        have := safe allocated unlinked
        omega,
      rfl, rfl⟩

theorem FsOk.iput_leads :
    Leads (iput i s) (fun _ s' => Elsewhere i s s' ∧ s'.linked = s.linked ∧
      ∃ lost, G.mayLose lost ∧ FsOk G extra (fun j => slack j + lost j) s') G.mayPanic := by
  have counted := ok.refs.ref i
  rw [bump_self] at counted
  unfold iput
  split
  · next last =>
    obtain ⟨one, current, unlinked⟩ := last
    have allocated := ok.refs.valid i (by omega) current
    have elsewhere : Elsewhere i s { s with
        inodes := update s.inodes i { s.inodes i with type := .free, entries := [] }
        ref := update s.ref i 0
        valid := update s.valid i false } :=
      ⟨rfl, rfl, fun j apart => update_of_ne apart .., fun j apart => update_of_ne apart ..,
        fun j apart => update_of_ne apart ..⟩
    refine Leads.ok ⟨elsewhere, rfl, (s.inodes i).restTo, G.lost ok.disk ok.kept unlinked,
      ok.disk.free allocated unlinked, ?_, G.free ok.disk ok.kept allocated unlinked⟩
    refine ok.refs.change elsewhere (fun j apart => (bump_of_ne apart).symm) ?_
      (fun held => by omega) ?_ ?_
    · dsimp only
      rw [update_self]
      omega
    · intro referenced
      dsimp only at referenced
      rw [update_self] at referenced
      omega
    · intro used
      dsimp only at used
      rw [update_self] at used
      exact absurd rfl used
  · next notLast =>
    refine Leads.ok ⟨⟨rfl, rfl, fun _ _ => rfl,
      fun j apart => update_of_ne apart .., fun _ _ => rfl⟩, rfl, fun _ => 0,
      G.lose_zero, ok.dropRef fun allocated unlinked one => notLast
        ⟨one, (ok.refs.orphans i allocated unlinked).2, unlinked⟩⟩

end

/-! ## Path lookup -/

/-- The inode a path leads to, or the directory of its last element, without the inode
table: what `namexLoop` finds. -/
def walkTo (inodes : Nat → Inode) (nameiparent : Bool) : List Name → Nat → Option (Nat × Name)
  | [], ip => if nameiparent then none else some (ip, [])
  | name :: rest, ip =>
    if (inodes ip).type ≠ .dir then none
    else if nameiparent && rest.isEmpty then some (ip, name)
    else
      match findEntry (inodes ip).entries name with
      | none => none
      | some (_, next) => walkTo inodes nameiparent rest next

/-- What `namex` finds for a process with the current directory `cwd`. -/
def lookup (inodes : Nat → Inode) (cwd : Nat) (path : Path) (nameiparent : Bool) :
    Option (Nat × Name) :=
  walkTo inodes nameiparent (elements path.length path)
    (if path.head? = some slash then ROOTINO else cwd)

theorem DiskOk.entry_typed {n : Nat} {inodes : Nat → Inode} {linked : Nat → Bool}
    (ok : DiskOk slack n inodes linked) (kept : G.keeps n inodes linked) {d off : Nat}
    {name : Name} (dir : (inodes d).type = .dir)
    (found : findEntry (inodes d).entries name = some (off, i)) :
    (inodes i).type ≠ .free ∨ G.mayPanic .ilockNoType := by
  obtain ⟨inside, nonempty, -, rfl⟩ := findEntry_eq_some found
  have shape := ok.shape d dir
  have used : (inodes d).type ≠ .free := dir.trans_ne FileType.noConfusion
  have listed := List.getElem_mem inside
  generalize (inodes d).entries[off] = e at listed nonempty
  rw [shape.entries, List.mem_cons, List.mem_cons] at listed
  rcases listed with rfl | rfl | mem
  · left
    rw [toNat_ofNat_of_lt ok.small (ok.inside used)]
    exact used
  · rw [toNat_ofNat_of_lt ok.small shape.parent_lt]
    exact G.dots kept dir
  · exact Or.inl (ok.allocated_of_links (ok.links_pos_of_entry dir mem nonempty))

theorem FsOk.dirlookup_leads (ok : FsOk G extra slack s) {d : Nat}
    (dir : (s.inodes d).type = .dir) (name : Name) :
    Leads (dirlookup d name s) (fun r s' =>
      r = findEntry (s.inodes d).entries name ∧ SameTree s s' ∧
      match r with
      | none => s' = s
      | some (_, i) => FsOk G (bump extra i) slack s' ∧ s'.ref = update s.ref i (s.ref i + 1) ∧
          (∀ j, 0 < s.ref j → s'.valid j = s.valid j) ∧
          ((s.inodes i).type ≠ .free ∨ G.mayPanic .ilockNoType)) G.mayPanic := by
  unfold dirlookup
  rw [if_neg (not_not.mpr dir)]
  split
  · next missing => exact Leads.ok ⟨missing.symm, SameTree.refl s, rfl⟩
  · next off i found =>
    have taken := ok.iget_leads i
    rcases outcome : iget i s with e | ⟨a, s'⟩
    · exact Leads.error (taken.of_error outcome)
    · obtain ⟨same, after, refs, valid⟩ := taken.of_ok outcome
      exact Leads.ok ⟨found.symm, same, after, refs, valid, ok.disk.entry_typed ok.kept dir found⟩

/-- A lookup holds a reference to what it has found, and has changed nothing else. -/
structure Found (G : Discipline) (extra slack : Nat → Nat) (nameiparent : Bool) (i : Nat)
    (s : Fs P F) : Prop where
  ok : FsOk G (bump extra i) slack s
  safe : Safe s i
  typed : (s.inodes i).type ≠ .free ∨ G.mayPanic .ilockNoType
  directory : nameiparent = true → (s.inodes i).type = .dir

theorem Found.descend {ip next : Nat} {s₁ s₂ : Fs P F}
    (safe : Safe s₁ ip) (before : FsOk G (bump extra ip) slack s₁) (same : SameTree s₁ s₂)
    (after : FsOk G (bump (bump extra ip) next) slack s₂)
    (taken : s₂.ref = update s₁.ref next (s₁.ref next + 1))
    (typed : (s₁.inodes next).type ≠ .free ∨ G.mayPanic .ilockNoType) :
    Leads (iput ip s₂) (fun _ s₃ => SameTree s₁ s₃ ∧ Found G extra slack false next s₃)
      G.mayPanic := by
  have more : s₁.ref ip ≤ s₂.ref ip := by
    rw [taken]
    by_cases loop : ip = next
    · rw [loop, update_self]
      omega
    · rw [update_of_ne loop]
  rw [bump_comm] at after
  refine (after.iput_safe (safe.same same more)).mono ?_ fun _ => id
  rintro _ s₃ ⟨same', ok', dropped, -⟩
  have tree := same.trans same'
  refine ⟨tree, ok', ?_, by rw [tree.inodes]; exact typed, Bool.noConfusion⟩
  by_cases loop : next = ip
  · subst loop
    refine safe.same tree ?_
    rw [dropped, update_self, taken, update_self]
    omega
  · refine before.safe_of_ref tree ?_
    rw [dropped, update_of_ne loop, taken, update_self]

theorem FsOk.namexLoop_leads (np : Bool) (names : List Name) {ip : Nat}
    (ok : FsOk G (bump extra ip) slack s) (safe : Safe s ip)
    (typed : (s.inodes ip).type ≠ .free ∨ G.mayPanic .ilockNoType) :
    Leads (namexLoop np names ip s) (fun r s' => SameTree s s' ∧ r = walkTo s.inodes np names ip ∧
      match r with
      | none => FsOk G extra slack s'
      | some (i, _) => Found G extra slack np i s') G.mayPanic := by
  induction names generalizing s ip with
  | nil =>
    cases np with
    | false => exact Leads.ok ⟨SameTree.refl s, rfl, ok, safe, typed, Bool.noConfusion⟩
    | true =>
      refine Leads.bind (ok.iput_safe safe) ?_
      rintro _ s' ⟨same, after, -, -⟩
      exact Leads.pure ⟨same, rfl, after⟩
  | cons name rest ih =>
    refine Leads.bind (ok.ilock_leads ok.ref_pos typed) ?_
    rintro _ s₁ ⟨same, ok₁, refs, allocated, -, -⟩
    have safe₁ : Safe s₁ ip := safe.same same (by rw [refs])
    refine Leads.read ?_
    rw [same.inodes]
    unfold walkTo
    by_cases dir : (s.inodes ip).type = .dir
    · rw [if_neg (not_not.mpr dir), if_neg (not_not.mpr dir)]
      cases last : np && rest.isEmpty with
      | true =>
        exact Leads.ok ⟨same, rfl, ok₁, safe₁, by rw [same.inodes]; exact typed,
          fun _ => by rw [same.inodes]; exact dir⟩
      | false =>
        refine Leads.bind (ok₁.dirlookup_leads (by rw [same.inodes]; exact dir) name) ?_
        rintro found s₂ ⟨result, same₂, after⟩
        rw [same.inodes] at result
        rw [← result]
        cases found with
        | none =>
          subst after
          refine Leads.bind (ok₁.iput_safe safe₁) ?_
          rintro _ s₃ ⟨same₃, ok₃, -, -⟩
          exact Leads.pure ⟨same.trans same₃, rfl, ok₃⟩
        | some entry =>
          obtain ⟨ok₂, taken, -, typed₂⟩ := after
          refine Leads.bind (Found.descend safe₁ ok₁ same₂ ok₂ taken typed₂) ?_
          rintro _ s₃ ⟨same₃, found⟩
          have tree := same.trans same₃
          refine (ih found.ok found.safe found.typed).mono ?_ fun _ => id
          rintro r s₄ ⟨same₄, result₄, after₄⟩
          rw [tree.inodes] at result₄
          exact ⟨tree.trans same₄, result₄, after₄⟩
    · rw [if_pos dir, if_pos dir]
      refine Leads.bind (ok₁.iput_safe safe₁) ?_
      rintro _ s₂ ⟨same₂, ok₂, -, -⟩
      exact Leads.pure ⟨same.trans same₂, rfl, ok₂⟩

section

variable (ok : FsOk G extra slack s) {cwd : Nat} (held : 0 < holders s.cwd s.file cwd) (path : Path)
include ok held path

theorem FsOk.namex_leads (np : Bool) :
    Leads (namex cwd path np s) (fun r s' => SameTree s s' ∧ r = lookup s.inodes cwd path np ∧
      match r with
      | none => FsOk G extra slack s'
      | some (i, _) => Found G extra slack np i s') G.mayPanic := by
  have start : ∀ {ip : Nat} {s₁ : Fs P F}, (s.inodes ip).type ≠ .free → SameTree s s₁ →
      FsOk G (bump extra ip) slack s₁ → s₁.ref = update s.ref ip (s.ref ip + 1) →
      Leads (namexLoop np (elements path.length path) ip s₁) (fun r s' => SameTree s s' ∧
        r = walkTo s.inodes np (elements path.length path) ip ∧
        match r with
        | none => FsOk G extra slack s'
        | some (i, _) => Found G extra slack np i s') G.mayPanic := by
    intro ip s₁ allocated same ok₁ refs
    have safe : Safe s₁ ip := ok.safe_of_ref same (by rw [refs, update_self])
    refine (ok₁.namexLoop_leads np _ safe (Or.inl (by rwa [same.inodes]))).mono ?_ fun _ => id
    rintro r s' ⟨same', result, after⟩
    rw [same.inodes] at result
    exact ⟨same.trans same', result, after⟩
  unfold namex lookup
  split
  · refine Leads.bind (ok.iget_leads ROOTINO) ?_
    rintro _ s₁ ⟨same, ok₁, refs, -⟩
    exact start (ok.disk.root.trans_ne FileType.noConfusion) same ok₁ refs
  · have pos : 0 < s.ref cwd := by
      rw [ok.refs.ref cwd]
      omega
    refine Leads.bind (ok.idup_leads pos) ?_
    rintro _ s₁ ⟨same, ok₁, refs⟩
    exact start (ok.refs.held cwd held) same ok₁ refs

theorem FsOk.namei_leads :
    Leads (namei cwd path s) (fun r s' => SameTree s s' ∧
      match r with
      | none => FsOk G extra slack s'
      | some i => Found G extra slack false i s' ∧
          ∃ name, lookup s.inodes cwd path false = some (i, name)) G.mayPanic := by
  refine Leads.bind (ok.namex_leads held path false) ?_
  rintro r s' ⟨same, result, after⟩
  cases r with
  | none => exact Leads.pure ⟨same, after⟩
  | some found => exact Leads.pure ⟨same, after, found.2, result.symm⟩

end

end Xv6.Directory

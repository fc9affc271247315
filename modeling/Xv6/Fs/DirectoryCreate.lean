import Xv6.Fs.DirectoryRefs

/-!
# Changes of the tree, and `create`

The states of `create` before the new inode is complete are no trees; the invariant is taken up
again when the inode has its entries `.` and `..`, with a link count that runs ahead of the
links by one.
-/

namespace Xv6.Directory

open Blocks (FileType)
open Outcome (Leads)
open Function

variable {P F : Type} [Fintype P] [Fintype F] {G : Discipline} {extra slack : Nat → Nat}
  {s : Fs P F}
variable {i dp ip : Nat} {node : Inode} {v : BitVec 16} {name : Name}

/-! ## Changes of one inode -/

theorem RefsOk.setInode (ok : RefsOk extra s)
    (used : node.type ≠ .free) (present : node.nlink = 0#16 → 0 < s.ref i ∧ s.valid i = true)
    (linked : Nat → Bool) :
    RefsOk extra { s with inodes := update s.inodes i node, linked := linked } := by
  refine ok.change ⟨rfl, rfl, fun j apart => update_of_ne apart .., fun _ _ => rfl, fun _ _ => rfl⟩
    (fun _ _ => rfl) (ok.ref i) ?_ ?_ ?_
  all_goals
    dsimp only
    rw [update_self]
  · exact fun _ => used
  · exact fun _ _ => used
  · exact fun _ => present

theorem FsOk.setNlink (ok : FsOk G extra slack s)
    (allocated : (s.inodes i).type ≠ .free) {slack' : Nat}
    (counted : v.toInt = links s.ninodes s.inodes s.linked i + slack')
    (present : v = 0#16 → 0 < s.ref i ∧ s.valid i = true) :
    FsOk G extra (update slack i slack')
      { s with inodes := update s.inodes i { s.inodes i with nlink := v } } :=
  ⟨ok.disk.setNlink allocated counted,
    ok.refs.setInode (by exact allocated) present s.linked, G.setNlink i v ok.kept⟩

/-- A new entry for an inode whose link count has already been raised. -/
theorem FsOk.enter (ok : FsOk G extra slack s) {dp i : Nat} {name : Name} {full l : Bool}
    {entries : List Dirent} {v : BitVec 16}
    (dir : (s.inodes dp).type = .dir) (other : i ≠ dp)
    (allocated : (s.inodes i).type ≠ .free)
    (absent : findEntry (s.inodes dp).entries name = none)
    (added : addEntry (s.inodes dp).entries ⟨BitVec.ofNat 16 i, name⟩ full = some entries)
    (may : G.mayEnter (s.linked dp) ((s.inodes i).type == .dir))
    (below : (s.inodes i).type = .dir →
      l = true ∧ (s.inodes i).parent = dp ∧ i ≠ ROOTINO ∧ s.linked i = false)
    (count : v.toInt = (s.inodes dp).nlink.toInt + if (s.inodes i).type = .dir then 1 else 0)
    (present : 0 < s.ref dp ∧ s.valid dp = true) (ahead : 0 < slack i) :
    FsOk G extra (update slack i (slack i - 1))
      { s with
        inodes := update s.inodes dp { s.inodes dp with entries := entries, nlink := v }
        linked := update s.linked i l } := by
  have shape := ok.disk.shape dp dir
  have dpAllocated : (s.inodes dp).type ≠ .free := dir.trans_ne FileType.noConfusion
  have inside := ok.disk.inside allocated
  have dpInside := ok.disk.inside dpAllocated
  have dotNonzero := ofNat_ne_zero ok.disk.small dpInside (ok.disk.positive dpAllocated)
  have dotdotNonzero := ofNat_ne_zero ok.disk.small shape.parent_lt shape.parent_pos
  have nonzero := ofNat_ne_zero ok.disk.small inside (ok.disk.positive allocated)
  have value := toNat_ofNat_of_lt ok.disk.small inside
  have plain : name ≠ dot ∧ name ≠ dotdot := by
    rw [shape.entries] at absent
    have different := @name_ne_of_findEntry_eq_none _ _ absent
    exact ⟨(different (List.mem_cons_self ..) dotNonzero).symm,
      (different (List.mem_cons_of_mem _ (List.mem_cons_self ..)) dotdotNonzero).symm⟩
  rw [shape.entries] at added
  obtain ⟨rest, rfl, members, counts⟩ := addEntry_rest dotNonzero dotdotNonzero added
  have here : ∀ j, Dirent.names ⟨BitVec.ofNat 16 i, name⟩ j = true ↔ i = j := by
    intro j
    simp [Dirent.names, nonzero, value]
  have disk := @DiskOk.rewire _ _ _ _ ok.disk dp i dir other allocated rest v l 1
    (fun j apart => by
      rw [counts j, if_neg (fun names => apart ((here j).mp names).symm), Nat.add_zero])
    (by
      rw [counts i, if_pos ((here i).mpr rfl)]
      push_cast
      rfl)
    (fun e mem nonempty => by
      rcases members e mem with old | rfl
      · obtain ⟨notDot, notDotdot, small⟩ := shape.rest e old nonempty
        exact ⟨notDot, notDotdot, small, Or.inl old⟩
      · exact ⟨plain.1, plain.2, by rw [value]; exact inside, Or.inr value⟩)
    (fun child => by
      obtain ⟨entered, above, notRoot, removed⟩ := below child
      rw [entered, removed]
      exact ⟨above, notRoot, rfl⟩)
    count (update slack i (slack i - 1))
    (fun j apart => update_of_ne apart ..)
    (by
      rw [update_self]
      omega)
  refine ⟨disk, ok.refs.setInode (by exact dpAllocated) (fun _ => present) _,
    G.enter ok.disk ok.kept dir other may ?_ ?_⟩
  · exact toNat_ofNat_of_lt ok.disk.small shape.parent_lt
  · intro child
    exact ⟨(below child).1, (below child).2.1⟩

theorem DiskOk.entry_rest {n : Nat} {inodes : Nat → Inode} {linked : Nat → Bool}
    (ok : DiskOk slack n inodes linked) {off : Nat}
    (dir : (inodes dp).type = .dir) (plain : name ≠ dot ∧ name ≠ dotdot)
    (found : findEntry (inodes dp).entries name = some (off, i)) :
    ∃ k, off = k + 2 ∧ ∃ inside : k < (inodes dp).rest.length,
      (inodes dp).rest[k].inum ≠ 0#16 ∧ (inodes dp).rest[k].inum.toNat = i := by
  rw [(ok.shape dp dir).entries] at found
  obtain ⟨inside, nonempty, named, value⟩ := findEntry_eq_some found
  rcases off with _ | _ | k
  · exact absurd named.symm plain.1
  · exact absurd named.symm plain.2
  · exact ⟨k, rfl, by simpa using inside, nonempty, value⟩

/-- The entry of an inode is erased, before its link count is lowered. -/
theorem FsOk.erase (ok : FsOk G extra slack s) {dp off i : Nat} {name : Name} {l : Bool}
    {v : BitVec 16} (dir : (s.inodes dp).type = .dir) (plain : name ≠ dot ∧ name ≠ dotdot)
    (found : findEntry (s.inodes dp).entries name = some (off, i))
    (removed : (s.inodes i).type = .dir → l = false ∧ G.mayRemove s.inodes i ∧
      ∀ e ∈ (s.inodes i).rest, e.inum = 0#16)
    (count : v.toInt = (s.inodes dp).nlink.toInt - if (s.inodes i).type = .dir then 1 else 0)
    (present : 0 < s.ref dp ∧ s.valid dp = true) :
    i ≠ dp ∧ (s.inodes i).type ≠ .free ∧
    FsOk G extra (update slack i (slack i + 1))
      { s with
        inodes := update s.inodes dp
          { s.inodes dp with
            entries := (s.inodes dp).entries.set off ⟨0#16, []⟩
            nlink := v }
        linked := update s.linked i l } := by
  have shape := ok.disk.shape dp dir
  have dpAllocated : (s.inodes dp).type ≠ .free := dir.trans_ne FileType.noConfusion
  obtain ⟨k, rfl, inside, nonempty, value⟩ := ok.disk.entry_rest dir plain found
  have mem := List.getElem_mem inside
  have names : (s.inodes dp).rest[k].names i = true := by
    simp [Dirent.names, nonempty, value]
  have allocated : (s.inodes i).type ≠ .free := by
    rw [← value]
    exact ok.disk.allocated_of_links (ok.disk.links_pos_of_entry dir mem nonempty)
  -- A directory is entered in its parent only.
  have below : (s.inodes i).type = .dir →
      (s.inodes i).parent = dp ∧ s.linked i = true ∧ i ≠ ROOTINO := by
    rw [← value]
    intro child
    exact ⟨ok.disk.child dp _ dir mem nonempty child,
      ok.disk.entered dir mem nonempty child⟩
  have other : i ≠ dp := by
    rintro rfl
    obtain ⟨above, -, notRoot⟩ := below dir
    exact ok.disk.proper i dir notRoot above
  obtain ⟨members, elsewhere, here⟩ := erase_rest inside names
  have entries : (s.inodes dp).entries.set (k + 2) ⟨0#16, []⟩ =
      ⟨BitVec.ofNat 16 dp, dot⟩ :: ⟨BitVec.ofNat 16 (s.inodes dp).parent, dotdot⟩ ::
        (s.inodes dp).rest.set k ⟨0#16, []⟩ := by
    conv_lhs => rw [shape.entries]
    rfl
  have disk := @DiskOk.rewire _ _ _ _ ok.disk dp i dir other allocated
    ((s.inodes dp).rest.set k ⟨0#16, []⟩) v l (-1) elsewhere
    (here.trans (Int.sub_eq_add_neg ..))
    (fun e listed used => by
      rcases members e listed with old | empty
      · obtain ⟨notDot, notDotdot, small⟩ := shape.rest e old used
        exact ⟨notDot, notDotdot, small, Or.inl old⟩
      · exact absurd empty used)
    (fun child => by
      obtain ⟨above, entered, notRoot⟩ := below child
      rw [(removed child).1, entered]
      exact ⟨above, notRoot, rfl⟩)
    (by
      rw [count]
      split <;> omega)
    (update slack i (slack i + 1))
    (fun j apart => update_of_ne apart ..)
    (by
      rw [update_self]
      push_cast
      omega)
  rw [entries]
  refine ⟨other, allocated, disk, ok.refs.setInode (by exact dpAllocated)
    (fun _ => present) _, G.remove ok.disk ok.kept dir other removed ?_ ?_⟩
  · exact toNat_ofNat_of_lt ok.disk.small shape.parent_lt
  · exact members

/-! ## A new inode -/

/-- The inode `ip` has been allocated and locked, and now is `node`. -/
def Fs.withNew (s : Fs P F) (ip : Nat) (node : Inode) : Fs P F :=
  { s with
    inodes := update s.inodes ip node
    linked := update s.linked ip false
    ref := update s.ref ip 1
    valid := update s.valid ip true }

theorem RefsOk.ref_free (ok : RefsOk extra s) (free : (s.inodes ip).type = .free)
    (none : extra ip = 0) : holders s.cwd s.file ip = 0 ∧ s.ref ip = 0 := by
  have unheld : holders s.cwd s.file ip = 0 := by
    by_contra held
    exact ok.held ip (Nat.pos_of_ne_zero held) free
  exact ⟨unheld, by rw [ok.ref ip, unheld, none]⟩

theorem FsOk.withNew (ok : FsOk G extra slack s)
    (free : (s.inodes ip).type = .free) (pos : 0 < ip) (inside : ip < s.ninodes)
    (none : extra ip = 0) (above : (s.inodes dp).type = .dir) (used : node.type ≠ .free)
    (counted : node.nlink = 1#16)
    (dots : node.type = .dir →
      node.entries = [⟨BitVec.ofNat 16 ip, dot⟩, ⟨BitVec.ofNat 16 dp, dotdot⟩])
    (may : G.mayEnter (s.linked dp) (node.type == .dir)) :
    FsOk G (bump extra ip) (update slack ip (slack ip + 1)) (s.withNew ip node) := by
  have dpInside := ok.disk.inside_of_dir above
  obtain ⟨unheld, unreferenced⟩ := ok.refs.ref_free free none
  refine ⟨ok.disk.new free pos inside above used counted dots, ?_,
    G.new ok.disk ok.kept free above (fun dir => ?_) may⟩
  · refine ok.refs.change ⟨rfl, rfl, fun j apart => update_of_ne apart ..,
        fun j apart => update_of_ne apart ..,
        fun j apart => update_of_ne apart ..⟩
      (fun j apart => bump_of_ne apart) ?_ ?_ ?_ ?_
    all_goals
      dsimp only [Fs.withNew]
      rw [update_self]
    · rw [bump_self, unheld, none]
    · exact fun _ => used
    · rw [update_self, update_self]
      exact fun _ _ => used
    · rw [counted]
      exact fun _ unlinked => by cases unlinked
  · rw [Inode.parent, Inode.rest, dots dir]
    exact ⟨toNat_ofNat_of_lt ok.disk.small dpInside, rfl⟩

theorem FsOk.refree (ok : FsOk G extra slack s)
    (free : (s.inodes ip).type = .free) (none : extra ip = 0) (stays : node.type = .free)
    (unlinked : node.nlink = 0#16) :
    FsOk G extra slack { s with
      inodes := update s.inodes ip node
      linked := update s.linked ip false
      ref := update s.ref ip 0
      valid := update s.valid ip false } := by
  obtain ⟨unheld, unreferenced⟩ := ok.refs.ref_free free none
  refine ⟨ok.disk.refree free stays unlinked false, ?_, G.refree false ok.kept free stays⟩
  refine ok.refs.change ⟨rfl, rfl, fun j apart => update_of_ne apart ..,
      fun j apart => update_of_ne apart ..,
      fun j apart => update_of_ne apart ..⟩
    (fun _ _ => rfl) ?_ (fun held => by omega) ?_ ?_
  all_goals
    dsimp only
    rw [update_self]
  · rw [unheld, none]
  · exact fun pos => absurd pos (Nat.lt_irrefl 0)
  · exact fun used => absurd stays used

/-! ## Entering a new inode -/

omit [Fintype P] [Fintype F] in
theorem dirlink_absent {d : Nat} {name : Name} (dir : (s.inodes d).type = .dir)
    (absent : findEntry (s.inodes d).entries name = none) (inum : Nat) (full : Bool) :
    dirlink d name inum full s =
      match addEntry (s.inodes d).entries ⟨BitVec.ofNat 16 inum, name⟩ full with
      | none => .ok (false, s)
      | some entries => .ok (true, { s with
          inodes := update s.inodes d { s.inodes d with entries := entries } }) := by
  have looked : dirlookup d name s = .ok (none, s) := by
    unfold dirlookup
    rw [if_neg (not_not.mpr dir), absent]
  unfold dirlink
  cases added : addEntry (s.inodes d).entries ⟨BitVec.ofNat 16 inum, name⟩ full <;>
    simp only [bind, StateT.bind, looked, Except.bind, get, getThe, MonadStateOf.get, StateT.get,
      pure, Except.pure, added] <;> rfl

theorem addEntry_full {entries added : List Dirent} {e : Dirent} {full : Bool}
    (used : ∀ x ∈ entries, x.inum ≠ 0#16) (done : addEntry entries e full = some added) :
    added = entries ++ [e] := by
  have missing : entries.findIdx? (fun x => x.inum == 0#16) = none := by
    rw [List.findIdx?_eq_none_iff]
    intro x mem
    simpa using used x mem
  unfold addEntry at done
  rw [missing] at done
  dsimp only at done
  split at done
  · cases done
  · cases done
    rfl

omit [Fintype P] [Fintype F] in
theorem withNew_inodes (s : Fs P F) (ip : Nat) (node : Inode) :
    (s.withNew ip node).inodes ip = node :=
  update_self ..

omit [Fintype P] [Fintype F] in
theorem withNew_update (s : Fs P F) (ip : Nat) (node node' : Inode) :
    { s.withNew ip node with
      inodes := update (s.withNew ip node).inodes ip node' } = s.withNew ip node' := by
  unfold Fs.withNew
  rw [update_idem]

omit [Fintype P] [Fintype F] in
theorem dirlink_withNew {ip : Nat} {node : Inode} {name : Name} (dir : node.type = .dir)
    (used : ∀ x ∈ node.entries, x.inum ≠ 0#16) (absent : findEntry node.entries name = none)
    (inum : Nat) (full : Bool) :
    dirlink ip name inum full (s.withNew ip node) = .ok (false, s.withNew ip node) ∨
      dirlink ip name inum full (s.withNew ip node) = .ok (true, s.withNew ip
        { node with entries := node.entries ++ [⟨BitVec.ofNat 16 inum, name⟩] }) := by
  have here := withNew_inodes s ip node
  rw [dirlink_absent (by rw [here]; exact dir) (by rw [here]; exact absent), here]
  cases added : addEntry node.entries ⟨BitVec.ofNat 16 inum, name⟩ full with
  | none => exact Or.inl rfl
  | some entries =>
    right
    rw [addEntry_full used added]
    exact congrArg (fun t => Except.ok (true, t)) (withNew_update s ip node _)

omit [Fintype P] [Fintype F] in
theorem makeDots_withNew {ip dp : Nat} {node : Inode} (nonzero : BitVec.ofNat 16 ip ≠ 0#16)
    (empty : node.entries = []) (full : Full) :
    ∃ dots entries, makeDots node.type ip dp full (s.withNew ip node) =
        .ok (dots, s.withNew ip { node with entries := entries }) ∧
      (dots = true → node.type = .dir →
        entries = [⟨BitVec.ofNat 16 ip, dot⟩, ⟨BitVec.ofNat 16 dp, dotdot⟩]) := by
  have unchanged : node = { node with entries := [] } := by
    rw [← empty]
  unfold makeDots
  by_cases dir : node.type = .dir
  · rw [if_pos dir]
    rcases @dirlink_withNew _ _ s ip node dot dir (by rw [empty]; nofun)
      (by rw [empty]; rfl) ip full.dot with first | first
    · refine ⟨false, [], ?_, Bool.noConfusion⟩
      simp only [bind, StateT.bind, first, Except.bind, Bool.false_eq_true, if_false]
      rw [← unchanged]
      rfl
    · simp only [bind, StateT.bind, first, Except.bind, if_true, empty, List.nil_append]
      have apart : findEntry [⟨BitVec.ofNat 16 ip, dot⟩] dotdot = none := by
        simp [findEntry, dot, dotdot]
      rcases @dirlink_withNew _ _ s ip { node with entries := [⟨BitVec.ofNat 16 ip, dot⟩] } dotdot
        dir (by simpa using nonzero) apart dp full.dotdot with second | second
      · exact ⟨false, _, second, Bool.noConfusion⟩
      · exact ⟨true, _, second, fun _ _ => rfl⟩
  · rw [if_neg dir]
    refine ⟨true, [], ?_, fun _ other => absurd other dir⟩
    rw [← unchanged]
    rfl

/-! ## `create` -/

/-- The invariant between the parts of a call. -/
def Holding (G : Discipline) (extra : Nat → Nat) (s : Fs P F) : Prop :=
  ∃ slack, G.mayLose slack ∧ FsOk G extra slack s

theorem Holding.iput (holding : Holding G (bump extra i) s) :
    Leads (iput i s) (fun _ s' => Elsewhere i s s' ∧ s'.linked = s.linked ∧ Holding G extra s')
      G.mayPanic := by
  obtain ⟨slack, lose, ok⟩ := holding
  refine ok.iput_leads.mono ?_ fun _ => id
  rintro _ s' ⟨elsewhere, linked, lost, loses, after⟩
  exact ⟨elsewhere, linked, _, G.lose_add lose loses, after⟩

theorem FsOk.iput_return {α : Type} (ok : FsOk G (bump extra i) slack s) (lose : G.mayLose slack)
    (a : α) :
    Leads ((do
        iput i
        return a : FsM P F α) s) (fun _ s' => Holding G extra s') G.mayPanic := by
  refine Leads.bind (Holding.iput ⟨slack, lose, ok⟩) ?_
  rintro _ s' ⟨-, -, holding⟩
  exact Leads.pure holding

/-- What `ialloc` leaves behind. -/
def Fs.allocated (s : Fs P F) (ip : Nat) (type : FileType) : Fs P F :=
  { s with
    inodes := update s.inodes ip { type := type }
    linked := update s.linked ip false
    ref := update s.ref ip 1
    valid := update s.valid ip false }

/-- What `create` returns: the inode with a reference to it. -/
def Created (G : Discipline) (extra : Nat → Nat) (s : Fs P F) (r : Option Nat) (s' : Fs P F) :
    Prop :=
  s'.cwd = s.cwd ∧ s'.file = s.file ∧
    match r with
    | none => Holding G extra s'
    | some ip => Holding G (bump extra ip) s' ∧ (s'.inodes ip).type ≠ .free

theorem FsOk.iput_none {s₀ : Fs P F} (ok : FsOk G (bump extra i) slack s) (lose : G.mayLose slack)
    (cwd : s.cwd = s₀.cwd) (file : s.file = s₀.file) :
    Leads ((do
        iput i
        return none : FsM P F (Option Nat)) s) (Created G extra s₀) G.mayPanic := by
  refine Leads.bind (Holding.iput ⟨slack, lose, ok⟩) ?_
  rintro _ s' ⟨elsewhere, -, holding⟩
  exact Leads.pure ⟨elsewhere.cwd.trans cwd, elsewhere.file.trans file, holding⟩

theorem toInt_add_one (room : v ≠ 32767#16) : (v + 1#16).toInt = v.toInt + 1 := by
  have apart : v.toNat ≠ 32767 := fun same => room (BitVec.eq_of_toNat_eq same)
  have one : (1#16).toInt = 1 := rfl
  rw [BitVec.toInt_add, Int.bmod_eq_of_le]
  · rfl
  · have := BitVec.le_toInt v
    omega
  · have := BitVec.toInt_eq_toNat_cond v
    split at * <;> omega

theorem toInt_sub_one (pos : 1 ≤ v.toInt) : (v - 1#16).toInt = v.toInt - 1 := by
  have one : (1#16).toInt = 1 := rfl
  have := @BitVec.toInt_lt _ v
  rw [BitVec.toInt_sub, Int.bmod_eq_of_le]
  · rfl
  · omega
  · omega

theorem FsOk.abandonNew (ok : FsOk G (bump extra dp) slack s)
    (lose : G.mayLose slack) (free : (s.inodes ip).type = .free)
    (none : bump extra dp ip = 0) (node : Inode) :
    Leads ((do
        modifyInode ip fun node => { node with nlink := 0#16 }
        iput ip
        iput dp
        return Option.none : FsM P F (Option Nat)) (s.withNew ip node)) (Created G extra s)
      G.mayPanic := by
  refine Leads.step rfl ?_
  rw [withNew_inodes, withNew_update]
  have freeing : iput ip (s.withNew ip { node with nlink := 0#16 }) = .ok ((), { s with
      inodes := update s.inodes ip { node with type := .free, nlink := 0#16, entries := [] }
      linked := update s.linked ip false
      ref := update s.ref ip 0
      valid := update s.valid ip false }) := by
    simp [iput, Fs.withNew]
  refine Leads.step freeing ?_
  exact (ok.refree free none rfl rfl).iput_none lose rfl rfl

theorem FsOk.enterNew (ok : FsOk G (bump (bump extra dp) ip) slack s)
    {full : Bool} {entries : List Dirent}
    (dir : (s.inodes dp).type = .dir) (locked : s.valid dp = true) (other : ip ≠ dp)
    (allocated : (s.inodes ip).type ≠ .free)
    (absent : findEntry (s.inodes dp).entries name = none)
    (added : addEntry (s.inodes dp).entries ⟨BitVec.ofNat 16 ip, name⟩ full = some entries)
    (may : G.mayEnter (s.linked dp) ((s.inodes ip).type == .dir))
    (below : (s.inodes ip).type = .dir →
      (s.inodes ip).parent = dp ∧ ip ≠ ROOTINO ∧ s.linked ip = false)
    (room : (s.inodes ip).type = .dir → (s.inodes dp).nlink ≠ 32767#16)
    (ahead : 0 < slack ip) (lose : G.mayLose (update slack ip (slack ip - 1))) :
    Leads ((do
        setLinked ip true
        if (s.inodes ip).type = .dir then
          modifyInode dp fun node => { node with nlink := node.nlink + 1#16 }
        iput dp
        return some ip : FsM P F (Option Nat))
      { s with
        inodes := update s.inodes dp { s.inodes dp with entries := entries } })
      (Created G extra s) G.mayPanic := by
  have referenced : 0 < s.ref dp := by
    rw [ok.refs.ref dp, bump_of_ne other.symm, bump_self]
    omega
  have entered : ∀ {v : BitVec 16}, v.toInt = (s.inodes dp).nlink.toInt +
      (if (s.inodes ip).type = .dir then 1 else 0) →
      Leads ((do
        iput dp
        return some ip : FsM P F (Option Nat))
        { s with
          inodes := update s.inodes dp { s.inodes dp with entries := entries, nlink := v }
          linked := update s.linked ip true }) (Created G extra s) G.mayPanic := by
    intro v count
    have after := ok.enter dir other allocated absent added may
      (fun child => ⟨rfl, below child⟩) count ⟨referenced, locked⟩ ahead
    rw [bump_comm] at after
    refine Leads.bind (Holding.iput ⟨_, lose, after⟩) ?_
    rintro _ s' ⟨elsewhere, -, holding'⟩
    refine Leads.pure ⟨elsewhere.cwd, elsewhere.file, holding', ?_⟩
    rw [elsewhere.inodes ip other]
    dsimp only
    rw [update_of_ne other]
    exact allocated
  refine Leads.step rfl ?_
  by_cases child : (s.inodes ip).type = .dir
  · rw [if_pos child]
    refine Leads.step rfl ?_
    dsimp only
    rw [update_self, update_idem]
    exact entered (by rw [if_pos child]; exact toInt_add_one (room child))
  · rw [if_neg child]
    exact entered (by rw [if_neg child]; exact (Int.add_zero _).symm)

theorem FsOk.createInode_leads (ok : FsOk G (bump extra dp) slack s)
    (lose : G.mayLose slack) {type : FileType}
    (dir : (s.inodes dp).type = .dir) (locked : s.valid dp = true)
    (absent : findEntry (s.inodes dp).entries name = none)
    (free : (s.inodes ip).type = .free) (pos : 0 < ip) (inside : ip < s.ninodes)
    (none : extra ip = 0) (used : type ≠ .free) (may : G.mayEnter (s.linked dp) (type == .dir))
    (room : type = .dir → (s.inodes dp).nlink ≠ 32767#16) (major : BitVec 16) (full : Full) :
    Leads (createInode dp name type major full ip (s.allocated ip type)) (Created G extra s)
      G.mayPanic := by
  have other : ip ≠ dp := by
    rintro rfl
    rw [free] at dir
    cases dir
  have none' : bump extra dp ip = 0 := by
    rw [bump_of_ne other, none]
  have nonzero := ofNat_ne_zero ok.disk.small inside pos
  -- The inode is locked and gets its fields.
  have locking : ilock ip (s.allocated ip type) = .ok ((), s.withNew ip { type := type }) := by
    simp [ilock, Fs.allocated, Fs.withNew, used]
  refine Leads.step locking (Leads.step rfl ?_)
  rw [withNew_inodes, withNew_update]
  obtain ⟨dots, entries, made, complete⟩ := @makeDots_withNew _ _ s ip dp
    { type := type, nlink := 1#16, major := major } nonzero rfl full
  refine Leads.step made ?_
  cases dots with
  | false =>
    refine Leads.step rfl ?_
    exact ok.abandonNew lose free none' _
  | true =>
    set node : Inode :=
      { type := type, nlink := 1#16, major := major, entries := entries } with nodeEq
    have started : FsOk G (bump (bump extra dp) ip) (update slack ip (slack ip + 1))
        (s.withNew ip node) :=
      ok.withNew free pos inside none' dir used rfl (complete rfl) may
    have above : (s.withNew ip node).inodes dp = s.inodes dp := update_of_ne other.symm ..
    have here := withNew_inodes s ip node
    have linking := @dirlink_absent _ _ (s.withNew ip node) dp name
      (by rw [above]; exact dir) (by rw [above]; exact absent) ip full.name
    cases added : addEntry ((s.withNew ip node).inodes dp).entries
        ⟨BitVec.ofNat 16 ip, name⟩ full.name with
    | none =>
      rw [added] at linking
      refine Leads.step linking ?_
      exact ok.abandonNew lose free none' _
    | some entries' =>
      rw [added] at linking
      refine Leads.step linking ?_
      have unlinked : (s.withNew ip node).linked ip = false := update_self ..
      have linkedElsewhere : (s.withNew ip node).linked dp = s.linked dp :=
        update_of_ne other.symm ..
      have parented : type = .dir → node.parent = dp := by
        intro child
        have listed : node.entries =
            [⟨BitVec.ofNat 16 ip, dot⟩, ⟨BitVec.ofNat 16 dp, dotdot⟩] := complete rfl child
        rw [Inode.parent, listed]
        exact toNat_ofNat_of_lt ok.disk.small (ok.disk.inside_of_dir dir)
      have notRoot : ip ≠ ROOTINO := by
        rintro rfl
        rw [ok.disk.root] at free
        cases free
      have tail := started.enterNew (by rw [above]; exact dir)
        ((update_of_ne other.symm ..).trans locked) other
        (by rw [here]; exact used) (by rw [above]; exact absent) added
        (by rw [here, linkedElsewhere]; exact may)
        (fun child => by
          rw [here] at child ⊢
          exact ⟨parented child, notRoot, unlinked⟩)
        (by rw [here, above]; exact room)
        (by rw [update_self]; omega)
        (by
          rw [update_idem, update_self, Nat.add_sub_cancel, update_eq_self]
          exact lose)
      rw [here] at tail
      exact tail

/-- No references besides those of current directories and open files. -/
abbrev nothing : Nat → Nat := fun _ => 0

theorem FsOk.ialloc_leads (ok : FsOk G extra slack s)
    (unused : ∀ i, (s.inodes i).type = .free → extra i = 0) (type : FileType) :
    Leads (ialloc type s) (fun r s' =>
      match r with
      | none => s' = s
      | some ip => s' = s.allocated ip type ∧ (s.inodes ip).type = .free ∧ 0 < ip ∧
          ip < s.ninodes) G.mayPanic := by
  unfold ialloc
  split
  · exact Leads.ok rfl
  · next ip found =>
    have listed := List.mem_of_find?_eq_some found
    have matching := List.find?_some found
    simp only [List.mem_range, Bool.and_eq_true, decide_eq_true_eq, beq_iff_eq]
      at listed matching
    have unreferenced := (ok.refs.ref_free matching.2 (unused ip matching.2)).2
    unfold iget
    rw [if_pos unreferenced]
    split
    · exact Leads.error (G.panics Panic.noConfusion)
    · exact Leads.ok ⟨rfl, matching.2, Nat.pos_of_ne_zero matching.1, listed⟩

/-- The condition of the discipline on a call of `create`. -/
def MayCreate (G : Discipline) (s : Fs P F) (cwd : Nat) (path : Path) (type : FileType) : Prop :=
  ∀ dp name, lookup s.inodes cwd path true = some (dp, name) →
    findEntry (s.inodes dp).entries name = none →
    G.mayEnter (s.linked dp) (type == .dir) ∧ (type = .dir → (s.inodes dp).nlink ≠ 32767#16)

theorem FsOk.create_leads (ok : FsOk G nothing slack s) (lose : G.mayLose slack) {cwd : Nat}
    (held : 0 < holders s.cwd s.file cwd) {path : Path} {type : FileType} (used : type ≠ .free)
    (may : MayCreate G s cwd path type) (major : BitVec 16) (full : Full) :
    Leads (create cwd path type major full s) (Created G nothing s) G.mayPanic := by
  refine Leads.bind (ok.namex_leads held path true) ?_
  rintro r s₁ ⟨same, result, after⟩
  cases r with
  | none => exact Leads.pure ⟨same.cwd, same.file, slack, lose, after⟩
  | some parent =>
    obtain ⟨dp, name⟩ := parent
    refine Leads.bind (after.ok.ilock_leads after.ok.ref_pos after.typed) ?_
    rintro _ s₂ ⟨same₂, ok₂, refs₂, -, locked, -⟩
    have tree := same.trans same₂
    have dir : (s₂.inodes dp).type = .dir := by
      rw [same₂.inodes]
      exact after.directory rfl
    refine Leads.bind (ok₂.dirlookup_leads dir name) ?_
    rintro found s₃ ⟨looked, same₃, after₃⟩
    cases found with
    | some entry =>
      obtain ⟨off, ip⟩ := entry
      obtain ⟨ok₃, taken, -, typed⟩ := after₃
      refine Leads.bind (Found.descend (after.safe.same same₂ (by rw [refs₂])) ok₂ same₃ ok₃
        taken typed) ?_
      rintro _ s₄ ⟨same₄, found⟩
      refine Leads.bind (found.ok.ilock_leads found.ok.ref_pos found.typed) ?_
      rintro _ s₅ ⟨same₅, ok₅, -, allocated, -, -⟩
      have tree₅ := (tree.trans same₄).trans same₅
      refine Leads.read ?_
      split
      · refine Leads.pure ⟨tree₅.cwd, tree₅.file, ⟨slack, lose, ok₅⟩, ?_⟩
        rw [same₅.inodes]
        exact allocated
      · exact ok₅.iput_none lose tree₅.cwd tree₅.file
    | none =>
      rw [after₃]
      have unused : ∀ i, (s₂.inodes i).type = .free → bump nothing dp i = 0 := by
        intro i free
        have other : i ≠ dp := by
          rintro rfl
          rw [free] at dir
          cases dir
        exact bump_of_ne other
      refine Leads.bind (ok₂.ialloc_leads unused type) ?_
      intro allocated s₄ after₄
      cases allocated with
      | none =>
        rw [after₄]
        exact ok₂.iput_none lose tree.cwd tree.file
      | some ip =>
        obtain ⟨rfl, free, pos, inside⟩ := after₄
        obtain ⟨enterable, room⟩ := may dp name result.symm (by
          rw [← tree.inodes]
          exact looked.symm)
        rw [← tree.linked] at enterable
        rw [← tree.inodes] at room
        refine (ok₂.createInode_leads lose dir locked looked.symm free pos inside
          rfl used enterable room major full).mono ?_ fun _ => id
        rintro r s₅ ⟨cwd', file', holding⟩
        exact ⟨cwd'.trans tree.cwd, file'.trans tree.file, holding⟩

end Xv6.Directory

import Xv6.Files.Soundness
import Xv6.Files.Runs

/-!
# Reference counts are exact

Between the calls every reference that is counted is a descriptor, a mapping, an open file or a
current directory.
-/

namespace Xv6.Files

open Directory (ROOTINO slash)

section

variable {P : Type} [Fintype P] {k : Kernel P} {g : P → Local P}

/-! ## At rest -/

namespace Invariant

variable (inv : Invariant k g) (rest : ∀ q, (g q).AtRest)

include inv rest

theorem clean_of_rest {q : P} (dead : (k.proc q).status ≠ .live) : (k.proc q).Clean := by
  cases status : (k.proc q).status with
  | unused => exact inv.procs.clean q (Or.inl status)
  | used =>
    obtain ⟨parent, kid, child⟩ := inv.procs.forked q status
    rw [(rest parent).child] at child
    cases child
  | live => exact absurd status dead
  | zombie => exact inv.procs.clean q (Or.inr status)

theorem owned_of_rest (q : P) (f : FileId) : (g q).owned f = (k.proc q).files f := by
  rw [(rest q).owned f, inv.procs.own q]
  split
  · rfl
  · next dead => exact ((inv.clean_of_rest rest dead).files f).symm

theorem held_of_rest (q : P) (t : Token) : (g q).held t = (k.proc q).tokens t := by
  rw [(rest q).held t, inv.procs.own q]
  split
  · rfl
  · next dead => exact ((inv.clean_of_rest rest dead).tokens t).symm

theorem ref_of_rest (f : FileId) : (k.ftable f).ref = ∑ q, (k.proc q).files f := by
  rw [inv.files.ref f]
  exact Finset.sum_congr rfl fun q _ => inv.owned_of_rest rest q f

theorem pointed_of_rest {f : FileId} (used : (k.ftable f).type ≠ .none) :
    ∃ q, 0 < (k.proc q).files f := by
  by_contra none
  push Not at none
  refine used (inv.files.free f ?_)
  rw [inv.ref_of_rest rest f]
  exact Finset.sum_eq_zero fun q _ => Nat.le_zero.mp (none q)

theorem pipe_of_rest (pi : Nat) (writable : Bool) :
    (if writable then (k.pipes pi).writeopen else (k.pipes pi).readopen) = true ↔
      ∃ q f, 0 < (k.proc q).files f ∧ (k.ftable f).type = .pipe ∧
        (k.ftable f).pipe = some pi ∧ (k.ftable f).writable = writable := by
  have balance := inv.tokens (.pipeEnd pi writable)
  have unheld : (∑ q, (g q).held (.pipeEnd pi writable)) = 0 := by
    refine Finset.sum_eq_zero fun q _ => ?_
    rw [inv.held_of_rest rest]
    simp [Proc.tokens]
  rw [unheld, Nat.zero_add, Kernel.stock, RefCount.count] at balance
  constructor
  · intro isOpen
    rw [if_pos isOpen] at balance
    obtain ⟨f, mem⟩ := Finset.card_pos.mp (balance ▸ Nat.one_pos)
    have stands := (Finset.mem_filter.mp mem).2
    rw [Kernel.tokenOf, File.token] at stands
    split at stands
    · cases stands
    · next type =>
      obtain ⟨q, points⟩ := inv.pointed_of_rest rest (f := f) (by simp [type])
      obtain ⟨pi', named, same⟩ := Option.map_eq_some_iff.mp stands
      cases same
      exact ⟨q, f, points, type, named, rfl⟩
    · simp at stands
    · simp at stands
  · rintro ⟨q, f, -, type, named, same⟩
    by_contra closed
    rw [if_neg closed] at balance
    have none := Finset.card_eq_zero.mp balance.symm
    have stands : k.tokenOf f = some (.pipeEnd pi writable) := by
      rw [Kernel.tokenOf, File.token, type]
      simp [named, same]
    have mem : f ∈ Finset.univ.filter fun f => k.tokenOf f = some (.pipeEnd pi writable) :=
      Finset.mem_filter.mpr ⟨Finset.mem_univ f, stands⟩
    rw [none] at mem
    simp at mem

end Invariant

section

variable (inv : Invariant k g)
include inv

theorem Invariant.tokenOf_eq_inode (f : FileId) (ip : Ip) :
    k.tokenOf f = some (.inode ip) ↔ ((k.ftable f).type = .inode ∨ (k.ftable f).type = .device) ∧
      0 < (k.ftable f).ref ∧ (k.ftable f).ip = some ip := by
  have used : (k.ftable f).type ≠ .none → 0 < (k.ftable f).ref := fun type =>
    Nat.pos_of_ne_zero fun none => type (inv.files.free f none)
  rw [Kernel.tokenOf, File.token]
  cases type : (k.ftable f).type with
  | none | pipe => simp
  | inode | device => simp [used (by simp [type])]

theorem Invariant.inode_ref (ip : Ip) : (k.itable ip).ref =
      (Finset.univ.filter fun f => ((k.ftable f).type = .inode ∨ (k.ftable f).type = .device) ∧
        0 < (k.ftable f).ref ∧ (k.ftable f).ip = some ip).card +
      ∑ q, (g q).held (.inode ip) := by
  have balance : (k.itable ip).ref = _ := inv.tokens (.inode ip)
  rw [balance, Nat.add_comm]
  congr 1
  exact congrArg Finset.card (Finset.filter_congr fun f _ => inv.tokenOf_eq_inode f ip)

theorem Invariant.inode_of_rest (rest : ∀ q, (g q).AtRest) (ip : Ip) : (k.itable ip).ref =
      (Finset.univ.filter fun f => ((k.ftable f).type = .inode ∨ (k.ftable f).type = .device) ∧
        0 < (k.ftable f).ref ∧ (k.ftable f).ip = some ip).card +
      (Finset.univ.filter fun q => (k.proc q).cwd = some ip).card := by
  rw [inv.inode_ref]
  congr 1
  rw [Finset.card_filter]
  refine Finset.sum_congr rfl fun q _ => ?_
  rw [inv.held_of_rest rest, Proc.tokens]
  congr 1
  simp

theorem Invariant.ref_eq_zero_iff (ip : Ip) : (k.itable ip).ref = 0 ↔
    (∀ q, (g q).held (.inode ip) = 0) ∧
      ∀ f, (k.ftable f).type = .inode ∨ (k.ftable f).type = .device → 0 < (k.ftable f).ref →
        (k.ftable f).ip ≠ some ip := by
  rw [inv.inode_ref, Nat.add_eq_zero_iff, Finset.sum_eq_zero_iff, Finset.card_eq_zero,
    Finset.filter_eq_empty_iff, and_comm]
  simp only [Finset.mem_univ, true_implies, not_and]

end

end

variable {P : Type} [DecidableEq P] [Fintype P]

/-! ## The open files -/

/-- At every moment the references to a file are owned by processes. A process between two
calls owns one for each descriptor and mapping; a process that is about to duplicate or to
close a file owns one, so that neither fails, and a close gives up what the file stands for
if no other reference is left. When no call is under way the count of a file is the number
of descriptors and mappings, a file is in use only if there is one, and an end of a pipe is
open exactly if there is one for it. -/
theorem file_references_exact (condition : Kernel P → P → Call → Prop) (initproc : P)
    (m : Machine P) (reached : Reachable condition initproc m) :
    (∃ owned : P → FileId → Nat, (∀ f, (m.shared.ftable f).ref = ∑ q, owned q f) ∧
      (∀ q f, m.thread q = none →
        owned q f = if (m.shared.proc q).status = .live then (m.shared.proc q).files f else 0) ∧
      (∀ p f next, m.thread p = some (.act (.filedup f) next) →
        1 ≤ owned p f ∧ m.shared.fails p (.filedup f) = none) ∧
      (∀ p f next, m.thread p = some (.act (.fileclose f) next) →
        1 ≤ owned p f ∧ m.shared.fails p (.fileclose f) = none ∧
          ∀ reply k', m.shared.exec p (.fileclose f) reply = some k' →
            (k'.ftable f).ref + 1 = ∑ q, owned q f ∧
            (reply = none ↔ 0 < (k'.ftable f).ref))) ∧
    ((∀ q, m.thread q = none) → (∀ f, (m.shared.ftable f).ref = ∑ q, (m.shared.proc q).files f) ∧
      (∀ f, (m.shared.ftable f).type ≠ .none → ∃ q, 0 < (m.shared.proc q).files f) ∧
      ∀ pi writable,
        (if writable then (m.shared.pipes pi).writeopen else (m.shared.pipes pi).readopen) = true ↔
          ∃ q f, 0 < (m.shared.proc q).files f ∧ (m.shared.ftable f).type = .pipe ∧
            (m.shared.ftable f).pipe = some pi ∧ (m.shared.ftable f).writable = writable) := by
  obtain ⟨g, inv, meets⟩ := reachable_owned reached
  have rest : ∀ q, m.thread q = none → (g q).AtRest := fun q between => (between ▸ meets q :)
  have pre : ∀ {p op next}, m.thread p = some (.act op next) → contract.pre (g p) op :=
    fun here => (here ▸ meets _).1
  refine ⟨⟨fun q f => (g q).owned f, inv.files.ref, fun q f between => ?_,
    fun p f next here => ?_, fun p f next here => ?_⟩, fun between => ?_⟩
  · dsimp only
    rw [(rest q between).owned f, inv.procs.own q]
  · have owns : 1 ≤ (g p).owned f := (pre here).2.1
    refine ⟨owns, if_neg ?_⟩
    have bound := inv.files.owned_le p f
    omega
  · have owns : 1 ≤ (g p).owned f := (pre here).2
    have bound := inv.files.owned_le p f
    refine ⟨owns, if_neg (by omega), fun reply k' done => ?_⟩
    rw [← inv.files.ref f]
    rw [Kernel.exec_fileclose, if_neg (by omega)] at done
    split at done
    · next shared =>
      split at done
      · next none =>
        cases done
        simp only [Kernel.setFile, Function.update_self, none, true_iff]
        omega
      · cases done
    · split at done
      · next last =>
        cases done
        simp only [Kernel.setFile, Function.update_self, last]
        refine ⟨by omega, by simp, fun positive => absurd positive (Nat.lt_irrefl 0)⟩
      · cases done
  · have rests := fun q => rest q (between q)
    exact ⟨inv.ref_of_rest rests, fun f => inv.pointed_of_rest rests, inv.pipe_of_rest rests⟩

set_option maxRecDepth 10000 in
theorem file_references_exact_pipe_fork :
    ∃ m : Machine (Fin 2), Reachable (fun _ _ _ => True) 0 m ∧ (∀ q, m.thread q = none) ∧
      (m.shared.ftable 0).ref = 2 ∧ (∑ q, (m.shared.proc q).files 0) = 2 ∧
      (m.shared.pipes 5).readopen = true := by
  obtain ⟨m, reached, facts⟩ := reachable_of_ran (P := Fin 2) (fun _ _ _ => True) 0
    [⟨0, .pipe, { page := some 5 }, 13⟩, ⟨0, .fork, { newproc := some 1 }, 28⟩]
    (fun m => (∀ q, (m.thread q).isNone) ∧ (m.shared.ftable 0).ref = 2 ∧
      (m.shared.pipes 5).readopen = true)
    (by decide +kernel)
  obtain ⟨between, ref, isOpen⟩ := of_decide_eq_true facts
  have idle : ∀ q, m.thread q = none := fun q => Option.isNone_iff_eq_none.mp (between q)
  have counted := ((file_references_exact _ 0 m reached).2 idle).1 0
  exact ⟨m, reached, idle, ref, counted.symm.trans ref, isOpen⟩

/-! ## The inodes -/

/-- No inode of the disk has two entries in use, and a process between two calls has no inode
locked. The open transactions are those of the calls inside one; a call begins one only
outside of one, ends one only inside of one, and returns outside of one. When no call is
under way the count of an entry is the number of open files and of current directories for
it, no inode is locked and no transaction is open. -/
theorem inode_references_exact (condition : Kernel P → P → Call → Prop) (initproc : P)
    (m : Machine P) (reached : Reachable condition initproc m) :
    (∀ ip ip', 0 < (m.shared.itable ip).ref → 0 < (m.shared.itable ip').ref →
      (m.shared.itable ip).dev = (m.shared.itable ip').dev →
      (m.shared.itable ip).inum = (m.shared.itable ip').inum → ip = ip') ∧
    (∀ q ip, m.thread q = none → (m.shared.itable ip).lock ≠ some q) ∧
    (∃ inside : P → Bool,
      m.shared.outstanding = (Finset.univ.filter fun q => inside q = true).card ∧
      (∀ q, m.thread q = none ∨ (∃ done, m.thread q = some (.done done)) → inside q = false) ∧
      (∀ q next, m.thread q = some (.act .beginOp next) → inside q = false) ∧
      ∀ q next, m.thread q = some (.act .endOp next) → inside q = true) ∧
    ((∀ q, m.thread q = none) → (∀ ip, (m.shared.itable ip).ref = (Finset.univ.filter fun f =>
          ((m.shared.ftable f).type = .inode ∨ (m.shared.ftable f).type = .device) ∧
            0 < (m.shared.ftable f).ref ∧ (m.shared.ftable f).ip = some ip).card +
        (Finset.univ.filter fun q => (m.shared.proc q).cwd = some ip).card) ∧
      (∀ ip, (m.shared.itable ip).lock = none) ∧ m.shared.outstanding = 0) := by
  obtain ⟨g, inv, meets⟩ := reachable_owned reached
  have rest : ∀ q, m.thread q = none → (g q).AtRest := fun q between => (between ▸ meets q :)
  have unlocked : ∀ q ip, m.thread q = none → (m.shared.itable ip).lock ≠ some q := by
    intro q ip between held
    have member := (inv.locks ip q).mpr held
    rw [(rest q between).locks] at member
    simp at member
  refine ⟨inv.unique, unlocked, ⟨fun q => (g q).tx, inv.tx, ?_, ?_, ?_⟩, fun between => ?_⟩
  · rintro q (between | ⟨done, finished⟩)
    · exact (rest q between).tx
    · exact (finished ▸ meets q).tx
  · exact fun q next here => (here ▸ meets q).1.2
  · exact fun q next here => (here ▸ meets q).1.2
  · have rests := fun q => rest q (between q)
    refine ⟨inv.inode_of_rest rests, fun ip => ?_, ?_⟩
    · cases lock : (m.shared.itable ip).lock with
      | none => rfl
      | some q => exact absurd lock (unlocked q ip (between q))
    · rw [inv.tx, Finset.card_eq_zero]
      exact Finset.filter_eq_empty_iff.mpr fun q _ => by simp [(rests q).tx]

set_option maxRecDepth 10000 in
theorem inode_references_exact_open_fork :
    ∃ m : Machine (Fin 2), Reachable (fun _ _ _ => True) 0 m ∧ (m.shared.itable 0).ref = 2 ∧
      (Finset.univ.filter fun q => (m.shared.proc q).cwd = some 0).card = 2 ∧
      (m.shared.itable 1).ref = 1 ∧ m.shared.outstanding = 0 := by
  obtain ⟨m, reached, facts⟩ := reachable_of_ran (P := Fin 2) (fun _ _ _ => True) 0
    [⟨0, .open [slash, 97] 0, { found := some 7 }, 18⟩, ⟨0, .fork, { newproc := some 1 }, 26⟩]
    (fun m => (∀ q, (m.thread q).isNone) ∧ (m.shared.itable 0).ref = 2 ∧
      (m.shared.itable 1).ref = 1 ∧
      (Finset.univ.filter fun q => (m.shared.proc q).cwd = some 0).card = 2)
    (by decide +kernel)
  obtain ⟨between, root, file, directories⟩ := of_decide_eq_true facts
  have idle : ∀ q, m.thread q = none := fun q => Option.isNone_iff_eq_none.mp (between q)
  have closed := ((inode_references_exact _ 0 m reached).2.2.2 idle).2.2
  exact ⟨m, reached, root, directories, file, closed⟩

/-! ## Running out of entries -/

/-- `iget` returns if the inode has an entry, or if there is an entry to which no open file, no
current directory and no call under way has a reference; otherwise it panics. What the processes
hold is the reference count of the entry without the open files, which for a process between two
calls is its current directory. -/
theorem iget_returns_iff_entry (condition : Kernel P → P → Call → Prop) (initproc : P)
    (m : Machine P) (reached : Reachable condition initproc m) : ∃ held : P → Ip → Nat,
      (∀ q ip, m.thread q = none → held q ip =
        if (m.shared.proc q).status = .live ∧ (m.shared.proc q).cwd = some ip then 1 else 0) ∧
      (∀ ip, (m.shared.itable ip).ref = (Finset.univ.filter fun f =>
          ((m.shared.ftable f).type = .inode ∨ (m.shared.ftable f).type = .device) ∧
            0 < (m.shared.ftable f).ref ∧ (m.shared.ftable f).ip = some ip).card +
        ∑ q, held q ip) ∧
      ∀ p dev inum, (m.shared.fails p (.iget dev inum) ≠ some .igetNoInodes ↔
        (∃ ip, 0 < (m.shared.itable ip).ref ∧ (m.shared.itable ip).dev = dev ∧
          (m.shared.itable ip).inum = inum) ∨
        ∃ ip, (∀ q, held q ip = 0) ∧
          ∀ f, (m.shared.ftable f).type = .inode ∨ (m.shared.ftable f).type = .device →
            0 < (m.shared.ftable f).ref → (m.shared.ftable f).ip ≠ some ip) := by
  obtain ⟨g, inv, meets⟩ := reachable_owned reached
  refine ⟨fun q ip => (g q).held (.inode ip), fun q ip between => ?_, inv.inode_ref,
    fun p dev inum => ?_⟩
  · have own : (g q).AtRest := (between ▸ meets q :)
    dsimp only
    rw [own.held, inv.procs.own q, Proc.tokens, ite_and]
    simp
  · simp only [← inv.ref_eq_zero_iff, Kernel.fails, Kernel.cachedInode, Kernel.freeInode,
      List.find?_eq_none, List.mem_finRange, true_implies, decide_eq_true_eq]
    rw [Ne, ite_eq_left_iff]
    simp only [reduceCtorEq, imp_false, not_not]
    rw [not_and_or, not_forall, not_forall]
    simp only [not_not]

/-- Process 1 is about to look up an inode of which process 0 has the only reference. -/
def Machine.igetOfOpen (m : Machine (Fin 2)) : Bool :=
  match m.thread 1 with
  | some (.act (.iget dev inum) _) =>
    (m.shared.itable 1).ref = 1 ∧ (m.shared.itable 1).dev = dev ∧ (m.shared.itable 1).inum = inum
  | _ => false

set_option maxRecDepth 10000 in
theorem iget_returns_for_open_inode :
    ∃ m : Machine (Fin 2), Reachable (fun _ _ _ => True) 0 m ∧ (m.shared.itable 1).ref = 1 ∧
      ∃ dev inum next, m.thread 1 = some (.act (.iget dev inum) next) ∧
        m.shared.fails 1 (.iget dev inum) ≠ some .igetNoInodes := by
  obtain ⟨m, reached, facts⟩ := reachable_of_ran (P := Fin 2) (fun _ _ _ => True) 0
    [⟨0, .fork, { newproc := some 1 }, 24⟩, ⟨0, .open [slash, 97] 0, { found := some 7 }, 18⟩,
      ⟨1, .open [slash, 97] 0, { found := some 7 }, 6⟩] Machine.igetOfOpen (by decide +kernel)
  unfold Machine.igetOfOpen at facts
  split at facts
  · next dev inum next here =>
    obtain ⟨ref, same⟩ := of_decide_eq_true facts
    obtain ⟨held, -, -, returns⟩ := iget_returns_iff_entry _ 0 m reached
    refine ⟨m, reached, ref, dev, inum, next, here, ?_⟩
    exact (returns 1 dev inum).mpr (.inl ⟨1, by rw [ref]; exact Nat.one_pos, same⟩)
  · cases facts

/-- Process `p` opens `n` files, of the inodes from `inum` on. -/
def opens (p : Fin 4) (inum n : Nat) : List (Turn (Fin 4)) :=
  (List.range n).map fun i => ⟨p, .open [slash, 97] 0, { found := some (inum + i) }, 18 + i⟩

/-- Four processes open 49 files and are about to open one more. -/
def fiftyOpens : List (Turn (Fin 4)) :=
  ([1, 2, 3].map fun child => ⟨0, .fork, { newproc := some child }, 24⟩) ++ opens 0 2 16 ++
    opens 1 18 16 ++ opens 2 34 16 ++ opens 3 50 1 ++
    [⟨3, .open [slash, 97] 0, { found := some 51 }, 6⟩]

/-- The last call is about to run into the panic. -/
def Machine.outOfInodes (m : Machine (Fin 4)) : Bool :=
  match m.thread 3 with
  | some (.act op _) => m.shared.fails 3 op = some .igetNoInodes
  | _ => false

set_option maxRecDepth 100000 in
theorem open_runs_out_of_inodes : ∃ m : Machine (Fin 4), Reachable (fun _ _ _ => True) 0 m ∧
    ∃ op next, m.thread 3 = some (.act op next) ∧
      m.shared.fails 3 op = some .igetNoInodes := by
  obtain ⟨m, reached, facts⟩ := reachable_of_ran (fun _ _ _ => True) 0 fiftyOpens
    Machine.outOfInodes (by decide +kernel)
  refine ⟨m, reached, ?_⟩
  unfold Machine.outOfInodes at facts
  split at facts
  · next op next here => exact ⟨op, next, here, of_decide_eq_true facts⟩
  · cases facts

end Xv6.Files

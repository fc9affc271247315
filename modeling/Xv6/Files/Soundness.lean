import Xv6.Files.TableSteps
import Xv6.Files.ProcessSpecs

/-!
# The operations keep the invariant

A process that forks changes the fields of the child, and at the end gives it the references
that it has taken for it.
-/

namespace Xv6.Files

open Function

variable {P : Type} [DecidableEq P] [Fintype P] {k k' : Kernel P} {g : P → Local P} {p : P}
  {l' : Local P}
variable {np : P} {new : Proc} {op : Op P} {reply : op.Reply}

namespace Invariant

/-! ## Processes -/

omit [DecidableEq P] in
theorem atRest_of_dead (inv : Invariant k g) (dead : (k.proc np).status ≠ .live)
    (still : new.status ≠ .live) : Local.AtRest { g np with proc := new } := by
  have rest := inv.procs.idle np dead
  have before : (g np).proc.status ≠ .live := fun live => dead ((inv.live_iff np).mp live)
  refine ⟨rest.child, rest.fresh, rest.locks, rest.tx, fun f => ?_, fun t => ?_⟩
  · have owned := rest.owned f
    rw [if_neg before] at owned
    rw [if_neg still]
    exact owned
  · have held := rest.held t
    rw [if_neg before] at held
    rw [if_neg still]
    exact held

omit [DecidableEq P] [Fintype P] in
theorem ne_of_dead (live : (k.proc p).status = .live)
    (dead : (k.proc np).status ≠ .live) : np ≠ p := by
  rintro rfl
  exact dead live

section

variable (inv : Invariant k g) (live : (g p).proc.status = .live)
include inv live

theorem pair {lnp : Local P}
    (dead : (k.proc np).status ≠ .live) (effect : (g p).effect op reply l')
    (files : FilesOk k.ftable (update (update g p l') np lnp))
    (tokens : TokensOk k.stock k.tokenOf (update (update g p l') np lnp))
    (locks : l'.locks = (g p).locks) (tx : l'.tx = (g p).tx) (rest : lnp.AtRest)
    (procs : ProcsOk (update k.proc np new) (update (update g p l') np lnp)) :
    Kept (k.setProc np new) g p op reply := by
  have other : np ≠ p := ne_of_dead ((inv.live_iff p).mp live) dead
  have idle := inv.procs.idle np dead
  have here : update g p l' np = g np := update_of_ne other ..
  refine ⟨update (update g p l') np lnp, ?_, ⟨files, tokens, ?_, inv.unique, ?_, procs⟩,
    fun q notParent => ?_⟩
  · rw [update_of_ne other.symm, update_self]
    exact effect
  · refine LocksOk.keep (inv.locks.keep locks) ?_
    rw [here, rest.locks, idle.locks]
  · refine TxOk.change (inv.tx.change (by rw [tx])) ?_
    rw [here, rest.tx, idle.tx]
    rfl
  · by_cases isKid : q = np
    · subst isKid
      rw [update_self]
      exact Or.inr ⟨fun op pre => dead ((inv.live_iff q).mp pre.1), rest⟩
    · rw [update_of_ne isKid, update_of_ne notParent]
      exact Or.inl rfl

theorem keeps_other {child : Option (P × Proc)}
    (dead : (k.proc np).status ≠ .live) (still : new.status ≠ .live)
    (clean : new.status = .unused ∨ new.status = .zombie → new.Clean)
    (before : ∀ np' kid, (g p).child = some (np', kid) → np' = np)
    (alone : ∀ q, q ≠ p → ∀ kid, (g q).child ≠ some (np, kid))
    (after : new.status = .used ∧ child = some (np, new) ∨ new.status ≠ .used ∧ child = none)
    (effect : (g p).effect op reply { g p with child := child }) :
    Kept (k.setProc np new) g p op reply := by
  have alive := (inv.live_iff p).mp live
  have here : update g p { g p with child := child } np = g np :=
    update_of_ne (ne_of_dead alive dead) ..
  have rest := inv.atRest_of_dead dead still
  refine inv.pair live dead effect ?_ ?_ rfl rfl rest
    (inv.procs.change alive dead rfl rfl rest clean before alone after)
  · refine FilesOk.keep (inv.files.keep rfl rfl) ?_ ?_
    · rw [here]
    · rw [here]
  · refine TokensOk.keep (inv.tokens.keep rfl) ?_
    rw [here]

theorem keeps_kid {kid : Proc} {child : Option (P × Proc)}
    (named : (g p).child = some (np, kid)) (still : new.status ≠ .live)
    (clean : new.status = .unused ∨ new.status = .zombie → new.Clean)
    (after : new.status = .used ∧ child = some (np, new) ∨ new.status ≠ .used ∧ child = none)
    (effect : (g p).effect op reply { g p with child := child }) :
    Kept (k.setProc np new) g p op reply := by
  have used := (inv.procs.child p np kid named).2
  refine inv.keeps_other live (by simp [used]) still clean (fun np' kid' same => ?_)
    (fun q other kid' same => ?_) after effect
  · rw [named] at same
    cases same
    rfl
  · exact other (inv.procs.parent q p np kid' kid same named)

theorem keeps_allocproc (need : (g p).need .allocproc) {reply : Option P}
    (done : k.exec p .allocproc reply = some k') : Kept k' g p .allocproc reply := by
  cases reply with
  | none =>
    cases done
    exact Kept.nothing rfl inv
  | some np =>
    rw [Kernel.exec_allocproc_some] at done
    split at done
    · next unused =>
      cases done
      have clean := inv.procs.clean np (Or.inl unused)
      have none : (g p).child = none := need
      refine inv.keeps_other live (by simp [unused]) nofun (by simp)
        (fun np' kid same => ?_) (fun q _ kid same => ?_) (Or.inl ⟨rfl, rfl⟩) ?_
      · simp [none] at same
      · have used := (inv.procs.child q np kid same).2
        simp [unused] at used
      · refine ⟨_, ?_, rfl⟩
        exact ⟨clean.ofile, fun _ => rfl, clean.cwd⟩
    · cases done

theorem keeps_freeChild (need : (g p).need .freeChild) {reply : Option P}
    (done : k.exec p .freeChild reply = some k') : Kept k' g p .freeChild reply := by
  cases reply with
  | none =>
    cases done
    exact Kept.nothing rfl inv
  | some pp =>
    rw [Kernel.exec_freeChild_some] at done
    split at done
    · next zombie =>
      cases done
      have clean := inv.procs.clean pp (Or.inr zombie)
      have none : (g p).child = none := need
      refine inv.keeps_other live (by simp [zombie]) nofun
        (fun _ => ⟨clean.ofile, clean.vmas, clean.cwd⟩) (fun np' kid same => ?_)
        (fun q _ kid same => ?_) (Or.inr ⟨nofun, none⟩) rfl
      · simp [none] at same
      · have used := (inv.procs.child q pp kid same).2
        simp [zombie] at used
    · cases done

theorem keeps_freeproc (need : (g p).need (.freeproc np)) {reply : Unit}
    (done : k.exec p (.freeproc np) reply = some k') : Kept k' g p (.freeproc np) reply := by
  obtain ⟨kid, named, clean⟩ := need
  obtain ⟨rfl, used⟩ := inv.procs.child p np kid named
  cases done
  exact inv.keeps_kid live named nofun (fun _ => ⟨clean.ofile, clean.vmas, clean.cwd⟩)
    (Or.inr ⟨nofun, rfl⟩) rfl

theorem keeps_markRunnable (need : (g p).need (.markRunnable np)) {reply : Unit}
    (done : k.exec p (.markRunnable np) reply = some k') :
    Kept k' g p (.markRunnable np) reply := by
  obtain ⟨fresh, kid, named, files, tokens⟩ := need
  obtain ⟨rfl, used⟩ := inv.procs.child p np kid named
  cases done
  have alive := (inv.live_iff p).mp live
  have dead : (k.proc np).status ≠ .live := by simp [used]
  have other := ne_of_dead alive dead
  have rest := inv.procs.idle np dead
  have before : (g np).proc.status ≠ .live := fun live => dead ((inv.live_iff np).mp live)
  let kid : Local P := { g np with
    proc := { k.proc np with status := .live }
    owned := (k.proc np).files
    held := (k.proc np).tokens }
  have atRest : kid.AtRest :=
    ⟨rest.child, rest.fresh, rest.locks, rest.tx, fun _ => rfl, fun _ => rfl⟩
  refine inv.pair live dead rfl ?_ ?_ rfl rfl atRest
    (inv.procs.change alive dead rfl rfl atRest (by simp) (fun np' kid same => ?_)
      (fun q other kid same => ?_) (Or.inr ⟨nofun, rfl⟩))
  · refine inv.files.give other (fun f => ?_) fresh rest.fresh
    have owned := rest.owned f
    rw [if_neg before] at owned
    rw [owned, files f]
    rfl
  · refine inv.tokens.give other fun t => ?_
    have held := rest.held t
    rw [if_neg before] at held
    rw [held, tokens t]
    rfl
  · rw [named] at same
    cases same
    rfl
  · exact other (inv.procs.parent q p np kid _ same named)

theorem keeps_zombie (need : (g p).need .zombie) {reply : Unit}
    (done : k.exec p .zombie reply = some k') :
    Kept k' g p .zombie reply := by
  obtain ⟨clean, child, fresh, locks, tx, owned, held⟩ := need
  cases done
  rw [← inv.procs.own p]
  exact Kept.own rfl (inv.proc live (Or.inr ⟨rfl, ⟨clean.ofile, clean.vmas, clean.cwd⟩,
    ⟨child, fresh, locks, tx, owned, held⟩⟩))

/-! ## All operations -/

theorem keeps_beginOp (need : (g p).need .beginOp) {reply : Unit}
    (done : k.exec p .beginOp reply = some k') :
    Kept k' g p .beginOp reply := by
  have outside : (g p).tx = false := need
  cases done
  refine Kept.own rfl ⟨inv.files.keep rfl rfl, inv.tokens.keep rfl, inv.locks.keep rfl, inv.unique,
    inv.tx.change ?_, inv.procs.keep ((inv.live_iff p).mp live) rfl rfl⟩
  simp [outside]

theorem keeps_endOp (need : (g p).need .endOp) {reply : Unit}
    (done : k.exec p .endOp reply = some k') :
    Kept k' g p .endOp reply := by
  have inside : (g p).tx = true := need
  have counted : 0 < k.outstanding := by
    rw [inv.tx]
    exact Finset.card_pos.mpr ⟨p, by simp [inside]⟩
  cases done
  refine Kept.own rfl ⟨inv.files.keep rfl rfl, inv.tokens.keep rfl, inv.locks.keep rfl, inv.unique,
    inv.tx.change ?_, inv.procs.keep ((inv.live_iff p).mp live) rfl rfl⟩
  simp only [inside, if_true]
  simp only [reduceCtorEq, if_false]
  omega

theorem keeps_self (still : new.status = .live)
    (effect : (g p).effect op reply { g p with proc := new }) :
    Kept (k.setProc p new) g p op reply :=
  Kept.own effect (inv.proc live (Or.inl still))

end

theorem keeps (inv : Invariant k g) (pre : contract.pre (g p) op)
    (done : k.exec p op reply = some k') :
    Kept k' g p op reply := by
  obtain ⟨live, need⟩ := pre
  have own := inv.procs.own p
  cases op with
  | filealloc => exact inv.keeps_filealloc live done
  | filedup f => exact inv.keeps_filedup live need done
  | fileclose f => exact inv.keeps_fileclose live need done
  | openFile f type ip readable writable =>
    obtain ⟨fresh, held, inode | device⟩ := need
    · subst inode
      cases done
      exact Kept.own rfl (inv.fill live fresh held rfl rfl)
    · subst device
      cases done
      exact Kept.own rfl (inv.fill live fresh held rfl rfl)
  | openPipe f pi writable =>
    obtain ⟨fresh, held⟩ := need
    cases done
    exact Kept.own rfl (inv.fill live fresh held rfl rfl)
  | setOfile fd f | setVma i v | setCwd ip =>
    cases done
    rw [← own]
    exact inv.keeps_self live live rfl
  | allocproc => exact inv.keeps_allocproc live need done
  | freeproc np => exact inv.keeps_freeproc live need done
  | npOfile np fd f | npVma np i v | npCwd np ip =>
    obtain ⟨kid, named⟩ := need
    obtain ⟨rfl, used⟩ := inv.procs.child p np kid named
    cases done
    exact inv.keeps_kid live named (by simp [used]) (by simp [used]) (Or.inl ⟨used, rfl⟩)
      ⟨_, named, rfl⟩
  | markRunnable np => exact inv.keeps_markRunnable live need done
  | zombie => exact inv.keeps_zombie live need done
  | freeChild => exact inv.keeps_freeChild live need done
  | kallocPipe => exact inv.keeps_kallocPipe live done
  | pipeclose pi writable => exact inv.keeps_pipeclose live need done
  | iget dev inum => exact inv.keeps_iget live done
  | idup ip =>
    have held : 1 ≤ (g p).held (.inode ip) := need
    cases done
    exact Kept.own rfl (inv.moreInode live rfl rfl (inv.unique.keep rfl rfl fun _ =>
      held.trans (inv.tokens.held_le p (.inode ip))))
  | ilock ip => exact inv.keeps_ilock live done
  | iunlock ip =>
    rw [Kernel.exec_iunlock] at done
    split at done
    · cases done
    · cases done
      exact Kept.own rfl (inv.unlockInode live need rfl rfl rfl rfl)
  | iput ip => exact inv.keeps_iput live need done
  | ifree ip =>
    cases done
    exact Kept.own rfl (inv.unlockInode live need rfl rfl rfl rfl)
  | irelease ip =>
    cases done
    exact Kept.own rfl (inv.lessInode live need)
  | setNlink ip nlink =>
    cases done
    refine Kept.own rfl (inv.inode live ?_ ?_ (inv.unique.keep rfl rfl id))
    · rw [Kernel.stock_setInode_same (by rfl)]
      exact inv.tokens.keep rfl
    · rw [Kernel.lockOf_setInode_same (by rfl)]
      exact inv.locks.keep rfl
  | beginOp => exact inv.keeps_beginOp live need done
  | endOp => exact inv.keeps_endOp live need done
  | file f | isInitproc | inode ip =>
    obtain ⟨-, rfl⟩ := Kernel.of_read done
    exact Kept.nothing rfl inv
  | ofile fd | vmas | cwd =>
    obtain ⟨same, rfl⟩ := Kernel.of_read done
    exact Kept.nothing ⟨same.trans (by rw [own]), rfl⟩ inv
  | dirlookup dp name | ialloc dev | readMapped f ip | writeMapped f ip | ask question =>
    cases done
    exact Kept.nothing rfl inv
  | panic panic | spin => cases done

end Invariant

theorem sound (condition : Kernel P → P → Call → Prop) :
    Program.Sound Kernel.exec (May condition) contract Invariant Local.AtRest where
  keeps := fun inv pre done => inv.keeps pre done
  enters := by
    rintro k g p code inv ⟨live, call, -, rfl⟩ rest
    exact wp_code call ((inv.live_iff p).mpr live) rest

/-! ## The start -/

def bootLocal (initproc : P) (q : P) : Local P where
  proc := (boot initproc).proc q
  owned := fun _ => 0
  held := fun t => if q = initproc ∧ t = .inode 0 then 1 else 0

omit [Fintype P] in
theorem bootLocal_atRest (initproc q : P) : (bootLocal initproc q).AtRest := by
  refine ⟨rfl, rfl, rfl, rfl, fun f => ?_, fun t => ?_⟩
  · by_cases first : q = initproc
    · simp [bootLocal, boot, first, Proc.files, RefCount.count, mapped]
    · simp [bootLocal, boot, first]
  · by_cases first : q = initproc
    · simp [bootLocal, boot, first, Proc.tokens, eq_comm]
    · simp [bootLocal, boot, first]

theorem boot_invariant (initproc : P) : Invariant (boot initproc) (bootLocal initproc) where
  files := ⟨fun f => by simp [boot, bootLocal], fun f _ => rfl, fun q f mem => by
    simp [bootLocal] at mem⟩
  tokens := by
    intro t
    have none : RefCount.count (boot initproc).tokenOf t = 0 := by
      simp [RefCount.count, Kernel.tokenOf, boot, File.token]
    rw [none]
    cases t with
    | inode ip =>
      by_cases root : ip = 0 <;> simp [Kernel.stock, boot, bootLocal, root]
    | pipeEnd pi writable => simp [Kernel.stock, boot, bootLocal]
  locks := by
    intro ip q
    by_cases root : ip = 0 <;> simp [Kernel.lockOf, boot, bootLocal, root]
  unique := by
    intro ip ip' first second _ _
    by_cases root : ip = 0 <;> by_cases root' : ip' = 0
    · rw [root, root']
    · simp [boot, root'] at second
    · simp [boot, root] at first
    · simp [boot, root] at first
  tx := by simp [TxOk, boot, bootLocal]
  procs := by
    refine ⟨fun q => rfl, fun q gone => ?_, by rintro _ _ _ ⟨⟩,
      by rintro _ _ _ _ _ ⟨⟩, fun np used => ?_, fun q _ => bootLocal_atRest initproc q⟩
    · by_cases first : q = initproc
      · simp [boot, first] at gone
      · simp only [boot, update_of_ne first]
        exact ⟨fun _ => rfl, fun _ => rfl, rfl⟩
    · by_cases first : np = initproc <;> simp [boot, first] at used

theorem reachable_owned {condition : Kernel P → P → Call → Prop} {initproc : P} {m : Machine P}
    (reached : Reachable condition initproc m) :
    ∃ g, Invariant m.shared g ∧ ∀ p, Program.Meets contract Local.AtRest (g p) (m.thread p) :=
  (sound condition).reachable (boot_invariant initproc) (bootLocal_atRest initproc) reached

end Xv6.Files

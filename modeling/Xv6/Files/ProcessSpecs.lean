import Xv6.Files.DescriptorSpecs

/-!
# Fork and exit

`kfork` hands the references that it takes over to the child; `kexit` gives up all references.
-/

namespace Xv6.Files

open Program hiding act
open Contract Memory Function

variable {P : Type} {l : Local P} {np : P}

/-- The child has the first entries of a table, and the parent owns references for both. -/
structure Forking (l : Local P) (np : P) (files : List (Fin NOFILE)) (vmas : List (Fin NVMA))
    (l' : Local P) : Prop where
  intro ::
  state : ∃ kid owned, l' = { l with child := some (np, kid), owned := owned } ∧
    owned = (fun f => l.proc.files f + kid.files f) ∧ (∀ fd ∈ files, kid.ofile fd = none) ∧
    (∀ i ∈ vmas, (kid.vmas i).used = false) ∧ kid.cwd = none

theorem more_add (first second : FileId → Nat) (f : FileId) :
    more (fun x => first x + second x) f = fun x => first x + more second f x := by
  funext x
  simp only [more]
  omega

section

variable (live : l.proc.status = .live)
include live

section

variable (rest : l.AtRest)
include rest

theorem wp_dupFiles {vmas : List (Fin NVMA)}
    {l' : Local P} (start : Forking l np (List.finRange NOFILE) vmas l') :
    contract.wp (dupFiles np) (fun _ => Forking l np [] vmas) l' := by
  refine wp_mono (wp_forM (J := fun files l' => files.Nodup ∧ Forking l np files vmas l') ?_
    ⟨List.nodup_finRange _, start⟩) fun _ _ last => last.2
  rintro fd rest' _ ⟨distinct, ⟨kid, owned, rfl, balance, files, maps, cwd⟩⟩
  obtain ⟨new, distinct'⟩ := List.nodup_cons.mp distinct
  refine wp_bind (wp_ofile live ?_)
  cases here : l.proc.ofile fd with
  | none =>
    exact ⟨distinct', ⟨kid, owned, rfl, balance,
      fun fd' mem => files fd' (List.mem_cons_of_mem _ mem), maps, cwd⟩⟩
  | some f =>
    have owns : 1 ≤ owned f := by
      rw [balance]
      exact (Proc.files_pos_of_ofile here).trans (Nat.le_add_right _ _)
    refine wp_bind (wp_filedup live owns (by simp [rest.fresh]) ?_)
    refine wp_act ⟨live, kid, rfl⟩ ?_
    rintro reply _ ⟨_, same, rfl⟩
    cases same
    refine ⟨distinct', ⟨_, _, rfl, ?_, fun fd' mem => ?_, maps, cwd⟩⟩
    · rw [balance, more_add, Proc.files_open (files fd List.mem_cons_self)]
    · have other : fd' ≠ fd := by
        rintro rfl
        exact new mem
      dsimp only
      rw [update_of_ne other]
      exact files fd' (List.mem_cons_of_mem _ mem)

theorem wp_dupVmas {l' : Local P} (start : Forking l np [] (List.finRange NVMA) l') :
    contract.wp (dupVmas np l.proc.vmas) (fun _ => Forking l np [] []) l' := by
  refine wp_mono (wp_forM (J := fun vmas l' => vmas.Nodup ∧ Forking l np [] vmas l') ?_
    ⟨List.nodup_finRange _, start⟩) fun _ _ last => last.2
  rintro i rest' _ ⟨distinct, ⟨kid, owned, rfl, balance, files, maps, cwd⟩⟩
  obtain ⟨new, distinct'⟩ := List.nodup_cons.mp distinct
  split
  · next used =>
    refine wp_bind (wp_act ⟨live, kid, rfl⟩ ?_)
    rintro reply _ ⟨_, same, rfl⟩
    cases same
    refine wp_bind (wp_deref live fun f named => ?_)
    have here : mapped (l.proc.vmas i) = some f := by
      rw [mapped, used]
      exact named
    have owns : 1 ≤ owned f := by
      rw [balance]
      exact (Proc.files_pos_of_mapped here).trans (Nat.le_add_right _ _)
    refine wp_filedup live owns (by simp [rest.fresh]) ?_
    refine ⟨distinct', ⟨_, _, rfl, ?_, files, fun i' mem => ?_, cwd⟩⟩
    · have vacant := mapped_eq_none_of_unused (maps i List.mem_cons_self)
      rw [balance, more_add, Proc.files_map vacant here]
    · have other : i' ≠ i := by
        rintro rfl
        exact new mem
      dsimp only
      rw [update_of_ne other]
      exact maps i' (List.mem_cons_of_mem _ mem)
  · exact ⟨distinct', ⟨kid, owned, rfl, balance, files,
      fun i' mem => maps i' (List.mem_cons_of_mem _ mem), cwd⟩⟩

theorem wp_kfork : contract.wp kfork (fun _ => Local.AtRest) l := by
  refine wp_bind (wp_act ⟨live, rest.child⟩ ?_)
  intro reply l' step
  cases reply with
  | none =>
    cases step
    exact rest
  | some np =>
    obtain ⟨kid, clean, rfl⟩ := step
    refine wp_bind (wp_ask live fun copied => ?_)
    split
    · refine wp_bind (wp_act ⟨live, kid, rfl, clean⟩ ?_)
      rintro reply _ rfl
      rw [← rest.child]
      exact rest
    have start : Forking l np (List.finRange NOFILE) (List.finRange NVMA)
        { l with child := some (np, kid) } := by
      refine ⟨kid, l.owned, rfl, ?_, fun fd _ => clean.ofile fd, fun i _ => clean.vmas i, clean.cwd⟩
      funext f
      rw [rest.owned_eq live, clean.files, Nat.add_zero]
    refine wp_then (wp_dupFiles live rest start) fun _ l' forking => ?_
    obtain ⟨kid, owned, rfl, _⟩ := id forking
    refine wp_bind (wp_vmas live ?_)
    refine wp_then (wp_dupVmas live rest forking) fun _ l' forked => ?_
    obtain ⟨kid, owned, rfl, balance, -, -, cwd⟩ := forked
    refine wp_bind (wp_act ⟨live, trivial⟩ ?_)
    rintro pointer _ ⟨rfl, rfl⟩
    refine wp_bind (wp_deref live fun ip here => ?_)
    refine wp_bind (wp_act ⟨live, rest.cwd live ip here⟩ ?_)
    rintro reply _ rfl
    refine wp_bind (wp_act ⟨live, kid, rfl⟩ ?_)
    rintro reply _ ⟨_, same, rfl⟩
    cases same
    refine wp_bind (wp_act ⟨live, rest.fresh, _, rfl, fun f => ?_, fun t => ?_⟩ ?_)
    · exact congrFun balance f
    · have held := rest.held t
      rw [if_pos live] at held
      simp only [more, held, Proc.tokens, Option.map_some, Option.some.injEq, eq_comm (a := t)]
    · rintro reply _ rfl
      refine wp_pure ⟨rfl, rest.fresh, rest.locks, rest.tx, fun f => ?_, fun t => ?_⟩
      · exact (if_pos live).symm
      · exact (if_pos live).symm

theorem wp_closeFiles : contract.wp closeFiles (fun _ l' =>
      l'.AtRest ∧ l'.proc.status = .live ∧ ∀ fd, l'.proc.ofile fd = none) l := by
  refine wp_mono (wp_forM (J := fun left l' =>
    l'.AtRest ∧ l'.proc.status = .live ∧ ∀ fd, fd ∈ left ∨ l'.proc.ofile fd = none) ?_
    ⟨rest, live, fun fd => Or.inl (List.mem_finRange fd)⟩) ?_
  · rintro fd left l ⟨rest, live, closed⟩
    refine wp_bind (wp_ofile live ?_)
    cases here : l.proc.ofile fd with
    | none =>
      refine ⟨rest, live, fun fd' => ?_⟩
      obtain mem | gone := closed fd'
      · obtain rfl | later := List.mem_cons.mp mem
        · exact Or.inr here
        · exact Or.inl later
      · exact Or.inr gone
    | some f =>
      have owns := rest.owns live (Proc.files_pos_of_ofile here)
      refine wp_bind (wp_fileclose live rest.tx owns (by simp [rest.fresh]) ?_)
      refine wp_setOfile live ⟨rest.change live rfl rfl ?_, live, fun fd' => ?_⟩
      · rw [Proc.files_close here, rest.owned_eq live]
      · dsimp only
        by_cases same : fd' = fd
        · rw [same, update_self]
          exact Or.inr rfl
        · rw [update_of_ne same]
          obtain mem | gone := closed fd'
          · exact Or.inl ((List.mem_cons.mp mem).resolve_left same)
          · exact Or.inr gone
  · rintro _ l' ⟨rest, live, closed⟩
    exact ⟨rest, live, fun fd => (closed fd).resolve_left (by simp)⟩

theorem wp_closeVmas (files : ∀ fd, l.proc.ofile fd = none) :
    contract.wp closeVmas (fun _ l' => l'.AtRest ∧ l'.proc.status = .live ∧
      (∀ fd, l'.proc.ofile fd = none) ∧ ∀ i, (l'.proc.vmas i).used = false) l := by
  refine wp_mono (wp_forM (J := fun left l' =>
    l'.AtRest ∧ l'.proc.status = .live ∧ (∀ fd, l'.proc.ofile fd = none) ∧
      ∀ i, i ∈ left ∨ (l'.proc.vmas i).used = false) ?_
    ⟨rest, live, files, fun i => Or.inl (List.mem_finRange i)⟩) ?_
  · rintro i left l ⟨rest, live, files, closed⟩
    refine wp_bind (wp_vmas live ?_)
    dsimp only
    split
    · next used =>
      refine wp_bind (wp_unmapPages live rest.tx ?_)
      refine wp_bind (wp_deref live fun f named => ?_)
      have maps : mapped (l.proc.vmas i) = some f := by
        rw [mapped, used]
        exact named
      have owns := rest.owns live (Proc.files_pos_of_mapped maps)
      refine wp_bind (wp_fileclose live rest.tx owns (by simp [rest.fresh]) ?_)
      refine wp_setVma live ⟨rest.change live rfl rfl ?_, live, files, fun i' => ?_⟩
      · rw [Proc.files_unmap maps (mapped_eq_none_of_unused rfl), rest.owned_eq live]
      · dsimp only
        by_cases same : i' = i
        · rw [same, update_self]
          exact Or.inr rfl
        · rw [update_of_ne same]
          obtain mem | gone := closed i'
          · exact Or.inl ((List.mem_cons.mp mem).resolve_left same)
          · exact Or.inr gone
    · next unused =>
      refine ⟨rest, live, files, fun i' => ?_⟩
      obtain mem | gone := closed i'
      · obtain rfl | later := List.mem_cons.mp mem
        · exact Or.inr (Bool.eq_false_of_not_eq_true unused)
        · exact Or.inl later
      · exact Or.inr gone
  · rintro _ l' ⟨rest, live, files, closed⟩
    exact ⟨rest, live, files, fun i => (closed i).resolve_left (by simp)⟩

theorem wp_kexit : contract.wp kexit (fun _ => Local.AtRest) l := by
  refine wp_bind (wp_act ⟨live, trivial⟩ ?_)
  rintro first _ rfl
  split
  · exact wp_stop live
  refine wp_then (wp_closeFiles live rest) ?_
  rintro _ l₁ ⟨rest, live, files⟩
  refine wp_then (wp_closeVmas live rest files) ?_
  rintro _ l₂ ⟨rest, live, files, maps⟩
  refine wp_bind (wp_beginOp live rest.tx ?_)
  refine wp_bind (wp_act ⟨live, trivial⟩ ?_)
  rintro pointer _ ⟨rfl, rfl⟩
  refine wp_bind (wp_deref live fun ip here => ?_)
  refine wp_bind (wp_iput live rfl (rest.cwd live ip here) ?_)
  refine wp_bind (wp_act ⟨live, rfl⟩ ?_)
  rintro reply _ rfl
  refine wp_bind (wp_act ⟨live, trivial⟩ ?_)
  rintro reply _ rfl
  have clean : Proc.Clean { l₂.proc with cwd := none } := ⟨files, maps, rfl⟩
  have owned : ∀ f, l₂.owned f = 0 := by
    intro f
    rw [rest.owned_eq live]
    exact clean.files f
  have held : ∀ t, less l₂.held (.inode ip) t = 0 := by
    intro t
    have here' : l₂.proc.cwd = some ip := here
    have held := rest.held t
    rw [if_pos live, Proc.tokens, here'] at held
    simp only [less, held, Option.map_some, Option.some.injEq, eq_comm (a := t)]
    omega
  refine wp_bind (wp_act ⟨live, clean, rest.child, rest.fresh, rest.locks, rfl, owned, held⟩ ?_)
  rintro reply _ rfl
  exact wp_pure ⟨rest.child, rest.fresh, rest.locks, rfl, owned, held⟩

theorem wp_kwait : contract.wp kwait (fun _ => Local.AtRest) l := by
  refine wp_bind (wp_act ⟨live, rest.child⟩ ?_)
  rintro child _ rfl
  exact rest

end

end

theorem wp_code (call : Call) (live : l.proc.status = .live) (rest : l.AtRest) :
    contract.wp call.code (fun _ => Local.AtRest) l := by
  cases call with
  | «open» => exact wp_sysOpen live rest
  | pipe => exact wp_sysPipe live rest
  | dup => exact wp_sysDup live rest
  | close => exact wp_sysClose live rest
  | read => exact wp_onFile live rest fun _ => wp_fileread live rest
  | write => exact wp_onFile live rest fun _ => wp_filewrite live rest
  | fstat => exact wp_onFile live rest fun _ => wp_filestat live rest
  | mmap => exact wp_sysMmap live rest
  | munmap => exact wp_sysMunmap live rest
  | mmapfault => exact wp_mmapfault live rest
  | link => exact wp_sysLink live rest
  | unlink => exact wp_sysUnlink live rest
  | mkdir | mknod => exact wp_sysCreate live rest
  | chdir => exact wp_sysChdir live rest
  | exec => exact wp_sysExec live rest
  | fork => exact wp_kfork live rest
  | exit => exact wp_kexit live rest
  | wait => exact wp_kwait live rest

end Xv6.Files

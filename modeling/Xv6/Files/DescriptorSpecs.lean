import Xv6.Files.CallSpecs

/-!
# Descriptors and mappings

The calls that allocate, duplicate and close files.
-/

namespace Xv6.Files

open Program hiding act
open Contract Memory
open Directory (Path)
open Function

variable {P : Type} {Q : Unit → Local P → Prop} {omode : BitVec 32}
variable {f : FileId} {v : Vma} {length : BitVec 32}

namespace Proc

variable {p : Proc} {fd : Fin NOFILE} {i : Fin NVMA}

theorem files_setOfile (p : Proc) (fd : Fin NOFILE) (file : Option FileId) (x : FileId) :
    ({ p with ofile := update p.ofile fd file } : Proc).files x +
        (if p.ofile fd = some x then 1 else 0) =
      p.files x + if file = some x then 1 else 0 := by
  have counted := RefCount.count_update p.ofile fd file x
  simp only [files]
  omega

theorem files_setVma (p : Proc) (i : Fin NVMA) (v : Vma) (x : FileId) :
    ({ p with vmas := update p.vmas i v } : Proc).files x +
        (if mapped (p.vmas i) = some x then 1 else 0) =
      p.files x + if mapped v = some x then 1 else 0 := by
  have counted := RefCount.count_update (fun j => mapped (p.vmas j)) i (mapped v) x
  have same : (fun j => mapped (update p.vmas i v j)) =
      update (fun j => mapped (p.vmas j)) i (mapped v) := by
    funext j
    by_cases here : j = i
    · rw [here, update_self, update_self]
    · rw [update_of_ne here, update_of_ne here]
  simp only [files, same]
  omega

theorem files_open (vacant : p.ofile fd = none) :
    ({ p with ofile := update p.ofile fd (some f) } : Proc).files = more p.files f := by
  funext x
  have counted := p.files_setOfile fd (some f) x
  simp only [vacant, more, Option.some.injEq, eq_comm (a := x)] at counted ⊢
  simpa using counted

theorem files_close (here : p.ofile fd = some f) :
    ({ p with ofile := update p.ofile fd none } : Proc).files = less p.files f := by
  funext x
  have counted := p.files_setOfile fd none x
  simp only [here, less, Option.some.injEq, eq_comm (a := x)] at counted ⊢
  simp only [reduceCtorEq, if_false] at counted
  omega

theorem files_map (vacant : mapped (p.vmas i) = none) (maps : mapped v = some f) :
    ({ p with vmas := update p.vmas i v } : Proc).files = more p.files f := by
  funext x
  have counted := p.files_setVma i v x
  simp only [vacant, maps, more, Option.some.injEq, eq_comm (a := x)] at counted ⊢
  simpa using counted

theorem files_unmap (maps : mapped (p.vmas i) = some f) (gone : mapped v = none) :
    ({ p with vmas := update p.vmas i v } : Proc).files = less p.files f := by
  funext x
  have counted := p.files_setVma i v x
  simp only [gone, maps, less, Option.some.injEq, eq_comm (a := x)] at counted ⊢
  simp only [reduceCtorEq, if_false] at counted
  omega

theorem files_remap (same : mapped v = mapped (p.vmas i)) :
    ({ p with vmas := update p.vmas i v } : Proc).files = p.files := by
  funext x
  have counted := p.files_setVma i v x
  rw [same] at counted
  exact Nat.add_right_cancel counted

theorem files_pos_of_ofile (here : p.ofile fd = some f) : 1 ≤ p.files f := by
  have counted := p.files_setOfile fd none f
  simp only [here, reduceCtorEq, if_false, if_true] at counted
  omega

theorem files_pos_of_mapped (maps : mapped (p.vmas i) = some f) : 1 ≤ p.files f := by
  have counted := p.files_setVma i {} f
  simp only [maps, show mapped {} = none from rfl, reduceCtorEq, if_false, if_true] at counted
  omega

end Proc

section

variable {l : Local P} (rest : l.AtRest)
include rest

theorem Local.AtRest.owned_eq (live : l.proc.status = .live) :
    l.owned = l.proc.files := by
  funext f
  rw [rest.owned, if_pos live]

theorem Local.AtRest.owns (live : l.proc.status = .live)
    (files : 1 ≤ l.proc.files f) : 1 ≤ l.owned f := by
  rwa [rest.owned_eq live]

theorem Local.AtRest.change (live : l.proc.status = .live)
    {proc : Proc} {owned : FileId → Nat} (status : proc.status = l.proc.status)
    (cwd : proc.cwd = l.proc.cwd) (files : owned = proc.files) :
    Local.AtRest { l with proc := proc, owned := owned } where
  child := rest.child
  fresh := rest.fresh
  locks := rest.locks
  tx := rest.tx
  owned := by
    intro f
    rw [if_pos (status.trans live), files]
  held := by
    intro t
    have held := rest.held t
    rw [if_pos (status.trans live)]
    rw [if_pos live] at held
    rw [held, Proc.tokens, Proc.tokens, cwd]

theorem Local.AtRest.opened (live : l.proc.status = .live)
    {fd : Fin NOFILE} {ip : Ip} (vacant : l.proc.ofile fd = none) :
    Local.AtRest { l with
      proc := { l.proc with ofile := update l.proc.ofile fd (some f) }
      owned := more l.owned f
      fresh := (insert f l.fresh).erase f
      held := less (more l.held (.inode ip)) (.inode ip)
      locks := (insert ip l.locks).erase ip
      tx := false } := by
  have fresh : (insert f l.fresh).erase f = l.fresh := by simp [rest.fresh]
  have locks : (insert ip l.locks).erase ip = l.locks := by simp [rest.locks]
  rw [fresh, locks, less_more, ← rest.tx]
  refine rest.change live rfl rfl ?_
  rw [Proc.files_open vacant, rest.owned_eq live]

end

section Specs

variable {l : Local P} {fd : Fin NOFILE} {fds : List (Fin NOFILE)}
  {file : Option FileId} {i : Fin NVMA} {R : Option (Fin NOFILE) → Local P → Prop}
  {S : File → Local P → Prop} {T : Option FileId → Local P → Prop}
  {U : (Fin NVMA → Vma) → Local P → Prop} (live : l.proc.status = .live)
include live

theorem wp_ofile (holds : T (l.proc.ofile fd) l) : contract.wp (act (.ofile fd)) T l := by
  refine wp_act ⟨live, trivial⟩ ?_
  rintro reply _ ⟨rfl, rfl⟩
  exact holds

theorem wp_setOfile (holds : Q () { l with
      proc := { l.proc with ofile := update l.proc.ofile fd file } }) :
    contract.wp (act (.setOfile fd file)) Q l := by
  refine wp_act ⟨live, trivial⟩ ?_
  rintro reply _ rfl
  exact holds

theorem wp_vmas (holds : U l.proc.vmas l) : contract.wp (act .vmas) U l := by
  refine wp_act ⟨live, trivial⟩ ?_
  rintro reply _ ⟨rfl, rfl⟩
  exact holds

theorem wp_setVma (holds : Q () { l with proc := { l.proc with vmas := update l.proc.vmas i v } }) :
    contract.wp (act (.setVma i v)) Q l := by
  refine wp_act ⟨live, trivial⟩ ?_
  rintro reply _ rfl
  exact holds

theorem wp_file (holds : ∀ ff, S ff l) : contract.wp (act (.file f)) S l := by
  refine wp_act ⟨live, trivial⟩ ?_
  rintro ff _ rfl
  exact holds ff

theorem wp_filedup (owns : 1 ≤ l.owned f) (open' : f ∉ l.fresh)
    (holds : Q () { l with owned := more l.owned f }) : contract.wp (act (.filedup f)) Q l := by
  refine wp_act ⟨live, owns, open'⟩ ?_
  rintro reply _ rfl
  exact holds

theorem wp_fdallocLoop (full : R none l)
    (found : ∀ fd, l.proc.ofile fd = none → R (some fd) { l with
      proc := { l.proc with ofile := update l.proc.ofile fd (some f) } }) :
    contract.wp (fdallocLoop f fds) R l := by
  induction fds with
  | nil => exact full
  | cons fd rest ih =>
    refine wp_bind (wp_ofile live ?_)
    cases here : l.proc.ofile fd with
    | none => exact wp_bind (wp_setOfile live (found fd here))
    | some _ => exact ih

theorem wp_argfd {fd : Int} {Q : Option (Fin NOFILE × FileId) → Local P → Prop} (bad : Q none l)
    (found : ∀ fd f, l.proc.ofile fd = some f → Q (some (fd, f)) l) :
    contract.wp (argfd fd) Q l := by
  rw [argfd]
  split
  · refine wp_bind (wp_ofile live ?_)
    refine wp_pure ?_
    generalize (⟨fd.toNat, _⟩ : Fin NOFILE) = slot
    cases here : l.proc.ofile slot with
    | none => exact bad
    | some f => exact found slot f here
  · exact bad

theorem wp_release {ff : File} (out : l.tx = false) (holds : Q () l) :
    contract.wp (match ff.type with
      | .pipe => do
          let pi ← deref .null ff.pipe
          act (.pipeclose pi ff.writable)
      | .inode | .device => do
          act .beginOp
          iput (← deref .null ff.ip)
          act .endOp
      | .none => return) Q { l with held := Local.gain l.held ff.token } := by
  have inode : ff.type = .inode ∨ ff.type = .device →
      contract.wp (do act .beginOp; iput (← deref .null ff.ip); act .endOp) Q
        { l with held := Local.gain l.held ff.token } := by
    intro type
    refine wp_bind (wp_beginOp live out ?_)
    refine wp_bind (wp_deref live fun ip here => ?_)
    have token : ff.token = some (.inode ip) := by
      obtain type | type := type <;> simp [File.token, type, here]
    rw [token]
    change contract.wp _ _ (l.inTx.take (.inode ip))
    refine wp_bind (wp_iput live rfl (more_pos l.held _) ?_)
    rw [Local.drop_take]
    exact wp_endOp live out holds
  cases type : ff.type with
  | none => simpa [File.token, type, Local.gain] using wp_pure holds
  | pipe =>
    refine wp_bind (wp_deref live fun pi here => ?_)
    have token : ff.token = some (.pipeEnd pi ff.writable) := by simp [File.token, type, here]
    rw [token]
    refine wp_act ⟨live, more_pos l.held _⟩ ?_
    rintro reply _ rfl
    change Q () ((l.take (.pipeEnd pi ff.writable)).drop (.pipeEnd pi ff.writable))
    rwa [Local.drop_take]
  | inode => exact inode (Or.inl type)
  | device => exact inode (Or.inr type)

theorem wp_fileclose (out : l.tx = false) (owns : 1 ≤ l.owned f) (open' : f ∉ l.fresh)
    (holds : Q () { l with owned := less l.owned f }) : contract.wp (fileclose f) Q l := by
  refine wp_bind (wp_act ⟨live, owns⟩ ?_)
  intro reply l' step
  cases reply with
  | none =>
    obtain ⟨_, rfl⟩ := step
    exact holds
  | some ff =>
    obtain ⟨_, rfl⟩ := step
    rw [Finset.erase_eq_of_notMem open']
    exact wp_release (l := { l with owned := less l.owned f }) live out holds

theorem wp_fileclose_fresh (owns : 1 ≤ l.owned f) (fresh : f ∈ l.fresh)
    (holds : Q () { l with owned := less l.owned f, fresh := l.fresh.erase f }) :
    contract.wp (fileclose f) Q l := by
  refine wp_bind (wp_act ⟨live, owns⟩ ?_)
  intro reply l' step
  cases reply with
  | none => exact absurd fresh step.1
  | some ff =>
    obtain ⟨known, rfl⟩ := step
    have type := known fresh
    simpa [File.token, type, Local.gain] using wp_pure holds

end Specs

theorem mapped_eq_none_of_unused (unused : v.used = false) : mapped v = none := by
  rw [mapped, unused]
  rfl

theorem mapped_val (used : v.used = true) (named : v.f = some f.val) : mapped v = some f := by
  rw [mapped, used, vmaFile, named]
  simp

theorem mapped_trimmed (v : Vma) (addr : BitVec 64) (length : BitVec 32) :
    mapped { Space.trim v addr length with used := v.used } = mapped v := by
  have same : (Space.trim v addr length).f = v.f := by
    simp only [Space.trim]
    repeat' split
    all_goals rfl
  simp only [mapped, vmaFile, same]

section Calls

variable {l : Local P} {path : Path} {ip : Option Ip} {question : Question} {fd : Int}
  {type : Blocks.FileType} {R : Option Ip → Local P → Prop} {S : Bool → Local P → Prop}
  {T : Option FileId → Local P → Prop} (live : l.proc.status = .live)
include live

theorem wp_withInode (holds : ∀ r, S r l) : contract.wp (withInode ip question) S l := by
  refine wp_bind (wp_deref live fun ip _ => ?_)
  refine wp_bind (wp_ilock live fun inode unlocked => ?_)
  refine wp_bind (wp_ask live fun answer => ?_)
  refine wp_bind (wp_iunlock live (Finset.mem_insert_self ip _) ?_)
  rw [Local.unlock_lock unlocked]
  exact holds answer

theorem wp_wrongDevice (holds : ∀ r, S r l) : contract.wp (wrongDevice type) S l := by
  rw [wrongDevice]
  split
  · exact wp_bind (wp_ask live fun answer => holds _)
  · exact holds false

theorem wp_openLookup (tx : l.tx = true)
    (cwd : ∀ ip, l.proc.cwd = some ip → 1 ≤ l.held (.inode ip)) (failed : R none l)
    (found : ∀ ip, ip ∉ l.locks → R (some ip) ((l.take (.inode ip)).lock ip)) :
    contract.wp (openLookup path omode) R l := by
  rw [openLookup]
  split
  · exact wp_create live tx cwd failed found
  refine wp_bind (wp_namei live tx cwd fun r => ?_)
  cases r with
  | none => exact failed
  | some ip =>
    refine wp_bind (wp_ilock live fun inode unlocked => ?_)
    split
    · exact wp_bind (wp_iunlockput_lock live tx unlocked failed)
    · exact found ip unlocked

theorem wp_filealloc (full : T none l) (found : ∀ f, f ∉ l.fresh →
      T (some f) { l with owned := more l.owned f, fresh := insert f l.fresh }) :
    contract.wp (act .filealloc) T l := by
  refine wp_act ⟨live, trivial⟩ ?_
  intro reply l' step
  cases reply with
  | none =>
    cases step
    exact full
  | some f =>
    obtain ⟨new, rfl⟩ := step
    exact found f new

theorem wp_pipealloc {Q : Option (FileId × FileId) → Local P → Prop}
    (fresh : l.fresh = ∅) (failed : Q none l)
    (made : ∀ f0 f1, Q (some (f0, f1)) { l with owned := more (more l.owned f0) f1 }) :
    contract.wp pipealloc Q l := by
  refine wp_bind (wp_filealloc live failed fun f0 _ => ?_)
  have first : (insert f0 l.fresh).erase f0 = l.fresh := by simp [fresh]
  refine wp_bind (wp_filealloc live ?_ fun f1 new => ?_)
  · refine wp_bind (wp_fileclose_fresh live (more_pos _ _) (Finset.mem_insert_self f0 _) ?_)
    rw [less_more, first]
    exact failed
  have apart : f1 ≠ f0 := by
    rintro rfl
    exact new (Finset.mem_insert_self f1 _)
  have here : f0 ∈ insert f1 (insert f0 l.fresh) := by simp
  have second : (insert f1 (insert f0 l.fresh)).erase f0 = insert f1 l.fresh := by
    rw [Finset.erase_insert_of_ne apart, first]
  have last : (insert f1 l.fresh).erase f1 = l.fresh := by simp [fresh]
  refine wp_bind (wp_act ⟨live, trivial⟩ ?_)
  intro reply l' step
  cases reply with
  | none =>
    cases step
    refine wp_bind (wp_fileclose_fresh live ((more_pos l.owned f0).trans (le_more _ _ _)) here ?_)
    rw [less_more_more, second]
    refine wp_bind (wp_fileclose_fresh live (more_pos _ _) (Finset.mem_insert_self f1 _) ?_)
    rw [less_more, last]
    exact failed
  | some pi =>
    cases step
    refine wp_bind (wp_act ⟨live, here, (more_pos l.held _).trans (le_more _ _ _)⟩ ?_)
    rintro reply _ rfl
    rw [second, less_more_more]
    refine wp_bind (wp_act ⟨live, Finset.mem_insert_self f1 _, more_pos _ _⟩ ?_)
    rintro reply _ rfl
    rw [last, less_more]
    exact made f0 f1

theorem wp_writeBack (out : l.tx = false) (holds : Q () l) : contract.wp (writeBack v) Q l := by
  refine wp_bind (wp_beginOp live out ?_)
  refine wp_bind (wp_deref live fun f _ => ?_)
  refine wp_bind (wp_file live fun ff => ?_)
  refine wp_bind (wp_deref live fun ip _ => ?_)
  refine wp_bind (wp_ilock live fun inode unlocked => ?_)
  refine wp_bind (wp_act ⟨live, trivial⟩ ?_)
  rintro reply _ rfl
  refine wp_bind (wp_iunlock live (Finset.mem_insert_self ip _) ?_)
  rw [Local.unlock_lock unlocked]
  exact wp_endOp live out holds

theorem wp_unmapPages {start stop : BitVec 64} (out : l.tx = false) (holds : Q () l) :
    contract.wp (unmapPages v start stop) Q l := by
  rw [unmapPages]
  split
  · exact wp_never live
  next visited _ =>
  refine wp_mono (wp_forM (J := fun _ l' => l' = l) ?_ rfl) ?_
  · rintro va rest _ rfl
    refine wp_bind (wp_ask live fun present => ?_)
    split
    · exact wp_writeBack live out rfl
    · exact rfl
  · rintro _ _ rfl
    exact holds

variable (rest : l.AtRest)
include rest

theorem wp_sysDup : contract.wp (sysDup fd) (fun _ => Local.AtRest) l := by
  refine wp_bind (wp_argfd live rest fun fd f here => ?_)
  have owns := rest.owns live (Proc.files_pos_of_ofile here)
  refine wp_bind (wp_fdallocLoop live rest fun new vacant => ?_)
  refine wp_bind (wp_filedup live owns (by simp [rest.fresh]) ?_)
  refine wp_pure (rest.change live rfl rfl ?_)
  rw [Proc.files_open vacant, rest.owned_eq live]

theorem wp_sysClose : contract.wp (sysClose fd) (fun _ => Local.AtRest) l := by
  refine wp_bind (wp_argfd live rest fun fd f here => ?_)
  have owns := rest.owns live (Proc.files_pos_of_ofile here)
  refine wp_bind (wp_setOfile live ?_)
  refine wp_bind (wp_fileclose live rest.tx owns (by simp [rest.fresh]) ?_)
  refine wp_pure (rest.change live rfl rfl ?_)
  rw [Proc.files_close here, rest.owned_eq live]

theorem wp_filewriteLoop {rounds : Nat} :
    contract.wp (filewriteLoop ip rounds) (fun _ => Local.AtRest) l := by
  induction rounds with
  | zero => exact rest
  | succ rounds ih =>
    refine wp_bind (wp_beginOp live rest.tx ?_)
    refine wp_bind (wp_withInode live fun wrote => ?_)
    refine wp_bind (wp_endOp live rest.tx ?_)
    split
    · exact ih
    · exact rest

theorem wp_fileread : contract.wp (fileread f) (fun _ => Local.AtRest) l := by
  refine wp_bind (wp_file live fun ff => ?_)
  split
  · exact rest
  split
  · exact wp_ask live fun _ => rest
  · exact wp_ask live fun _ => rest
  · exact wp_withInode live fun _ => rest
  · exact wp_stop live

theorem wp_filewrite {n : Nat} :
    contract.wp (filewrite f n) (fun _ => Local.AtRest) l := by
  refine wp_bind (wp_file live fun ff => ?_)
  split
  · exact rest
  split
  · exact wp_ask live fun _ => rest
  · exact wp_ask live fun _ => rest
  · exact wp_filewriteLoop live rest
  · exact wp_stop live

theorem wp_filestat : contract.wp (filestat f) (fun _ => Local.AtRest) l := by
  refine wp_bind (wp_file live fun ff => ?_)
  split
  · exact wp_bind (wp_withInode live fun _ => wp_ask live fun _ => rest)
  · exact wp_bind (wp_withInode live fun _ => wp_ask live fun _ => rest)
  · exact rest

theorem wp_onFile {call : FileId → Code P Bool}
    (spec : ∀ f, contract.wp (call f) (fun _ => Local.AtRest) l) :
    contract.wp (onFile fd call) (fun _ => Local.AtRest) l :=
  wp_bind (wp_argfd live rest fun _ f _ => spec f)

theorem wp_openInode {ip : Ip} :
    contract.wp (openInode ip omode) (fun _ => Local.AtRest)
      ((l.inTx.take (.inode ip)).lock ip) := by
  have failed : ∀ {answer : Bool},
      contract.wp (do iunlockput ip; act .endOp; return answer) (fun _ => Local.AtRest)
        ((l.inTx.take (.inode ip)).lock ip) :=
    wp_iunlockput_endOp live rest
  refine wp_bind (wp_inode live fun inode => ?_)
  refine wp_bind (wp_wrongDevice live fun wrong => ?_)
  split
  · exact failed
  refine wp_bind (wp_act ⟨live, trivial⟩ ?_)
  intro reply l' step
  cases reply with
  | none =>
    cases step
    exact failed
  | some f =>
    obtain ⟨_, rfl⟩ := step
    refine wp_bind (wp_fdallocLoop live ?_ fun fd vacant => ?_)
    · refine wp_bind (wp_fileclose_fresh live (more_pos _ _) (Finset.mem_insert_self f _) ?_)
      have fresh : (insert f l.fresh).erase f = l.fresh := by
        simp [rest.fresh]
      change contract.wp _ _ { (l.inTx.take (.inode ip)).lock ip with
        owned := less (more l.owned f) f, fresh := (insert f l.fresh).erase f }
      rw [less_more, fresh]
      exact failed
    · refine wp_bind (wp_act ⟨live, Finset.mem_insert_self f _, more_pos _ _, ?_⟩ ?_)
      · split
        · exact Or.inr rfl
        · exact Or.inl rfl
      rintro reply _ rfl
      refine wp_bind (wp_iunlock live (Finset.mem_insert_self ip _) ?_)
      refine wp_bind (wp_act ⟨live, rfl⟩ ?_)
      rintro reply _ rfl
      exact rest.opened live vacant

theorem wp_sysOpen : contract.wp (sysOpen path omode) (fun _ => Local.AtRest) l := by
  refine wp_bind (wp_ask live fun string => ?_)
  split
  · exact rest
  refine wp_bind (wp_beginOp live rest.tx ?_)
  refine wp_bind (wp_openLookup live rfl (rest.cwd live) ?_ fun ip _ => ?_)
  · exact wp_endOp_return live rest
  · exact wp_openInode live rest

theorem wp_closeBoth {rf wf : FileId} {a : Bool} :
    contract.wp (do fileclose rf; fileclose wf; return a) (fun _ => Local.AtRest)
      { l with owned := more (more l.owned rf) wf } := by
  have fresh : ∀ f, f ∉ l.fresh := by simp [rest.fresh]
  refine wp_bind (wp_fileclose live rest.tx ((more_pos l.owned rf).trans (le_more _ _ _))
    (fresh rf) ?_)
  rw [less_more_more]
  refine wp_bind (wp_fileclose live rest.tx (more_pos _ _) (fresh wf) ?_)
  rw [less_more]
  exact rest

theorem wp_sysPipe : contract.wp sysPipe (fun _ => Local.AtRest) l := by
  refine wp_bind (wp_pipealloc live rest.fresh rest fun rf wf => ?_)
  refine wp_bind (wp_fdallocLoop live (wp_closeBoth live rest) fun fd0 vacant => ?_)
  have first : l.proc.ofile fd0 = none := vacant
  refine wp_bind (wp_fdallocLoop live ?_ fun fd1 vacant' => ?_)
  · refine wp_bind (wp_setOfile live ?_)
    rw [update_idem, ← first, update_eq_self]
    exact wp_closeBoth live rest
  have second : update l.proc.ofile fd0 (some rf) fd1 = none := vacant'
  refine wp_bind (wp_ask live fun copied => wp_bind (wp_ask live fun copied' => ?_))
  split
  · refine wp_pure (rest.change live rfl rfl ?_)
    have files := Proc.files_open (p := { l.proc with
      ofile := update l.proc.ofile fd0 (some rf) }) (f := wf) second
    rw [files, Proc.files_open first, rest.owned_eq live]
  · have apart : fd1 ≠ fd0 := by
      rintro rfl
      rw [update_self] at second
      cases second
    have third : l.proc.ofile fd1 = none := by rwa [update_of_ne apart] at second
    have restored : update (update (update
        (update l.proc.ofile fd0 (some rf)) fd1 (some wf)) fd0 none) fd1 none =
        l.proc.ofile := by
      funext fd
      by_cases last : fd = fd1
      · rw [last, update_self, third]
      · by_cases before : fd = fd0
        · rw [update_of_ne last, before, update_self, first]
        · simp [last, before]
    refine wp_bind (wp_setOfile live (wp_bind (wp_setOfile live ?_)))
    rw [restored]
    exact wp_closeBoth live rest

theorem wp_sysMmap {prot flags : BitVec 32} {fd : Int} {offset : BitVec 32} :
    contract.wp (sysMmap length prot flags fd offset) (fun _ => Local.AtRest) l := by
  refine wp_bind (wp_argfd live rest fun fd f here => ?_)
  have owns := rest.owns live (Proc.files_pos_of_ofile here)
  dsimp only
  split
  · exact rest
  refine wp_bind (wp_vmas live ?_)
  split
  · exact rest
  next i found =>
  have unused : (l.proc.vmas i).used = false := by
    simpa using List.find?_some found
  split
  · exact wp_never live
  refine wp_bind (wp_filedup live owns (by simp [rest.fresh]) ?_)
  refine wp_bind (wp_setVma live ?_)
  refine wp_pure (rest.change live rfl rfl ?_)
  refine Eq.trans ?_ (Proc.files_map (mapped_eq_none_of_unused unused) (mapped_val rfl rfl)).symm
  exact congrArg (more · f) (rest.owned_eq live)

theorem wp_sysMunmap {addr : BitVec 64} :
    contract.wp (sysMunmap addr length) (fun _ => Local.AtRest) l := by
  refine wp_bind (wp_vmas live ?_)
  dsimp only
  split
  · exact rest
  next i found =>
  split
  · exact rest
  refine wp_bind (wp_unmapPages live rest.tx ?_)
  have used : (l.proc.vmas i).used = true := by
    have matched := List.find?_some found
    simp only [Bool.and_eq_true] at matched
    exact matched.1
  have same := mapped_trimmed (l.proc.vmas i) addr length
  refine wp_bind (wp_setVma live ?_)
  rw [closeTrimmed]
  refine wp_bind ?_
  split
  · refine wp_bind (wp_deref live fun f named => ?_)
    have maps : mapped (l.proc.vmas i) = some f := by
      rw [mapped, used]
      exact named
    have owns := rest.owns live (Proc.files_pos_of_mapped maps)
    refine wp_bind (wp_fileclose live rest.tx owns (by simp [rest.fresh]) ?_)
    refine wp_setVma live ?_
    rw [update_idem]
    refine wp_pure (rest.change live rfl rfl ?_)
    rw [Proc.files_unmap maps (mapped_eq_none_of_unused rfl), rest.owned_eq live]
  · refine wp_pure (wp_pure (rest.change live rfl rfl ?_))
    rw [Proc.files_remap same, rest.owned_eq live]

theorem wp_mmapfault {va : BitVec 64} :
    contract.wp (mmapfault va) (fun _ => Local.AtRest) l := by
  refine wp_bind (wp_vmas live ?_)
  split
  · exact rest
  refine wp_bind (wp_ask live fun present => ?_)
  split
  · exact rest
  refine wp_bind (wp_ask live fun page => ?_)
  split
  · exact rest
  refine wp_bind (wp_deref live fun f _ => ?_)
  refine wp_bind (wp_file live fun ff => ?_)
  refine wp_bind (wp_deref live fun ip _ => ?_)
  refine wp_bind (wp_ilock live fun inode unlocked => ?_)
  refine wp_bind (wp_act ⟨live, trivial⟩ ?_)
  rintro reply _ rfl
  refine wp_bind (wp_iunlock live (Finset.mem_insert_self ip _) ?_)
  rw [Local.unlock_lock unlocked]
  exact wp_ask live fun _ => rest

end Calls

end Xv6.Files

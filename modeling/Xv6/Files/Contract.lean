import Xv6.Files.Calls
import Xv6.Library.RefCount

/-!
# What a call owns

Each process owns references to open files, inodes and ends of pipes, and an open file owns the
inode or the end of the pipe that it stands for. Between two calls a process owns a reference
for each descriptor and each mapping, and one for its current directory.
-/

namespace Xv6.Files

open Program hiding act
open Memory

variable {P : Type}

/-- What an open file stands for: a reference to an inode, or one end of a pipe. -/
inductive Token where
  | inode (ip : Ip)
  | pipeEnd (pi : Nat) (writable : Bool)
  deriving DecidableEq

def File.token (f : File) : Option Token :=
  match f.type with
  | .none => none
  | .pipe => f.pipe.map fun pi => .pipeEnd pi f.writable
  | .inode | .device => f.ip.map .inode

/-- The file that a mapping holds a reference to. -/
def mapped (v : Vma) : Option FileId :=
  if v.used then vmaFile v else none

namespace Proc

/-- The number of descriptors and mappings for a file. -/
def files (p : Proc) (f : FileId) : Nat :=
  RefCount.count p.ofile f + RefCount.count (fun i => mapped (p.vmas i)) f

/-- The reference of the current directory. -/
def tokens (p : Proc) (t : Token) : Nat :=
  if p.cwd.map .inode = some t then 1 else 0

structure Clean (p : Proc) : Prop where
  ofile : ∀ fd, p.ofile fd = none
  vmas : ∀ i, (p.vmas i).used = false
  cwd : p.cwd = none

theorem Clean.files {p : Proc} (clean : p.Clean) (f : FileId) : p.files f = 0 := by
  simp [Proc.files, RefCount.count, clean.ofile, mapped, clean.vmas]

theorem Clean.tokens {p : Proc} (clean : p.Clean) (t : Token) : p.tokens t = 0 := by
  simp [Proc.tokens, clean.cwd]

end Proc

section Counts

variable {α : Type} [DecidableEq α]

def more (count : α → Nat) (a : α) : α → Nat := fun x => count x + if x = a then 1 else 0

def less (count : α → Nat) (a : α) : α → Nat := fun x => count x - if x = a then 1 else 0

section

variable (count : α → Nat)

@[simp]
theorem less_more (a : α) : less (more count a) a = count := by
  funext x
  simp [less, more]

theorem more_comm (a b : α) : more (more count a) b = more (more count b) a := by
  funext x
  simp only [more]
  omega

theorem less_more_more (a b : α) :
    less (more (more count a) b) a = more count b := by
  rw [more_comm, less_more]

theorem more_pos (a : α) : 1 ≤ more count a a := by
  simp [more]

theorem le_more (a x : α) : count x ≤ more count a x := by
  simp [more]

end

end Counts

/-- What belongs to the call of a process: its fields, the process that it is forking, the
references that it owns, among them those to files which it has just allocated, the inodes
it has locked, and whether it is inside a transaction. -/
structure Local (P : Type) where
  proc : Proc
  child : Option (P × Proc) := none
  owned : FileId → Nat
  fresh : Finset FileId := ∅
  held : Token → Nat
  locks : Finset Ip := ∅
  tx : Bool := false

namespace Local

structure AtRest (l : Local P) : Prop where
  child : l.child = none
  fresh : l.fresh = ∅
  locks : l.locks = ∅
  tx : l.tx = false
  owned : ∀ f, l.owned f = if l.proc.status = .live then l.proc.files f else 0
  held : ∀ t, l.held t = if l.proc.status = .live then l.proc.tokens t else 0

def need (l : Local P) : Op P → Prop
  | .filedup f => 1 ≤ l.owned f ∧ f ∉ l.fresh
  | .fileclose f => 1 ≤ l.owned f
  | .openFile f type ip _ _ =>
    f ∈ l.fresh ∧ 1 ≤ l.held (.inode ip) ∧ (type = .inode ∨ type = .device)
  | .openPipe f pi writable => f ∈ l.fresh ∧ 1 ≤ l.held (.pipeEnd pi writable)
  | .allocproc | .freeChild => l.child = none
  | .freeproc np => ∃ kid, l.child = some (np, kid) ∧ kid.Clean
  | .npOfile np _ _ | .npVma np _ _ | .npCwd np _ => ∃ kid, l.child = some (np, kid)
  | .markRunnable np =>
    l.fresh = ∅ ∧ ∃ kid, l.child = some (np, kid) ∧
      (∀ f, l.owned f = l.proc.files f + kid.files f) ∧
      ∀ t, l.held t = l.proc.tokens t + kid.tokens t
  | .zombie =>
    l.proc.Clean ∧ l.child = none ∧ l.fresh = ∅ ∧ l.locks = ∅ ∧ l.tx = false ∧
      (∀ f, l.owned f = 0) ∧ ∀ t, l.held t = 0
  | .pipeclose pi writable => 1 ≤ l.held (.pipeEnd pi writable)
  | .idup ip | .irelease ip => 1 ≤ l.held (.inode ip)
  | .iput ip => 1 ≤ l.held (.inode ip) ∧ l.tx = true
  | .iunlock ip | .ifree ip => ip ∈ l.locks
  | .beginOp => l.tx = false
  | .endOp => l.tx = true
  | _ => True

/-- The token of a file that has been closed for good goes to the call. -/
def gain (held : Token → Nat) : Option Token → Token → Nat
  | none => held
  | some t => more held t

def effect (l : Local P) : (op : Op P) → op.Reply → Local P → Prop
  | .filealloc, none, l' => l' = l
  | .filealloc, some f, l' =>
    f ∉ l.fresh ∧ l' = { l with owned := more l.owned f, fresh := insert f l.fresh }
  | .filedup f, _, l' => l' = { l with owned := more l.owned f }
  | .fileclose f, none, l' => f ∉ l.fresh ∧ l' = { l with owned := less l.owned f }
  | .fileclose f, some ff, l' =>
    (f ∈ l.fresh → ff.type = .none) ∧
      l' = { l with
        owned := less l.owned f, fresh := l.fresh.erase f, held := gain l.held ff.token }
  | .openFile f _ ip _ _, _, l' =>
    l' = { l with fresh := l.fresh.erase f, held := less l.held (.inode ip) }
  | .openPipe f pi writable, _, l' =>
    l' = { l with fresh := l.fresh.erase f, held := less l.held (.pipeEnd pi writable) }
  | .ofile fd, reply, l' => reply = l.proc.ofile fd ∧ l' = l
  | .setOfile fd f, _, l' =>
    l' = { l with proc := { l.proc with ofile := Function.update l.proc.ofile fd f } }
  | .vmas, reply, l' => reply = l.proc.vmas ∧ l' = l
  | .setVma i v, _, l' =>
    l' = { l with proc := { l.proc with vmas := Function.update l.proc.vmas i v } }
  | .cwd, reply, l' => reply = l.proc.cwd ∧ l' = l
  | .setCwd ip, _, l' => l' = { l with proc := { l.proc with cwd := ip } }
  | .allocproc, none, l' => l' = l
  | .allocproc, some np, l' => ∃ kid : Proc, kid.Clean ∧ l' = { l with child := some (np, kid) }
  | .freeproc _, _, l' => l' = { l with child := none }
  | .npOfile np fd f, _, l' =>
    ∃ kid, l.child = some (np, kid) ∧ l' = { l with
      child := some (np, { kid with ofile := Function.update kid.ofile fd (some f) }) }
  | .npVma np i v, _, l' =>
    ∃ kid, l.child = some (np, kid) ∧ l' = { l with
      child := some (np, { kid with vmas := Function.update kid.vmas i v }) }
  | .npCwd np ip, _, l' =>
    ∃ kid, l.child = some (np, kid) ∧ l' = { l with
      child := some (np, { kid with cwd := some ip }) }
  | .markRunnable _, _, l' =>
    l' = { l with child := none, owned := l.proc.files, held := l.proc.tokens }
  | .zombie, _, l' => l' = { l with proc := { l.proc with status := .zombie } }
  | .kallocPipe, none, l' => l' = l
  | .kallocPipe, some pi, l' =>
    l' = { l with held := more (more l.held (.pipeEnd pi false)) (.pipeEnd pi true) }
  | .pipeclose pi writable, _, l' => l' = { l with held := less l.held (.pipeEnd pi writable) }
  | .iget _ _, ip, l' => l' = { l with held := more l.held (.inode ip) }
  | .idup ip, _, l' => l' = { l with held := more l.held (.inode ip) }
  | .ilock ip, _, l' => ip ∉ l.locks ∧ l' = { l with locks := insert ip l.locks }
  | .iunlock ip, _, l' => l' = { l with locks := l.locks.erase ip }
  | .iput ip, true, l' => ip ∉ l.locks ∧ l' = { l with locks := insert ip l.locks }
  | .iput ip, false, l' => l' = { l with held := less l.held (.inode ip) }
  | .ifree ip, _, l' => l' = { l with locks := l.locks.erase ip }
  | .irelease ip, _, l' => l' = { l with held := less l.held (.inode ip) }
  | .beginOp, _, l' => l' = { l with tx := true }
  | .endOp, _, l' => l' = { l with tx := false }
  | _, _, l' => l' = l

end Local

/-- Only a live process does anything. -/
def contract : Contract (Op P) Op.Reply (Local P) where
  pre := fun l op => l.proc.status = .live ∧ l.need op
  post := Local.effect

end Xv6.Files

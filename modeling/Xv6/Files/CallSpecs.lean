import Xv6.Files.Lookups

/-!
# System calls give back what they take

From a process at rest, every path through a system call leads back to a process at rest.
-/

namespace Xv6.Files

open Program hiding act
open Contract
open Directory (Name Path)
open Blocks (FileType)

variable {P : Type} {Q : Bool → Local P → Prop} {path : Path} {phnum : Nat}

namespace Local

def inTx (l : Local P) : Local P := { l with tx := true }

theorem AtRest.cwd {l : Local P} (rest : l.AtRest) (live : l.proc.status = .live) (ip : Ip)
    (here : l.proc.cwd = some ip) : 1 ≤ l.held (.inode ip) := by
  rw [rest.held, if_pos live, Proc.tokens, here, Option.map_some, if_pos rfl]

theorem AtRest.unlocked {l : Local P} (rest : l.AtRest) (ip : Ip) : ip ∉ l.locks := by
  simp [rest.locks]

theorem AtRest.changeDirectory {l : Local P} (rest : l.AtRest) (live : l.proc.status = .live)
    {old ip : Ip} (here : l.proc.cwd = some old) :
    AtRest { l with
      proc := { l.proc with cwd := some ip }
      held := less (more l.held (.inode ip)) (.inode old)
      tx := false } := by
  refine ⟨rest.child, rest.fresh, rest.locks, rfl, rest.owned, fun t => ?_⟩
  have held := rest.held t
  rw [if_pos live, Proc.tokens, here] at held
  rw [if_pos live, Proc.tokens]
  simp only [less, more, held, Option.map_some, Option.some.injEq, eq_comm (a := t)]
  omega

end Local

section Transactions

variable {l : Local P}
  {U : Unit → Local P → Prop} {α : Type} {a : α}
  (live : l.proc.status = .live)
include live

theorem wp_beginOp (out : l.tx = false) (holds : U () l.inTx) : contract.wp (act .beginOp) U l := by
  refine wp_act ⟨live, out⟩ ?_
  rintro reply _ rfl
  exact holds

theorem wp_endOp (out : l.tx = false) (holds : U () l) : contract.wp (act .endOp) U l.inTx := by
  refine wp_act ⟨live, rfl⟩ ?_
  rintro reply _ rfl
  have same : { l.inTx with tx := false } = l := by
    rw [← out]
    rfl
  rwa [same]

theorem wp_endOp_return (rest : l.AtRest) :
    contract.wp (do act .endOp; return a) (fun _ => Local.AtRest) l.inTx :=
  wp_bind (wp_endOp live rest.tx rest)

theorem wp_iunlockput_endOp (rest : l.AtRest) :
    contract.wp (do iunlockput ip; act .endOp; return a) (fun _ => Local.AtRest)
      ((l.inTx.take (.inode ip)).lock ip) :=
  wp_bind (wp_iunlockput_lock live rfl (rest.unlocked ip) (wp_endOp_return live rest))

end Transactions

section Paths

variable {l : Local P} {ip dp : Ip} {new old : Path} {type : FileType} {name : Name}
  {headers arguments argc : Nat} (live : l.proc.status = .live)
include live

theorem wp_linkEntry (tx : l.tx = true)
    (cwd : ∀ ip, l.proc.cwd = some ip → 1 ≤ l.held (.inode ip)) (holds : ∀ r, Q r l) :
    contract.wp (linkEntry new ip) Q l := by
  refine wp_bind (wp_namex live tx cwd fun r => ?_)
  match r with
  | none => exact holds false
  | some (dp, name) =>
    refine wp_bind (wp_ilock live fun d unlocked => ?_)
    refine wp_bind (wp_bind (wp_inode live fun inode => ?_))
    split
    · exact wp_bind (wp_iunlockput_lock live tx unlocked (holds false))
    · refine wp_dirlink live tx fun entered => ?_
      exact wp_bind (wp_iunlockput_lock live tx unlocked (holds entered))

theorem wp_hasEntries (holds : ∀ r, Q r l) : contract.wp (hasEntries type) Q l := by
  rw [hasEntries]
  split
  · exact wp_bind (wp_ask live fun answer => holds _)
  · exact holds false

theorem wp_unlinkEntry (tx : l.tx = true) (unlocked : dp ∉ l.locks)
    (failed : Q false ((l.take (.inode dp)).lock dp)) (removed : Q true l) :
    contract.wp (unlinkEntry dp name) Q ((l.take (.inode dp)).lock dp) := by
  rw [unlinkEntry]
  split
  · exact failed
  refine wp_bind (wp_dirlookup live fun found => ?_)
  cases found with
  | none => exact failed
  | some ip =>
    refine wp_bind (wp_ilock live fun inode outside => ?_)
    obtain ⟨apart, free⟩ : ip ≠ dp ∧ ip ∉ l.locks := by
      simpa [Local.found, not_or] using outside
    split
    · exact wp_stop live
    refine wp_bind (wp_hasEntries live fun busy => ?_)
    split
    · exact wp_bind (wp_iunlockput_second live tx outside failed)
    refine wp_bind (wp_bind (wp_ask live fun wrote => ?_))
    split
    · exact wp_stop live
    refine wp_bind (wp_countLink live ?_)
    refine wp_bind (wp_iunlockput_first live tx unlocked apart ?_)
    refine wp_bind (wp_inode live fun inode => wp_bind (wp_setNlink live ?_))
    exact wp_iunlockput_lock live tx free removed

theorem wp_loadSegments (holds : ∀ r, Q r l) :
    contract.wp (loadProgram.loadSegments headers) Q l := by
  induction headers with
  | zero => exact holds true
  | succ headers ih =>
    refine wp_bind (wp_ask live fun loaded => ?_)
    split
    · exact ih
    · exact holds false

theorem wp_loadProgram (holds : ∀ r, Q r l) : contract.wp (loadProgram phnum) Q l := by
  refine wp_bind (wp_ask live fun first => ?_)
  split
  · exact holds false
  refine wp_bind (wp_ask live fun second => ?_)
  split
  · exact holds false
  refine wp_bind (wp_ask live fun third => ?_)
  split
  · exact holds false
  · exact wp_loadSegments live holds

theorem wp_fetchArguments (holds : ∀ r, Q r l) :
    contract.wp (sysExec.fetchArguments arguments) Q l := by
  induction arguments with
  | zero => exact holds true
  | succ arguments ih =>
    refine wp_bind (wp_ask live fun copied => ?_)
    split
    · exact ih
    · exact holds false

variable (rest : l.AtRest)
include rest

theorem wp_sysLink : contract.wp (sysLink old new) (fun _ => Local.AtRest) l := by
  have cwd := rest.cwd live
  refine wp_bind (wp_ask live fun first => ?_)
  split
  · exact rest
  refine wp_bind (wp_ask live fun second => ?_)
  split
  · exact rest
  refine wp_bind (wp_beginOp live rest.tx ?_)
  refine wp_bind (wp_namei live rfl cwd fun r => ?_)
  cases r with
  | none => exact wp_endOp_return live rest
  | some ip =>
    refine wp_bind (wp_ilock live fun inode _ => ?_)
    split
    · exact wp_iunlockput_endOp live rest
    refine wp_bind (wp_setNlink live ?_)
    refine wp_bind (wp_iunlock live (Finset.mem_insert_self ip _) ?_)
    have free : ip ∉ (l.inTx.take (.inode ip)).locks := rest.unlocked ip
    change contract.wp _ _ (((l.inTx.take (.inode ip)).lock ip).unlock ip)
    rw [Local.unlock_lock free]
    refine wp_bind (wp_linkEntry live rfl (fun ip' here => ?_) fun entered => ?_)
    · exact (cwd ip' here).trans (le_more _ _ _)
    split
    · refine wp_bind (wp_iput live rfl (more_pos l.held _) ?_)
      rw [Local.drop_take]
      exact wp_endOp_return live rest
    · refine wp_bind (wp_ilock live fun inode _ => ?_)
      refine wp_bind (wp_setNlink live ?_)
      exact wp_iunlockput_endOp live rest

theorem wp_sysUnlink : contract.wp (sysUnlink path) (fun _ => Local.AtRest) l := by
  refine wp_bind (wp_ask live fun string => ?_)
  split
  · exact rest
  refine wp_bind (wp_beginOp live rest.tx ?_)
  refine wp_bind (wp_namex live rfl (rest.cwd live) fun r => ?_)
  match r with
  | none => exact wp_endOp_return live rest
  | some (dp, name) =>
    refine wp_bind (wp_ilock live fun d _ => ?_)
    refine wp_bind (wp_unlinkEntry (l := l.inTx) live rfl (rest.unlocked dp) ?_ ?_)
    · exact wp_iunlockput_endOp live rest
    · exact wp_endOp_return live rest

theorem wp_sysCreate : contract.wp (sysCreate path type) (fun _ => Local.AtRest) l := by
  refine wp_bind (wp_beginOp live rest.tx ?_)
  refine wp_bind (wp_ask live fun string => ?_)
  split
  · exact wp_endOp_return live rest
  refine wp_bind (wp_create live rfl (rest.cwd live) ?_ fun ip _ => ?_)
  · exact wp_endOp_return live rest
  · exact wp_iunlockput_endOp live rest

theorem wp_kexec : contract.wp (kexec path phnum) (fun _ => Local.AtRest) l := by
  refine wp_bind (wp_beginOp live rest.tx ?_)
  refine wp_bind (wp_namei live rfl (rest.cwd live) fun r => ?_)
  cases r with
  | none => exact wp_endOp_return live rest
  | some ip =>
    refine wp_bind (wp_ilock live fun inode _ => ?_)
    refine wp_bind (wp_loadProgram live fun loaded => ?_)
    refine wp_bind (wp_iunlockput_lock (l := l.inTx) live rfl (rest.unlocked ip) ?_)
    refine wp_bind (wp_endOp live rest.tx ?_)
    split
    · exact wp_ask live fun _ => rest
    · exact rest

theorem wp_sysExec : contract.wp (sysExec path argc phnum) (fun _ => Local.AtRest) l := by
  refine wp_bind (wp_ask live fun string => ?_)
  split
  · exact rest
  refine wp_bind (wp_fetchArguments live fun fetched => ?_)
  split
  · exact rest
  · exact wp_kexec live rest

theorem wp_sysChdir : contract.wp (sysChdir path) (fun _ => Local.AtRest) l := by
  refine wp_bind (wp_beginOp live rest.tx ?_)
  refine wp_bind (wp_ask live fun string => ?_)
  split
  · exact wp_endOp_return live rest
  refine wp_bind (wp_namei live rfl (rest.cwd live) fun r => ?_)
  cases r with
  | none => exact wp_endOp_return live rest
  | some ip =>
    refine wp_bind (wp_ilock live fun inode _ => ?_)
    split
    · exact wp_iunlockput_endOp live rest
    have free : ip ∉ (l.inTx.take (.inode ip)).locks := rest.unlocked ip
    refine wp_bind (wp_iunlock live (Finset.mem_insert_self ip _) ?_)
    change contract.wp _ _ (((l.inTx.take (.inode ip)).lock ip).unlock ip)
    rw [Local.unlock_lock free]
    refine wp_bind (wp_act ⟨live, trivial⟩ ?_)
    rintro pointer _ ⟨rfl, rfl⟩
    refine wp_bind (wp_deref live fun old here => ?_)
    refine wp_bind (wp_iput live rfl ((rest.cwd live old here).trans (le_more _ _ _)) ?_)
    refine wp_bind (wp_act ⟨live, rfl⟩ ?_)
    rintro reply _ rfl
    refine wp_bind (wp_act ⟨live, trivial⟩ ?_)
    rintro reply _ rfl
    exact rest.changeDirectory live here

end Paths

end Xv6.Files

import Xv6.Files.Calls

/-!
# Runs of the calls

A call that runs by itself from its start to its end, with given replies.
-/

namespace Xv6.Files

open Blocks (FileType)
open Function

variable {P : Type} [DecidableEq P]

/-- What happens where the model leaves a choice: what is on the disk, and what is found
there, which process and which page are free, and whether the rest succeeds. -/
structure Choices (P : Type) where
  ask : Question → Bool := fun _ => true
  newproc : Option P := none
  child : Option P := none
  page : Option Nat := none
  found : Option Nat := none
  newInode : Option Nat := none
  type : FileType := .dir
  nlink : BitVec 16 := 1#16

def answer (choices : Choices P) (k : Kernel P) (p : P) : (op : Op P) → Option op.Reply
  | .filealloc => some k.freeFile
  | .filedup _ => some ()
  | .fileclose f =>
    some (if 1 < (k.ftable f).ref then none else some { k.ftable f with ref := 0 })
  | .file f => some (k.ftable f)
  | .openFile _ _ _ _ _ => some ()
  | .openPipe _ _ _ => some ()
  | .ofile fd => some ((k.proc p).ofile fd)
  | .setOfile _ _ => some ()
  | .vmas => some (k.proc p).vmas
  | .setVma _ _ => some ()
  | .cwd => some (k.proc p).cwd
  | .setCwd _ => some ()
  | .isInitproc => some (decide (p = k.initproc))
  | .allocproc => some choices.newproc
  | .freeproc _ => some ()
  | .npOfile _ _ _ => some ()
  | .npVma _ _ _ => some ()
  | .npCwd _ _ => some ()
  | .markRunnable _ => some ()
  | .zombie => some ()
  | .freeChild => some choices.child
  | .kallocPipe => some choices.page
  | .pipeclose _ _ => some ()
  | .iget dev inum => (k.cachedInode dev inum).orElse fun _ => k.freeInode
  | .idup _ => some ()
  | .ilock ip =>
    some (if (k.itable ip).valid then { k.itable ip with lock := some p }
    else { k.itable ip with
      lock := some p, valid := true, type := choices.type, nlink := choices.nlink })
  | .iunlock _ => some ()
  | .iput ip =>
    some (decide ((k.itable ip).ref = 1 ∧ (k.itable ip).valid ∧ (k.itable ip).nlink = 0#16))
  | .ifree _ => some ()
  | .irelease _ => some ()
  | .inode ip => some (k.itable ip)
  | .setNlink _ _ => some ()
  | .dirlookup _ _ => some choices.found
  | .ialloc _ => some choices.newInode
  | .beginOp => some ()
  | .endOp => some ()
  | .readMapped _ _ => some ()
  | .writeMapped _ _ => some ()
  | .ask question => some (choices.ask question)
  | .panic _ => none
  | .spin => none

def advance (choices : Choices P) (m : Machine P) (p : P) : Option (Machine P) :=
  match m.thread p with
  | none => none
  | some (.done _) => some ⟨m.shared, update m.thread p none⟩
  | some (.act op next) =>
    match answer choices m.shared p op with
    | none => none
    | some reply =>
      match m.shared.exec p op reply with
      | none => none
      | some k' => some ⟨k', update m.thread p (some (next reply))⟩

def steps (choices : Choices P) (p : P) : Nat → Machine P → Option (Machine P)
  | 0, m => some m
  | count + 1, m =>
    match advance choices m p with
    | none => none
    | some m' => steps choices p count m'

/-- A call that is started, and the number of steps that it makes. -/
structure Turn (P : Type) where
  p : P
  call : Call
  choices : Choices P := {}
  count : Nat

section Turns

variable (condition : Kernel P → P → Call → Prop) [∀ k p call, Decidable (condition k p call)]

def turn (t : Turn P) (m : Machine P) : Option (Machine P) :=
  match m.thread t.p with
  | some _ => none
  | none =>
    if (m.shared.proc t.p).status = .live ∧ condition m.shared t.p t.call then
      steps t.choices t.p t.count ⟨m.shared, update m.thread t.p (some t.call.code)⟩
    else none

def turns : List (Turn P) → Machine P → Option (Machine P)
  | [], m => some m
  | t :: rest, m =>
    match turn condition t m with
    | none => none
    | some m' => turns rest m'

/-- Whether a sequence of calls can be made and leads to a state with a property. -/
def ran (initproc : P) (list : List (Turn P)) (test : Machine P → Bool) : Bool :=
  match turns condition list ⟨boot initproc, fun _ => none⟩ with
  | none => false
  | some m => test m

end Turns

variable {condition : Kernel P → P → Call → Prop} {initproc : P} {m m' : Machine P}

section

variable {choices : Choices P} {p : P} (reached : Reachable condition initproc m)
include reached

theorem Reachable.advance (done : advance choices m p = some m') :
    Reachable condition initproc m' := by
  unfold Files.advance at done
  split at done
  · cases done
  · next here =>
    cases done
    exact .step reached (.leave p here)
  · next op next here =>
    split at done
    · cases done
    · next reply _ =>
      split at done
      · cases done
      · next k' executed =>
        cases done
        exact .step reached (.act p reply here executed)

theorem Reachable.steps {count : Nat} (done : steps choices p count m = some m') :
    Reachable condition initproc m' := by
  induction count generalizing m with
  | zero =>
    cases done
    exact reached
  | succ count ih =>
    rw [Files.steps] at done
    split at done
    · cases done
    · next first => exact ih (reached.advance first) done

end

variable [∀ k p call, Decidable (condition k p call)]

theorem Reachable.turn {t : Turn P} (reached : Reachable condition initproc m)
    (done : turn condition t m = some m') : Reachable condition initproc m' := by
  unfold Files.turn at done
  split at done
  · cases done
  · next idle =>
    split at done
    · next allowed =>
      have started := Program.Reachable.step reached
        (.enter t.p idle ⟨allowed.1, t.call, allowed.2, rfl⟩)
      exact Reachable.steps started done
    · cases done

theorem Reachable.turns {list : List (Turn P)} (reached : Reachable condition initproc m)
    (done : turns condition list m = some m') : Reachable condition initproc m' := by
  induction list generalizing m with
  | nil =>
    cases done
    exact reached
  | cons t rest ih =>
    rw [Files.turns] at done
    split at done
    · cases done
    · next first => exact ih (reached.turn first) done

theorem reachable_of_ran (condition : Kernel P → P → Call → Prop)
    [∀ k p call, Decidable (condition k p call)] (initproc : P) (list : List (Turn P))
    (test : Machine P → Bool) (passed : ran condition initproc list test = true) :
    ∃ m, Reachable condition initproc m ∧ test m = true := by
  unfold ran at passed
  split at passed
  · cases passed
  · next m ended => exact ⟨m, Reachable.turns .start ended, passed⟩

end Xv6.Files

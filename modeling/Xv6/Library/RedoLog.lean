import Mathlib.Tactic

/-!
# Redo logs over a store of cells

A redo log keeps a list of target addresses and one copy cell for each of them. While the list
is in force, a target is read from its copy, every other address from its own cell.
-/

namespace Xv6.RedoLog

open Function

variable {Addr Val : Type*} [DecidableEq Addr]
variable {copy : Nat → Addr} {targets : List Addr} {store : Addr → Val} {address : Addr}

/-- The contents a store stands for while `targets` wait to be copied home,
`targets[i]` from the cell `copy i`. -/
def logical (copy : Nat → Addr) (targets : List Addr) (store : Addr → Val) (address : Addr) : Val :=
  if address ∈ targets then store (copy (targets.idxOf address)) else store address

@[simp]
theorem logical_nil (copy : Nat → Addr) (store : Addr → Val) : logical copy [] store = store := by
  funext address
  simp [logical]

theorem logical_of_notMem (absent : address ∉ targets) :
    logical copy targets store address = store address := by
  rw [logical, if_neg absent]

theorem logical_target (distinct : targets.Nodup) {i : Nat} (inside : i < targets.length) :
    logical copy targets store targets[i] = store (copy i) := by
  rw [logical, if_pos (List.getElem_mem inside), distinct.idxOf_getElem i inside]

theorem logical_update_of_ne {cell : Addr} (value : Val) (other : address ≠ cell)
    (spare : ∀ i < targets.length, copy i ≠ cell) :
    logical copy targets (update store cell value) address =
      logical copy targets store address := by
  by_cases mem : address ∈ targets
  · have position := List.idxOf_lt_length_of_mem mem
    simp only [logical, if_pos mem, update_of_ne (spare _ position)]
  · rw [logical_of_notMem mem, logical_of_notMem mem, update_of_ne other]

theorem logical_install (distinct : targets.Nodup) {i : Nat} (inside : i < targets.length)
    (apart : ∀ j < targets.length, copy j ≠ targets[i]) (address : Addr) :
    logical copy targets (update store targets[i] (store (copy i))) address =
      logical copy targets store address := by
  by_cases same : address = targets[i]
  · subst same
    rw [logical_target distinct inside, logical_target distinct inside,
      update_of_ne (apart i inside)]
  · exact logical_update_of_ne _ same apart

theorem logical_eq_store_of_installed (distinct : targets.Nodup)
    (installed : ∀ i (inside : i < targets.length), store targets[i] = store (copy i)) :
    logical copy targets store = store := by
  funext address
  by_cases mem : address ∈ targets
  · obtain ⟨i, inside, rfl⟩ := List.getElem_of_mem mem
    rw [logical_target distinct inside, installed i inside]
  · exact logical_of_notMem mem

/-! ## Transactions -/

/-- A transaction is the list of its writes, oldest first. -/
abbrev Txn (Addr Val : Type*) := List (Addr × Val)

def Txn.apply (txn : Txn Addr Val) (store : Addr → Val) : Addr → Val :=
  txn.foldl (fun cells write => update cells write.1 write.2) store

def applyAll (txns : List (Txn Addr Val)) (store : Addr → Val) : Addr → Val :=
  txns.foldl (fun cells txn => txn.apply cells) store

theorem Txn.apply_concat (txn : Txn Addr Val) (store : Addr → Val) (cell : Addr) (value : Val) :
    Txn.apply (txn ++ [(cell, value)]) store = update (txn.apply store) cell value := by
  simp [Txn.apply]

theorem applyAll_concat (txns : List (Txn Addr Val)) (txn : Txn Addr Val) (store : Addr → Val) :
    applyAll (txns ++ [txn]) store = txn.apply (applyAll txns store) := by
  simp [applyAll]

theorem Txn.apply_congr (txn : Txn Addr Val) {left right : Addr → Val}
    (agree : left address = right address) :
    txn.apply left address = txn.apply right address := by
  induction txn generalizing left right with
  | nil => exact agree
  | cons write rest ih =>
    apply ih
    by_cases same : address = write.1
    · subst same
      simp
    · simp [update_of_ne same, agree]

end Xv6.RedoLog

import Mathlib.Tactic

/-!
# First match in a cyclic scan

A scan over `n` slots starts one past a cursor, wraps around, and ends on the cursor itself,
which is `-1` at first. The distance of a slot is the number of probes needed to reach it, and
the scan returns the accepted slot of least distance.
-/

namespace Xv6.CyclicScan

variable {target slot : Nat} {n : Nat} {cursor : Int}

/-- The slot probed at step `step` of a scan that starts after `cursor`. -/
def slotAt (n : Nat) (cursor : Int) (step : Nat) : Nat := ((cursor + step) % n).toNat

/-- Probe the slots `cursor + 1, …, cursor + n` modulo `n`, in that order. -/
def scan (n : Nat) (cursor : Int) (accept : Nat → Bool) : Option Nat :=
  ((List.range n).map (fun step => slotAt n cursor (step + 1))).find? accept

/-- The probe, counted from one, at which a scan from `cursor` meets `target`. -/
def distance (n : Nat) (cursor : Int) (target : Nat) : Nat := ((target - cursor - 1) % n).toNat + 1

theorem slotAt_lt (pos : 0 < n) (cursor : Int) (step : Nat) : slotAt n cursor step < n := by
  have upper : (cursor + step) % (n : Int) < n := Int.emod_lt_of_pos _ (by omega)
  simp only [slotAt]
  omega

theorem one_le_distance (n : Nat) (cursor : Int) (target : Nat) : 1 ≤ distance n cursor target :=
  Nat.le_add_left 1 _

theorem distance_le (pos : 0 < n) (cursor : Int) (target : Nat) :
    distance n cursor target ≤ n := by
  have upper : (target - cursor - 1) % (n : Int) < n := Int.emod_lt_of_pos _ (by omega)
  simp only [distance]
  omega

theorem slotAt_distance (inside : target < n) (cursor : Int) :
    slotAt n cursor (distance n cursor target) = target := by
  have lower : 0 ≤ (target - cursor - 1) % (n : Int) := Int.emod_nonneg _ (by omega)
  have whole : (target - cursor - 1 : Int) =
        n * ((target - cursor - 1) / n) + (target - cursor - 1) % n :=
    (Int.mul_ediv_add_emod _ _).symm
  have shifted : cursor + (((target - cursor - 1) % (n : Int)).toNat + 1 : Nat) =
        target + n * (-((target - cursor - 1) / n)) := by
    push_cast
    rw [Int.toNat_of_nonneg lower]
    linarith
  rw [slotAt, distance, shifted, Int.add_mul_emod_self_left,
    Int.emod_eq_of_lt (by omega) (by omega)]
  simp

theorem distance_slotAt {step : Nat} (cursor : Int) (first : 1 ≤ step) (last : step ≤ n) :
    distance n cursor (slotAt n cursor step) = step := by
  have lower : 0 ≤ (cursor + step) % (n : Int) := Int.emod_nonneg _ (by omega)
  have whole : (cursor + step : Int) = n * ((cursor + step) / n) + (cursor + step) % n :=
    (Int.mul_ediv_add_emod _ _).symm
  have shifted : (((cursor + step) % (n : Int)).toNat : Int) - cursor - 1 =
        (step - 1 : Int) + n * (-((cursor + step) / n)) := by
    rw [Int.toNat_of_nonneg lower]
    linarith
  rw [distance, slotAt, shifted, Int.add_mul_emod_self_left,
    Int.emod_eq_of_lt (by omega) (by omega)]
  omega

private theorem mem_probes_iff (pos : 0 < n) (cursor : Int) :
    slot ∈ (List.range n).map (fun step => slotAt n cursor (step + 1)) ↔ slot < n := by
  constructor
  · intro mem
    obtain ⟨step, _, rfl⟩ := List.mem_map.mp mem
    exact slotAt_lt pos cursor (step + 1)
  · intro inside
    have upper := distance_le pos cursor slot
    have lower := one_le_distance n cursor slot
    refine List.mem_map.mpr ⟨distance n cursor slot - 1, List.mem_range.mpr (by omega), ?_⟩
    rw [Nat.sub_add_cancel lower, slotAt_distance inside]

section Scan

variable {accept : Nat → Bool}

theorem scan_eq_none_iff (pos : 0 < n) :
    scan n cursor accept = none ↔ ∀ slot, slot < n → accept slot = false := by
  rw [scan, List.find?_eq_none]
  constructor
  · intro rejected slot inside
    simpa using rejected slot ((mem_probes_iff pos cursor).mpr inside)
  · intro rejected slot mem
    simpa using rejected slot ((mem_probes_iff pos cursor).mp mem)

theorem scan_lt (pos : 0 < n) (found : scan n cursor accept = some slot) : slot < n :=
  (mem_probes_iff pos cursor).mp (List.mem_of_find?_eq_some found)

theorem scan_accept (found : scan n cursor accept = some slot) : accept slot = true :=
  List.find?_some found

theorem scan_distance_le {other : Nat} (found : scan n cursor accept = some slot)
    (inside : other < n) (accepted : accept other = true) :
    distance n cursor slot ≤ distance n cursor other := by
  rw [scan, List.find?_map, Option.map_eq_some_iff] at found
  obtain ⟨step, stepFound, rfl⟩ := found
  obtain ⟨_, stepMember, earlier⟩ := List.find?_range_eq_some.mp stepFound
  have stepBound : step < n := List.mem_range.mp stepMember
  rw [distance_slotAt cursor (by omega) (by omega)]
  by_contra nearer
  have lower := one_le_distance n cursor other
  have rejected := earlier (distance n cursor other - 1) (by omega)
  simp only [Function.comp] at rejected
  rw [Nat.sub_add_cancel lower, slotAt_distance inside, accepted] at rejected
  simp at rejected

end Scan

theorem distance_move (slotInside : slot < n) (targetInside : target < n)
    (apart : slot ≠ target) (nearer : distance n cursor slot ≤ distance n cursor target) :
    distance n slot target + distance n cursor slot = distance n cursor target := by
  have upper := distance_le (show 0 < n by omega) cursor target
  have slotEq := slotAt_distance slotInside cursor
  have targetEq := slotAt_distance targetInside cursor
  have strict : distance n cursor slot ≠ distance n cursor target := by
    intro equal
    apply apart
    rw [← slotEq, equal, targetEq]
  have probed : slotAt n slot (distance n cursor target - distance n cursor slot) = target := by
    have lower : 0 ≤ (cursor + distance n cursor slot) % (n : Int) := Int.emod_nonneg _ (by omega)
    have slotInt : (slot : Int) = (cursor + distance n cursor slot) % n := by
      rw [slotAt] at slotEq
      omega
    have remaining : cursor + (distance n cursor slot : Int) +
            (distance n cursor target - distance n cursor slot) =
          cursor + distance n cursor target := by
      ring
    rw [slotAt, slotInt, Nat.cast_sub (by omega), Int.emod_add_emod, remaining]
    exact targetEq
  have measured : distance n slot target = distance n cursor target - distance n cursor slot := by
    have := distance_slotAt (n := n) slot
      (show 1 ≤ distance n cursor target - distance n cursor slot by omega)
      (by omega)
    rwa [probed] at this
  omega

theorem distance_scan_lt {accept : Nat → Bool} (found : scan n cursor accept = some slot)
    (inside : target < n) (accepted : accept target = true) (apart : slot ≠ target) :
    distance n slot target < distance n cursor target := by
  have nearer := scan_distance_le found inside accepted
  have slotInside := scan_lt (by omega) found
  have covered := distance_move slotInside inside apart nearer
  have pos := one_le_distance n cursor slot
  omega

end Xv6.CyclicScan

import Mathlib.Tactic

/-!
# Ring buffers with wrapping counters

The counters of the values taken and stored have `w` bits and wrap around. As `size` divides
`2 ^ w`, a counter that wraps goes on to the next cell.
-/

namespace Xv6.RingBuffer

variable {α : Type*} {w size : Nat} {nread nwrite : BitVec w}

/-- The number of values in the buffer. -/
def used (nread nwrite : BitVec w) : Nat := (nwrite - nread).toNat

@[simp]
theorem used_self (counter : BitVec w) : used counter counter = 0 := by
  simp [used]

theorem used_eq_zero_iff : used nread nwrite = 0 ↔ nread = nwrite := by
  constructor
  · intro empty
    have difference : nwrite - nread = 0#w := BitVec.eq_of_toNat_eq (by simpa [used] using empty)
    exact ((BitVec.sub_eq_iff_eq_add.mp difference).trans (BitVec.zero_add nread)).symm
  · rintro rfl
    exact used_self nread

theorem used_eq_iff (short : size < 2 ^ w) :
    used nread nwrite = size ↔ nwrite = nread + BitVec.ofNat w size := by
  have capacity : (BitVec.ofNat w size).toNat = size := by
    rw [BitVec.toNat_ofNat, Nat.mod_eq_of_lt short]
  constructor
  · intro full
    have difference : nwrite - nread = BitVec.ofNat w size :=
      BitVec.eq_of_toNat_eq (by rw [capacity]; exact full)
    rw [BitVec.add_comm]
    exact BitVec.sub_eq_iff_eq_add.mp difference
  · rintro rfl
    rw [used, BitVec.add_comm, BitVec.add_sub_cancel, capacity]

theorem used_store {nread nwrite : BitVec w} (room : used nread nwrite + 1 < 2 ^ w) :
    used nread (nwrite + 1#w) = used nread nwrite + 1 := by
  have shifted : nwrite + 1#w - nread = nwrite - nread + 1#w := by
    rw [BitVec.sub_eq_add_neg, BitVec.sub_eq_add_neg, BitVec.add_assoc,
      BitVec.add_comm 1#w, BitVec.add_assoc]
  have one : 1 % 2 ^ w = 1 := Nat.mod_eq_of_lt (by omega)
  unfold used at room ⊢
  rw [shifted, BitVec.toNat_add, BitVec.toNat_ofNat, one, Nat.mod_eq_of_lt room]

theorem toNat_eq_pred_add_one {d : BitVec w} (pos : d.toNat ≠ 0) :
    d.toNat = (d - 1#w).toNat + 1 := by
  have bound := d.isLt
  have one : 1 % 2 ^ w = 1 := Nat.mod_eq_of_lt (by omega)
  have below : 1#w ≤ d := by
    rw [BitVec.le_def, BitVec.toNat_ofNat, one]
    omega
  rw [BitVec.toNat_sub_of_le below, BitVec.toNat_ofNat, one]
  omega

theorem used_take (nonempty : nread ≠ nwrite) :
    used nread nwrite = used (nread + 1#w) nwrite + 1 := by
  have pos : used nread nwrite ≠ 0 := fun empty => nonempty (used_eq_zero_iff.mp empty)
  rw [used, used, ← BitVec.sub_sub]
  exact toNat_eq_pred_add_one pos

theorem add_used (nread nwrite : BitVec w) :
    nread + BitVec.ofNat w (used nread nwrite) = nwrite := by
  rw [used, BitVec.ofNat_toNat, BitVec.setWidth_eq, BitVec.add_comm, BitVec.sub_add_cancel]

theorem used_trans {first second third : BitVec w}
    (short : used first second + used second third < 2 ^ w) :
    used first third = used first second + used second third := by
  have sum : third - first = (second - first) + (third - second) := by
    rw [BitVec.sub_eq_iff_eq_add, BitVec.add_comm (second - first), BitVec.add_assoc,
      BitVec.sub_add_cancel, BitVec.sub_add_cancel]
  unfold used at short ⊢
  rw [sum, BitVec.toNat_add, Nat.mod_eq_of_lt short]

variable [NeZero size]

/-- The cell that a counter stands at. -/
def slot (size : Nat) [NeZero size] (counter : BitVec w) : Fin size := Fin.ofNat size counter.toNat

/-- The values in the buffer, oldest first. -/
def contents (data : Fin size → α) (nread nwrite : BitVec w) : List α :=
  (List.range (used nread nwrite)).map fun i => data (slot size (nread + BitVec.ofNat w i))

@[simp]
theorem length_contents (data : Fin size → α) (nread nwrite : BitVec w) :
    (contents data nread nwrite).length = used nread nwrite := by
  simp [contents]

theorem contents_self (data : Fin size → α) (counter : BitVec w) :
    contents data counter counter = [] := by
  simp [contents]

theorem slot_add (divides : size ∣ 2 ^ w) (nread : BitVec w) (i : Nat) :
    (slot size (nread + BitVec.ofNat w i)).val = (nread.toNat + i) % size := by
  simp only [slot, Fin.val_ofNat, BitVec.toNat_add, BitVec.toNat_ofNat, Nat.add_mod_mod]
  exact Nat.mod_mod_of_dvd _ divides

theorem slot_ne_of_room (divides : size ∣ 2 ^ w)
    (room : used nread nwrite < size) {i : Nat} (inside : i < used nread nwrite) :
    slot size (nread + BitVec.ofNat w i) ≠ slot size nwrite := by
  intro same
  have cells := congrArg Fin.val same
  rw [← add_used nread nwrite, slot_add divides, slot_add divides] at cells
  have multiple : size ∣ used nread nwrite - i := by
    have gap := (Nat.modEq_iff_dvd' (by omega)).mp cells
    rwa [Nat.add_sub_add_left] at gap
  have := Nat.le_of_dvd (by omega) multiple
  omega

theorem contents_store (divides : size ∣ 2 ^ w) (short : size < 2 ^ w)
    (data : Fin size → α) (value : α)
    (room : used nread nwrite < size) :
    contents (Function.update data (slot size nwrite) value) nread (nwrite + 1#w) =
      contents data nread nwrite ++ [value] := by
  unfold contents
  rw [used_store (by omega), List.range_succ, List.map_append]
  congr 1
  · apply List.map_congr_left
    intro i mem
    exact Function.update_of_ne (slot_ne_of_room divides room (List.mem_range.mp mem)) _ _
  · simp [add_used]

theorem contents_take (data : Fin size → α) (nonempty : nread ≠ nwrite) :
    contents data nread nwrite = data (slot size nread) :: contents data (nread + 1#w) nwrite := by
  unfold contents
  rw [used_take nonempty, List.range_succ_eq_map, List.map_cons, List.map_map]
  congr 1
  · simp
  · apply List.map_congr_left
    intro i _
    have shifted : nread + BitVec.ofNat w (i + 1) = nread + 1#w + BitVec.ofNat w i := by
      rw [BitVec.add_assoc, BitVec.add_comm 1#w, BitVec.ofNat_add]
    simp only [Function.comp_apply, Nat.succ_eq_add_one, shifted]

theorem contents_append (data : Fin size → α) {first second third : BitVec w}
    (short : used first second + used second third < 2 ^ w) :
    contents data first third = contents data first second ++ contents data second third := by
  unfold contents
  rw [used_trans short, List.range_add, List.map_append, List.map_map]
  congr 1
  apply List.map_congr_left
  intro i _
  have shifted : first + BitVec.ofNat w (used first second + i) = second + BitVec.ofNat w i := by
    rw [BitVec.ofNat_add, ← BitVec.add_assoc, add_used]
  simp only [Function.comp_apply, shifted]

theorem contents_eq_append_last (data : Fin size → α) (nonempty : nread ≠ nwrite) :
    contents data nread nwrite =
      contents data nread (nwrite - 1#w) ++ [data (slot size (nwrite - 1#w))] := by
  have count : used nread nwrite = used nread (nwrite - 1#w) + 1 := by
    have pos : used nread nwrite ≠ 0 := fun empty => nonempty (used_eq_zero_iff.mp empty)
    have shifted : nwrite - 1#w - nread = nwrite - nread - 1#w := by
      rw [BitVec.sub_sub, BitVec.sub_sub, BitVec.add_comm]
    rw [used, used, shifted]
    exact toNat_eq_pred_add_one pos
  unfold contents
  rw [count, List.range_succ, List.map_append, List.map_singleton, add_used]

theorem contents_congr {data data' : Fin size → α}
    (same : ∀ i < used nread nwrite, data' (slot size (nread + BitVec.ofNat w i)) =
      data (slot size (nread + BitVec.ofNat w i))) :
    contents data' nread nwrite = contents data nread nwrite :=
  List.map_congr_left fun i mem => same i (List.mem_range.mp mem)

end Xv6.RingBuffer

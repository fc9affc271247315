import Xv6.Virtio.Model

/-!
# Descriptors and chains

`alloc3_desc` takes three free descriptors or changes nothing, and `free_chain` frees the three
descriptors of a chain that `virtio_disk_rw` has formatted.
-/

namespace Xv6.Virtio

open RingBuffer
open Function

variable {B : Type} {i j : Fin NUM} {chain : Chain} {d : Disk B} {b : B}

@[simp]
theorem number_toNat (i : Fin NUM) : (number i).toNat = i.val := by
  rw [number, BitVec.toNat_ofNat, Nat.mod_eq_of_lt (lt_trans i.isLt (by decide))]

@[simp]
theorem slot_number (i : Fin NUM) : slot NUM (number i) = i := by
  apply Fin.ext
  rw [slot, Fin.val_ofNat, number_toNat, Nat.mod_eq_of_lt i.isLt]

theorem Chain.mem_all : i ∈ chain.all ↔ i = chain.idx0 ∨ i = chain.idx1 ∨ i = chain.idx2 := by
  simp [Chain.all]

theorem Chain.idx0_mem (chain : Chain) : chain.idx0 ∈ chain.all := List.mem_cons_self

theorem Chain.nodup_iff : chain.all.Nodup ↔
      chain.idx0 ≠ chain.idx1 ∧ chain.idx0 ≠ chain.idx2 ∧ chain.idx1 ≠ chain.idx2 := by
  simp [Chain.all, and_assoc]

namespace Disk

/-! ## Allocation -/

theorem allocDesc_eq_some {d' : Disk B} (found : d.allocDesc = some (i, d')) :
    d.free i = true ∧ d' = { d with free := update d.free i false } := by
  obtain ⟨j, first, same⟩ := Option.map_eq_some_iff.mp found
  cases same
  exact ⟨List.find?_some first, rfl⟩

def allocated (d : Disk B) (chain : Chain) : Disk B :=
  { d with free := fun i => if i ∈ chain.all then false else d.free i }

theorem freeDesc_taken (taken : d.free i = false) :
    d.freeDesc i = .ok { d with
      desc := update d.desc i {}
      free := update d.free i true } := by
  rw [freeDesc, dif_pos i.isLt, if_neg (by rw [taken]; exact Bool.false_ne_true)]

theorem freeDesc_allocated {d : Disk B} {i : Fin NUM} (free : d.free i = true)
    (zero : d.desc i = {}) :
    Disk.freeDesc { d with free := update d.free i false } i = .ok d := by
  rw [freeDesc_taken (update_self ..)]
  rw [update_idem, ← zero, update_eq_self, ← free, update_eq_self]

/-- `alloc3_desc` takes three free descriptors, or changes nothing. -/
theorem alloc3Desc_spec (zero : ∀ i, d.free i = true → d.desc i = {}) :
    d.alloc3Desc = .ok (none, d) ∨
      ∃ chain, d.alloc3Desc = .ok (some chain, d.allocated chain) ∧ chain.all.Nodup ∧
        ∀ i ∈ chain.all, d.free i = true := by
  unfold alloc3Desc
  cases first : d.allocDesc with
  | none => exact .inl rfl
  | some found =>
    obtain ⟨idx0, d₀⟩ := found
    obtain ⟨free₀, rfl⟩ := allocDesc_eq_some first
    dsimp only
    cases second : allocDesc { d with free := update d.free idx0 false } with
    | none =>
      left
      rw [freeDesc_allocated free₀ (zero idx0 free₀)]
      rfl
    | some found =>
      obtain ⟨idx1, d₁⟩ := found
      obtain ⟨free₁, rfl⟩ := allocDesc_eq_some second
      dsimp only at free₁ ⊢
      have apart₁ : idx1 ≠ idx0 := by
        rintro rfl
        rw [update_self] at free₁
        cases free₁
      have was₁ : d.free idx1 = true := by rwa [update_of_ne apart₁] at free₁
      cases third : allocDesc { d with
          free := update (update d.free idx0 false) idx1 false } with
      | none =>
        left
        have swapped : update (update d.free idx0 false) idx1 false =
            update (update d.free idx1 false) idx0 false :=
          update_comm apart₁.symm ..
        rw [swapped]
        have back := @freeDesc_allocated B { d with free := update d.free idx1 false } idx0
          (by dsimp only; rw [update_of_ne apart₁.symm]; exact free₀)
          (zero idx0 free₀)
        rw [back]
        change (do let d ← Disk.freeDesc _ _; .ok (none, d)) = _
        rw [freeDesc_allocated was₁ (zero idx1 was₁)]
        rfl
      | some found =>
        obtain ⟨idx2, d₂⟩ := found
        obtain ⟨free₂, rfl⟩ := allocDesc_eq_some third
        dsimp only at free₂ ⊢
        have apart₂ : idx2 ≠ idx1 := by
          rintro rfl
          rw [update_self] at free₂
          cases free₂
        rw [update_of_ne apart₂] at free₂
        have apart₃ : idx2 ≠ idx0 := by
          rintro rfl
          rw [update_self] at free₂
          cases free₂
        rw [update_of_ne apart₃] at free₂
        refine .inr ⟨⟨idx0, idx1, idx2⟩, ?_, ?_, ?_⟩
        · refine congrArg (fun free => Except.ok (some _, { d with free := free })) ?_
          funext i
          simp only [update_apply, Chain.mem_all]
          split_ifs <;> simp_all
        · exact Chain.nodup_iff.mpr ⟨apart₁.symm, apart₃.symm, apart₂.symm⟩
        · intro i mem
          rcases Chain.mem_all.mp mem with rfl | rfl | rfl
          · exact free₀
          · exact was₁
          · exact free₂

/-! ## Chains -/

/-- The chain of a request as `virtio_disk_rw` has formatted it. -/
structure Formatted (d : Disk B) (chain : Chain) (b : B) : Prop where
  nodup : chain.all.Nodup
  taken : ∀ i ∈ chain.all, d.free i = false
  header : (d.desc chain.idx0).flags &&& VRING_DESC_F_NEXT ≠ 0 ∧
    (d.desc chain.idx0).next = number chain.idx1
  block : (d.desc chain.idx1).flags &&& VRING_DESC_F_NEXT ≠ 0 ∧
    (d.desc chain.idx1).next = number chain.idx2
  status : (d.desc chain.idx2).flags &&& VRING_DESC_F_NEXT = 0 ∧
    (d.desc chain.idx2).addr = .status chain.idx0
  info : d.infoB chain.idx0 = some b

theorem Formatted.congr {d' : Disk B} (formatted : Formatted d chain b)
    (desc : ∀ i ∈ chain.all, d'.desc i = d.desc i)
    (free : ∀ i ∈ chain.all, d'.free i = d.free i)
    (info : d'.infoB chain.idx0 = d.infoB chain.idx0) : Formatted d' chain b where
  nodup := formatted.nodup
  taken := fun i mem => by rw [free i mem, formatted.taken i mem]
  header := by
    rw [desc _ (Chain.mem_all.mpr (.inl rfl))]
    exact formatted.header
  block := by
    rw [desc _ (Chain.mem_all.mpr (.inr (.inl rfl)))]
    exact formatted.block
  status := by
    rw [desc _ (Chain.mem_all.mpr (.inr (.inr rfl)))]
    exact formatted.status
  info := by rw [info, formatted.info]

theorem Formatted.lastDesc (formatted : Formatted d chain b) :
    (d.lastDesc NUM (number chain.idx0)).addr = .status chain.idx0 := by
  have first := formatted.header
  have second := formatted.block
  have third := formatted.status
  rw [Disk.lastDesc, slot_number, if_pos first.1, first.2, Disk.lastDesc, slot_number,
    if_pos second.1, second.2, Disk.lastDesc, slot_number, if_neg (not_not.mpr third.1), third.2]

def freed (d : Disk B) (chain : Chain) : Disk B :=
  { d with
    desc := fun i => if i ∈ chain.all then {} else d.desc i
    free := fun i => if i ∈ chain.all then true else d.free i
    infoB := update d.infoB chain.idx0 none }

def freedOne (d : Disk B) (i : Fin NUM) : Disk B :=
  { d with
    desc := update d.desc i {}
    free := update d.free i true }

theorem freedOne_desc (other : j ≠ i) : (d.freedOne i).desc j = d.desc j := update_of_ne other ..

theorem freedOne_free (other : j ≠ i) : (d.freedOne i).free j = d.free j := update_of_ne other ..

theorem freeChain_next (rounds : Nat) (taken : d.free i = false)
    (link : (d.desc i).flags &&& VRING_DESC_F_NEXT ≠ 0 ∧ (d.desc i).next = number j) :
    freeChain (rounds + 1) i d = freeChain rounds j (d.freedOne i) := by
  rw [freeChain, dif_pos i.isLt]
  simp only [Fin.eta, freeDesc_taken taken, bind, Except.bind, link.1, link.2, number_toNat,
    ne_eq, not_false_eq_true, if_true]
  rfl

theorem freeChain_last (rounds : Nat) (taken : d.free i = false)
    (last : (d.desc i).flags &&& VRING_DESC_F_NEXT = 0) :
    freeChain (rounds + 1) i d = .ok (d.freedOne i) := by
  rw [freeChain, dif_pos i.isLt]
  simp only [Fin.eta, freeDesc_taken taken, bind, Except.bind, last, ne_eq, not_true_eq_false,
    if_false]
  rfl

theorem finish_formatted (formatted : Formatted d chain b) :
    d.finish chain = .ok (d.freed chain) := by
  obtain ⟨apart₁, apart₂, apart₃⟩ := Chain.nodup_iff.mp formatted.nodup
  have taken₀ := formatted.taken _ (Chain.mem_all.mpr (.inl rfl))
  have taken₁ := formatted.taken _ (Chain.mem_all.mpr (.inr (.inl rfl)))
  have taken₂ := formatted.taken _ (Chain.mem_all.mpr (.inr (.inr rfl)))
  rw [finish]
  generalize cleared : ({ d with infoB := update d.infoB chain.idx0 none } : Disk B) = d'
  have sameDesc : d'.desc = d.desc := by rw [← cleared]
  have sameFree : d'.free = d.free := by rw [← cleared]
  rw [← sameFree] at taken₀ taken₁ taken₂
  have header := formatted.header
  have block := formatted.block
  have status := formatted.status.1
  rw [← sameDesc] at header block status
  rw [freeChain_next NUM taken₀ header, freeChain_next 7 (by rwa [freedOne_free apart₁.symm])
      (by rw [freedOne_desc apart₁.symm]; exact block),
    freeChain_last 6 (by rwa [freedOne_free apart₃.symm, freedOne_free apart₂.symm])
      (by rw [freedOne_desc apart₃.symm, freedOne_desc apart₂.symm]; exact status)]
  have desc : update (update (update d.desc chain.idx0 {})
      chain.idx1 {}) chain.idx2 {} = fun i => if i ∈ chain.all then {} else d.desc i := by
    funext i
    simp only [update_apply, Chain.mem_all]
    split_ifs <;> simp_all
  have free : update (update (update d.free chain.idx0 true)
      chain.idx1 true) chain.idx2 true = fun i => if i ∈ chain.all then true else d.free i := by
    funext i
    simp only [update_apply, Chain.mem_all]
    split_ifs <;> simp_all
  rw [freedOne, freedOne, freedOne, freed, ← desc, ← free, ← cleared]

variable [DecidableEq B]

theorem submit_formatted (nodup : chain.all.Nodup)
    (taken : ∀ i ∈ chain.all, d.free i = false) (b : B) (blockno : BitVec 32) (write : Bool) :
    Formatted (d.submit chain b blockno write) chain b := by
  obtain ⟨apart₁, apart₂, apart₃⟩ := Chain.nodup_iff.mp nodup
  refine ⟨nodup, taken, ?_, ?_, ?_, update_self ..⟩
  · simp only [submit, update_of_ne apart₂, update_of_ne apart₁, update_self]
    exact ⟨by decide, trivial⟩
  · simp only [submit, update_of_ne apart₃, update_self]
    exact ⟨by cases write <;> decide, trivial⟩
  · simp only [submit, update_self]
    exact ⟨by decide, trivial⟩

theorem submit_desc (b : B) (blockno : BitVec 32) (write : Bool) (outside : i ∉ chain.all) :
    (d.submit chain b blockno write).desc i = d.desc i := by
  rw [Chain.mem_all, not_or, not_or] at outside
  obtain ⟨other₀, other₁, other₂⟩ := outside
  simp only [submit, update_of_ne other₀, update_of_ne other₁, update_of_ne other₂]

end Disk

end Xv6.Virtio

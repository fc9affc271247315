import Xv6.Files.Contract

/-!
# The tables and their owners

A reference count is the number of references that are owned. Each part of the invariant has
one lemma for what an operation can change of it.
-/

namespace Xv6.Files

open Function

variable {P : Type} {new : Inode P} {ip : Ip} {lnp : Local P}

/-! ## What there is to own -/

namespace Kernel

/-- The references to an inode, or to an end of a pipe, that exist. -/
def stock (k : Kernel P) : Token → Nat
  | .inode ip => (k.itable ip).ref
  | .pipeEnd pi writable =>
    if (if writable then (k.pipes pi).writeopen else (k.pipes pi).readopen) then 1 else 0

def tokenOf (k : Kernel P) (f : FileId) : Option Token := (k.ftable f).token

def lockOf (k : Kernel P) (ip : Ip) : Option P := (k.itable ip).lock

variable {k : Kernel P}

theorem tokenOf_setFile (f : FileId) (new : File) :
    (k.setFile f new).tokenOf = update k.tokenOf f new.token := by
  funext x
  by_cases same : x = f <;> simp [tokenOf, setFile, same]

theorem tokenOf_setFile_same {f : FileId} {new : File} (same : new.token = (k.ftable f).token) :
    (k.setFile f new).tokenOf = k.tokenOf := by
  rw [tokenOf_setFile, same]
  exact update_eq_self f k.tokenOf

theorem lockOf_setInode (ip : Ip) (new : Inode P) :
    (k.setInode ip new).lockOf = update k.lockOf ip new.lock := by
  funext x
  by_cases same : x = ip <;> simp [lockOf, setInode, same]

theorem lockOf_setInode_same (same : new.lock = (k.itable ip).lock) :
    (k.setInode ip new).lockOf = k.lockOf := by
  rw [lockOf_setInode, same]
  exact update_eq_self ip k.lockOf

theorem stock_setInode (ip : Ip) (new : Inode P) (t : Token) :
    (k.setInode ip new).stock t = if t = .inode ip then new.ref else k.stock t := by
  cases t with
  | inode x =>
    by_cases same : x = ip <;> simp [stock, setInode, same]
  | pipeEnd pi writable => rfl

theorem stock_setInode_same (same : new.ref = (k.itable ip).ref) :
    (k.setInode ip new).stock = k.stock := by
  funext t
  rw [stock_setInode]
  split
  · next here => rw [here, same, stock]
  · rfl

theorem stock_setPipe (pi : Nat) (new : Pipe) (t : Token) : (k.setPipe pi new).stock t =
      if t = .pipeEnd pi true then (if new.writeopen then 1 else 0)
      else if t = .pipeEnd pi false then (if new.readopen then 1 else 0)
      else k.stock t := by
  cases t with
  | inode x => rfl
  | pipeEnd x writable =>
    by_cases same : x = pi <;> cases writable <;> simp [stock, setPipe, same]

end Kernel

variable [DecidableEq P] {g : P → Local P} {p : P} {l' : Local P}

/-! ## Locks, transactions and inodes -/

/-- A process has locked the inodes whose lock it holds. -/
def LocksOk (lock : Ip → Option P) (g : P → Local P) : Prop :=
  ∀ ip q, ip ∈ (g q).locks ↔ lock ip = some q

namespace LocksOk

variable {lock : Ip → Option P}

theorem keep (ok : LocksOk lock g) (same : l'.locks = (g p).locks) :
    LocksOk lock (update g p l') := by
  intro x q
  by_cases here : q = p
  · rw [here, update_self, same]
    exact ok x p
  · rw [update_of_ne here]
    exact ok x q

theorem take (ok : LocksOk lock g) (free : lock ip = none)
    (taken : l'.locks = insert ip (g p).locks) :
    LocksOk (update lock ip (some p)) (update g p l') := by
  intro x q
  by_cases here : q = p <;> by_cases same : x = ip
  · simp [here, same, taken]
  · simp [here, same, taken, ok x p]
  · have other := ok ip q
    simp_all [eq_comm]
  · simp [here, same, ok x q]

theorem release (ok : LocksOk lock g) (held : lock ip = some p)
    (released : l'.locks = (g p).locks.erase ip) :
    LocksOk (update lock ip none) (update g p l') := by
  intro x q
  by_cases here : q = p <;> by_cases same : x = ip
  · simp [here, same, released]
  · simp [here, same, released, ok x p]
  · have other := ok ip q
    simp_all [eq_comm]
  · simp [here, same, ok x q]

end LocksOk

def TxOk [Fintype P] (outstanding : Nat) (g : P → Local P) : Prop :=
  outstanding = (Finset.univ.filter fun q => (g q).tx = true).card

theorem TxOk.change [Fintype P] {outstanding outstanding' : Nat} (ok : TxOk outstanding g)
    (balance : outstanding' + (if (g p).tx = true then 1 else 0) =
      outstanding + if l'.tx = true then 1 else 0) :
    TxOk outstanding' (update g p l') := by
  have changed := RefCount.card_update (fun l : Local P => l.tx = true) g p l'
  rw [TxOk] at ok ⊢
  omega

/-- No inode of the disk has two entries. -/
def UniqueInodes (itable : Ip → Inode P) : Prop :=
  ∀ ip ip', 0 < (itable ip).ref → 0 < (itable ip').ref → (itable ip).dev = (itable ip').dev →
    (itable ip).inum = (itable ip').inum → ip = ip'

omit [DecidableEq P] in
theorem UniqueInodes.keep {itable : Ip → Inode P} (ok : UniqueInodes itable)
    (dev : new.dev = (itable ip).dev) (inum : new.inum = (itable ip).inum)
    (ref : 0 < new.ref → 0 < (itable ip).ref) : UniqueInodes (update itable ip new) := by
  have before : ∀ x, (update itable ip new x).dev = (itable x).dev ∧
      (update itable ip new x).inum = (itable x).inum ∧
      (0 < (update itable ip new x).ref → 0 < (itable x).ref) := by
    intro x
    by_cases same : x = ip
    · rw [same, update_self]
      exact ⟨dev, inum, ref⟩
    · rw [update_of_ne same]
      exact ⟨rfl, rfl, id⟩
  intro x y first second sameDev sameInum
  rw [(before x).1, (before y).1] at sameDev
  rw [(before x).2.1, (before y).2.1] at sameInum
  exact ok x y ((before x).2.2 first) ((before y).2.2 second) sameDev sameInum

omit [DecidableEq P] in
theorem UniqueInodes.enter {itable : Ip → Inode P} (ok : UniqueInodes itable) {ip : Ip}
    {new : Inode P}
    (missing : ∀ x, ¬(0 < (itable x).ref ∧ (itable x).dev = new.dev ∧
      (itable x).inum = new.inum)) : UniqueInodes (update itable ip new) := by
  intro x y first second sameDev sameInum
  by_cases here : x = ip <;> by_cases there : y = ip
  · rw [here, there]
  · rw [here, update_self, update_of_ne there] at sameDev sameInum
    rw [update_of_ne there] at second
    exact absurd ⟨second, sameDev.symm, sameInum.symm⟩ (missing y)
  · rw [there, update_self, update_of_ne here] at sameDev sameInum
    rw [update_of_ne here] at first
    exact absurd ⟨first, sameDev, sameInum⟩ (missing x)
  · rw [update_of_ne here] at first sameDev sameInum
    rw [update_of_ne there] at second sameDev sameInum
    exact ok x y first second sameDev sameInum

/-! ## Open files -/

section Counts

variable [Fintype P]

/-- Each open file is counted by its owners. A file that was just allocated has one owner
and stands for nothing. -/
structure FilesOk (ftable : FileId → File) (g : P → Local P) : Prop where
  ref : ∀ f, (ftable f).ref = ∑ q, (g q).owned f
  free : ∀ f, (ftable f).ref = 0 → (ftable f).type = .none
  fresh : ∀ q, ∀ f ∈ (g q).fresh, (ftable f).type = .none ∧ (ftable f).ref = 1 ∧ (g q).owned f = 1

namespace FilesOk

variable {ftable : FileId → File} {f : FileId}

section

variable (ok : FilesOk ftable g)
include ok

omit [DecidableEq P] in
theorem owned_le (q : P) (f : FileId) : (g q).owned f ≤ (ftable f).ref := by
  rw [ok.ref f]
  exact Finset.single_le_sum (f := fun q => (g q).owned f) (fun _ _ => Nat.zero_le _)
    (Finset.mem_univ q)

theorem owner_unique {q : P} (fresh : f ∈ (g q).fresh) (owns : 1 ≤ (g p).owned f) : q = p := by
  by_contra other
  obtain ⟨-, one, own⟩ := ok.fresh q f fresh
  have both := Finset.add_le_sum (s := Finset.univ) (f := fun q => (g q).owned f)
    (fun _ _ => Nat.zero_le _) (Finset.mem_univ q) (Finset.mem_univ p) other
  have total := ok.ref f
  omega

theorem keep (owned : l'.owned = (g p).owned)
    (fresh : l'.fresh = (g p).fresh) : FilesOk ftable (update g p l') := by
  refine ⟨fun f => ?_, ok.free, fun q f mem => ?_⟩
  · have changed := RefCount.sum_update (fun l : Local P => l.owned f) g p l'
    have total := ok.ref f
    rw [owned] at changed
    omega
  · by_cases here : q = p
    · rw [here, update_self] at mem ⊢
      rw [fresh] at mem
      rw [owned]
      exact ok.fresh p f mem
    · rw [update_of_ne here] at mem ⊢
      exact ok.fresh q f mem

theorem change {new : File} (balance : ∀ x, l'.owned x + (if x = f then (ftable f).ref else 0) =
      (g p).owned x + if x = f then new.ref else 0)
    (free : new.ref = 0 → new.type = .none) (others : ∀ q, q ≠ p → f ∉ (g q).fresh)
    (fresh : ∀ x ∈ l'.fresh,
      x = f ∧ new.type = .none ∧ new.ref = 1 ∧ l'.owned f = 1 ∨ x ≠ f ∧ x ∈ (g p).fresh) :
    FilesOk (update ftable f new) (update g p l') := by
  refine ⟨fun x => ?_, fun x none => ?_, fun q x mem => ?_⟩
  · have changed := RefCount.sum_update (fun l : Local P => l.owned x) g p l'
    have total := ok.ref x
    have step := balance x
    by_cases same : x = f
    · subst same
      rw [update_self]
      simp only [if_true] at step
      omega
    · rw [update_of_ne same]
      simp only [if_neg same] at step
      omega
  · by_cases same : x = f
    · rw [same, update_self] at none ⊢
      exact free none
    · rw [update_of_ne same] at none ⊢
      exact ok.free x none
  · by_cases here : q = p
    · rw [here, update_self] at mem
      rw [here, update_self]
      obtain ⟨rfl, facts⟩ | ⟨other, mem⟩ := fresh x mem
      · rw [update_self]
        exact facts
      · have step := balance x
        rw [if_neg other, if_neg other, Nat.add_zero, Nat.add_zero] at step
        rw [update_of_ne other, step]
        exact ok.fresh p x mem
    · rw [update_of_ne here] at mem ⊢
      have other : x ≠ f := by
        rintro rfl
        exact others q here mem
      rw [update_of_ne other]
      exact ok.fresh q x mem

theorem give {np : P} (other : np ≠ p)
    (balance : ∀ f, l'.owned f + lnp.owned f = (g p).owned f + (g np).owned f)
    (fresh : l'.fresh = ∅) (fresh' : lnp.fresh = ∅) :
    FilesOk ftable (update (update g p l') np lnp) := by
  refine ⟨fun f => ?_, ok.free, fun q f mem => ?_⟩
  · have first := RefCount.sum_update (fun l : Local P => l.owned f) g p l'
    have second := RefCount.sum_update (fun l : Local P => l.owned f) (update g p l') np lnp
    rw [update_of_ne other] at second
    have total := ok.ref f
    have step := balance f
    omega
  · by_cases isKid : q = np
    · rw [isKid, update_self, fresh'] at mem
      simp at mem
    · rw [update_of_ne isKid] at mem ⊢
      by_cases isParent : q = p
      · rw [isParent, update_self, fresh] at mem
        simp at mem
      · rw [update_of_ne isParent] at mem ⊢
        exact ok.fresh q f mem

end

end FilesOk

/-! ## Tokens -/

/-- Each reference to an inode, and each end of a pipe, belongs to a call or to an open
file. -/
def TokensOk (stock : Token → Nat) (token : FileId → Option Token) (g : P → Local P) : Prop :=
  ∀ t, stock t = (∑ q, (g q).held t) + RefCount.count token t

namespace TokensOk

variable {stock stock' : Token → Nat} {token token' : FileId → Option Token}

section

variable (ok : TokensOk stock token g)
include ok

omit [DecidableEq P] in
theorem held_le (q : P) (t : Token) : (g q).held t ≤ stock t := by
  have single := Finset.single_le_sum (f := fun q => (g q).held t) (fun _ _ => Nat.zero_le _)
    (Finset.mem_univ q)
  have total := ok t
  omega

theorem change (balance : ∀ t, stock' t + (g p).held t + RefCount.count token t =
      stock t + l'.held t + RefCount.count token' t) :
    TokensOk stock' token' (update g p l') := by
  intro t
  have changed := RefCount.sum_update (fun l : Local P => l.held t) g p l'
  have total := ok t
  have step := balance t
  omega

theorem keep (same : l'.held = (g p).held) :
    TokensOk stock token (update g p l') :=
  ok.change fun t => by rw [same]

theorem give {np : P} (other : np ≠ p)
    (balance : ∀ t, l'.held t + lnp.held t = (g p).held t + (g np).held t) :
    TokensOk stock token (update (update g p l') np lnp) := by
  intro t
  have first := RefCount.sum_update (fun l : Local P => l.held t) g p l'
  have second := RefCount.sum_update (fun l : Local P => l.held t) (update g p l') np lnp
  rw [update_of_ne other] at second
  have total := ok t
  have step := balance t
  omega

end

end TokensOk

end Counts

/-! ## Processes -/

/-- Each process that is being forked has one parent, which knows it, and only a live
process has anything of its own. -/
structure ProcsOk (proc : P → Proc) (g : P → Local P) : Prop where
  own : ∀ q, (g q).proc = proc q
  clean : ∀ q, (proc q).status = .unused ∨ (proc q).status = .zombie → (proc q).Clean
  child : ∀ q np kid, (g q).child = some (np, kid) → kid = proc np ∧ (proc np).status = .used
  parent : ∀ q q' np kid kid', (g q).child = some (np, kid) → (g q').child = some (np, kid') →
    q = q'
  forked : ∀ np, (proc np).status = .used → ∃ q kid, (g q).child = some (np, kid)
  idle : ∀ q, (proc q).status ≠ .live → (g q).AtRest

namespace ProcsOk

variable {proc : P → Proc} {np : P} {new : Proc}

theorem self (ok : ProcsOk proc g) (live : (proc p).status = .live) (own : l'.proc = new)
    (child : l'.child = (g p).child)
    (status : new.status = .live ∨ new.status = .zombie ∧ new.Clean ∧ l'.AtRest) :
    ProcsOk (update proc p new) (update g p l') := by
  have children : ∀ q, (update g p l' q).child = (g q).child := by
    intro q
    by_cases here : q = p
    · rw [here, update_self, child]
    · rw [update_of_ne here]
  refine ⟨fun q => ?_, fun q gone => ?_, fun q np kid named => ?_, ?_, fun np used => ?_,
    fun q idle => ?_⟩
  · by_cases here : q = p
    · rw [here, update_self, update_self, own]
    · rw [update_of_ne here, update_of_ne here]
      exact ok.own q
  · by_cases here : q = p
    · rw [here, update_self] at gone ⊢
      obtain live | ⟨-, clean, -⟩ := status
      · simp [live] at gone
      · exact clean
    · rw [update_of_ne here] at gone ⊢
      exact ok.clean q gone
  · rw [children] at named
    obtain ⟨same, used⟩ := ok.child q np kid named
    have other : np ≠ p := by
      rintro rfl
      simp [live] at used
    rw [update_of_ne other]
    exact ⟨same, used⟩
  · intro q q' np kid kid' first second
    rw [children] at first second
    exact ok.parent q q' np kid kid' first second
  · have other : np ≠ p := by
      rintro rfl
      obtain live | ⟨zombie, -⟩ := status
      · simp [live] at used
      · simp [zombie] at used
    rw [update_of_ne other] at used
    obtain ⟨q, kid, named⟩ := ok.forked np used
    exact ⟨q, kid, by rw [children]; exact named⟩
  · by_cases here : q = p
    · rw [here, update_self] at idle ⊢
      obtain live | ⟨-, -, rest⟩ := status
      · exact absurd live idle
      · exact rest
    · rw [update_of_ne here] at idle ⊢
      exact ok.idle q idle

theorem keep (ok : ProcsOk proc g) (live : (proc p).status = .live)
    (own : l'.proc = (g p).proc) (child : l'.child = (g p).child) :
    ProcsOk proc (update g p l') := by
  have kept := ok.self live (own.trans (ok.own p)) child (Or.inl live)
  rwa [update_eq_self] at kept

/-- A live process changes one that is not live: it forks it, or frees it. -/
theorem change (ok : ProcsOk proc g) (live : (proc p).status = .live)
    (dead : (proc np).status ≠ .live)
    (own : l'.proc = (g p).proc) (kid : lnp.proc = new) (rest : lnp.AtRest)
    (clean : new.status = .unused ∨ new.status = .zombie → new.Clean)
    (before : ∀ np' kid, (g p).child = some (np', kid) → np' = np)
    (alone : ∀ q, q ≠ p → ∀ kid, (g q).child ≠ some (np, kid))
    (after : new.status = .used ∧ l'.child = some (np, new) ∨
      new.status ≠ .used ∧ l'.child = none) :
    ProcsOk (update proc np new) (update (update g p l') np lnp) := by
  have other : np ≠ p := by
    rintro rfl
    exact dead live
  have atKid : update (update g p l') np lnp np = lnp := update_self ..
  have atParent : update (update g p l') np lnp p = l' := by
    rw [update_of_ne other.symm, update_self]
  have elsewhere : ∀ q, q ≠ p → q ≠ np → update (update g p l') np lnp q = g q := by
    intro q notParent notKid
    rw [update_of_ne notKid, update_of_ne notParent]
  -- the children of all processes but `p` are as before, and none of them is `np`
  have named : ∀ q x kid, (update (update g p l') np lnp q).child = some (x, kid) →
      q = p ∧ x = np ∧ kid = new ∧ new.status = .used ∨
        q ≠ p ∧ x ≠ np ∧ (g q).child = some (x, kid) := by
    intro q x kid child
    by_cases isParent : q = p
    · subst isParent
      rw [atParent] at child
      obtain ⟨used, here⟩ | ⟨-, none⟩ := after
      · rw [here] at child
        cases child
        exact Or.inl ⟨rfl, rfl, rfl, used⟩
      · simp [none] at child
    · by_cases isKid : q = np
      · rw [isKid, atKid, rest.child] at child
        simp at child
      · rw [elsewhere q isParent isKid] at child
        refine Or.inr ⟨isParent, ?_, child⟩
        rintro rfl
        exact alone q isParent kid child
  refine ⟨fun q => ?_, fun q gone => ?_, fun q x y child => ?_, ?_, fun x used => ?_,
    fun q idle => ?_⟩
  · by_cases isKid : q = np
    · rw [isKid, atKid, update_self, kid]
    · by_cases isParent : q = p
      · rw [isParent, atParent, update_of_ne other.symm, own]
        exact ok.own p
      · rw [elsewhere q isParent isKid, update_of_ne isKid]
        exact ok.own q
  · by_cases isKid : q = np
    · rw [isKid, update_self] at gone ⊢
      exact clean gone
    · rw [update_of_ne isKid] at gone ⊢
      exact ok.clean q gone
  · obtain ⟨-, rfl, rfl, used⟩ | ⟨-, notKid, child⟩ := named q x y child
    · rw [update_self]
      exact ⟨rfl, used⟩
    · rw [update_of_ne notKid]
      exact ok.child q x y child
  · intro q q' x y y' first second
    obtain ⟨rfl, rfl, -⟩ | ⟨-, notKid, first⟩ := named q x y first
    · obtain ⟨rfl, -⟩ | ⟨-, notKid, -⟩ := named q' _ y' second
      · rfl
      · exact absurd rfl notKid
    · obtain ⟨-, isKid, -⟩ | ⟨-, -, second⟩ := named q' x y' second
      · exact absurd isKid notKid
      · exact ok.parent q q' x y y' first second
  · by_cases isKid : x = np
    · rw [isKid, update_self] at used
      obtain ⟨-, here⟩ | ⟨unused, -⟩ := after
      · exact ⟨p, new, by rw [atParent, here, isKid]⟩
      · exact absurd used unused
    · rw [update_of_ne isKid] at used
      obtain ⟨q, y, child⟩ := ok.forked x used
      have notParent : q ≠ p := by
        rintro rfl
        exact isKid (before x y child)
      have notKid : q ≠ np := by
        rintro rfl
        simp [(ok.idle q dead).child] at child
      exact ⟨q, y, by rw [elsewhere q notParent notKid]; exact child⟩
  · by_cases isKid : q = np
    · rw [isKid, atKid]
      exact rest
    · rw [update_of_ne isKid] at idle
      have notParent : q ≠ p := by
        rintro rfl
        exact idle live
      rw [elsewhere q notParent isKid]
      exact ok.idle q idle

end ProcsOk

end Xv6.Files

import Xv6.Files.Invariant

/-!
# Operations on the tables

An operation on the file table, the inode table or a pipe changes the table and what its
process owns by the same amount.
-/

namespace Xv6.Files

open Function

variable {P : Type} [DecidableEq P] [Fintype P]
variable {f : FileId} {held : Token → Nat} {ip : Ip} {new : Inode P} {dev inum : Nat}

structure Invariant (k : Kernel P) (g : P → Local P) : Prop where
  files : FilesOk k.ftable g
  tokens : TokensOk k.stock k.tokenOf g
  locks : LocksOk k.lockOf g
  unique : UniqueInodes k.itable
  tx : TxOk k.outstanding g
  procs : ProcsOk k.proc g

/-- An operation does what the contract says to the process, and keeps the invariant. It
touches what another process owns only if that one is not live. -/
def Kept (k' : Kernel P) (g : P → Local P) (p : P) (op : Op P) (reply : op.Reply) : Prop :=
  ∃ g', (g p).effect op reply (g' p) ∧ Invariant k' g' ∧
    ∀ q, q ≠ p → g' q = g q ∨ (∀ op, ¬contract.pre (g q) op) ∧ (g' q).AtRest

variable {k k' : Kernel P} {g : P → Local P} {p : P} {l' : Local P}

theorem Kept.own {op : Op P} {reply : op.Reply} (effect : (g p).effect op reply l')
    (kept : Invariant k' (update g p l')) : Kept k' g p op reply := by
  refine ⟨update g p l', ?_, kept, fun q other => Or.inl (Function.update_of_ne other ..)⟩
  rw [Function.update_self]
  exact effect

omit [DecidableEq P] in
theorem Kept.nothing {op : Op P} {reply : op.Reply} (effect : (g p).effect op reply (g p))
    (inv : Invariant k g) : Kept k g p op reply :=
  ⟨g, effect, inv, fun _ _ => Or.inl rfl⟩

namespace Invariant

omit [DecidableEq P] in
theorem live_iff (inv : Invariant k g) (q : P) :
    (g q).proc.status = .live ↔ (k.proc q).status = .live := by
  rw [inv.procs.own]

omit [DecidableEq P] [Fintype P] in
theorem freeFile_eq_some (found : k.freeFile = some f) : (k.ftable f).ref = 0 := by
  simpa using List.find?_some found

omit [DecidableEq P] [Fintype P] in
theorem cachedInode_eq_some (found : k.cachedInode dev inum = some ip) : 0 < (k.itable ip).ref := by
  have here := List.find?_some found
  simp only [decide_eq_true_eq] at here
  exact here.1

omit [DecidableEq P] [Fintype P] in
theorem cachedInode_eq_none (missing : k.cachedInode dev inum = none) (ip : Ip) :
    ¬(0 < (k.itable ip).ref ∧ (k.itable ip).dev = dev ∧ (k.itable ip).inum = inum) := by
  have none := List.find?_eq_none.mp missing ip (List.mem_finRange ip)
  simpa using none

omit [DecidableEq P] [Fintype P] in
theorem freeInode_eq_some (found : k.freeInode = some ip) : (k.itable ip).ref = 0 := by
  simpa using List.find?_some found

variable (inv : Invariant k g) (live : (g p).proc.status = .live)
include inv live

theorem file {new : File} {owned : FileId → Nat} {fresh : Finset FileId}
    (files : FilesOk (update k.ftable f new)
      (update g p { g p with owned := owned, fresh := fresh, held := held }))
    (tokens : TokensOk k.stock (k.setFile f new).tokenOf
      (update g p { g p with owned := owned, fresh := fresh, held := held })) :
    Invariant (k.setFile f new)
      (update g p { g p with owned := owned, fresh := fresh, held := held }) where
  files := files
  tokens := tokens
  locks := inv.locks.keep rfl
  unique := inv.unique
  tx := inv.tx.change rfl
  procs := inv.procs.keep ((inv.live_iff p).mp live) rfl rfl

theorem inode {locks : Finset Ip} (tokens : TokensOk (k.setInode ip new).stock k.tokenOf
      (update g p { g p with held := held, locks := locks }))
    (locked : LocksOk (k.setInode ip new).lockOf
      (update g p { g p with held := held, locks := locks }))
    (unique : UniqueInodes (update k.itable ip new)) :
    Invariant (k.setInode ip new) (update g p { g p with held := held, locks := locks }) where
  files := inv.files.keep rfl rfl
  tokens := tokens
  locks := locked
  unique := unique
  tx := inv.tx.change rfl
  procs := inv.procs.keep ((inv.live_iff p).mp live) rfl rfl

theorem proc {new : Proc} (status : new.status = .live ∨
      new.status = .zombie ∧ new.Clean ∧ Local.AtRest { g p with proc := new }) :
    Invariant (k.setProc p new) (update g p { g p with proc := new }) where
  files := inv.files.keep rfl rfl
  tokens := inv.tokens.keep rfl
  locks := inv.locks.keep rfl
  unique := inv.unique
  tx := inv.tx.change rfl
  procs := inv.procs.self ((inv.live_iff p).mp live) rfl rfl status

/-! ## Files -/

theorem refer {ref : Nat}
    {owned : FileId → Nat} (pos : ref ≠ 0)
    (balance : ∀ x, owned x + (if x = f then (k.ftable f).ref else 0) =
      (g p).owned x + if x = f then ref else 0)
    (shared : ∀ q, f ∉ (g q).fresh) :
    Invariant (k.setFile f { k.ftable f with ref := ref })
      (update g p { g p with owned := owned }) := by
  refine inv.file live (inv.files.change balance (fun none => absurd none pos)
    (fun q _ => shared q) fun x mem => Or.inr ⟨?_, mem⟩) ?_
  · rintro rfl
    exact shared p mem
  · rw [Kernel.tokenOf_setFile_same (by rfl)]
    exact inv.tokens.keep rfl

theorem keeps_filealloc {reply : Option FileId} (done : k.exec p .filealloc reply = some k') :
    Kept k' g p .filealloc reply := by
  cases reply with
  | none =>
    rw [Kernel.exec_filealloc_none] at done
    split at done
    · cases done
      exact Kept.nothing rfl inv
    · cases done
  | some f =>
    rw [Kernel.exec_filealloc_some] at done
    split at done
    · next found =>
      cases done
      have none := freeFile_eq_some found.symm
      have unowned : (g p).owned f = 0 := Nat.le_zero.mp (none ▸ inv.files.owned_le p f)
      have old : ∀ q, f ∉ (g q).fresh := by
        intro q mem
        have one := (inv.files.fresh q f mem).2.1
        omega
      refine Kept.own ⟨old p, rfl⟩ (inv.file live (inv.files.change (fun x => ?_) nofun
        (fun q _ => old q) fun x mem => ?_) ?_)
      · simp only [more]
        split
        · omega
        · rfl
      · obtain rfl | before := Finset.mem_insert.mp mem
        · refine Or.inl ⟨rfl, inv.files.free _ none, rfl, ?_⟩
          simp [more, unowned]
        · refine Or.inr ⟨?_, before⟩
          rintro rfl
          exact old p before
      · rw [Kernel.tokenOf_setFile_same (by rfl)]
        exact inv.tokens.keep rfl
    · cases done

theorem keeps_filedup (need : (g p).need (.filedup f)) {reply : Unit}
    (done : k.exec p (.filedup f) reply = some k') : Kept k' g p (.filedup f) reply := by
  rw [Kernel.exec_filedup] at done
  split at done
  · cases done
  · cases done
    refine Kept.own rfl (inv.refer live (Nat.succ_ne_zero _) (fun x => ?_) fun q mem => ?_)
    · simp only [more]
      split <;> omega
    · obtain rfl := inv.files.owner_unique mem need.1
      exact need.2 mem

theorem keeps_fileclose (need : (g p).need (.fileclose f)) {reply : Option File}
    (done : k.exec p (.fileclose f) reply = some k') : Kept k' g p (.fileclose f) reply := by
  have owns : 1 ≤ (g p).owned f := need
  rw [Kernel.exec_fileclose] at done
  split at done
  · cases done
  split at done
  · next shared =>
    split at done
    · next none =>
      subst none
      cases done
      have old : ∀ q, f ∉ (g q).fresh := by
        intro q mem
        have one := (inv.files.fresh q f mem).2.1
        omega
      refine Kept.own ⟨old p, rfl⟩ (inv.refer live (by omega) (fun x => ?_) old)
      simp only [less]
      split
      · next same =>
        subst same
        omega
      · rfl
    · cases done
  · next present last =>
    split at done
    · next copied =>
      subst copied
      cases done
      refine Kept.own ⟨fun fresh => (inv.files.fresh p f fresh).1, rfl⟩ (inv.file live
        (inv.files.change (fun x => ?_) (fun _ => rfl) (fun q other mem => ?_)
          fun x mem => ?_) (inv.tokens.change fun t => ?_))
      · simp only [less]
        split
        · next same =>
          subst same
          omega
        · rfl
      · exact other (inv.files.owner_unique mem owns)
      · exact Or.inr (Finset.mem_erase.mp mem)
      · have moved := RefCount.count_update k.tokenOf f none t
        have stands : k.tokenOf f = File.token { k.ftable f with ref := 0 } := rfl
        rw [Kernel.tokenOf_setFile]
        change _ = _ + Local.gain _ _ t + RefCount.count (update k.tokenOf f none) t
        rw [← stands]
        cases here : k.tokenOf f with
        | none =>
          rw [here] at moved
          simp only [Local.gain, reduceCtorEq, if_false] at moved ⊢
          omega
        | some token =>
          rw [here] at moved
          simp only [Local.gain, more, reduceCtorEq, if_false, Option.some.injEq,
            eq_comm (a := t)] at moved ⊢
          omega
    · cases done

theorem fill {f : FileId} {new : File}
    {t : Token} (fresh : f ∈ (g p).fresh) (held : 1 ≤ (g p).held t) (token : new.token = some t)
    (ref : new.ref = (k.ftable f).ref) :
    Invariant (k.setFile f new)
      (update g p { g p with fresh := (g p).fresh.erase f, held := less (g p).held t }) := by
  obtain ⟨type, one, own⟩ := inv.files.fresh p f fresh
  refine inv.file live (inv.files.change (fun x => ?_) (fun none => ?_) (fun q other mem => ?_)
    fun x mem => Or.inr (Finset.mem_erase.mp mem)) (inv.tokens.change fun t' => ?_)
  · rw [ref]
  · omega
  · exact other (inv.files.owner_unique mem (own ▸ le_refl _))
  · have moved := RefCount.count_update k.tokenOf f (some t) t'
    have before : k.tokenOf f = none := by
      rw [Kernel.tokenOf, File.token, type]
    rw [before] at moved
    rw [Kernel.tokenOf_setFile, token]
    simp only [less, reduceCtorEq, if_false, Option.some.injEq, eq_comm (a := t)] at moved ⊢
    split at moved
    · next same =>
      rw [if_pos same]
      subst same
      omega
    · next other =>
      rw [if_neg other]
      omega

/-! ## Inodes -/

theorem moreInode (ref : new.ref = (k.itable ip).ref + 1) (lock : new.lock = (k.itable ip).lock)
    (unique : UniqueInodes (update k.itable ip new)) :
    Invariant (k.setInode ip new)
      (update g p { g p with held := more (g p).held (.inode ip) }) := by
  refine inv.inode live (inv.tokens.change fun t => ?_) ?_ unique
  · rw [Kernel.stock_setInode]
    simp only [more]
    split
    · next same =>
      rw [same, ref, Kernel.stock]
      omega
    · rfl
  · rw [Kernel.lockOf_setInode_same lock]
    exact inv.locks.keep rfl

theorem lessInode (held : 1 ≤ (g p).held (.inode ip)) :
    Invariant (k.setInode ip { k.itable ip with ref := (k.itable ip).ref - 1 })
      (update g p { g p with held := less (g p).held (.inode ip) }) := by
  have bound : (g p).held (.inode ip) ≤ (k.itable ip).ref := inv.tokens.held_le p (.inode ip)
  refine inv.inode live (inv.tokens.change fun t => ?_) ?_ (inv.unique.keep rfl rfl fun some => ?_)
  · rw [Kernel.stock_setInode]
    simp only [less]
    split
    · next same =>
      rw [same, Kernel.stock]
      omega
    · rfl
  · rw [Kernel.lockOf_setInode_same (by rfl)]
    exact inv.locks.keep rfl
  · exact Nat.lt_of_lt_of_le some (Nat.sub_le ..)

theorem lockInode (new : Inode P) (free : (k.itable ip).lock = none) (lock : new.lock = some p)
    (ref : new.ref = (k.itable ip).ref) (dev : new.dev = (k.itable ip).dev)
    (inum : new.inum = (k.itable ip).inum) : ip ∉ (g p).locks ∧ Invariant (k.setInode ip new)
      (update g p { g p with locks := insert ip (g p).locks }) := by
  refine ⟨fun mem => ?_, inv.inode live ?_ ?_ (inv.unique.keep dev inum fun some => ?_)⟩
  · have held := (inv.locks ip p).mp mem
    rw [Kernel.lockOf, free] at held
    cases held
  · rw [Kernel.stock_setInode_same ref]
    exact inv.tokens.keep rfl
  · rw [Kernel.lockOf_setInode, lock]
    exact inv.locks.take free rfl
  · rwa [ref] at some

theorem unlockInode (locked : ip ∈ (g p).locks) (lock : new.lock = none)
    (ref : new.ref = (k.itable ip).ref) (dev : new.dev = (k.itable ip).dev)
    (inum : new.inum = (k.itable ip).inum) :
    Invariant (k.setInode ip new) (update g p { g p with locks := (g p).locks.erase ip }) := by
  refine inv.inode live ?_ ?_ (inv.unique.keep dev inum fun some => ?_)
  · rw [Kernel.stock_setInode_same ref]
    exact inv.tokens.keep rfl
  · rw [Kernel.lockOf_setInode, lock]
    exact inv.locks.release ((inv.locks ip p).mp locked) rfl
  · rwa [ref] at some

theorem keeps_iget {reply : Ip} (done : k.exec p (.iget dev inum) reply = some k') :
    Kept k' g p (.iget dev inum) reply := by
  cases cached : k.cachedInode dev inum with
  | some ip =>
    rw [Kernel.exec_iget_cached _ _ cached] at done
    split at done
    · next same =>
      subst same
      cases done
      exact Kept.own rfl (inv.moreInode live rfl rfl
        (inv.unique.keep rfl rfl fun _ => cachedInode_eq_some cached))
    · cases done
  | none =>
    cases found : k.freeInode with
    | none =>
      rw [Kernel.exec_iget_full _ _ cached found] at done
      cases done
    | some ip =>
      rw [Kernel.exec_iget_free _ _ cached found] at done
      split at done
      · next same =>
        subst same
        cases done
        refine Kept.own rfl (inv.moreInode live ?_ rfl
          (inv.unique.enter (cachedInode_eq_none cached)))
        rw [freeInode_eq_some found]
      · cases done

theorem keeps_ilock {reply : Inode P} (done : k.exec p (.ilock ip) reply = some k') :
    Kept k' g p (.ilock ip) reply := by
  rw [Kernel.exec_ilock] at done
  split at done
  · cases done
  next ready =>
  have free : (k.itable ip).lock = none := by
    by_contra taken
    exact ready (Or.inr taken)
  split at done
  · split at done
    · next locked =>
      cases done
      obtain ⟨new, kept⟩ := inv.lockInode live reply free (by rw [locked])
        (by rw [locked]) (by rw [locked]) (by rw [locked])
      exact Kept.own ⟨new, rfl⟩ kept
    · cases done
  · split at done
    · next loaded =>
      cases done
      obtain ⟨new, kept⟩ := inv.lockInode live reply free (by rw [loaded.2])
        (by rw [loaded.2]) (by rw [loaded.2]) (by rw [loaded.2])
      exact Kept.own ⟨new, rfl⟩ kept
    · cases done

theorem keeps_iput (need : (g p).need (.iput ip)) {reply : Bool}
    (done : k.exec p (.iput ip) reply = some k') : Kept k' g p (.iput ip) reply := by
  rw [Kernel.exec_iput] at done
  split at done
  · split at done
    · next free =>
      cases done
      obtain ⟨free, rfl⟩ := free
      obtain ⟨new, kept⟩ := inv.lockInode live
        { k.itable ip with lock := some p } free rfl rfl rfl rfl
      exact Kept.own ⟨new, rfl⟩ kept
    · cases done
  · split at done
    · next kept =>
      cases done
      subst kept
      exact Kept.own rfl (inv.lessInode live need.1)
    · cases done

/-! ## Pipes -/

theorem pipe {pi : Nat} {new : Pipe}
    (tokens : TokensOk (k.setPipe pi new).stock k.tokenOf (update g p { g p with held := held })) :
    Invariant (k.setPipe pi new) (update g p { g p with held := held }) where
  files := inv.files.keep rfl rfl
  tokens := tokens
  locks := inv.locks.keep rfl
  unique := inv.unique
  tx := inv.tx.change rfl
  procs := inv.procs.keep ((inv.live_iff p).mp live) rfl rfl

theorem keeps_kallocPipe {reply : Option Nat} (done : k.exec p .kallocPipe reply = some k') :
    Kept k' g p .kallocPipe reply := by
  cases reply with
  | none =>
    cases done
    exact Kept.nothing rfl inv
  | some pi =>
    rw [Kernel.exec_kallocPipe_some] at done
    split at done
    · next unused =>
      cases done
      refine Kept.own rfl (inv.pipe live (inv.tokens.change fun t => ?_))
      rw [Kernel.stock_setPipe]
      simp only [more]
      by_cases writes : t = .pipeEnd pi true
      · simp [writes, Kernel.stock, unused, Nat.add_comm]
      · by_cases reads : t = .pipeEnd pi false
        · simp [reads, Kernel.stock, unused, Nat.add_comm]
        · simp [writes, reads]
    · cases done

theorem keeps_pipeclose {pi : Nat}
    {writable : Bool} (need : (g p).need (.pipeclose pi writable)) {reply : Unit}
    (done : k.exec p (.pipeclose pi writable) reply = some k') :
    Kept k' g p (.pipeclose pi writable) reply := by
  have held : 1 ≤ (g p).held (.pipeEnd pi writable) := need
  have bound := inv.tokens.held_le p (.pipeEnd pi writable)
  have single : k.stock (.pipeEnd pi writable) ≤ 1 := by
    simp only [Kernel.stock]
    split <;> split <;> omega
  cases done
  refine Kept.own rfl (inv.pipe live (inv.tokens.change fun t => ?_))
  by_cases same : t = .pipeEnd pi writable
  · have closed : (k.setPipe pi (if writable then { k.pipes pi with writeopen := false }
        else { k.pipes pi with readopen := false })).stock t = 0 := by
      rw [Kernel.stock_setPipe, same]
      cases writable <;> simp
    rw [closed, same]
    simp only [less, if_true]
    omega
  · have kept : (k.setPipe pi (if writable then { k.pipes pi with writeopen := false }
        else { k.pipes pi with readopen := false })).stock t = k.stock t := by
      rw [Kernel.stock_setPipe]
      split
      · next writes => cases writable <;> simp_all [Kernel.stock]
      · split
        · next reads => cases writable <;> simp_all [Kernel.stock]
        · rfl
    rw [kept]
    simp only [less, if_neg same, Nat.sub_zero]

end Invariant

end Xv6.Files

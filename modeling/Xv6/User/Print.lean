import Mathlib.Data.List.GetD
import Mathlib.Tactic

/-!
# Printing integers

The two functions `printint` differ in the case of their digits. The buffer of 20 bytes is just
long enough for 20 digits, and for a sign and 19 digits.
-/

namespace Xv6.Print

/-- Write the digits of `x` into a buffer with room for `room` more bytes. The buffer is the
list of the bytes written, the last one first; `none` is a write past its end. -/
def putDigits (digits : Nat → Char) (base : Nat) : Nat → Nat → List Char → Option (List Char)
  | 0, _, _ => none
  | room + 1, x, buf =>
    let buf := digits (x % base) :: buf
    if x / base ≠ 0 then putDigits digits base room (x / base) buf else some buf

/-- What `printint` puts out, from the last byte of the buffer to the first. -/
def printint (digits : Nat → Char) (xx : BitVec 64) (base : Nat) (sign : Bool) :
    Option (List Char) :=
  let neg := sign && xx.slt 0
  let x := if neg then -xx else xx
  match putDigits digits base 20 x.toNat [] with
  | none => none
  | some buf => if neg then if buf.length < 20 then some ('-' :: buf) else none else some buf

namespace Kernel

def digits (d : Nat) : Char :=
  ['0', '1', '2', '3', '4', '5', '6', '7', '8', '9', 'a', 'b', 'c', 'd', 'e', 'f'].getD d '0'

def printint : BitVec 64 → Nat → Bool → Option (List Char) := Print.printint digits

end Kernel

namespace User

def digits (d : Nat) : Char :=
  ['0', '1', '2', '3', '4', '5', '6', '7', '8', '9', 'A', 'B', 'C', 'D', 'E', 'F'].getD d '0'

def printint : BitVec 64 → Nat → Bool → Option (List Char) := Print.printint digits

end User

/-! ## Reading a number -/

def readDigit (base n : Nat) (c : Char) : Option Nat :=
  match (List.range base).find? fun d => Kernel.digits d = c.toLower with
  | some d => some (base * n + d)
  | none => none

def readNat (base : Nat) (text : List Char) : Option Nat := text.foldlM (readDigit base) 0

def readInt (base : Nat) (text : List Char) : Option Int :=
  if text.head? = some '-' then (readNat base text.tail).map fun n : Nat => -(n : Int)
  else (readNat base text).map fun n : Nat => (n : Int)

structure Numeral (base x : Nat) (ds : List Char) : Prop where
  reads : readNat base ds = some x
  unsigned : '-' ∉ ds
  leading : ds.head? = some '0' → x = 0 ∧ ds = ['0']

/-- A sign for a negative value, and the digits. -/
def Canonical (base : Nat) (value : Int) (text : List Char) : Prop :=
  readInt base text = some value ∧
    ∃ ds, text = (if value < 0 then ['-'] else []) ++ ds ∧ Numeral base value.natAbs ds

/-! ## The digits -/

def Table (base : Nat) (digits : Nat → Char) : Prop :=
  2 ≤ base ∧ ∀ d < base,
    ((List.range base).find? fun e => Kernel.digits e = (digits d).toLower) = some d ∧
      digits d ≠ '-' ∧ (digits d = '0' → d = 0)

variable {base x : Nat} {digits : Nat → Char}

section

variable (table : Table base digits)
include table

theorem numeral_single (less : x < base) : Numeral base x [digits x] := by
  obtain ⟨value, unsigned, zero⟩ := table.2 x less
  refine ⟨?_, by simpa using unsigned.symm, fun leading => ?_⟩
  · simp [readNat, readDigit, value]
  · have first : digits x = '0' := Option.some.inj leading
    exact ⟨zero first, by rw [first]⟩

theorem Numeral.append {ds : List Char} (before : Numeral base (x / base) ds)
    (more : x / base ≠ 0) : Numeral base x (ds ++ [digits (x % base)]) := by
  obtain ⟨value, unsigned, -⟩ := table.2 (x % base) (Nat.mod_lt x (by have := table.1; omega))
  refine ⟨?_, ?_, fun leading => ?_⟩
  · rw [readNat, List.foldlM_append]
    change (readNat base ds).bind _ = _
    rw [before.reads]
    simp [readDigit, value, Nat.div_add_mod]
  · simp [before.unsigned, unsigned.symm]
  · cases ds with
    | nil => exact absurd (Option.some.inj before.reads).symm more
    | cons d ds => exact absurd (before.leading leading).1 more

theorem putDigits_ok (room : Nat) {k : Nat} (enough : k ≤ room) (fits : x < base ^ k)
    (pos : 0 < k) (buf : List Char) : ∃ ds,
    putDigits digits base room x buf = some (ds ++ buf) ∧ ds.length ≤ k ∧ Numeral base x ds := by
  induction room generalizing x k buf with
  | zero => omega
  | succ room ih =>
    obtain ⟨k, rfl⟩ : ∃ k', k = k' + 1 := ⟨k - 1, by omega⟩
    rw [putDigits]
    by_cases last : x / base = 0
    · have less := (Nat.div_eq_zero_iff.mp last).resolve_left (by have := table.1; omega)
      rw [if_neg (not_not.mpr last), Nat.mod_eq_of_lt less]
      exact ⟨[digits x], rfl, by simp, numeral_single table less⟩
    · have shorter : x / base < base ^ k := Nat.div_lt_of_lt_mul (by rwa [mul_comm, ← pow_succ])
      have some : 0 < k := by
        rcases k with _ | k
        · exact absurd (Nat.lt_one_iff.mp shorter) last
        · exact Nat.succ_pos k
      obtain ⟨ds, written, length, numeral⟩ :=
        ih (by omega) shorter some (digits (x % base) :: buf)
      rw [if_pos last, written]
      exact ⟨ds ++ [digits (x % base)], by simp, by simpa using length, numeral.append table last⟩

end

theorem digits_toLower (d : Nat) : (User.digits d).toLower = Kernel.digits d :=
  (List.getD_map _ _ Char.toLower).symm

theorem putDigits_toLower (room : Nat) (buf : List Char) :
    (putDigits User.digits base room x buf).map (List.map Char.toLower) =
      putDigits Kernel.digits base room x (buf.map Char.toLower) := by
  induction room generalizing x buf with
  | zero => rfl
  | succ room ih =>
    rw [putDigits, putDigits]
    split
    · rw [ih, List.map_cons, digits_toLower]
    · rw [Option.map_some, List.map_cons, digits_toLower]

theorem printint_toLower (xx : BitVec 64) (sign : Bool) :
    (User.printint xx base sign).map (List.map Char.toLower) = Kernel.printint xx base sign := by
  have lower (x : Nat) := @putDigits_toLower base x 20 []
  simp only [List.map_nil] at lower
  rw [User.printint, Kernel.printint, printint, printint, ← lower]
  cases putDigits User.digits base 20 _ [] with
  | none => rfl
  | some buf =>
    dsimp only [Option.map_some]
    rw [List.length_map]
    split
    · split <;> rfl
    · rfl

/-! ## The buffer is long enough -/

theorem toNat_neg_of_negative {xx : BitVec 64} (negative : xx.slt 0 = true) :
    xx.toInt < 0 ∧ (-xx).toNat = xx.toInt.natAbs ∧ (-xx).toNat < 10 ^ 19 := by
  rw [BitVec.slt_iff_toInt_lt] at negative
  have value := BitVec.toInt_eq_toNat_cond xx
  have opposite := BitVec.toNat_neg xx
  have zero : (0 : BitVec 64).toInt = 0 := rfl
  split at value <;> omega

theorem printint_ok (table : Table base digits) (ten : 10 ≤ base) (xx : BitVec 64) (sign : Bool) :
    ∃ text, printint digits xx base sign = some text ∧ text.length ≤ 20 ∧
      Canonical base (if sign then xx.toInt else xx.toNat) text := by
  unfold printint
  by_cases neg : (sign && xx.slt 0) = true
  · obtain ⟨signed, negative⟩ := Bool.and_eq_true_iff.mp neg
    obtain ⟨below, opposite, small⟩ := toNat_neg_of_negative negative
    obtain ⟨ds, written, length, numeral⟩ := putDigits_ok table 20 (by decide)
      (small.trans_le (Nat.pow_le_pow_left ten 19)) (by decide) []
    rw [opposite] at numeral
    rw [List.append_nil] at written
    simp only [neg, if_true, written, if_pos (Nat.lt_succ_of_le length)]
    refine ⟨'-' :: ds, rfl, Nat.succ_le_succ length, ?_, ds, ?_, ?_⟩
    · have opposite : -(xx.toInt.natAbs : Int) = xx.toInt := by omega
      rw [readInt, List.head?_cons, if_pos rfl, List.tail_cons, numeral.reads, signed,
        Option.map_some, opposite]
      rfl
    · rw [signed, if_pos rfl, if_pos below]
      rfl
    · rwa [signed, if_pos rfl]
  · have value : (if sign then xx.toInt else (xx.toNat : Int)) = xx.toNat := by
      split
      · next signed =>
        rw [signed, Bool.true_and, BitVec.slt_iff_toInt_lt] at neg
        have sum := BitVec.toInt_eq_toNat_cond xx
        have zero : (0 : BitVec 64).toInt = 0 := rfl
        split at sum <;> omega
      · rfl
    have bound : xx.toNat < 10 ^ 20 := xx.isLt.trans (by decide)
    obtain ⟨ds, written, length, numeral⟩ := putDigits_ok table 20 le_rfl
      (bound.trans_le (Nat.pow_le_pow_left ten 20)) (by decide) []
    rw [List.append_nil] at written
    simp only [neg, Bool.false_eq_true, if_false, written, value]
    have unsigned : ds.head? ≠ some '-' := fun sign =>
      numeral.unsigned (List.mem_of_head? sign)
    refine ⟨ds, rfl, length, ?_, ds, ?_, numeral⟩
    · rw [readInt, if_neg unsigned, numeral.reads]
      rfl
    · rw [if_neg (by omega), List.nil_append]

theorem table_of_base (known : base = 10 ∨ base = 16) :
    Table base Kernel.digits ∧ Table base User.digits := by
  unfold Table
  rcases known with rfl | rfl <;> decide

/-- Both functions put out the value of their argument, in at most 20 bytes, and the same digits
but for the case of the letters. -/
theorem printint_exact (xx : BitVec 64) (base : Nat) (sign : Bool)
    (known : base = 10 ∨ base = 16) : ∃ text text', Kernel.printint xx base sign = some text ∧
      User.printint xx base sign = some text' ∧ text.length ≤ 20 ∧ text'.map Char.toLower = text ∧
      Canonical base (if sign then xx.toInt else xx.toNat) text ∧
      Canonical base (if sign then xx.toInt else xx.toNat) text' := by
  have ten : 10 ≤ base := by omega
  obtain ⟨kernel, user⟩ := table_of_base known
  obtain ⟨text, written, length, canonical⟩ := printint_ok kernel ten xx sign
  obtain ⟨text', written', -, canonical'⟩ := printint_ok user ten xx sign
  have lower := @printint_toLower base xx sign
  rw [User.printint, Kernel.printint, written, written'] at lower
  exact ⟨text, text', written, written', length, Option.some.inj lower, canonical, canonical'⟩

theorem printint_exact_intMin : ∃ text, Kernel.printint (BitVec.intMin 64) 10 true = some text ∧
    readInt 10 text = some (-2 ^ 63) := by
  obtain ⟨text, -, written, -, -, -, canonical, -⟩ :=
    printint_exact (BitVec.intMin 64) 10 true (Or.inl rfl)
  exact ⟨text, written, canonical.1.trans (by decide)⟩

end Xv6.Print

import Mathlib.Computability.Language
import Mathlib.Tactic

/-!
# The pattern language of `grep`

A string is the list of its characters before the NUL. `matchhere` finds the shortest repetition
first, so it is compared with the language of a pattern one item at a time.
-/

namespace Xv6.Grep

variable {c : Char} {re text : List Char}

mutual

/-- Search for `re` at the beginning of `text`. -/
def matchhere (re text : List Char) : Bool :=
  match re with
  | [] => true
  | c :: '*' :: rest => matchstar c rest text
  | c :: rest =>
    if c = '$' ∧ rest = [] then text.isEmpty
    else match text with
      | [] => false
      | x :: later => (c = '.' ∨ c = x) && matchhere rest later
termination_by (re.length, text.length)

/-- Search for `c*re` at the beginning of `text`. -/
def matchstar (c : Char) (re text : List Char) : Bool :=
  matchhere re text ||
    match text with
    | [] => false
    | x :: later => (x = c ∨ c = '.') && matchstar c re later
termination_by (re.length + 1, text.length)

end

/-- The loop of `match`, which also looks at the empty string. -/
def matchAnywhere (re : List Char) : List Char → Bool
  | [] => matchhere re []
  | x :: later => matchhere re (x :: later) || matchAnywhere re later

/-- The function `match` of the source. -/
def matchText (re text : List Char) : Bool :=
  match re with
  | '^' :: rest => matchhere rest text
  | re => matchAnywhere re text

/-! ## The language of a pattern -/

inductive Item where
  | one (c : Char)
  | many (c : Char)
  deriving DecidableEq

/-- A pattern after its `^`, read from left to right. -/
def items : List Char → List Item
  | [] => []
  | c :: '*' :: rest => .many c :: items rest
  | c :: rest => .one c :: items rest

def single (c : Char) : Language Char := {w | ∃ x, (c = '.' ∨ c = x) ∧ w = [x]}

def Item.language : Item → Language Char
  | .one c => single c
  | .many c => KStar.kstar (single c)

/-- The last item is a `$` without a star. -/
def atEnd (its : List Item) : Prop := its.getLast? = some (.one '$')

instance (its : List Item) : Decidable (atEnd its) := inferInstanceAs (Decidable (_ = _))

def language (its : List Item) : Language Char :=
  ((if atEnd its then its.dropLast else its).map Item.language).prod

/-- The text begins with a word of the pattern, and ends with it if the pattern says so. -/
def Accepts (its : List Item) (text : List Char) : Prop :=
  ∃ word rest, text = word ++ rest ∧ word ∈ language its ∧ (atEnd its → rest = [])

variable {item : Item} {its : List Item}

theorem accepts_nil (text : List Char) : Accepts [] text :=
  ⟨[], text, rfl, Language.nil_mem_one, nofun⟩

theorem accepts_end : Accepts [.one '$'] text ↔ text = [] := by
  constructor
  · rintro ⟨word, rest, rfl, inside, last⟩
    have empty : word = [] := (Language.mem_one word).mp inside
    rw [empty, last rfl, List.append_nil]
  · rintro rfl
    exact ⟨[], [], rfl, Language.nil_mem_one, fun _ => rfl⟩

theorem accepts_cons (other : item = .one '$' → its ≠ []) :
    Accepts (item :: its) text ↔
      ∃ word rest, text = word ++ rest ∧ word ∈ item.language ∧ Accepts its rest := by
  have last : atEnd (item :: its) ↔ atEnd its := by
    cases its with
    | nil => simpa [atEnd] using fun same => other same rfl
    | cons next its => simp [atEnd]
  have product : language (item :: its) = item.language * language its := by
    unfold language
    simp only [last]
    split
    · next ends =>
      cases its with
      | nil => cases ends
      | cons next its => rw [List.dropLast_cons_cons, List.map_cons, List.prod_cons]
    · rw [List.map_cons, List.prod_cons]
  constructor
  · rintro ⟨word, rest, rfl, inside, ends⟩
    rw [product, Language.mem_mul] at inside
    obtain ⟨first, here, second, there, rfl⟩ := inside
    exact ⟨first, second ++ rest, by simp, here, second, rest, rfl, there,
      fun anchored => ends (last.mpr anchored)⟩
  · rintro ⟨first, after, rfl, here, second, rest, rfl, there, ends⟩
    refine ⟨first ++ second, rest, by simp, ?_, fun anchored => ends (last.mp anchored)⟩
    rw [product]
    exact Language.append_mem_mul here there

theorem accepts_one (other : c = '$' → its ≠ []) : Accepts (.one c :: its) text ↔
    ∃ x later, text = x :: later ∧ (c = '.' ∨ c = x) ∧ Accepts its later := by
  rw [accepts_cons fun same => other (Item.one.inj same)]
  constructor
  · rintro ⟨word, rest, rfl, ⟨x, fits, rfl⟩, accepted⟩
    exact ⟨x, rest, rfl, fits, accepted⟩
  · rintro ⟨x, later, rfl, fits, accepted⟩
    exact ⟨[x], later, rfl, ⟨x, fits, rfl⟩, accepted⟩

/-- A repetition is empty, or one character and a repetition. -/
theorem accepts_many : Accepts (.many c :: its) text ↔ Accepts its text ∨
    ∃ x later, text = x :: later ∧ (c = '.' ∨ c = x) ∧ Accepts (.many c :: its) later := by
  have unfolded := Language.one_add_self_mul_kstar_eq_kstar (single c)
  have starred : Item.many c = .one '$' → its ≠ [] := nofun
  rw [accepts_cons starred]
  constructor
  · rintro ⟨word, rest, rfl, inside, accepted⟩
    rw [Item.language, ← unfolded] at inside
    rcases inside with empty | ⟨_, ⟨x, fits, rfl⟩, again, repeated, rfl⟩
    · rw [(Language.mem_one word).mp empty]
      exact Or.inl accepted
    · exact Or.inr ⟨x, again ++ rest, rfl, fits,
        (accepts_cons starred).mpr ⟨again, rest, rfl, repeated, accepted⟩⟩
  · rintro (accepted | ⟨x, later, rfl, fits, accepted⟩)
    · exact ⟨[], text, rfl, Language.nil_mem_kstar _, accepted⟩
    · obtain ⟨again, rest, rfl, repeated, accepted⟩ := (accepts_cons starred).mp accepted
      refine ⟨x :: again, rest, rfl, ?_, accepted⟩
      rw [Item.language, ← unfolded]
      exact Or.inr ⟨[x], ⟨x, fits, rfl⟩, again, repeated, rfl⟩

theorem items_ne_nil (nonempty : re ≠ []) : items re ≠ [] := by
  unfold items
  split
  · exact absurd rfl nonempty
  · exact List.cons_ne_nil _ _
  · exact List.cons_ne_nil _ _

/-! ## The matcher -/

theorem matchstar_iff (here : ∀ text, matchhere re text = true ↔ Accepts its text) :
    matchstar c re text = true ↔ Accepts (.many c :: its) text := by
  induction text with
  | nil =>
    rw [matchstar, accepts_many]
    simp [here]
  | cons x later ih =>
    rw [matchstar, accepts_many, Bool.or_eq_true, here, Bool.and_eq_true, decide_eq_true_eq,
      ih, or_comm (a := x = c), eq_comm (a := x)]
    simp

theorem matchhere_iff (re text : List Char) :
    matchhere re text = true ↔ Accepts (items re) text := by
  induction re using items.induct generalizing text with
  | case1 => simp [matchhere, items, accepts_nil]
  | case2 c rest ih =>
    rw [matchhere, items]
    exact matchstar_iff ih
  | case3 c rest starless ih =>
    rw [matchhere.eq_def, items]
    · split
      · next none => cases none
      · next c' rest' same => exact (starless rest' (List.cons.inj same).2).elim
      · next c' rest' _ same =>
        obtain ⟨rfl, rfl⟩ := List.cons.inj same
        by_cases last : c = '$' ∧ rest = []
        · obtain ⟨rfl, rfl⟩ := last
          rw [if_pos ⟨rfl, rfl⟩, items, accepts_end, List.isEmpty_iff]
        · rw [if_neg last, accepts_one fun dollar => items_ne_nil fun none => last ⟨dollar, none⟩]
          cases text with
          | nil => simp
          | cons x later => simp [ih]
    · exact starless

theorem matchAnywhere_iff (re text : List Char) : matchAnywhere re text = true ↔
    ∃ before rest, text = before ++ rest ∧ matchhere re rest = true := by
  induction text with
  | nil => simp [matchAnywhere]
  | cons x later ih =>
    rw [matchAnywhere, Bool.or_eq_true, ih]
    constructor
    · rintro (here | ⟨before, rest, rfl, found⟩)
      · exact ⟨[], x :: later, rfl, here⟩
      · exact ⟨x :: before, rest, rfl, found⟩
    · rintro ⟨before, rest, split, found⟩
      cases before with
      | nil => exact Or.inl (split ▸ found)
      | cons y before =>
        obtain ⟨rfl, rfl⟩ := List.cons.inj split
        exact Or.inr ⟨before, rest, rfl, found⟩

/-- `match` returns 1 if and only if some part of the text is a word of the pattern: a prefix
after `^`, a suffix before `$`. -/
theorem match_iff_word (re text : List Char) : matchText re text = true ↔
    ∃ before word after, text = before ++ word ++ after ∧
      word ∈ language (items (if re.head? = some '^' then re.tail else re)) ∧
      (re.head? = some '^' → before = []) ∧
      (atEnd (items (if re.head? = some '^' then re.tail else re)) → after = []) := by
  unfold matchText
  split
  · next rest =>
    simp only [List.head?_cons, List.tail_cons, if_true, true_implies, matchhere_iff]
    constructor
    · rintro ⟨word, after, rfl, inside, ends⟩
      exact ⟨[], word, after, rfl, inside, rfl, ends⟩
    · rintro ⟨_, word, after, rfl, inside, rfl, ends⟩
      exact ⟨word, after, rfl, inside, ends⟩
  · next unanchored =>
    have anywhere : ¬re.head? = some '^' := by
      rintro anchored
      obtain ⟨rest, rfl⟩ := List.head?_eq_some_iff.mp anchored
      exact unanchored rest rfl
    simp only [anywhere, if_false, false_implies, true_and, matchAnywhere_iff, matchhere_iff]
    constructor
    · rintro ⟨before, _, rfl, word, after, rfl, inside, ends⟩
      exact ⟨before, word, after, by simp, inside, ends⟩
    · rintro ⟨before, word, after, rfl, inside, ends⟩
      exact ⟨before, word ++ after, by simp, word, after, rfl, inside, ends⟩

end Xv6.Grep

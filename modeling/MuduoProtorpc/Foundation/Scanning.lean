import Mathlib.Data.Int.Notation
import Mathlib.Data.List.TakeWhile
import Mathlib.Order.Lattice
import Mathlib.Order.MinMax
import Mathlib.Algebra.Order.Ring.Int
import Mathlib.Tactic.SplitIfs

/-!
# Scanning C strings

The functions of the C library that look for a character or read a number, on the bytes from a
pointer to the end of its buffer. `strchr` and `strtoll` stop at a NUL, or at the end of the bytes,
where a C string has one.

A `Numeral` is an optionally signed decimal number, with its text and its value; `strtoll` reads it
back (`strtoll_numeral`), whatever follows it. What `strtoll` reads does not depend on what is
behind a character that cannot be part of a number (`strtoll_append_stop`).
-/

set_option autoImplicit false
set_option relaxedAutoImplicit false

namespace Foundation

/-! ### Characters -/

namespace Ascii

abbrev nul : UInt8 := 0
abbrev newline : UInt8 := 10
abbrev space : UInt8 := 32
abbrev openParen : UInt8 := 40
abbrev closeParen : UInt8 := 41
abbrev plus : UInt8 := 43
abbrev minus : UInt8 := 45
abbrev zero : UInt8 := 48
abbrev backslash : UInt8 := 92

/-- The characters of a literal. -/
def bytes (literal : String) : List UInt8 :=
  literal.toList.map Char.toUInt8

/-- `isspace` -/
def isSpace (char : UInt8) : Bool :=
  char == space || (9 ≤ char && char ≤ 13)

/-- `isdigit` -/
def isDigit (char : UInt8) : Bool :=
  zero ≤ char && char ≤ 57

/-- A character that is no part of a number, nor of what may stand before it. -/
def isStop (char : UInt8) : Bool :=
  !(isSpace char || isDigit char || char == plus || char == minus)

variable {char : UInt8}

theorem isSpace_of_isDigit (hdigit : isDigit char = true) : isSpace char = false := by
  simp only [isDigit, isSpace, Bool.and_eq_true, decide_eq_true_eq, Bool.or_eq_false_iff,
    beq_eq_false_iff_ne, ne_eq, Bool.and_eq_false_iff, decide_eq_false_iff_not,
    UInt8.le_iff_toNat_le, ← UInt8.toNat_inj] at hdigit ⊢
  have hbounds : 48 ≤ char.toNat ∧ char.toNat ≤ 57 := hdigit
  show ¬ char.toNat = 32 ∧ (¬ 9 ≤ char.toNat ∨ ¬ char.toNat ≤ 13)
  omega

theorem ne_of_isDigit {other : UInt8} (hdigit : isDigit char = true)
    (hother : isDigit other = false) : char ≠ other := by
  rintro rfl
  rw [hother] at hdigit
  cases hdigit

end Ascii

open Ascii

/-! ### Looking for a character -/

/-- `strchr`: the text from the first place of a character on. -/
def strchr (char : UInt8) : List UInt8 → Option (List UInt8)
  | [] => none
  | first :: rest =>
    if first = char then some (first :: rest)
    else if first = nul then none
    else strchr char rest

/-- What is before the first place of a character is skipped. -/
theorem strchr_skip {char : UInt8} {before : List UInt8} (rest : List UInt8)
    (hbefore : char ∉ before) (hnul : nul ∉ before) :
    strchr char (before ++ rest) = strchr char rest := by
  induction before with
  | nil => rfl
  | cons first before ih =>
    rw [List.mem_cons, not_or] at hbefore hnul
    rw [List.cons_append, strchr, if_neg (Ne.symm hbefore.1), if_neg (Ne.symm hnul.1)]
    exact ih hbefore.2 hnul.2

theorem strchr_append {char : UInt8} {before : List UInt8} (after : List UInt8)
    (hbefore : char ∉ before) (hnul : nul ∉ before) :
    strchr char (before ++ char :: after) = some (char :: after) := by
  rw [strchr_skip _ hbefore hnul]
  exact if_pos rfl

/-- The first place of a character may be before one that is known. -/
theorem strchr_eq_dropWhile {char : UInt8} {before : List UInt8} (after : List UInt8)
    (hnul : nul ∉ before) : strchr char (before ++ char :: after) =
      some ((before.dropWhile fun other ↦ decide (other ≠ char)) ++ char :: after) := by
  induction before with
  | nil => exact if_pos rfl
  | cons first before ih =>
    rw [List.mem_cons, not_or] at hnul
    by_cases hfirst : first = char
    · subst hfirst
      rw [List.dropWhile_cons_of_neg (by simp)]
      exact if_pos rfl
    · rw [List.dropWhile_cons_of_pos (by simpa using hfirst), List.cons_append, strchr,
        if_neg hfirst, if_neg (Ne.symm hnul.1), ih hnul.2]

/-- `strstr`: the text from the first occurrence of a string on. -/
def strstr (needle : List UInt8) : List UInt8 → Option (List UInt8)
  | [] => if needle = [] then some [] else none
  | first :: rest =>
    if needle <+: first :: rest then some (first :: rest)
    else if first = nul then none
    else strstr needle rest

/-- A string that has its first character only at its front is found in front of another text only
if it is in what comes before. -/
theorem prefix_of_prefix_append {first head : UInt8} {tail before rest : List UInt8}
    (hfirst : first ∉ tail) (hbegins : first :: tail <+: head :: before ++ first :: rest) :
    first :: tail <+: head :: before := by
  rcases List.prefix_or_prefix_of_prefix hbegins (List.prefix_append (head :: before) _) with
    hinside | hacross
  · exact hinside
  · obtain ⟨across, hmore⟩ := hacross
    cases across with
    | nil =>
      rw [List.append_nil] at hmore
      exact hmore ▸ List.prefix_rfl
    | cons next across =>
      rw [← hmore, List.prefix_append_right_inj] at hbegins
      obtain ⟨rfl, -⟩ := List.cons_prefix_cons.mp hbegins
      obtain ⟨-, htail⟩ := List.cons_eq_cons.mp hmore
      exact absurd (htail ▸ List.mem_append_right before List.mem_cons_self) hfirst

theorem strstr_append {first : UInt8} {tail before : List UInt8} (rest : List UInt8)
    (hfirst : first ∉ tail) (hbefore : ¬ first :: tail <:+: before) (hnul : nul ∉ before) :
    strstr (first :: tail) (before ++ (first :: tail ++ rest)) = some (first :: tail ++ rest) := by
  induction before with
  | nil => exact if_pos (List.prefix_append _ _)
  | cons head before ih =>
    rw [List.mem_cons, not_or] at hnul
    have hlater : ¬ first :: tail <:+: before := fun hinfix ↦ hbefore (List.infix_cons hinfix)
    have hhere : ¬ first :: tail <+: head :: before ++ (first :: tail ++ rest) :=
      fun hbegins ↦ hbefore (prefix_of_prefix_append hfirst hbegins).isInfix
    rw [List.cons_append] at hhere ⊢
    rw [strstr, if_neg hhere, if_neg (Ne.symm hnul.1)]
    exact ih hlater hnul.2

theorem strstr_eq_none {needle text : List UInt8} (htext : ¬ needle <:+: text) :
    strstr needle text = none := by
  induction text with
  | nil =>
    refine if_neg ?_
    rintro rfl
    exact htext List.infix_rfl
  | cons first rest ih =>
    have hhere : ¬ needle <+: first :: rest := fun hbegins ↦ htext hbegins.isInfix
    rw [strstr, if_neg hhere, ih fun hinfix ↦ htext (List.infix_cons hinfix), ite_self]

/-- `memchr`: how far it is to the first place of a character. -/
def memchr (char : UInt8) (text : List UInt8) : Option ℕ :=
  text.idxOf? char

theorem memchr_append {char : UInt8} {before : List UInt8} (after : List UInt8)
    (hbefore : char ∉ before) : memchr char (before ++ char :: after) = some before.length := by
  induction before with
  | nil => simp [memchr, List.idxOf?_cons]
  | cons first rest ih =>
    rw [List.mem_cons, not_or] at hbefore
    unfold memchr at ih ⊢
    rw [List.cons_append, List.idxOf?_cons, ih hbefore.2]
    simp [Ne.symm hbefore.1]

theorem memchr_eq_none {char : UInt8} {text : List UInt8} (htext : char ∉ text) :
    memchr char text = none :=
  List.idxOf?_eq_none_iff.mpr htext

theorem notMem_take_of_memchr {char : UInt8} {text : List UInt8} {pos : ℕ}
    (hpos : memchr char text = some pos) : char ∉ text.take pos := by
  obtain ⟨hlt, -, hbefore⟩ := List.idxOf?_eq_some_iff.mp hpos
  intro hmem
  obtain ⟨index, hindex, hchar⟩ := List.mem_take_iff_getElem.mp hmem
  exact hbefore index (by omega) hchar

/-! ### Lines -/

/-- The first line of a text, and what is behind it. -/
def splitLine (text : List UInt8) : List UInt8 × List UInt8 :=
  match memchr newline text with
  | some pos => (text.take pos, text.drop (pos + 1))
  | none => (text, [])

@[simp] theorem splitLine_nil : splitLine [] = ([], []) :=
  rfl

theorem splitLine_append {line : List UInt8} (rest : List UInt8) (hline : newline ∉ line) :
    splitLine (line ++ newline :: rest) = (line, rest) := by
  unfold splitLine
  simp only [memchr_append rest hline, List.take_left']
  rw [List.append_cons, List.drop_left' (by simp)]

/-- A line of a text; the first is line 0, and behind the last all are empty. -/
def lineAt (text : List UInt8) : ℕ → List UInt8
  | 0 => (splitLine text).1
  | index + 1 => lineAt (splitLine text).2 index

@[simp] theorem lineAt_nil (index : ℕ) : lineAt [] index = [] := by
  induction index with
  | zero => rfl
  | succ index ih => exact ih

/-! ### Taking a first part -/

section Prefix

variable {part : UInt8 → Bool} {before rest : List UInt8}

/-- A predicate fails where a text begins. -/
def Fails (part : UInt8 → Bool) (text : List UInt8) : Prop :=
  ∀ char, text.head? = some char → part char = false

theorem fails_cons {char : UInt8} (rest : List UInt8) (hchar : part char = false) :
    Fails part (char :: rest) := by
  intro first hfirst
  rwa [← Option.some.inj hfirst]

theorem Fails.append (hbefore : Fails part before) (hrest : Fails part rest) :
    Fails part (before ++ rest) := by
  cases before with
  | nil => exact hrest
  | cons first before => exact fails_cons _ (hbefore first rfl)

theorem Fails.takeWhile (hrest : Fails part rest) : rest.takeWhile part = [] := by
  cases rest with
  | nil => rfl
  | cons first rest => exact List.takeWhile_cons_of_neg (by simp [hrest first rfl])

theorem Fails.dropWhile (hrest : Fails part rest) : rest.dropWhile part = rest := by
  cases rest with
  | nil => rfl
  | cons first rest => exact List.dropWhile_cons_of_neg (by simp [hrest first rfl])

/-- A part that is followed by something else is taken as it is. -/
theorem takeWhile_append_fails (hbefore : ∀ char ∈ before, part char = true)
    (hrest : Fails part rest) : (before ++ rest).takeWhile part = before := by
  rw [List.takeWhile_append_of_pos hbefore, hrest.takeWhile, List.append_nil]

theorem dropWhile_append_fails (hbefore : ∀ char ∈ before, part char = true)
    (hrest : Fails part rest) : (before ++ rest).dropWhile part = rest := by
  rw [List.dropWhile_append_of_pos hbefore, hrest.dropWhile]

/-- Nothing is taken of what is behind something else. -/
theorem takeWhile_append_of_fails (before : List UInt8) (hrest : Fails part rest) :
    (before ++ rest).takeWhile part = before.takeWhile part := by
  induction before with
  | nil => exact hrest.takeWhile
  | cons first before ih => rw [List.cons_append, List.takeWhile_cons, List.takeWhile_cons, ih]

theorem dropWhile_append_of_fails (before : List UInt8) (hrest : Fails part rest) :
    (before ++ rest).dropWhile part = before.dropWhile part ++ rest := by
  induction before with
  | nil => exact hrest.dropWhile
  | cons first before ih =>
    rw [List.cons_append, List.dropWhile_cons, List.dropWhile_cons, ih]
    split_ifs <;> rfl

end Prefix

/-! ### Numbers -/

/-- The number that some digits stand for. -/
def digitsValue (digits : List UInt8) : ℕ :=
  digits.foldl (fun value digit ↦ 10 * value + (digit.toNat - zero.toNat)) 0

/-- The sign in front of a number, and what is behind it. -/
def splitSign : List UInt8 → Bool × List UInt8
  | [] => (false, [])
  | first :: rest =>
    if first = minus then (true, rest)
    else if first = plus then (false, rest)
    else (false, first :: rest)

/-- The next `long long` to an integer. -/
def saturate (value : ℤ) : ℤ :=
  max (-2 ^ 63) (min (2 ^ 63 - 1) value)

theorem saturate_eq {value : ℤ} (hleast : -2 ^ 63 ≤ value) (hgreatest : value < 2 ^ 63) :
    saturate value = value := by
  rw [saturate, min_eq_right (Int.le_sub_one_of_lt hgreatest), max_eq_right hleast]

/-- `strtoll` to base 10: the number, and how many characters are before `end`. A text without a
number is read as zero, and `end` is where the text begins. -/
def strtoll (text : List UInt8) : ℤ × ℕ :=
  let body := text.dropWhile isSpace
  let (negative, unsigned) := splitSign body
  let digits := unsigned.takeWhile isDigit
  if digits = [] then (0, 0)
  else
    (saturate (if negative then -digitsValue digits else digitsValue digits),
      text.length - unsigned.length + digits.length)

/-- What stands in front of a number. -/
inductive Sign
  | absent
  | plus
  | minus
  deriving DecidableEq

def Sign.text : Sign → List UInt8
  | .absent => []
  | .plus => [Ascii.plus]
  | .minus => [Ascii.minus]

/-- An optionally signed decimal number. -/
structure Numeral where
  sign : Sign
  digits : List UInt8
  digits_ne_nil : digits ≠ []
  isDigit_of_mem : ∀ digit ∈ digits, isDigit digit = true

namespace Numeral

variable (numeral : Numeral)

def text : List UInt8 :=
  numeral.sign.text ++ numeral.digits

def value : ℤ :=
  match numeral.sign with
  | .absent => digitsValue numeral.digits
  | .plus => digitsValue numeral.digits
  | .minus => -digitsValue numeral.digits

theorem text_ne_nil : numeral.text ≠ [] := by
  rw [text, ne_eq, List.append_eq_nil_iff, not_and]
  exact fun _ ↦ numeral.digits_ne_nil

/-- A numeral is written with digits and at most a sign. -/
theorem mem_text {char : UInt8} (hchar : char ∈ numeral.text) :
    isDigit char = true ∨ char = plus ∨ char = minus := by
  rcases List.mem_append.mp hchar with hsign | hdigit
  · cases hs : numeral.sign with
    | absent =>
      rw [hs] at hsign
      cases hsign
    | plus =>
      rw [hs] at hsign
      exact Or.inr (Or.inl (List.mem_singleton.mp hsign))
    | minus =>
      rw [hs] at hsign
      exact Or.inr (Or.inr (List.mem_singleton.mp hsign))
  · exact Or.inl (numeral.isDigit_of_mem char hdigit)

/-- A character that is no digit and no sign is not in a numeral. -/
theorem not_mem_text {char : UInt8} (hdigit : isDigit char = false) (hplus : char ≠ plus)
    (hminus : char ≠ minus) : char ∉ numeral.text := by
  intro hchar
  rcases numeral.mem_text hchar with hmem | hmem | hmem
  · rw [hdigit] at hmem
    cases hmem
  · exact hplus hmem
  · exact hminus hmem

theorem splitSign_text (rest : List UInt8) :
    splitSign (numeral.text ++ rest) =
      (decide (numeral.sign = .minus), numeral.digits ++ rest) := by
  cases hsign : numeral.sign with
  | absent =>
    obtain ⟨first, others, hdigits⟩ := List.exists_cons_of_ne_nil numeral.digits_ne_nil
    have hfirst : isDigit first = true := by
      apply numeral.isDigit_of_mem
      rw [hdigits]
      exact List.mem_cons_self
    rw [text, hsign, hdigits]
    show (if first = minus then _ else if first = plus then _ else _) = _
    rw [if_neg (ne_of_isDigit hfirst rfl), if_neg (ne_of_isDigit hfirst rfl)]
    rfl
  | plus =>
    rw [text, hsign]
    rfl
  | minus =>
    rw [text, hsign]
    rfl

/-- A numeral does not begin with a space. -/
theorem fails_isSpace_text (rest : List UInt8) : Fails isSpace (numeral.text ++ rest) := by
  intro char hchar
  have hmem : char ∈ numeral.text := by
    obtain ⟨first, others, htext⟩ := List.exists_cons_of_ne_nil numeral.text_ne_nil
    rw [htext] at hchar ⊢
    rw [← Option.some.inj hchar]
    exact List.mem_cons_self
  rcases numeral.mem_text hmem with hdigit | rfl | rfl
  · exact isSpace_of_isDigit hdigit
  · rfl
  · rfl

theorem fails_space_text (rest : List UInt8) :
    Fails (fun char ↦ char == space) (numeral.text ++ rest) := by
  intro char hchar
  have hspace := numeral.fails_isSpace_text rest char hchar
  exact (Bool.or_eq_false_iff.mp hspace).1

instance neZero_ten : NeZero 10 :=
  ⟨by decide⟩

/-- A number of one digit. -/
def digit (value : Fin 10) : Numeral where
  sign := .absent
  digits := [UInt8.ofNat (48 + value.val)]
  digits_ne_nil := List.cons_ne_nil _ _
  isDigit_of_mem := by
    intro digit hdigit
    have hall : ∀ value : Fin 10, isDigit (UInt8.ofNat (48 + value.val)) = true := by decide
    rw [List.mem_singleton.mp hdigit]
    exact hall value

theorem value_digit (value : Fin 10) : (digit value).value = value.val := by
  revert value
  decide

end Numeral

/-- `strtoll` reads a numeral that may have spaces before it and has no digit behind it. -/
theorem strtoll_spaces_numeral (numeral : Numeral) {spaces rest : List UInt8}
    (hspaces : ∀ char ∈ spaces, isSpace char = true) (hrest : Fails isDigit rest) :
    strtoll (spaces ++ (numeral.text ++ rest)) =
      (saturate numeral.value, spaces.length + numeral.text.length) := by
  have hbody : (spaces ++ (numeral.text ++ rest)).dropWhile isSpace = numeral.text ++ rest :=
    dropWhile_append_fails hspaces (numeral.fails_isSpace_text rest)
  have hdigits : (numeral.digits ++ rest).takeWhile isDigit = numeral.digits :=
    takeWhile_append_fails numeral.isDigit_of_mem hrest
  have hvalue : (if decide (numeral.sign = .minus) = true then -(digitsValue numeral.digits : ℤ)
      else digitsValue numeral.digits) = numeral.value := by
    unfold Numeral.value
    cases numeral.sign with
    | absent => rfl
    | plus => rfl
    | minus => rfl
  have hcount : (spaces ++ (numeral.text ++ rest)).length - (numeral.digits ++ rest).length +
      numeral.digits.length = spaces.length + numeral.text.length := by
    simp only [Numeral.text, List.length_append]
    omega
  unfold strtoll
  simp only [hbody, numeral.splitSign_text, hdigits, if_neg numeral.digits_ne_nil, hvalue, hcount]

theorem strtoll_numeral (numeral : Numeral) {rest : List UInt8} (hrest : Fails isDigit rest) :
    strtoll (numeral.text ++ rest) = (saturate numeral.value, numeral.text.length) := by
  have hread := strtoll_spaces_numeral numeral (List.forall_mem_nil _) hrest
  rwa [List.length_nil, Nat.zero_add] at hread

theorem splitSign_append (text : List UInt8) {rest : List UInt8}
    (hrest : Fails (fun char ↦ char == plus || char == minus) rest) :
    splitSign (text ++ rest) = ((splitSign text).1, (splitSign text).2 ++ rest) := by
  cases text with
  | nil =>
    cases rest with
    | nil => rfl
    | cons first rest =>
      have hfirst := hrest first rfl
      rw [Bool.or_eq_false_iff, beq_eq_false_iff_ne, beq_eq_false_iff_ne] at hfirst
      show (if first = minus then _ else if first = plus then _ else _) = _
      rw [if_neg hfirst.2, if_neg hfirst.1]
      rfl
  | cons first text =>
    rw [List.cons_append, splitSign, splitSign]
    split_ifs <;> rfl

/-- What is behind a character that is no part of a number makes no difference. -/
theorem strtoll_append_stop (text rest : List UInt8) {stop : UInt8} (hstop : isStop stop = true) :
    strtoll (text ++ stop :: rest) = strtoll text := by
  rw [isStop, Bool.not_eq_true', Bool.or_eq_false_iff, Bool.or_eq_false_iff,
    Bool.or_eq_false_iff] at hstop
  obtain ⟨⟨⟨hspace, hdigit⟩, hplus⟩, hminus⟩ := hstop
  have hbody := dropWhile_append_of_fails text (fails_cons rest hspace)
  have hsign := splitSign_append (text.dropWhile isSpace)
    (fails_cons rest (Bool.or_eq_false_iff.mpr ⟨hplus, hminus⟩))
  have hdigits := takeWhile_append_of_fails (splitSign (text.dropWhile isSpace)).2
    (fails_cons rest hdigit)
  unfold strtoll
  simp only [hbody, hsign, hdigits, List.length_append, Nat.add_sub_add_right]

end Foundation

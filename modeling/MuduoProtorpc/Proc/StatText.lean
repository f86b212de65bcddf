import MuduoProtorpc.Foundation.Scanning
import MuduoProtorpc.Wire.RpcMessage

/-!
# The text of `/proc/pid/stat`

What the kernel prints there: `pid (comm) state` and then numbers, the fourth field and those behind
it. Two programs read it, `collect` and the slave of `zurg`.
-/

set_option autoImplicit false
set_option relaxedAutoImplicit false

namespace MuduoProtorpc.Proc

open Foundation Ascii

/-- The fields of the line; `numbers` are those from the fourth on. -/
structure StatText where
  pid : Numeral
  comm : Bytes
  state : UInt8
  numbers : List Numeral
  ending : Bytes

/-- Numbers, each with a space before it. -/
def spaced (numbers : List Numeral) : Bytes :=
  numbers.flatMap fun number ↦ space :: number.text

@[simp] theorem spaced_nil : spaced [] = [] :=
  rfl

theorem spaced_cons (number : Numeral) (numbers : List Numeral) :
    spaced (number :: numbers) = space :: (number.text ++ spaced numbers) :=
  rfl

namespace StatText

variable (line : StatText)

/-- The line behind the command. -/
def afterComm : Bytes :=
  closeParen :: space :: line.state :: (spaced line.numbers ++ line.ending)

/-- The line as it is printed. -/
def text : Bytes :=
  line.pid.text ++ (space :: openParen :: (line.comm ++ line.afterComm))

/-- The number of a field, from the fourth on; the fields are counted from one. -/
def field (place : ℕ) : ℤ :=
  (line.numbers[place - 4]?.map Numeral.value).getD 0

/-- The line from a field on, from the fourth on. -/
def fromField (place : ℕ) : Bytes :=
  (spaced (line.numbers.drop (place - 4)) ++ line.ending).tail

variable {line} {place : ℕ}

/-- The first number is behind the space after the state. -/
theorem spaced_numbers (hmore : 0 < line.numbers.length) :
    spaced line.numbers ++ line.ending = space :: line.fromField 4 := by
  unfold fromField
  cases hnumbers : line.numbers with
  | nil =>
    rw [hnumbers] at hmore
    cases hmore
  | cons number rest => rfl

/-- A field begins with its number. -/
theorem fromField_eq (hfirst : 4 ≤ place) (hplace : place < 4 + line.numbers.length) :
    ∃ number : Numeral, line.field place = number.value ∧
      line.fromField place =
        number.text ++ (spaced (line.numbers.drop (place - 4 + 1)) ++ line.ending) := by
  have hindex : place - 4 < line.numbers.length := by omega
  refine ⟨line.numbers[place - 4], ?_, ?_⟩
  · rw [field, List.getElem?_eq_getElem hindex]
    rfl
  · unfold fromField
    rw [List.drop_eq_getElem_cons hindex, spaced_cons, List.cons_append, List.tail_cons,
      List.append_assoc]

/-- Between two fields is a space. -/
theorem fromField_eq_of_next (hfirst : 4 ≤ place) (hnext : place + 1 < 4 + line.numbers.length) :
    ∃ number : Numeral, line.field place = number.value ∧
      line.fromField place = number.text ++ space :: line.fromField (place + 1) := by
  obtain ⟨number, hfield, hplace⟩ := fromField_eq hfirst (Nat.lt_of_succ_lt hnext)
  have hindex : place - 4 + 1 < line.numbers.length := by omega
  have hsucc : place + 1 - 4 = place - 4 + 1 := by omega
  refine ⟨number, hfield, ?_⟩
  rw [hplace, fromField, hsucc, List.drop_eq_getElem_cons hindex, spaced_cons]
  rfl

/-- A field is not empty, and does not begin with a space. -/
theorem fromField_ne_nil (hfirst : 4 ≤ place) (hplace : place < 4 + line.numbers.length) :
    line.fromField place ≠ [] ∧ Fails (fun char ↦ char == space) (line.fromField place) := by
  obtain ⟨number, -, hfield⟩ := fromField_eq hfirst hplace
  rw [hfield]
  exact ⟨List.append_ne_nil_of_left_ne_nil number.text_ne_nil _, number.fails_space_text _⟩

end StatText

end MuduoProtorpc.Proc

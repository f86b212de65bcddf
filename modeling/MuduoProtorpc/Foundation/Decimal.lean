import Mathlib.Data.Nat.Digits.Defs
import MuduoProtorpc.Foundation.Scanning

/-!
# Natural numbers in decimal notation

`decimal` is the text that `%u` and `%d` give of a natural number. It is written with digits only
(`isDigit_of_mem_decimal`), and `strtoll` reads the number back from it (`strtoll_decimal`).
-/

set_option autoImplicit false
set_option relaxedAutoImplicit false

namespace Foundation

open Ascii

/-- The character of a digit. -/
def digitChar (value : ℕ) : UInt8 :=
  UInt8.ofNat (zero.toNat + value)

/-- A natural number in decimal notation. -/
def decimal (value : ℕ) : List UInt8 :=
  if value = 0 then [zero] else (Nat.digits 10 value).reverse.map digitChar

theorem toNat_digitChar {value : ℕ} (hvalue : value < 10) :
    (digitChar value).toNat = zero.toNat + value := by
  have hzero : zero.toNat = 48 := rfl
  rw [digitChar, UInt8.toNat_ofNat_of_lt' (by rw [hzero, UInt8.size]; omega)]

theorem isDigit_digitChar {value : ℕ} (hvalue : value < 10) :
    isDigit (digitChar value) = true := by
  have hchar := toNat_digitChar hvalue
  have hzero : zero.toNat = 48 := rfl
  have hnine : (57 : UInt8).toNat = 57 := rfl
  simp only [isDigit, Bool.and_eq_true, decide_eq_true_eq, UInt8.le_iff_toNat_le, hchar, hzero,
    hnine]
  omega

theorem isDigit_of_mem_decimal {value : ℕ} {char : UInt8} (hchar : char ∈ decimal value) :
    isDigit char = true := by
  unfold decimal at hchar
  split_ifs at hchar with hvalue
  · rw [List.mem_singleton.mp hchar]
    rfl
  · obtain ⟨digit, hdigit, rfl⟩ := List.mem_map.mp hchar
    exact isDigit_digitChar (Nat.digits_lt_base (by decide) (List.mem_reverse.mp hdigit))

theorem decimal_ne_nil (value : ℕ) : decimal value ≠ [] := by
  unfold decimal
  split_ifs with hvalue
  · exact List.cons_ne_nil _ _
  · rw [ne_eq, List.map_eq_nil_iff, List.reverse_eq_nil_iff]
    exact Nat.digits_ne_nil_iff_ne_zero.mpr hvalue

/-- The digits of a number stand for the number. -/
theorem digitsValue_decimal (value : ℕ) : digitsValue (decimal value) = value := by
  have hdigits : ∀ digits : List ℕ, (∀ digit ∈ digits, digit < 10) →
      digitsValue (digits.reverse.map digitChar) = Nat.ofDigits 10 digits := by
    intro digits
    induction digits with
    | nil => exact fun _ ↦ rfl
    | cons digit rest ih =>
      intro hall
      have hrest := ih fun other hother ↦ hall other (List.mem_cons_of_mem digit hother)
      unfold digitsValue at hrest ⊢
      rw [List.reverse_cons, List.map_append, List.foldl_append, hrest, Nat.ofDigits_cons]
      have hchar := toNat_digitChar (hall digit List.mem_cons_self)
      simp only [List.map_cons, List.map_nil, List.foldl_cons, List.foldl_nil, hchar]
      omega
  unfold decimal
  split_ifs with hvalue
  · rw [hvalue]
    rfl
  · rw [hdigits _ fun digit hdigit ↦ Nat.digits_lt_base (by decide) hdigit, Nat.ofDigits_digits]

/-- The numeral of a natural number. -/
def Numeral.ofNat (value : ℕ) : Numeral where
  sign := .absent
  digits := decimal value
  digits_ne_nil := decimal_ne_nil value
  isDigit_of_mem _ := isDigit_of_mem_decimal

/-- `strtoll` reads a number that a `long long` can hold from its decimal notation. -/
theorem strtoll_decimal {value : ℕ} {rest : List UInt8} (hfits : value < 2 ^ 63)
    (hrest : Fails isDigit rest) : (strtoll (decimal value ++ rest)).1 = value := by
  have hvalue : (Numeral.ofNat value).value = value := by
    show ((digitsValue (decimal value) : ℕ) : ℤ) = value
    rw [digitsValue_decimal]
  have hread := strtoll_numeral (Numeral.ofNat value) hrest
  rw [hvalue, saturate_eq (by omega) (by exact_mod_cast hfits)] at hread
  exact congrArg Prod.fst hread

example : decimal 9981 = bytes "9981" := by decide

end Foundation

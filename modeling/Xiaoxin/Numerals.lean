import Mathlib.Data.List.TakeWhile
import Mathlib.Data.Nat.Digits.Lemmas
import Mathlib.Tactic

/-!
# Numerals of the C library

`atoi` and `strtol` with base 16 on the characters of a string. Both skip white space,
take an optional sign and then as many digits as there are, and both stay within
`int`, which is as wide as `long` here: a number outside becomes the nearest end.
-/
namespace Xiaoxin.Numerals

/-- `isspace` in the "C" locale. -/
def isSpace (a : Char) : Bool := a = ' ' || ('\t' ≤ a && a ≤ '\r')

def isDecimal (a : Char) : Bool := '0' ≤ a && a ≤ '9'

def isHexadecimal (a : Char) : Bool :=
  isDecimal a || ('a' ≤ a && a ≤ 'f') || ('A' ≤ a && a ≤ 'F')

/-- The value of a digit; letters go on from ten. -/
def digit (a : Char) : ℕ :=
  if isDecimal a then a.toNat - '0'.toNat
  else if 'a' ≤ a then a.toNat - 'a'.toNat + 10
  else a.toNat - 'A'.toNat + 10

/-- The number that digits denote, the highest one first. -/
def number (base : ℕ) (digits : List Char) : ℕ := Nat.ofDigits base (digits.map digit).reverse

/-- Multiply and add from the first digit on. -/
def accumulate (base : ℕ) (digits : List Char) : ℕ :=
  digits.foldl (fun n a => base * n + digit a) 0

/-- The nearest `int`. -/
def saturate (negative : Bool) (n : ℕ) : ℤ :=
  if negative then max (-(n : ℤ)) (-2 ^ 31) else min (n : ℤ) (2 ^ 31 - 1)

/-- White space, an optional sign, and what `convert` makes of the rest. -/
def signed (convert : List Char → ℕ) (s : List Char) : ℤ :=
  match s.dropWhile isSpace with
  | '-' :: t => saturate true (convert t)
  | '+' :: t => saturate false (convert t)
  | t => saturate false (convert t)

def atoi (s : List Char) : ℤ := signed (fun t => accumulate 10 (t.takeWhile isDecimal)) s

/-- The optional prefix of a hexadecimal number. -/
def dropPrefix : List Char → List Char
  | '0' :: 'x' :: t => t
  | '0' :: 'X' :: t => t
  | t => t

/-- `strtol(s, NULL, 16)`. -/
def strtol (s : List Char) : ℤ :=
  signed (fun t => accumulate 16 ((dropPrefix t).takeWhile isHexadecimal)) s

/-! ## What they make of a numeral -/

theorem accumulate_eq_number (base : ℕ) (digits : List Char) :
    accumulate base digits = number base digits := by
  have hfold (n : ℕ) : digits.foldl (fun n a => base * n + digit a) n =
      Nat.ofDigits base ((digits.map digit).reverse ++ [n]) := by
    induction digits generalizing n with
    | nil => simp
    | cons a digits ih =>
      rw [List.foldl_cons, ih, List.map_cons, List.reverse_cons]
      simp only [Nat.ofDigits_append, Nat.ofDigits_singleton, List.length_append,
        List.length_singleton, List.length_reverse, List.length_map]
      ring
  rw [accumulate, hfold, Nat.ofDigits_append, Nat.ofDigits_singleton, Nat.mul_zero, Nat.add_zero,
    number]

/-- A character that can begin a number after the sign. -/
theorem signed_of_head {convert : List Char → ℕ} {s : List Char}
    (h : ∀ a ∈ s.head?, isSpace a = false ∧ a ≠ '-' ∧ a ≠ '+') :
    signed convert s = saturate false (convert s) := by
  cases s with
  | nil => rfl
  | cons a s =>
    obtain ⟨hspace, hminus, hplus⟩ := h a rfl
    have hdrop : (a :: s).dropWhile isSpace = a :: s := by
      rw [List.dropWhile_cons, hspace, if_neg Bool.false_ne_true]
    rw [signed, hdrop]
    split <;> simp_all

theorem saturate_of_lt {n : ℕ} (h : n < 2 ^ 31) : saturate false n = n := by
  rw [saturate, if_neg Bool.false_ne_true]
  omega

theorem isHexadecimal_of_isDecimal {a : Char} (h : isDecimal a = true) :
    isHexadecimal a = true := by
  simp [isHexadecimal, h]

/-- A digit is neither white space nor a sign. -/
theorem not_sign_of_isHexadecimal {a : Char} (h : isHexadecimal a = true) :
    isSpace a = false ∧ a ≠ '-' ∧ a ≠ '+' := by
  refine ⟨?_, ?_, ?_⟩
  · rw [Bool.eq_false_iff]
    intro hs
    simp only [isHexadecimal, isDecimal, isSpace, Bool.or_eq_true, Bool.and_eq_true,
      decide_eq_true_eq, Char.le_def, UInt32.le_iff_toNat_le] at h hs
    rcases hs with rfl | hs
    · simp at h
    · have h₁ : ('\r' : Char).val.toNat = 13 := rfl
      have h₂ : ('0' : Char).val.toNat = 48 := rfl
      have h₃ : ('a' : Char).val.toNat = 97 := rfl
      have h₄ : ('A' : Char).val.toNat = 65 := rfl
      omega
  · rintro rfl
    exact absurd h (by decide)
  · rintro rfl
    exact absurd h (by decide)

/-- A decimal number that is an `int` is what `atoi` returns. -/
theorem atoi_of_decimal {s : List Char} (hs : ∀ a ∈ s, isDecimal a = true)
    (hlt : number 10 s < 2 ^ 31) : atoi s = number 10 s := by
  have hhead : ∀ a ∈ s.head?, isSpace a = false ∧ a ≠ '-' ∧ a ≠ '+' := fun a ha =>
    not_sign_of_isHexadecimal (isHexadecimal_of_isDecimal (hs a (List.mem_of_mem_head? ha)))
  rw [atoi, signed_of_head hhead, List.takeWhile_eq_self_iff.mpr hs, accumulate_eq_number,
    saturate_of_lt hlt]

theorem dropPrefix_eq_or (s : List Char) : s.head? = some '0' ∨ dropPrefix s = s := by
  unfold dropPrefix
  split
  · exact .inl rfl
  · exact .inl rfl
  · exact .inr rfl

/-- A hexadecimal number that is a `long` is what `strtol` returns, with a prefix or
without one. -/
theorem strtol_of_hexadecimal {s : List Char} (hs : ∀ a ∈ dropPrefix s, isHexadecimal a = true)
    (hlt : number 16 (dropPrefix s) < 2 ^ 31) : strtol s = number 16 (dropPrefix s) := by
  have hhead : ∀ a ∈ s.head?, isSpace a = false ∧ a ≠ '-' ∧ a ≠ '+' := by
    intro a ha
    rcases dropPrefix_eq_or s with h | h
    · obtain rfl : '0' = a := by simpa [h] using ha
      exact not_sign_of_isHexadecimal rfl
    · rw [h] at hs
      exact not_sign_of_isHexadecimal (hs a (List.mem_of_mem_head? ha))
  rw [strtol, signed_of_head hhead, List.takeWhile_eq_self_iff.mpr hs, accumulate_eq_number,
    saturate_of_lt hlt]

end Xiaoxin.Numerals

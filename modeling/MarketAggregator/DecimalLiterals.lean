import MarketAggregator.Decimals
import Mathlib.Data.List.Basic
import Mathlib.Data.List.Induction
import Mathlib.Data.List.TakeWhile

/-!
# Numbers as they are written

A number without an exponent, as JSON writes it, that 96 bits and 28 places hold. The decimal
of its digits and places is rendered as the text it came from.
-/

namespace DecimalLiterals

open Decimals

/-- Digits of which the first is not zero, or zero alone. -/
def Whole (digits : List Char) : Prop := digits = ['0'] ∨ digits ≠ [] ∧ digits.head? ≠ some '0'

instance (digits : List Char) : Decidable (Whole digits) := inferInstanceAs (Decidable (_ ∨ _))

def unsigned (chars : List Char) : Option Decimal :=
  let whole := chars.takeWhile Char.isDigit
  if Whole whole then
    match chars.dropWhile Char.isDigit with
    | [] => Decimal.ofDigits false whole []
    | c :: part =>
      if c = '.' ∧ part ≠ [] ∧ part.all Char.isDigit = true then Decimal.ofDigits false whole part
      else none
  else none

/-- A negative number is not zero. -/
def literal (text : String) : Option Decimal :=
  match text.toList with
  | [] => none
  | c :: chars =>
    if c = '-' then (unsigned chars).bind (fun d =>
      if d.isZero then none else some { d with negative := true })
    else unsigned (c :: chars)

section Digits

variable {digits whole part : List Char} {c : Char} {d : Decimal}

theorem digit_bounds (digit : c.isDigit = true) : 48 ≤ c.toNat ∧ c.toNat ≤ 57 :=
  Char.isDigit_iff_toNat.mp digit

theorem digitChar_of_isDigit (digit : c.isDigit = true) : Nat.digitChar (c.toNat - 48) = c := by
  have bounds := digit_bounds digit
  apply Char.toNat_inj.mp
  rw [Nat.toNat_digitChar_of_lt_ten (by omega)]
  omega

/-- A digit string is its number with the zeros that stand before it. -/
theorem leftpad_toDigits (nonempty : digits ≠ []) (all : ∀ c ∈ digits, c.isDigit = true) :
    (Nat.toDigits 10 (Nat.ofDigitChars 10 digits 0)).leftpad digits.length '0' = digits := by
  induction digits using List.reverseRecOn with
  | nil => exact absurd rfl nonempty
  | append_singleton front c ih =>
    have digit := all c (by simp)
    have bounds := digit_bounds digit
    have small : c.toNat - 48 < 10 := by omega
    have value : Nat.ofDigitChars 10 (front ++ [c]) 0 =
        10 * Nat.ofDigitChars 10 front 0 + (c.toNat - 48) := by
      simp [Nat.ofDigitChars_append, Nat.ofDigitChars_cons]
    have single : Nat.toDigits 10 (c.toNat - 48) = [c] := by
      rw [Nat.toDigits_of_lt_base small, digitChar_of_isDigit digit]
    rw [value, List.length_append, List.length_singleton]
    by_cases none : front = []
    · subst none
      simp [single, List.leftpad]
    · have rest := ih none fun x mem => all x (by simp [mem])
      by_cases zero : Nat.ofDigitChars 10 front 0 = 0
      · rw [zero, Nat.toDigits_zero] at rest
        have positive := List.length_pos_of_ne_nil none
        have zeros : front = List.replicate (front.length - 1) '0' ++ ['0'] := rest.symm
        rw [zero, Nat.mul_zero, Nat.zero_add, single]
        change List.replicate (front.length + 1 - 1) '0' ++ [c] = front ++ [c]
        rw [zeros, ← List.replicate_succ']
        simp
      · have longer (digits : List Char) : (digits ++ [c]).leftpad (front.length + 1) '0' =
            digits.leftpad front.length '0' ++ [c] := by simp [List.leftpad]
        rw [← Nat.toDigits_append_toDigits (by decide) (Nat.pos_of_ne_zero zero) small, single,
          longer, rest]

/-- Without a zero in front it is just its number. -/
theorem toDigits_whole (nonempty : digits ≠ []) (all : ∀ c ∈ digits, c.isDigit = true)
    (leading : digits.head? ≠ some '0') :
    Nat.toDigits 10 (Nat.ofDigitChars 10 digits 0) = digits := by
  have padded := leftpad_toDigits nonempty all
  rw [List.leftpad] at padded
  cases gap : digits.length - (Nat.toDigits 10 (Nat.ofDigitChars 10 digits 0)).length with
  | zero => simpa [gap] using padded
  | succ n =>
    rw [gap] at padded
    exact absurd (congrArg List.head? padded.symm) (by simpa [List.replicate_succ] using leading)

/-- The places are counted from the end. -/
theorem leftpad_whole (shape : Whole whole) (all : ∀ c ∈ whole ++ part, c.isDigit = true) :
    (Nat.toDigits 10 (Nat.ofDigitChars 10 (whole ++ part) 0)).leftpad (part.length + 1) '0' =
      whole ++ part := by
  rcases shape with rfl | ⟨nonempty, leading⟩
  · have nonempty : '0' :: part ≠ [] := by simp
    have padded := leftpad_toDigits nonempty all
    exact padded
  · have first : (whole ++ part).head? ≠ some '0' := by
      rwa [List.head?_append_of_ne_nil _ nonempty]
    have long := List.length_pos_of_ne_nil nonempty
    rw [toDigits_whole (List.append_ne_nil_of_left_ne_nil nonempty part) all first, List.leftpad]
    simp only [List.length_append]
    rw [show part.length + 1 - (whole.length + part.length) = 0 by omega]
    rfl

theorem ofDigits_fields {negative : Bool} (h : Decimal.ofDigits negative whole part = some d) :
    d.negative = negative ∧ d.mantissa = Nat.ofDigitChars 10 (whole ++ part) 0 ∧
      d.scale = part.length := by
  have value : (whole ++ part).foldl (fun n c => n * 10 + (c.toNat - '0'.toNat)) 0 =
      Nat.ofDigitChars 10 (whole ++ part) 0 := by
    rw [Nat.ofDigitChars]
    congr 1
    funext n c
    rw [Nat.mul_comm]
  rw [Decimal.ofDigits] at h
  split at h
  · obtain rfl := Option.some.inj h
    exact ⟨rfl, value, rfl⟩
  · cases h

/-- The characters that a decimal is rendered as, after its sign. -/
def body (d : Decimal) : List Char :=
  let digits := (Nat.toDigits 10 d.mantissa).leftpad (d.scale + 1) '0'
  if d.scale = 0 then digits.take (digits.length - d.scale)
  else digits.take (digits.length - d.scale) ++ '.' :: digits.drop (digits.length - d.scale)

theorem toString_body (d : Decimal) :
    d.toString = String.ofList (if d.negative then '-' :: body d else body d) := rfl

theorem body_ofDigits (shape : Whole whole) (all : ∀ c ∈ whole ++ part, c.isDigit = true)
    (h : Decimal.ofDigits false whole part = some d) :
    body d = if part = [] then whole else whole ++ '.' :: part := by
  obtain ⟨-, mantissa, scale⟩ := ofDigits_fields h
  rw [body, mantissa, scale, leftpad_whole shape all, List.length_append, Nat.add_sub_cancel,
    List.take_left, List.drop_left]
  simp only [List.length_eq_zero_iff]

theorem ofDigits_negative {negative : Bool} (h : Decimal.ofDigits negative whole part = some d) :
    d.negative = negative := (ofDigits_fields h).1

theorem body_unsigned {chars : List Char} (h : unsigned chars = some d) :
    body d = chars ∧ d.negative = false := by
  have digits : ∀ c ∈ chars.takeWhile Char.isDigit, c.isDigit = true := fun c mem =>
    List.mem_takeWhile_imp mem
  have whole := List.takeWhile_append_dropWhile (p := Char.isDigit) (l := chars)
  rw [unsigned] at h
  split at h
  · rename_i shape
    split at h
    · rename_i rest
      rw [rest, List.append_nil] at whole
      refine ⟨?_, ofDigits_negative h⟩
      rw [body_ofDigits shape (by simpa using digits) h, if_pos rfl, whole]
    · rename_i c part rest
      split at h
      · rename_i point
        obtain ⟨rfl, nonempty, numeric⟩ := point
        refine ⟨?_, ofDigits_negative h⟩
        have all : ∀ c ∈ chars.takeWhile Char.isDigit ++ part, c.isDigit = true := by
          intro c mem
          rcases List.mem_append.mp mem with mem | mem
          · exact digits c mem
          · exact List.all_eq_true.mp numeric c mem
        rw [body_ofDigits shape all h, if_neg nonempty, ← rest, whole]
      · cases h
  · cases h

/-- A number is rendered as it was written. -/
theorem literal_toString {text : String} (h : literal text = some d) : d.toString = text := by
  rw [literal] at h
  rw [toString_body]
  split at h
  · cases h
  · rename_i c chars same
    rw [← String.ofList_toList (s := text), same]
    split at h
    · rename_i minus
      obtain ⟨e, read, h⟩ := Option.bind_eq_some_iff.mp h
      split at h
      · cases h
      · obtain rfl := Option.some.inj h
        have unchanged : body { e with negative := true } = body e := rfl
        rw [if_pos rfl, unchanged, (body_unsigned read).1, minus]
    · obtain ⟨chars, positive⟩ := body_unsigned h
      rw [positive, chars]
      rfl

end Digits

example : literal "-0.050" = some ⟨true, 50, 3, by decide, by decide⟩ := by decide

end DecimalLiterals

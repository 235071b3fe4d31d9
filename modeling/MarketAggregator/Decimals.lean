import Mathlib.Algebra.GroupWithZero.Nat
import Mathlib.Data.Int.Basic
import Mathlib.Order.Compare

/-!
# Exact decimal prices and quantities

A decimal keeps its sign, mantissa and scale, so the digits a venue sent can be
rendered again. Order and equality of prices are numeric. Parsing and arithmetic
are the decimal library's and enter as parameters.
-/

namespace Decimals

/-- A 96-bit mantissa with at most 28 places. -/
structure Decimal where
  negative : Bool
  mantissa : Nat
  scale : Nat
  fits : mantissa < 2 ^ 96
  places : scale ≤ 28
  deriving DecidableEq

namespace Decimal

/-- The value in units of the smallest place, which orders decimals of any scale. -/
def units (d : Decimal) : Int :=
  let magnitude := (d.mantissa * 10 ^ (28 - d.scale) : Nat)
  if d.negative then -magnitude else magnitude

def cmp : Decimal → Decimal → Ordering := compareOn units

instance : Std.TransCmp cmp := inferInstanceAs (Std.TransCmp (compareOn _))

def isZero (d : Decimal) : Bool := d.mantissa = 0

def ofNat (n : Nat) (fits : n < 2 ^ 96) : Decimal := ⟨false, n, 0, fits, by decide⟩

def zero : Decimal := ofNat 0 (by decide)

instance mantissaRange : NeZero (2 ^ 96 : Nat) := ⟨by decide⟩

/-- A whole number, written as a numeral. -/
def whole (n : Fin (2 ^ 96)) : Decimal := ofNat n n.isLt

/-- The digits with the point placed, including trailing zeros. -/
def toString (d : Decimal) : String :=
  let digits := (Nat.toDigits 10 d.mantissa).leftpad (d.scale + 1) '0'
  let whole := digits.take (digits.length - d.scale)
  let part := digits.drop (digits.length - d.scale)
  let body := if d.scale = 0 then whole else whole ++ '.' :: part
  String.ofList (if d.negative then '-' :: body else body)

end Decimal

/-- The decimal library's two readers. -/
structure DecimalText where
  fromStr : String → Option Decimal
  fromScientific : String → Option Decimal

def Decimal.ofDigits (negative : Bool) (whole part : List Char) : Option Decimal :=
  let mantissa := (whole ++ part).foldl (fun n c => n * 10 + (c.toNat - '0'.toNat)) 0
  if h : mantissa < 2 ^ 96 ∧ part.length ≤ 28 then
    some ⟨negative, mantissa, part.length, h.1, h.2⟩
  else none

/-- A reader of plain decimals, enough to run the model. -/
def DecimalText.plain : DecimalText where
  fromStr s :=
    let digits := s.toList
    let whole := digits.takeWhile Char.isDigit
    match whole, digits.dropWhile Char.isDigit with
    | [], _ => none
    | _, [] => Decimal.ofDigits false whole []
    | _, '.' :: part => if part.all Char.isDigit then Decimal.ofDigits false whole part else none
    | _, _ => none
  fromScientific _ := none

/-- The decimal library's arithmetic, on operands whose result it can represent. -/
structure DecimalArith where
  add : Decimal → Decimal → Decimal
  sub : Decimal → Decimal → Decimal
  mul : Decimal → Decimal → Decimal
  div : Decimal → Decimal → Decimal

/-- Arithmetic that passes its first operand on, to run the model where none is done. -/
def DecimalArith.idle : DecimalArith :=
  ⟨fun a _ => a, fun a _ => a, fun a _ => a, fun a _ => a⟩

inductive ParseError where
  | notDecimal (text : String)
  | negativeQty (d : Decimal)
  deriving DecidableEq

def ParseError.message : ParseError → String
  | .notDecimal text => "not a decimal number: " ++ text
  | .negativeQty d => "quantity may not be negative: " ++ d.toString

structure Price where
  decimal : Decimal
  deriving DecidableEq

/-- Never negative. Zero is meaningful: it deletes a level. -/
structure Qty where
  decimal : Decimal
  nonneg : decimal.negative = true → decimal.isZero = true
  deriving DecidableEq

def Price.cmp : Price → Price → Ordering := compareOn (fun p => p.decimal.units)

instance : Std.TransCmp Price.cmp := inferInstanceAs (Std.TransCmp (compareOn _))

theorem Price.cmp_lt {p q : Price} : Price.cmp p q = .lt ↔ p.decimal.units < q.decimal.units :=
  Int.compare_eq_lt

theorem Price.cmp_eq {p q : Price} : Price.cmp p q = .eq ↔ p.decimal.units = q.decimal.units :=
  Std.LawfulEqOrd.compare_eq_iff_eq

theorem Price.cmp_gt {p q : Price} : Price.cmp p q = .gt ↔ q.decimal.units < p.decimal.units :=
  Int.compare_eq_gt

def DecimalText.read (text : DecimalText) (s : String) : Except ParseError Decimal :=
  match text.fromStr s with
  | some d => .ok d
  | none => match text.fromScientific s with
    | some d => .ok d
    | none => .error (.notDecimal s)

def Price.parse (text : DecimalText) (s : String) : Except ParseError Price :=
  (text.read s).map Price.mk

def Qty.fromDecimal (d : Decimal) : Except ParseError Qty :=
  if h : d.negative = true ∧ d.isZero = false then .error (.negativeQty d)
  else .ok ⟨d, fun neg => by
    cases hz : d.isZero with
    | true => rfl
    | false => exact absurd ⟨neg, hz⟩ h⟩

def Qty.parse (text : DecimalText) (s : String) : Except ParseError Qty :=
  (text.read s).bind Qty.fromDecimal

def Qty.isDelete (q : Qty) : Bool := q.decimal.isZero

/-- Numeric equality, as the source compares quantities. -/
def Qty.sameAs (p q : Qty) : Bool := p.decimal.units = q.decimal.units

example : (Decimal.mk false 4500010 2 (by decide) (by decide)).toString = "45000.10" := by decide

end Decimals

import Mathlib.Algebra.Field.Defs
import Mathlib.Algebra.Order.Group.Abs

/-!
# Arithmetic that rounds faithfully

A number format has some of the numbers of a field, and its operations round what they compute.
Rounding is faithful when it steps over no number of the format: a bound that the format has
bounds the rounded result as well, and a result that the format has is not rounded. Rounding to
the nearest number is faithful, and so is rounding up or down.
-/

namespace FaithfulRounding

universe u

variable {α : Type u} {format : Set α}

section Order

variable [Preorder α] {q r low high : α}

/-- No number of the format lies between a number and what it is rounded to. -/
structure Faithful (format : Set α) (q r : α) : Prop where
  least : ∀ d ∈ format, d ≤ q → d ≤ r
  most : ∀ d ∈ format, q ≤ d → r ≤ d

theorem Faithful.refl (format : Set α) (q : α) : Faithful format q q :=
  ⟨fun _ _ below => below, fun _ _ above => above⟩

/-- Bounds of the format pass through the rounding. -/
theorem Faithful.between (faithful : Faithful format q r) (lows : low ∈ format)
    (highs : high ∈ format) (bounds : low ≤ q ∧ q ≤ high) : low ≤ r ∧ r ≤ high :=
  ⟨faithful.least low lows bounds.1, faithful.most high highs bounds.2⟩

end Order

/-- The four operations of a format, faithful wherever the exact result fits. -/
structure Arithmetic [Field α] [Preorder α] (format : Set α) (fits : α → Prop) where
  add : α → α → α
  sub : α → α → α
  mul : α → α → α
  div : α → α → α
  add_faithful : ∀ x y, fits (x + y) → Faithful format (x + y) (add x y)
  sub_faithful : ∀ x y, fits (x - y) → Faithful format (x - y) (sub x y)
  mul_faithful : ∀ x y, fits (x * y) → Faithful format (x * y) (mul x y)
  div_faithful : ∀ x y, fits (x / y) → Faithful format (x / y) (div x y)

/-- Arithmetic that does not round at all. -/
def Arithmetic.exact [Field α] [Preorder α] (format : Set α) (fits : α → Prop) :
    Arithmetic format fits where
  add x y := x + y
  sub x y := x - y
  mul x y := x * y
  div x y := x / y
  add_faithful _ _ _ := .refl format _
  sub_faithful _ _ _ := .refl format _
  mul_faithful _ _ _ := .refl format _
  div_faithful _ _ _ := .refl format _

end FaithfulRounding

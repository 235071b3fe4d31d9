import MarketAggregator.VenueBooks

/-!
# Parsing helpers shared by the venues

Levels arrive as pairs of decimal strings, and microtimestamps as decimal digits.
-/

namespace WireLevels

open Decimals MarketEvents VenueBooks

def levelFromStrPair (text : DecimalText) (price qty : String) : Except VenueError Level :=
  match Price.parse text price with
  | .error _ => .error (.malformed ("bad price " ++ price.quote))
  | .ok p => match Qty.parse text qty with
    | .error _ => .error (.malformed ("bad qty " ++ qty.quote))
    | .ok q => .ok ⟨p, q⟩

def levelsFromStrPairs (text : DecimalText) :
    List (String × String) → Except VenueError (List Level)
  | [] => .ok []
  | (p, q) :: pairs => do
    let level ← levelFromStrPair text p q
    let levels ← levelsFromStrPairs text pairs
    return level :: levels

/-- An optional plus sign and decimal digits, within 64 bits. -/
def parseU64 (raw : String) : Option Nat :=
  let digits := match raw.toList with
    | '+' :: rest => rest
    | chars => chars
  if digits ≠ [] ∧ digits.all Char.isDigit then
    let n := digits.foldl (fun n c => n * 10 + (c.toNat - '0'.toNat)) 0
    if n < 2 ^ 64 then some n else none
  else none

def parseMicros (raw : String) : Except VenueError Nat :=
  match parseU64 raw with
  | some micros => .ok micros
  | none => .error (.malformed ("bad microtimestamp " ++ raw.quote))

def systemTimeFromMicros (micros : Nat) : Int := micros * 1000

section Fallible

universe u v w

variable {E : Type u} {A : Type v} {B : Type v}

theorem bind_ok {x : Except E A} {f : A → Except E B} {b : B} :
    (x >>= f) = .ok b ↔ ∃ a, x = .ok a ∧ f a = .ok b := by
  cases x <;> simp [bind, Except.bind]

theorem map_ok {x : Except E A} {f : A → B} {b : B} :
    x.map f = .ok b ↔ ∃ a, x = .ok a ∧ f a = b := by
  cases x <;> simp [Except.map]

end Fallible

example : parseU64 "1700000000000001" = some 1700000000000001 := by decide

end WireLevels

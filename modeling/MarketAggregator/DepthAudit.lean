import MarketAggregator.OrderBook
import Mathlib.Data.List.Sort

/-!
# Comparing a book with a fetched depth

Both books are cut at the same price, a guard band away from our best level, and
compared by price over the range that both cover. One disagreement is timing. A
price that disagrees on enough audits in a row is a reason to distrust the book.
-/

namespace DepthAudit

open Decimals MarketEvents OrderBook OrderedMaps

structure AuditPolicy where
  guardBps : UInt32
  maxLevels : Nat
  consecutiveBeforeDesync : Nat
  deriving DecidableEq, Repr

def AuditPolicy.default : AuditPolicy := ⟨10, 500, 2⟩

structure AuditFinding where
  side : Side
  price : Price
  ours : Option Qty
  theirs : Option Qty
  deriving DecidableEq

def maxFindings : Nat := 64

inductive AuditOutcome where
  | inconclusive
  | agreed (compared : Nat)
  | mismatch (findings : List AuditFinding) (compared : Nat)
  deriving DecidableEq

abbrev PriceSet := OrderedSet Price Price.cmp

def AuditOutcome.prices : AuditOutcome → PriceSet
  | .mismatch findings _ => OrderedSet.ofKeys Price.cmp (findings.map AuditFinding.price)
  | _ => OrderedMap.empty

/-- The price at which the guard band ends, anchored on our best level. -/
def guardEdge (arith : DecimalArith) (best : Price) (side : Side) (guardBps : UInt32) : Price :=
  let bps := Decimal.ofNat guardBps.toNat (guardBps.toNat_lt.trans (by decide))
  let offset := arith.div (arith.mul best.decimal bps) (Decimal.ofNat 10000 (by decide))
  match side with
  | .bid => ⟨arith.sub best.decimal offset⟩
  | .ask => ⟨arith.add best.decimal offset⟩

/-- At or beyond the edge, away from the touch. -/
def beyond (side : Side) (edge price : Price) : Bool :=
  match side with
  | .bid => Price.cmp price edge ≠ .gt
  | .ask => Price.cmp price edge ≠ .lt

def sortBest (side : Side) (levels : List Level) : List Level :=
  match side with
  | .bid => levels.insertionSort (fun a b => Price.cmp b.price a.price ≠ .gt)
  | .ask => levels.insertionSort (fun a b => Price.cmp a.price b.price ≠ .gt)

/-- The first levels at or beyond the edge, by price. -/
def window (side : Side) (edge : Price) (maxLevels : Nat) (levels : List Level) : PriceMap :=
  OrderedMap.ofList
    (((levels.filter (fun l => beyond side edge l.price)).take maxLevels).map
      (fun l => (l.price, l.qty)))

def sameQty : Option Qty → Option Qty → Bool
  | some p, some q => p.sameAs q
  | none, none => true
  | _, _ => false

/-- The comparison over the range that both windows cover. -/
def compareWindows (side : Side) (ours theirs : PriceMap) : List AuditFinding × Nat :=
  match ours.first?, theirs.first?, ours.last?, theirs.last? with
  | some ourLow, some theirLow, some ourHigh, some theirHigh =>
    let lo := if Price.cmp ourLow.1 theirLow.1 = .gt then ourLow.1 else theirLow.1
    let hi := if Price.cmp ourHigh.1 theirHigh.1 = .gt then theirHigh.1 else ourHigh.1
    if Price.cmp lo hi = .gt then ([], 0)
    else
      let within := fun p => Price.cmp lo p ≠ .gt ∧ Price.cmp p hi ≠ .gt
      let prices := (OrderedSet.ofKeys Price.cmp
        (((ours.restrict within).entries ++ (theirs.restrict within).entries).map
          Prod.fst)).members
      let found := prices.filterMap (fun p =>
        if sameQty (ours.find? p) (theirs.find? p) then none
        else some ⟨side, p, ours.find? p, theirs.find? p⟩)
      (found.take maxFindings, prices.length)
  | _, _, _, _ => ([], 0)

def auditSide (arith : DecimalArith) (levels : Levels) (side : Side) (theirs : List Level)
    (policy : AuditPolicy) : List AuditFinding × Nat :=
  match levels.best side with
  | none => ([], 0)
  | some best =>
    let edge := guardEdge arith best.price side policy.guardBps
    let ours := window side edge policy.maxLevels (levels.ranked side)
    let theirs := window side edge policy.maxLevels
      (sortBest side (theirs.filter (fun l => !l.qty.isDelete)))
    compareWindows side ours theirs

def audit (arith : DecimalArith) (levels : Levels) (snapshotBids snapshotAsks : List Level)
    (policy : AuditPolicy) : AuditOutcome :=
  let bids := auditSide arith levels .bid snapshotBids policy
  let asks := auditSide arith levels .ask snapshotAsks policy
  let findings := (bids.1 ++ asks.1).take maxFindings
  let compared := bids.2 + asks.2
  if findings ≠ [] then .mismatch findings compared
  else if compared = 0 then .inconclusive
  else .agreed compared

/-- The streak of audits that disagreed, and the prices that disagreed in all of them. -/
structure AuditTrail where
  consecutive : Nat
  suspect : PriceSet
  audits : Nat
  mismatches : Nat
  deriving DecidableEq

namespace AuditTrail

def fresh : AuditTrail := ⟨0, OrderedMap.empty, 0, 0⟩

/-- Only prices wrong in every audit of the streak survive; none left starts it over. -/
def observe (t : AuditTrail) (outcome : AuditOutcome) (policy : AuditPolicy) :
    Option DesyncReason × AuditTrail :=
  match outcome with
  | .inconclusive => (none, { t with audits := t.audits + 1 })
  | .agreed _ =>
    (none, { t with audits := t.audits + 1, consecutive := 0, suspect := OrderedMap.empty })
  | .mismatch .. =>
    let t := { t with audits := t.audits + 1, mismatches := t.mismatches + 1 }
    let now := outcome.prices
    if t.consecutive = 0 then (none, { t with suspect := now, consecutive := 1 })
    else
      let kept := t.suspect.restrict (fun p => (now.find? p).isSome)
      if kept.size = 0 then (none, { t with suspect := now, consecutive := 1 })
      else
        let t := { t with suspect := kept, consecutive := t.consecutive + 1 }
        if t.consecutive < policy.consecutiveBeforeDesync then (none, t)
        else (kept.first?.map (fun e => .auditMismatch e.1 t.consecutive), t)

def reset (t : AuditTrail) : AuditTrail :=
  { t with consecutive := 0, suspect := OrderedMap.empty }

theorem observe_reason {t : AuditTrail} {outcome : AuditOutcome} {policy : AuditPolicy}
    {reason : DesyncReason} (h : (t.observe outcome policy).1 = some reason) :
    ∃ price consecutive, reason = .auditMismatch price consecutive := by
  unfold observe at h
  split at h
  · cases h
  · cases h
  · dsimp only at h
    split at h
    · cases h
    · split at h
      · cases h
      · split at h
        · cases h
        · obtain ⟨e, _, rfl⟩ := Option.map_eq_some_iff.mp h
          exact ⟨_, _, rfl⟩

end AuditTrail

end DepthAudit

import MarketAggregator.GuardedRuns
import MarketAggregator.OrderBook

/-!
# What every book satisfies

A book is changed by four operations with any levels and any times. Zero
quantities are never stored, pruning bounds both sides, and a book that is live
has parted sides, because an update that leaves them crossed desyncs the book
before anybody reads it.
-/

namespace BookInvariants

open Clocks Decimals GuardedRuns MarketEvents OrderBook OrderedMaps VenueStreams

inductive BookOp where
  | applySnapshot (bids asks : List Level) (integrity : Integrity) (now : IngestTime)
  | applyDelta (bids asks : List Level) (now : IngestTime)
  | markVerified (now : IngestTime)
  | markDesynced (reason : DesyncReason) (now : IngestTime)

def step (b : Book) : BookOp → Book
  | .applySnapshot bids asks integrity now => (b.applySnapshot bids asks integrity now).2
  | .applyDelta bids asks now => (b.applyDelta bids asks now).2
  | .markVerified now => b.markVerified now
  | .markDesynced reason now => b.markDesynced reason now

/-- A new book; the depth is set here or never. -/
def start (venue : VenueId) (symbol : Symbol) : Option Nat → Book
  | none => Book.new venue symbol
  | some depth => (Book.new venue symbol).withMaxDepth depth

/-- No stored level is a deletion. -/
def Stocked (side : PriceMap) : Prop := ∀ entry ∈ side.entries, entry.2.isDelete = false

structure Sound (b : Book) : Prop where
  bids : Stocked b.levels.bids
  asks : Stocked b.levels.asks
  bounded : ∀ depth, b.maxDepth = some depth →
    b.levels.bids.size ≤ depth ∧ b.levels.asks.size ≤ depth
  parted : b.state.isLive = true → ∀ bid ask, b.levels.best .bid = some bid →
    b.levels.best .ask = some ask → Price.cmp bid.price ask.price = .lt
  updated : b.state.isLive = true → b.lastUpdate.isSome = true
  earned : ∀ integrity since verified,
    b.state = .live integrity since (some verified) → integrity = .verified

/-- A snapshot, or an update of a trusted book. -/
def Rewrites (b : Book) : BookOp → Prop
  | .applySnapshot .. => True
  | .applyDelta .. => b.state.isLive = true
  | _ => False

section Levels

variable {side : PriceMap} {levels : Levels}

variable {A : Price → Prop} {B : Qty → Prop}

/-- Every price and every quantity on the side is of a kind. -/
def Every (A : Price → Prop) (B : Qty → Prop) (side : PriceMap) : Prop :=
  ∀ entry ∈ side.entries, A entry.1 ∧ B entry.2

theorem every_empty : Every A B OrderedMap.empty := List.forall_mem_nil _

theorem every_insert (every : Every A B side) {price : Price} {qty : Qty} (priced : A price)
    (kept : B qty) : Every A B (side.insert price qty) := by
  intro entry mem
  rcases OrderedMap.mem_insertEntry_cases side.sorted mem with rfl | ⟨old, held, -, rfl⟩ | ⟨mem, -⟩
  · exact ⟨priced, kept⟩
  · exact ⟨(every old held).1, kept⟩
  · exact every entry mem

theorem every_enterLevels (every : Every A B side) (entered : List Level)
    (kept : ∀ l ∈ entered, l.qty.isDelete = false → A l.price ∧ B l.qty) :
    Every A B (enterLevels side entered) := by
  induction entered generalizing side with
  | nil => exact every
  | cons l entered ih =>
    obtain ⟨own, others⟩ := List.forall_mem_cons.mp kept
    refine ih ?_ others
    cases deletion : l.qty.isDelete with
    | true => simpa [deletion] using every
    | false =>
      have more := every_insert every (own deletion).1 (own deletion).2
      simpa [deletion] using more

theorem every_applyLevels (every : Every A B side) (updates : List Level)
    (kept : ∀ l ∈ updates, l.qty.isDelete = false → A l.price ∧ B l.qty) :
    Every A B (applyLevels side updates) := by
  induction updates generalizing side with
  | nil => exact every
  | cons l updates ih =>
    obtain ⟨own, others⟩ := List.forall_mem_cons.mp kept
    refine ih ?_ others
    cases deletion : l.qty.isDelete with
    | true =>
      have removed : Every A B (side.remove l.price) :=
        fun entry mem => every entry (OrderedMap.mem_remove mem)
      simpa [deletion] using removed
    | false =>
      have more := every_insert every (own deletion).1 (own deletion).2
      simpa [deletion] using more

theorem every_prune (bids : Every A B levels.bids) (asks : Every A B levels.asks)
    (depth : Option Nat) :
    Every A B (levels.prune depth).bids ∧ Every A B (levels.prune depth).asks := by
  cases depth with
  | none => exact ⟨bids, asks⟩
  | some depth =>
    exact ⟨fun entry mem => bids entry (OrderedMap.mem_keepLast mem),
      fun entry mem => asks entry (OrderedMap.mem_keepFirst mem)⟩

theorem stocked_iff : Stocked side ↔ Every (fun _ => True) (fun q => q.isDelete = false) side :=
  forall₂_congr fun _ _ => (true_and _).symm.to_iff

theorem stocked_enterLevels (stocked : Stocked side) (entered : List Level) :
    Stocked (enterLevels side entered) :=
  stocked_iff.mpr (every_enterLevels (stocked_iff.mp stocked) entered fun _ _ kept =>
    ⟨trivial, kept⟩)

theorem stocked_applyLevels (stocked : Stocked side) (updates : List Level) :
    Stocked (applyLevels side updates) :=
  stocked_iff.mpr (every_applyLevels (stocked_iff.mp stocked) updates fun _ _ kept =>
    ⟨trivial, kept⟩)

theorem stocked_prune (bids : Stocked levels.bids) (asks : Stocked levels.asks)
    (depth : Option Nat) :
    Stocked (levels.prune depth).bids ∧ Stocked (levels.prune depth).asks :=
  (every_prune (stocked_iff.mp bids) (stocked_iff.mp asks) depth).imp stocked_iff.mpr
    stocked_iff.mpr

theorem prune_bounded (levels : Levels) {depth : Option Nat} {most : Nat}
    (limited : depth = some most) :
    (levels.prune depth).bids.size ≤ most ∧ (levels.prune depth).asks.size ≤ most := by
  subst limited
  exact ⟨OrderedMap.size_keepLast _ most, OrderedMap.size_keepFirst _ most⟩

/-- Sides that are not found crossed are parted. -/
theorem parted_of_crossed (uncrossed : levels.crossed = none) {bid ask : Level}
    (best_bid : levels.best .bid = some bid) (best_ask : levels.best .ask = some ask) :
    Price.cmp bid.price ask.price = .lt := by
  simp only [Levels.crossed, best_bid, best_ask] at uncrossed
  split at uncrossed
  · assumption
  · cases uncrossed

end Levels

section Operations

variable {b : Book}

/-- Both updates end alike: stocked levels are pruned, dated and checked for a crossing. -/
theorem sound_guardCrossed {levels : Levels} {state : BookState} {now : IngestTime}
    (bids : Stocked levels.bids) (asks : Stocked levels.asks)
    (earned : ∀ integrity since verified,
      state = .live integrity since (some verified) → integrity = .verified) :
    Sound ({ b with
      levels := levels.prune b.maxDepth
      state := state
      lastUpdate := some now : Book }.guardCrossed now).2 := by
  obtain ⟨bids, asks⟩ := stocked_prune bids asks b.maxDepth
  have bounded : ∀ depth, b.maxDepth = some depth →
      (levels.prune b.maxDepth).bids.size ≤ depth ∧ (levels.prune b.maxDepth).asks.size ≤ depth :=
    fun depth limited => prune_bounded levels limited
  rw [Book.guardCrossed]
  split
  · rename_i uncrossed
    exact ⟨bids, asks, bounded, fun _ _ _ => parted_of_crossed uncrossed, fun _ => rfl, earned⟩
  · exact ⟨bids, asks, bounded, fun live => Bool.noConfusion live,
      fun live => Bool.noConfusion live, fun _ _ _ same => BookState.noConfusion same⟩

theorem sound_applySnapshot (b : Book) (bids asks : List Level) (integrity : Integrity)
    (now : IngestTime) : Sound (b.applySnapshot bids asks integrity now).2 := by
  have empty : Stocked (OrderedMap.empty : PriceMap) := fun _ mem => absurd mem List.not_mem_nil
  refine sound_guardCrossed (stocked_enterLevels empty bids) (stocked_enterLevels empty asks) ?_
  intro _ _ _ same
  cases same

theorem sound_applyDelta (sound : Sound b) (bids asks : List Level) (now : IngestTime) :
    Sound (b.applyDelta bids asks now).2 := by
  cases live : b.state.isLive with
  | true =>
    rw [Book.applyDelta, if_pos live]
    exact sound_guardCrossed (stocked_applyLevels sound.bids bids)
      (stocked_applyLevels sound.asks asks) sound.earned
  | false =>
    rw [applyDelta_down live]
    exact sound

theorem sound_markVerified (sound : Sound b) (now : IngestTime) : Sound (b.markVerified now) := by
  rw [Book.markVerified]
  split
  · rename_i verifying
    have live : b.state.isLive = true := by
      rw [verifying]
      rfl
    refine ⟨sound.bids, sound.asks, sound.bounded, fun _ => sound.parted live,
      fun _ => sound.updated live, ?_⟩
    intro _ _ _ same
    cases same
    rfl
  · exact sound

theorem sound_markDesynced (sound : Sound b) (reason : DesyncReason) (now : IngestTime) :
    Sound (b.markDesynced reason now) :=
  ⟨sound.bids, sound.asks, sound.bounded, fun live => Bool.noConfusion live,
    fun live => Bool.noConfusion live, fun _ _ _ same => BookState.noConfusion same⟩

theorem sound_step (b : Book) (op : BookOp) (sound : Sound b) : Sound (step b op) := by
  cases op with
  | applySnapshot bids asks integrity now => exact sound_applySnapshot b bids asks integrity now
  | applyDelta bids asks now => exact sound_applyDelta sound bids asks now
  | markVerified now => exact sound_markVerified sound now
  | markDesynced reason now => exact sound_markDesynced sound reason now

theorem sound_start (venue : VenueId) (symbol : Symbol) (depth : Option Nat) :
    Sound (start venue symbol depth) := by
  have empty : Stocked (OrderedMap.empty : PriceMap) := fun _ mem => absurd mem List.not_mem_nil
  cases depth with
  | none =>
    exact ⟨empty, empty, nofun, fun live => Bool.noConfusion live,
      fun live => Bool.noConfusion live, fun _ _ _ same => BookState.noConfusion same⟩
  | some depth =>
    exact ⟨empty, empty, fun _ _ => ⟨Nat.zero_le _, Nat.zero_le _⟩,
      fun live => Bool.noConfusion live, fun live => Bool.noConfusion live,
      fun _ _ _ same => BookState.noConfusion same⟩

theorem levels_step (op : BookOp) (quiet : ¬ Rewrites b op) : (step b op).levels = b.levels := by
  cases op with
  | applySnapshot => exact absurd trivial quiet
  | applyDelta bids asks now =>
    have down : b.state.isLive = false := Bool.eq_false_iff.mpr quiet
    rw [step, applyDelta_down down]
  | markVerified now => exact markVerified_levels
  | markDesynced reason now => rfl

end Operations

/-- Every book that the operations reach is sound; only a rewrite changes its levels, and a
refused update changes nothing. -/
theorem book_sound (venue : VenueId) (symbol : Symbol) (depth : Option Nat) (ops : List BookOp) :
    Sound (exec step (start venue symbol depth) ops) ∧
      (∀ op, ¬ Rewrites (exec step (start venue symbol depth) ops) op →
        (exec step (start venue symbol depth) (ops ++ [op])).levels =
          (exec step (start venue symbol depth) ops).levels) ∧
      ∀ bids asks now, (exec step (start venue symbol depth) ops).state.isLive = false →
        (exec step (start venue symbol depth) ops).applyDelta bids asks now =
          (.error (.notLive (exec step (start venue symbol depth) ops).state.kind),
            exec step (start venue symbol depth) ops) := by
  refine ⟨exec_keeps sound_step (sound_start venue symbol depth) ops, ?_, ?_⟩
  · intro op quiet
    rw [exec_append]
    exact levels_step op quiet
  · intro bids asks now down
    exact applyDelta_down down

end BookInvariants

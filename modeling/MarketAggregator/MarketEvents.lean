import MarketAggregator.Clocks
import MarketAggregator.Decimals
import MarketAggregator.VenueStreams

/-!
# Normalised market events

Levels, and what one event says happened. The venue's own timestamp is carried to
be reported and never orders anything.
-/

namespace MarketEvents

open Clocks Decimals VenueStreams

inductive Side where
  | bid
  | ask
  deriving DecidableEq, Repr

/-- One price level. A zero quantity deletes it. -/
structure Level where
  price : Price
  qty : Qty
  deriving DecidableEq

/-- A level of whole numbers. -/
def Level.whole (price qty : Fin (2 ^ 96)) : Level :=
  ⟨⟨Decimal.whole price⟩, ⟨Decimal.whole qty, nofun⟩⟩

inductive EventKind where
  | snapshot (bids asks : List Level)
  | delta (bids asks : List Level)
  | trade (price : Price) (qty : Qty) (takerSide : Option Side)
  | checksum (value : UInt32)
  | heartbeat (counter : Option UInt64)
  deriving DecidableEq

/-- `venueTs` is a wall reading in nanoseconds from the epoch. -/
structure MarketEvent where
  venue : VenueId
  symbol : Symbol
  venueTs : Option Int
  ingestTs : IngestTime
  kind : EventKind
  deriving DecidableEq

end MarketEvents

import Mathlib.Data.List.Basic
import Mathlib.Order.Compare

/-!
# Venues, symbols and streams

One venue's feed for one symbol is a stream. Streams are ordered by venue, in the
order of declaration, and then by symbol.
-/

namespace VenueStreams

inductive VenueId where
  | coinbase
  | kraken
  | bitstamp
  | fake
  deriving DecidableEq, Repr

def VenueId.asStr : VenueId → String
  | .coinbase => "coinbase"
  | .kraken => "kraken"
  | .bitstamp => "bitstamp"
  | .fake => "fake"

structure Symbol where
  text : String
  deriving DecidableEq, Repr

structure StreamId where
  venue : VenueId
  symbol : Symbol
  deriving DecidableEq, Repr

/-- The identifier used in logs and snapshots, such as `coinbase:BTC-USD`. -/
def StreamId.key (s : StreamId) : String := s.venue.asStr ++ ":" ++ s.symbol.text

def VenueId.rank : VenueId → Nat
  | .coinbase => 0
  | .kraken => 1
  | .bitstamp => 2
  | .fake => 3

def StreamId.cmp : StreamId → StreamId → Ordering :=
  compareLex (compareOn (fun s => s.venue.rank)) (compareOn (fun s => s.symbol.text))

instance : Std.TransCmp StreamId.cmp :=
  inferInstanceAs (Std.TransCmp (compareLex (compareOn _) (compareOn _)))

theorem VenueId.rank_injective {v w : VenueId} (h : v.rank = w.rank) : v = w := by
  cases v <;> cases w <;> first | rfl | exact absurd h (by decide)

instance : Std.LawfulEqCmp StreamId.cmp where
  eq_of_compare := by
    intro a b h
    obtain ⟨hv, hs⟩ := compareLex_eq_eq.mp h
    have venue := VenueId.rank_injective (Std.LawfulEqOrd.eq_of_compare hv)
    have text := Std.LawfulEqOrd.eq_of_compare hs
    rcases a with ⟨va, ⟨ta⟩⟩
    rcases b with ⟨vb, ⟨tb⟩⟩
    cases venue
    cases text
    rfl

end VenueStreams

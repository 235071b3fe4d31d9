import MarketAggregator.SoleNode
import MarketAggregator.StreamIndependence

/-!
# A gateway over the nodes that share the streams

Every node tracks all streams and publishes those it owns. While each stream is published by one
node, a gateway cannot tell the nodes from a single one that owns all: what a node says of a
stream depends on that stream's messages alone, and its windows on the ticks that publish it.
-/

namespace ShardedViews

open AggregatorApply Clocks CrossTouch Decimals FreshestClaims GatewayMerge GuardedRuns MarketEvents
  MergeOrder NodeSnapshots OrderBook OrderedMaps SoleNode StreamIndependence VenueBooks VenueStreams
  WindowBuckets

universe u v

/-- What a turn is to one stream. A tick that does not publish the stream leaves it alone. -/
def hearing (x : StreamId) : Turn → Option Turn
  | .apply message => if message.stream = x then some (.apply message) else none
  | .publish owned now => if publishes owned x = true then some (.publish none now) else none

def heard (x : StreamId) (turns : List Turn) : List Turn := turns.filterMap (hearing x)

/-- A node as the gateway knows it, what it went through and what it publishes. -/
structure Member (κ ρ : Type) where
  report : NodeReport κ ρ
  turns : List Turn
  owned : Option (List StreamId)
  readings : StreamId → κ × ρ
  channel : ChannelMetrics

section Members

variable {σ : Type u} {κ ρ : Type} (v : VenueSync σ) (arith : TouchArith) (p : Publisher σ)

/-- What a node that starts like the others publishes after its turns. -/
def Member.published (m : Member κ ρ) (now : IngestTime) : Snapshot κ ρ :=
  ((exec (step v arith.toDecimalArith) p m.turns).snapshot arith m.owned now m.readings m.channel).1

end Members

/-- A view but for its windows. -/
def windowless {κ ρ : Type} (view : VenueView κ ρ) : VenueView κ ρ := { view with windows := [] }

def plain {κ ρ : Type} (s : SymbolView κ ρ) : SymbolView κ ρ :=
  { s with crossWindows := [], venues := s.venues.map windowless }

section Blind

variable {σ : Type u} {ω : Type v} {v : VenueSync σ} {arith : DecimalArith} {ops : WindowOps ω}
  {sink : Bool} {s : VenueState σ ω} {message : IngestMessage}

/-- A stream's state but for its windows. -/
def blind (s : VenueState σ ω) : VenueState σ Unit where
  book := s.book
  counters := s.counters
  desyncedTotal := s.desyncedTotal
  desyncedSince := s.desyncedSince
  statusSince := s.statusSince
  windows := ()
  lastTrade := s.lastTrade

end Blind

section Runs

variable {σ : Type u} {v : VenueSync σ} {arith : TouchArith} {p q : Publisher σ} {x : StreamId}
  {turns : List Turn}

end Runs

section Views

variable {σ : Type u} {κ ρ : Type} {v : VenueSync σ} {arith : TouchArith} {p : Publisher σ}
  {owned : Option (List StreamId)} {now received served : IngestTime}
  {readings : StreamId → κ × ρ} {channel : ChannelMetrics} {symbol : Symbol} {venue : VenueId}
  {policy : GatewayPolicy} {members : List (Member κ ρ)} {m whole : Member κ ρ} {x : StreamId}

/-- What a node says of a stream, if it publishes it. -/
def Member.view (v : VenueSync σ) (arith : TouchArith) (p : Publisher σ) (now : IngestTime)
    (m : Member κ ρ) (x : StreamId) : Option (VenueView κ ρ) :=
  if publishes m.owned x = true then
    ((exec (step v arith.toDecimalArith) p m.turns).agg.streams.find? x).map (fun s =>
      venueView arith p.depthLevels now m.readings (x, s))
  else none

/-- A node's claim on a stream it says something of. -/
def Member.claim (m : Member κ ρ) (lag : Nat) (view : VenueView κ ρ) : Claim κ ρ :=
  ⟨m.report.node, millis lag, aged view lag⟩

end Views

section Shared

variable {σ : Type u} {κ ρ : Type} {v : VenueSync σ} {arith : TouchArith} {p : Publisher σ}
  {now received served : IngestTime} {symbol : Symbol} {venue : VenueId} {policy : GatewayPolicy}
  {members : List (Member κ ρ)} {m whole : Member κ ρ} {x : StreamId}
  {reports others : List (NodeReport κ ρ)} {E : VenueView κ ρ → VenueView κ ρ → Prop}

/-- Claims of one lag, with related views. -/
def AlikeClaim (E : VenueView κ ρ → VenueView κ ρ → Prop) (c d : Claim κ ρ) : Prop :=
  c.lagMs = d.lagMs ∧ E c.view d.view

/-- At most one claim on either side, and the views related. -/
def AlikeClaims (E : VenueView κ ρ → VenueView κ ρ → Prop) (a b : List (Claim κ ρ)) : Prop :=
  Option.Rel (AlikeClaim E) a.head? b.head? ∧ a.length ≤ 1 ∧ b.length ≤ 1

/-- The same venues with alike claims. -/
def AlikeVenues (E : VenueView κ ρ → VenueView κ ρ → Prop)
    (a b : OrderedMap VenueId (List (Claim κ ρ)) VenueId.cmp) : Prop :=
  List.Forall₂ (fun x y => x.1 = y.1 ∧ AlikeClaims E x.2 y.2) a.entries b.entries

theorem held_alike {a b : List (Claim κ ρ)} (alike : AlikeClaims E a b) :
    Option.Rel (AlikeClaims E) (held a) (held b) := by
  have heads := alike.1
  cases a with
  | nil => cases b with
    | nil => exact .none
    | cons d b => cases heads
  | cons c a => cases b with
    | nil => cases heads
    | cons d b => exact .some alike

theorem claimed_iff {a b : List (Claim κ ρ)} (alike : AlikeClaims E a b) : a = [] ↔ b = [] := by
  have heads := alike.1
  cases a with
  | nil => cases b with
    | nil => exact Iff.rfl
    | cons d b => cases heads
  | cons c a => cases b with
    | nil => cases heads
    | cons d b => exact iff_of_false (List.cons_ne_nil c a) (List.cons_ne_nil d b)

/-- The gateway's books of the sharing nodes and of the single one. -/
theorem gather_alike (alike : ∀ symbol venue, AlikeClaims E
      (claimsOn reports served policy symbol venue) (claimsOn others served policy symbol venue)) :
    List.Forall₂ (fun a b => a.1 = b.1 ∧ AlikeVenues E a.2 b.2)
      (gather reports served policy).entries (gather others served policy).entries := by
  refine OrderedMap.forall₂_of_find? ?_
  intro symbol
  cases left : (gather reports served policy).find? symbol with
  | none => cases right : (gather others served policy).find? symbol with
    | none => exact .none
    | some b =>
      obtain ⟨venue, claimed⟩ := holds_gather.claimed symbol b right
      exact absurd ((claimed_iff (alike symbol venue)).mp (claimsOn_absent left)) claimed
  | some a => cases right : (gather others served policy).find? symbol with
    | none =>
      obtain ⟨venue, claimed⟩ := holds_gather.claimed symbol a left
      exact absurd ((claimed_iff (alike symbol venue)).mpr (claimsOn_absent right)) claimed
    | some b =>
      have venues := OrderedMap.forall₂_of_find? (m := a) (n := b) (R := AlikeClaims E)
      refine .some (venues fun venue => ?_)
      rw [claimsOn_found left, claimsOn_found right]
      exact held_alike (alike symbol venue)

theorem serve_alike {a b : List (Claim κ ρ)} (alike : AlikeClaims E a b) :
    Option.Rel (AlikeClaim E) (serve a) (serve b) := by
  obtain ⟨heads, short, short'⟩ := alike
  have alone : ∀ l : List (Claim κ ρ), l.length ≤ 1 → serve l = l.head? := fun l short => by
    rw [serve, if_neg (by omega)]
  rw [alone a short, alone b short']
  exact heads

/-- What is served of the venues of one symbol. -/
def servedOf (byVenue : OrderedMap VenueId (List (Claim κ ρ)) VenueId.cmp) :
    List (VenueId × Claim κ ρ) :=
  byVenue.entries.filterMap (fun e => (serve e.2).map (fun claim => (e.1, claim)))

theorem served_alike {a b : OrderedMap VenueId (List (Claim κ ρ)) VenueId.cmp}
    (alike : AlikeVenues E a b) :
    List.Forall₂ (fun s t => s.1 = t.1 ∧ AlikeClaim E s.2 t.2) (servedOf a) (servedOf b) := by
  refine filterMap_related alike ?_
  rintro ⟨w, c⟩ ⟨_, d⟩ ⟨rfl, claims⟩
  have same := serve_alike claims
  dsimp only at same ⊢
  revert same
  generalize serve c = first
  generalize serve d = second
  intro same
  cases same with
  | none => exact .none
  | some here => exact .some ⟨rfl, here⟩

theorem mergeSymbol_alike {a b : Symbol × OrderedMap VenueId (List (Claim κ ρ)) VenueId.cmp}
    (alike : a.1 = b.1 ∧ AlikeVenues Eq a.2 b.2) :
    mergeSymbol arith served policy a = mergeSymbol arith served policy b := by
  have same := served_alike alike.2
  have views : (servedOf a.2).map (fun s => s.2.view) = (servedOf b.2).map (fun s => s.2.view) :=
    map_alike same fun s t h => h.2.2
  have tops : (servedOf a.2).map (fun s => (s.1, topOfBook s.2.view served)) =
      (servedOf b.2).map (fun s => (s.1, topOfBook s.2.view served)) :=
    map_alike same fun s t h => Prod.ext h.1 (congrArg (topOfBook · served) h.2.2)
  have lags : (servedOf a.2).map (fun s => (s.2.view, s.2.lagMs)) =
      (servedOf b.2).map (fun s => (s.2.view, s.2.lagMs)) :=
    map_alike same fun s t h => Prod.ext h.2.2 h.2.1
  rw [servedOf, servedOf] at views tops lags
  simp only [mergeSymbol, alike.1, views, tops, lags]

end Shared

section Sample

open ReplayedViews

end Sample

end ShardedViews

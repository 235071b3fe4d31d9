import MarketAggregator.CrossTouch

/-!
# Merging the snapshots of several nodes

A gateway holds the latest snapshot of every node and how long ago it arrived. The ages in a
snapshot are advanced by that lag, the views of one stream by several nodes compete, and the
touch and the windows of a symbol are consolidated again over the views that are served.
-/

namespace GatewayMerge

open Clocks CrossTouch Decimals MarketEvents OrderBook OrderedMaps VenueStreams WindowBuckets

inductive BookStatus where
  | uninitialized
  | live
  | desynced
  deriving DecidableEq, Repr

structure TradeView where
  price : String
  qty : String
  takerSide : Option Side
  ageMs : Nat
  deriving DecidableEq

/-- One venue's view of a symbol. The counters and rates are carried along. -/
structure VenueView (κ ρ : Type) where
  venue : VenueId
  status : BookStatus
  integrity : Option Integrity
  desyncReason : Option String
  bid : Option Level
  ask : Option Level
  bids : List Level
  asks : List Level
  spread : Option String
  mid : Option String
  ageMs : Option Nat
  statusForMs : Nat
  desyncedTotalMs : Nat
  lastVerifiedMs : Option Nat
  audits : Nat
  auditMismatches : Nat
  levelsHeld : Nat × Nat
  windows : List WindowReading
  lastTrade : Option TradeView
  counters : κ
  rates : ρ
  deriving DecidableEq

structure SymbolView (κ ρ : Type) where
  symbol : String
  weakestIntegrity : Option Integrity
  cross : CrossView
  crossWindows : List CrossWindowReading
  venues : List (VenueView κ ρ)
  deriving DecidableEq

structure ChannelMetrics where
  len : Nat
  capacity : Nat
  dropped : Nat
  deriving DecidableEq, Repr

structure Snapshot (κ ρ : Type) where
  seq : Nat
  wallUnixMs : Nat
  clock : String
  symbols : List (SymbolView κ ρ)
  channel : ChannelMetrics
  deriving DecidableEq

def gatewayClock : String := "node_monotonic+gateway_monotonic"

structure GatewayPolicy where
  maxNodeAge : Nat
  cross : CrossPolicy

structure NodeReport (κ ρ : Type) where
  node : String
  url : String
  snapshot : Option (Snapshot κ ρ)
  receivedAt : Option IngestTime
  lastError : Option String
  connects : Nat
  failures : Nat

inductive NodeExclusion where
  | neverReported
  | stale (lag : Nat)
  deriving DecidableEq, Repr

def NodeExclusion.message : NodeExclusion → String
  | .neverReported => "no snapshot received yet"
  | .stale lag => "no snapshot for " ++ toString (lag / nanosPerMilli) ++ "ms"

structure NodeStatus where
  node : String
  url : String
  included : Bool
  excludedBecause : Option String
  lagMs : Option Nat
  streams : Nat
  seq : Option Nat
  connects : Nat
  failures : Nat
  lastError : Option String
  deriving DecidableEq, Repr

structure DuplicatedStream where
  symbol : String
  venue : VenueId
  nodes : List String
  deriving DecidableEq, Repr

structure MergedSnapshot (κ ρ : Type) where
  snapshot : Snapshot κ ρ
  nodes : List NodeStatus
  duplicated : List DuplicatedStream

/-- One node's claim on a stream, with its view already aged by the lag. -/
structure Claim (κ ρ : Type) where
  node : String
  lagMs : Nat
  view : VenueView κ ρ

def saturatingAdd (a b : Nat) : Nat := min (a + b) u64Max

/-- Every age of a view, advanced by the lag. -/
def aged {κ ρ : Type} (view : VenueView κ ρ) (lag : Nat) : VenueView κ ρ :=
  let lagMs := millis lag
  { view with
    ageMs := some ((view.ageMs.map (saturatingAdd · lagMs)).getD lagMs)
    statusForMs := saturatingAdd view.statusForMs lagMs
    lastVerifiedMs := view.lastVerifiedMs.map (saturatingAdd · lagMs)
    lastTrade := view.lastTrade.map (fun t => { t with ageMs := saturatingAdd t.ageMs lagMs }) }

def effectiveAge {κ ρ : Type} (view : VenueView κ ρ) : Nat := view.ageMs.getD u64Max

/-- What the consolidation reads of a view; the times in the state are placeholders. -/
def topOfBook {κ ρ : Type} (view : VenueView κ ρ) (now : IngestTime) : TopOfBook where
  bid := view.bid
  ask := view.ask
  state := match view.status with
    | .live => .live (view.integrity.getD .orderOnly) now none
    | .desynced => .desynced now .connectionLost
    | .uninitialized => .uninitialized
  age := view.ageMs.map (· * nanosPerMilli)

def Symbol.cmp : Symbol → Symbol → Ordering := compareOn Symbol.text

instance symbolTransCmp : Std.TransCmp Symbol.cmp := inferInstanceAs (Std.TransCmp (compareOn _))

instance symbolLawfulEqCmp : Std.LawfulEqCmp Symbol.cmp where
  eq_of_compare := by
    rintro ⟨a⟩ ⟨b⟩ h
    exact congrArg Symbol.mk (Std.LawfulEqOrd.eq_of_compare h)

def VenueId.cmp : VenueId → VenueId → Ordering := compareOn VenueId.rank

instance venueTransCmp : Std.TransCmp VenueId.cmp := inferInstanceAs (Std.TransCmp (compareOn _))

instance venueLawfulEqCmp : Std.LawfulEqCmp VenueId.cmp where
  eq_of_compare := fun h => VenueId.rank_injective (Std.LawfulEqOrd.eq_of_compare h)

section Merge

variable {κ ρ : Type}

namespace NodeReport

def lag (report : NodeReport κ ρ) (now : IngestTime) : Option Nat := report.receivedAt.map now.since

/-- Why a node takes no part, if it does not. -/
def excluded (report : NodeReport κ ρ) (now : IngestTime) (policy : GatewayPolicy) :
    Option NodeExclusion :=
  match report.snapshot, report.lag now with
  | some _, some lag => if lag ≤ policy.maxNodeAge then none else some (.stale lag)
  | _, _ => some .neverReported

def status (report : NodeReport κ ρ) (now : IngestTime) (policy : GatewayPolicy) : NodeStatus where
  node := report.node
  url := report.url
  included := (report.excluded now policy).isNone
  excludedBecause := (report.excluded now policy).map NodeExclusion.message
  lagMs := (report.lag now).map millis
  streams := match report.snapshot with
    | none => 0
    | some s => (s.symbols.map (fun sym => sym.venues.length)).sum
  seq := report.snapshot.map Snapshot.seq
  connects := report.connects
  failures := report.failures
  lastError := report.lastError

/-- The snapshot of a node that takes part, and its lag. -/
def taking (report : NodeReport κ ρ) (now : IngestTime) (policy : GatewayPolicy) :
    Option (Snapshot κ ρ × Nat) :=
  match report.excluded now policy, report.snapshot, report.lag now with
  | none, some snapshot, some lag => some (snapshot, lag)
  | _, _, _ => none

/-- The claims of one node, in the order of its snapshot. -/
def claims (report : NodeReport κ ρ) (now : IngestTime) (policy : GatewayPolicy) :
    List (Symbol × VenueId × Claim κ ρ) :=
  match report.taking now policy with
  | none => []
  | some (snapshot, lag) => snapshot.symbols.flatMap (fun symbol => symbol.venues.map (fun view =>
      (⟨symbol.symbol⟩, view.venue, ⟨report.node, millis lag, aged view lag⟩)))

end NodeReport

/-- Symbol by symbol and venue by venue, the nodes that report the stream. -/
abbrev Books (κ ρ : Type) :=
  OrderedMap Symbol (OrderedMap VenueId (List (Claim κ ρ)) VenueId.cmp) Symbol.cmp

def pushClaim (books : Books κ ρ) (claim : Symbol × VenueId × Claim κ ρ) : Books κ ρ :=
  let byVenue := (books.find? claim.1).getD OrderedMap.empty
  let claims := (byVenue.find? claim.2.1).getD []
  books.insert claim.1 (byVenue.insert claim.2.1 (claims ++ [claim.2.2]))

def gather (reports : List (NodeReport κ ρ)) (now : IngestTime) (policy : GatewayPolicy) :
    Books κ ρ :=
  (reports.flatMap (fun report => report.claims now policy)).foldl pushClaim OrderedMap.empty

/-- Sums over the nodes that take part. -/
def addChannel (now : IngestTime) (policy : GatewayPolicy) (channel : ChannelMetrics)
    (report : NodeReport κ ρ) : ChannelMetrics :=
  match report.taking now policy with
  | none => channel
  | some (snapshot, _) =>
    ⟨channel.len + snapshot.channel.len, channel.capacity + snapshot.channel.capacity,
      channel.dropped + snapshot.channel.dropped⟩

/-- Freshest first, then by the label of the node. -/
def claimCmp : Claim κ ρ → Claim κ ρ → Ordering :=
  compareLex (compareOn (fun c => effectiveAge c.view)) (compareOn Claim.node)

instance claimTransCmp : Std.TransCmp (@claimCmp κ ρ) :=
  inferInstanceAs (Std.TransCmp (compareLex (compareOn _) (compareOn _)))

/-- The claim that is served. -/
def serve (claims : List (Claim κ ρ)) : Option (Claim κ ρ) :=
  (if 1 < claims.length then claims.mergeSort (fun a b => (claimCmp a b).isLE)
    else claims).head?

def duplicatedStream (symbol : Symbol) (entry : VenueId × List (Claim κ ρ)) :
    Option DuplicatedStream :=
  if 1 < entry.2.length then some ⟨symbol.text, entry.1, entry.2.map Claim.node⟩ else none

def consolidatedWindows (views : List (VenueView κ ρ × Nat)) : List CrossWindowReading :=
  consolidateWindows (views.map (fun v => ⟨v.1.venue, v.2, v.1.windows⟩))

def mergeSymbol (arith : TouchArith) (now : IngestTime) (policy : GatewayPolicy)
    (entry : Symbol × OrderedMap VenueId (List (Claim κ ρ)) VenueId.cmp) : SymbolView κ ρ :=
  let served := entry.2.entries.filterMap (fun e => (serve e.2).map (fun claim => (e.1, claim)))
  let views := served.map (fun s => s.2.view)
  { symbol := entry.1.text
    weakestIntegrity := ((views.filter (fun v => v.status = .live)).filterMap
      VenueView.integrity).min?
    cross := crossView arith (served.map (fun s => (s.1, topOfBook s.2.view now))) policy.cross
      gatewayClock
    crossWindows := consolidatedWindows (served.map (fun s => (s.2.view, s.2.lagMs)))
    venues := views }

def merge (arith : TouchArith) (reports : List (NodeReport κ ρ)) (now : IngestTime) (seq : Nat)
    (policy : GatewayPolicy) : MergedSnapshot κ ρ :=
  let books := gather reports now policy
  { snapshot :=
      { seq := seq
        wallUnixMs := unixMillis now.wall
        clock := gatewayClock
        symbols := books.entries.map (mergeSymbol arith now policy)
        channel := reports.foldl (addChannel now policy) ⟨0, 0, 0⟩ }
    nodes := reports.map (fun report => report.status now policy)
    duplicated := books.entries.flatMap (fun entry =>
      entry.2.entries.filterMap (duplicatedStream entry.1)) }

end Merge

/-- A view without levels, for the cases below. -/
def bareView (status : BookStatus) (ageMs : Option Nat) : VenueView Unit Unit where
  venue := .kraken
  status := status
  integrity := if status = .live then some .orderOnly else none
  desyncReason := none
  bid := none
  ask := none
  bids := []
  asks := []
  spread := none
  mid := none
  ageMs := ageMs
  statusForMs := 0
  desyncedTotalMs := 0
  lastVerifiedMs := none
  audits := 0
  auditMismatches := 0
  levelsHeld := (0, 0)
  windows := []
  lastTrade := none
  counters := ()
  rates := ()

/-- A report of one view, received at the origin of the clock. -/
def soleReport (node : String) (view : VenueView Unit Unit) : NodeReport Unit Unit where
  node := node
  url := ""
  snapshot := some ⟨1, 0, "node_monotonic", [⟨"BTC-USD", none,
    ⟨none, none, none, none, none, none, none, 0, false, false, [], "node_monotonic"⟩, [],
    [view]⟩], ⟨0, 0, 0⟩⟩
  receivedAt := some ⟨0, 0⟩
  lastError := none
  connects := 1
  failures := 0

/-- Two nodes that claim one stream: one has just opened it, the other updated it 5 ms ago. -/
def handover : List (NodeReport Unit Unit) :=
  [soleReport "a" (bareView .uninitialized none), soleReport "b" (bareView .live (some 5))]

def TouchArith.idle : TouchArith := ⟨DecimalArith.idle, fun d _ => d⟩

section Gathered

variable {κ ρ : Type} {now : IngestTime} {policy : GatewayPolicy}
  {reports : List (NodeReport κ ρ)} {symbol : Symbol} {venue : VenueId}

def claimsIn (flat : List (Symbol × VenueId × Claim κ ρ)) (symbol : Symbol) (venue : VenueId) :
    List (Claim κ ρ) :=
  (flat.filter (fun c => c.1 = symbol ∧ c.2.1 = venue)).map (fun c => c.2.2)

/-- The claims on a stream, in the order of the reports. -/
def claimsOn (reports : List (NodeReport κ ρ)) (now : IngestTime) (policy : GatewayPolicy)
    (symbol : Symbol) (venue : VenueId) : List (Claim κ ρ) :=
  claimsIn (reports.flatMap (fun report => report.claims now policy)) symbol venue

/-- A list that a map holds unless it is empty. -/
def held {T : Type} : List T → Option (List T)
  | [] => none
  | l => some l

@[simp] theorem held_getD {T : Type} (l : List T) : (held l).getD [] = l := by
  cases l <;> rfl

theorem held_none {T : Type} {l : List T} (h : held l = none) : l = [] := by
  cases l with
  | nil => rfl
  | cons x l => cases h

theorem symbol_cmp_eq {a b : Symbol} : Symbol.cmp a b = .eq ↔ a = b :=
  ⟨Std.LawfulEqCmp.eq_of_compare, fun h => h ▸ Std.ReflCmp.compare_self⟩

theorem venue_cmp_eq {a b : VenueId} : VenueId.cmp a b = .eq ↔ a = b :=
  ⟨Std.LawfulEqCmp.eq_of_compare, fun h => h ▸ Std.ReflCmp.compare_self⟩

/-- The books hold, under a symbol and a venue, the claims on that stream. -/
structure Holds (books : Books κ ρ) (flat : List (Symbol × VenueId × Claim κ ρ)) : Prop where
  claims : ∀ symbol venue, ((books.find? symbol).getD OrderedMap.empty).find? venue =
    held (claimsIn flat symbol venue)
  claimed : ∀ symbol byVenue, books.find? symbol = some byVenue →
    ∃ venue, claimsIn flat symbol venue ≠ []

theorem claimsIn_append (flat more : List (Symbol × VenueId × Claim κ ρ)) :
    claimsIn (flat ++ more) symbol venue = claimsIn flat symbol venue ++ claimsIn more symbol venue := by
  rw [claimsIn, List.filter_append, List.map_append]
  rfl

theorem claimsIn_own (c : Symbol × VenueId × Claim κ ρ) : claimsIn [c] c.1 c.2.1 = [c.2.2] := by
  simp [claimsIn]

theorem claimsIn_other {c : Symbol × VenueId × Claim κ ρ} (other : ¬ (c.1 = symbol ∧ c.2.1 = venue)) :
    claimsIn [c] symbol venue = [] := by
  simp [claimsIn, other]

theorem held_snoc {T : Type} (l : List T) (x : T) : held (l ++ [x]) = some (l ++ [x]) := by
  cases l <;> rfl

theorem Holds.push {books : Books κ ρ} {flat : List (Symbol × VenueId × Claim κ ρ)}
    (h : Holds books flat) (c : Symbol × VenueId × Claim κ ρ) :
    Holds (pushClaim books c) (flat ++ [c]) := by
  constructor
  · intro symbol venue
    rw [pushClaim, OrderedMap.find?_insert, claimsIn_append]
    by_cases same : symbol = c.1
    · subst same
      rw [if_pos (symbol_cmp_eq.mpr rfl), Option.getD_some, OrderedMap.find?_insert]
      by_cases own : venue = c.2.1
      · subst own
        rw [if_pos (venue_cmp_eq.mpr rfl), h.claims, held_getD, claimsIn_own, held_snoc]
      · have other : ¬ (c.1 = c.1 ∧ c.2.1 = venue) := fun both => own both.2.symm
        rw [if_neg (mt venue_cmp_eq.mp own), h.claims, claimsIn_other other, List.append_nil]
    · have other : ¬ (c.1 = symbol ∧ c.2.1 = venue) := fun both => same both.1.symm
      rw [if_neg (mt symbol_cmp_eq.mp same), h.claims, claimsIn_other other, List.append_nil]
  · intro symbol byVenue found
    rw [pushClaim, OrderedMap.find?_insert] at found
    by_cases same : symbol = c.1
    · subst same
      exact ⟨c.2.1, by simp [claimsIn_append, claimsIn_own]⟩
    · rw [if_neg (mt symbol_cmp_eq.mp same)] at found
      obtain ⟨venue, some_claim⟩ := h.claimed symbol byVenue found
      exact ⟨venue, by simp [claimsIn_append, some_claim]⟩

theorem holds_foldl (flat : List (Symbol × VenueId × Claim κ ρ)) :
    Holds (flat.foldl pushClaim OrderedMap.empty) flat := by
  induction flat using List.reverseRecOn with
  | nil =>
    constructor
    · intro symbol venue
      rfl
    · intro symbol byVenue found
      cases found
  | append_singleton flat c ih =>
    rw [List.foldl_append]
    exact ih.push c

theorem holds_gather : Holds (gather reports now policy)
    (reports.flatMap (fun report => report.claims now policy)) :=
  holds_foldl _

theorem gather_claims (symbol : Symbol) (venue : VenueId) :
    (((gather reports now policy).find? symbol).getD OrderedMap.empty).find? venue =
      held (claimsOn reports now policy symbol venue) :=
  holds_gather.claims symbol venue

theorem claimsOn_absent (absent : (gather reports now policy).find? symbol = none) :
    claimsOn reports now policy symbol venue = [] := by
  have claims : _ = held (claimsOn reports now policy symbol venue) := gather_claims symbol venue
  rw [absent] at claims
  exact held_none claims.symm

theorem claimsOn_found {byVenue : OrderedMap VenueId (List (Claim κ ρ)) VenueId.cmp}
    (found : (gather reports now policy).find? symbol = some byVenue) :
    byVenue.find? venue = held (claimsOn reports now policy symbol venue) := by
  rw [← gather_claims, found, Option.getD_some]

theorem entry_claims {byVenue : OrderedMap VenueId (List (Claim κ ρ)) VenueId.cmp}
    (found : (gather reports now policy).find? symbol = some byVenue)
    {e : VenueId × List (Claim κ ρ)} (mem : e ∈ byVenue.entries) :
    e.2 = claimsOn reports now policy symbol e.1 := by
  have claims := (OrderedMap.mem_find? mem).symm.trans (claimsOn_found found)
  have kept := congrArg (fun l => l.getD []) claims
  rw [held_getD] at kept
  exact kept

/-- Every stream is listed once at most in every snapshot. -/
def ListedOnce (reports : List (NodeReport κ ρ)) : Prop :=
  ∀ report ∈ reports, ∀ snapshot, report.snapshot = some snapshot →
    (snapshot.symbols.flatMap (fun symbol =>
      symbol.venues.map (fun view => (symbol.symbol, view.venue)))).Nodup

theorem handover_labels : (handover.map NodeReport.node).Nodup := by decide

theorem handover_listedOnce : ListedOnce handover := by
  intro report mem snapshot given
  rcases List.mem_pair.mp mem with rfl | rfl
  · cases given
    decide
  · cases given
    decide

theorem claimsOn_cons (report : NodeReport κ ρ) : claimsOn (report :: reports) now policy symbol venue =
    claimsIn (report.claims now policy) symbol venue ++ claimsOn reports now policy symbol venue := by
  rw [claimsOn, List.flatMap_cons, claimsIn_append]
  rfl

theorem taking_snapshot {report : NodeReport κ ρ} {taken : Snapshot κ ρ × Nat}
    (h : report.taking now policy = some taken) : report.snapshot = some taken.1 := by
  rw [NodeReport.taking] at h
  split at h
  · rename_i snapshot lag _ given _
    cases h
    exact given
  · cases h

theorem claimsIn_length {flat : List (Symbol × VenueId × Claim κ ρ)}
    (once : (flat.map (fun c => (c.1, c.2.1))).Nodup) : (claimsIn flat symbol venue).length ≤ 1 := by
  have keys : ((flat.filter (fun c => c.1 = symbol ∧ c.2.1 = venue)).map
      (fun c => (c.1, c.2.1))) =
      List.replicate (claimsIn flat symbol venue).length (symbol, venue) := by
    refine List.eq_replicate_iff.mpr ⟨by simp [claimsIn], ?_⟩
    intro key mem
    obtain ⟨c, given, rfl⟩ := List.mem_map.mp mem
    obtain ⟨rfl, rfl⟩ := of_decide_eq_true (List.mem_filter.mp given).2
    rfl
  have nodup : (List.replicate (claimsIn flat symbol venue).length (symbol, venue)).Nodup := by
    rw [← keys]
    exact once.sublist (List.filter_sublist.map _)
  exact List.nodup_replicate.mp nodup

theorem claims_node {report : NodeReport κ ρ} {c : Symbol × VenueId × Claim κ ρ}
    (mem : c ∈ report.claims now policy) : c.2.2.node = report.node := by
  rw [NodeReport.claims] at mem
  split at mem
  · cases mem
  · obtain ⟨symbol, -, mem⟩ := List.mem_flatMap.mp mem
    obtain ⟨view, -, rfl⟩ := List.mem_map.mp mem
    rfl

theorem claims_once {report : NodeReport κ ρ}
    (once : ∀ snapshot, report.snapshot = some snapshot → (snapshot.symbols.flatMap (fun symbol =>
      symbol.venues.map (fun view => (symbol.symbol, view.venue)))).Nodup) :
    ((report.claims now policy).map (fun c => (c.1, c.2.1))).Nodup := by
  rw [NodeReport.claims]
  split
  · exact List.nodup_nil
  · rename_i snapshot lag taken
    have listed := once snapshot (taking_snapshot taken)
    have wrap : Function.Injective (fun key : String × VenueId => ((⟨key.1⟩ : Symbol), key.2)) := by
      rintro ⟨a, v⟩ ⟨b, w⟩ same
      cases same
      rfl
    have wrapped := listed.map wrap
    simpa [List.map_flatMap, Function.comp_def] using wrapped

/-- One node claims a stream once at most, under its own label. -/
theorem claimsIn_report {report : NodeReport κ ρ}
    (once : ∀ snapshot, report.snapshot = some snapshot → (snapshot.symbols.flatMap (fun symbol =>
      symbol.venues.map (fun view => (symbol.symbol, view.venue)))).Nodup) :
    ((claimsIn (report.claims now policy) symbol venue).map Claim.node).Sublist [report.node] := by
  have short : (claimsIn (report.claims now policy) symbol venue).length ≤ 1 :=
    claimsIn_length (claims_once once)
  cases own : claimsIn (report.claims now policy) symbol venue with
  | nil => exact List.nil_sublist _
  | cons c rest =>
    rw [own, List.length_cons] at short
    obtain rfl : rest = [] := List.eq_nil_of_length_eq_zero (by omega)
    have mem : c ∈ claimsIn (report.claims now policy) symbol venue := own ▸ List.mem_cons_self
    obtain ⟨claim, given, rfl⟩ := List.mem_map.mp mem
    rw [List.map_singleton, claims_node (List.mem_of_mem_filter given)]

/-- The claims on a stream come from different nodes. -/
theorem claimsOn_nodes (once : ListedOnce reports) :
    ((claimsOn reports now policy symbol venue).map Claim.node).Sublist
      (reports.map NodeReport.node) := by
  induction reports with
  | nil => exact List.Sublist.refl _
  | cons report reports ih =>
    rw [claimsOn_cons, List.map_append, List.map_cons]
    exact List.Sublist.append (claimsIn_report (once report List.mem_cons_self))
      (ih fun r mem => once r (List.mem_cons_of_mem _ mem))

theorem claimsOn_nodup (labels : (reports.map NodeReport.node).Nodup) (once : ListedOnce reports) :
    ((claimsOn reports now policy symbol venue).map Claim.node).Nodup :=
  labels.sublist (claimsOn_nodes once)

end Gathered

section Served

variable {κ ρ : Type} {claims : List (Claim κ ρ)} {c d : Claim κ ρ}

theorem serve_eq : serve claims =
    (claims.mergeSort (fun a b => (claimCmp a b).isLE)).head? := by
  rw [serve]
  split
  · rfl
  · match claims with
    | [] => rw [List.mergeSort_nil]
    | [c] => rw [List.mergeSort_singleton]
    | c :: d :: rest =>
      rename_i short
      simp at short

theorem claimCmp_self (c : Claim κ ρ) : claimCmp c c = .eq := Std.ReflCmp.compare_self

theorem claimCmp_swap (c d : Claim κ ρ) : claimCmp d c = (claimCmp c d).swap :=
  Std.OrientedCmp.eq_swap

/-- The served claim is one of them, and none is fresher. -/
theorem serve_least (h : serve claims = some c) :
    c ∈ claims ∧ ∀ d ∈ claims, (claimCmp c d).isLE = true := by
  rw [serve_eq] at h
  have sorted : (claims.mergeSort (fun a b => (claimCmp a b).isLE)).Pairwise
      (fun a b => (claimCmp a b).isLE = true) := by
    refine List.pairwise_mergeSort (fun _ _ _ => Std.TransCmp.isLE_trans) ?_ claims
    intro a b
    rw [claimCmp_swap a b]
    cases claimCmp a b <;> rfl
  obtain ⟨rest, sortedTo⟩ := List.head?_eq_some_iff.mp h
  rw [sortedTo] at sorted
  constructor
  · have mem : c ∈ claims.mergeSort (fun a b => (claimCmp a b).isLE) := sortedTo ▸ List.mem_cons_self
    exact List.mem_mergeSort.mp mem
  · intro d mem
    have mem' : d ∈ c :: rest := sortedTo ▸ List.mem_mergeSort.mpr mem
    rcases List.mem_cons.mp mem' with rfl | later
    · rw [claimCmp_self]
      rfl
    · exact (List.pairwise_cons.mp sorted).1 d later

theorem serve_isSome (h : claims ≠ []) : (serve claims).isSome = true := by
  rw [serve_eq]
  cases sorted : claims.mergeSort (fun a b => (claimCmp a b).isLE) with
  | nil =>
    have perm := List.mergeSort_perm claims (fun a b => (claimCmp a b).isLE)
    rw [sorted] at perm
    exact False.elim (h (List.nil_perm.mp perm))
  | cons c rest => rfl

theorem claim_of_node (nodes : (claims.map Claim.node).Nodup) (hc : c ∈ claims) (hd : d ∈ claims)
    (same : c.node = d.node) : c = d :=
  List.inj_on_of_nodup_map nodes hc hd same

theorem node_of_claimCmp (h : claimCmp c d = .eq) : c.node = d.node :=
  Std.LawfulEqOrd.eq_of_compare (compareLex_eq_eq.mp h).2

/-- With different labels there is one least claim. -/
theorem serve_unique (nodes : (claims.map Claim.node).Nodup) (mem : c ∈ claims)
    (least : ∀ d ∈ claims, (claimCmp c d).isLE = true) : serve claims = some c := by
  obtain ⟨d, served⟩ := Option.isSome_iff_exists.mp (serve_isSome (List.ne_nil_of_mem mem))
  obtain ⟨hd, first⟩ := serve_least served
  have same : claimCmp c d = .eq := by
    have there := least d hd
    have back := first c mem
    rw [claimCmp_swap c d] at back
    cases order : claimCmp c d with
    | eq => rfl
    | lt =>
      rw [order] at back
      exact absurd back (by decide)
    | gt =>
      rw [order] at there
      exact absurd there (by decide)
  rw [served, claim_of_node nodes mem hd (node_of_claimCmp same)]

theorem serve_perm {others : List (Claim κ ρ)} (perm : claims.Perm others)
    (nodes : (claims.map Claim.node).Nodup) : serve others = serve claims := by
  cases served : serve claims with
  | none =>
    have none : claims = [] := by
      by_contra some_claim
      have found := serve_isSome some_claim
      rw [served] at found
      cases found
    rw [none] at perm
    rw [List.nil_perm.mp perm]
    rfl
  | some c =>
    obtain ⟨mem, least⟩ := serve_least served
    exact serve_unique ((perm.map Claim.node).nodup_iff.mp nodes) (perm.mem_iff.mp mem)
      fun d given => least d (perm.mem_iff.mpr given)

end Served

end GatewayMerge

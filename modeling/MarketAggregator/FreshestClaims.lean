import MarketAggregator.GatewayMerge

/-!
# Whose book the gateway serves

Several nodes may claim one stream. The claim with the least age should be served, and a book
that was never updated should count as older than any that was. The lag is added to an age
before ages are compared, and a missing age becomes the lag alone, so that a book that was
never updated competes as if it had just been updated when its snapshot was taken.
-/

namespace FreshestClaims

open Clocks CrossTouch GatewayMerge OrderedMaps VenueStreams

variable {κ ρ : Type}

/-- A node's view of a stream as it was reported, and the node's lag. -/
structure Candidate (κ ρ : Type) where
  node : String
  lag : Nat
  view : VenueView κ ρ

namespace Candidate

def claim (c : Candidate κ ρ) : Claim κ ρ := ⟨c.node, millis c.lag, aged c.view c.lag⟩

/-- The age of the book with the lag added. A book that was never updated has none. -/
def age (c : Candidate κ ρ) : Option Nat := c.view.ageMs.map (saturatingAdd · (millis c.lag))

/-- Least age first, a missing one last, and then by label. -/
def NotOlder (c d : Candidate κ ρ) : Prop :=
  match c.age, d.age with
  | some a, some b => a < b ∨ a = b ∧ (compare c.node d.node).isLE = true
  | some _, none => True
  | none, some _ => False
  | none, none => (compare c.node d.node).isLE = true

end Candidate

/-- The views of one stream in a snapshot. -/
def viewsOf (snapshot : Snapshot κ ρ) (symbol : Symbol) (venue : VenueId) : List (VenueView κ ρ) :=
  (snapshot.symbols.filter (fun s => s.symbol = symbol.text)).flatMap (fun s =>
    s.venues.filter (fun view => view.venue = venue))

/-- The views of a stream by the nodes that take part, in the order of the reports. -/
def candidatesOn (reports : List (NodeReport κ ρ)) (now : IngestTime) (policy : GatewayPolicy)
    (symbol : Symbol) (venue : VenueId) : List (Candidate κ ρ) :=
  reports.flatMap (fun report => match report.taking now policy with
    | none => []
    | some (snapshot, lag) => (viewsOf snapshot symbol venue).map (⟨report.node, lag, ·⟩))

/-- The claim that the merge takes the view of a stream from. -/
def servedOn (reports : List (NodeReport κ ρ)) (now : IngestTime) (policy : GatewayPolicy)
    (symbol : Symbol) (venue : VenueId) : Option (Claim κ ρ) :=
  serve (claimsOn reports now policy symbol venue)

/-- One view of every claimed stream is served, from the node with the freshest book, and the
streams that several nodes claim are listed. -/
structure FreshestServed (arith : TouchArith) (reports : List (NodeReport κ ρ)) (now : IngestTime)
    (seq : Nat) (policy : GatewayPolicy) : Prop where
  served : ∀ symbol venue, viewsOf (merge arith reports now seq policy).snapshot symbol venue =
    ((servedOn reports now policy symbol venue).map Claim.view).toList
  claimed : ∀ symbol venue, candidatesOn reports now policy symbol venue ≠ [] →
    (servedOn reports now policy symbol venue).isSome = true
  freshest : ∀ symbol venue claim, servedOn reports now policy symbol venue = some claim →
    ∃ c ∈ candidatesOn reports now policy symbol venue, c.claim = claim ∧
      ∀ d ∈ candidatesOn reports now policy symbol venue, c.NotOlder d
  duplicated : ∀ symbol venue nodes,
    ⟨symbol.text, venue, nodes⟩ ∈ (merge arith reports now seq policy).duplicated ↔
      nodes = (candidatesOn reports now policy symbol venue).map Candidate.node ∧ 1 < nodes.length

/-- An updated book is not passed by one that never was, even if that counts as updated when
its snapshot was taken. Among books of which none was updated, the first label has the
least lag. -/
def UpdatedFirst (candidates : List (Candidate κ ρ)) : Prop :=
  candidates = [] ∨
  (∃ c ∈ candidates, ∃ age, c.age = some age ∧ ∀ d ∈ candidates, d.age = none →
    age < millis d.lag ∨ age = millis d.lag ∧ (compare c.node d.node).isLE = true) ∨
  (∀ c ∈ candidates, c.age = none) ∧ ∃ c ∈ candidates, ∀ d ∈ candidates,
    (compare c.node d.node).isLE = true ∧ millis c.lag ≤ millis d.lag

section Candidates

variable {reports : List (NodeReport κ ρ)} {now : IngestTime} {policy : GatewayPolicy}
  {symbol : Symbol} {venue : VenueId}

theorem claimsIn_flatMap {A : Type} (l : List A) (f : A → List (Symbol × VenueId × Claim κ ρ)) :
    claimsIn (l.flatMap f) symbol venue = l.flatMap (fun a => claimsIn (f a) symbol venue) := by
  induction l with
  | nil => rfl
  | cons a l ih => rw [List.flatMap_cons, List.flatMap_cons, claimsIn_append, ih]

theorem claimsIn_symbol (node : String) (lag : Nat) (s : SymbolView κ ρ) :
    claimsIn (s.venues.map (fun view =>
        ((⟨s.symbol⟩ : Symbol), view.venue, (⟨node, millis lag, aged view lag⟩ : Claim κ ρ))))
        symbol venue =
      if s.symbol = symbol.text then
        (s.venues.filter (fun view => view.venue = venue)).map (fun view =>
          ⟨node, millis lag, aged view lag⟩)
      else [] := by
  obtain ⟨text⟩ := symbol
  by_cases same : s.symbol = text
  · subst same
    simp [claimsIn, List.filter_map, Function.comp_def]
  · simp [claimsIn, List.filter_map, Function.comp_def, same]

theorem flatMap_filter_if {A B : Type} (l : List A) (p : A → Prop) [DecidablePred p]
    (f : A → List B) : (l.filter (fun a => p a)).flatMap f = l.flatMap (fun a =>
      if p a then f a else []) := by
  induction l with
  | nil => rfl
  | cons a l ih =>
    by_cases h : p a
    · simp [h, ih]
    · simp [h, ih]

/-- A node's claims on a stream are its views of it. -/
theorem claims_candidates (report : NodeReport κ ρ) :
    claimsIn (report.claims now policy) symbol venue =
      (candidatesOn [report] now policy symbol venue).map Candidate.claim := by
  rw [NodeReport.claims, candidatesOn, List.flatMap_singleton]
  cases taken : report.taking now policy with
  | none => rfl
  | some both =>
    obtain ⟨snapshot, lag⟩ := both
    simp only [viewsOf]
    rw [claimsIn_flatMap, flatMap_filter_if, List.map_map, List.map_flatMap]
    refine List.flatMap_congr ?_
    intro s _
    rw [claimsIn_symbol]
    split
    · rfl
    · rfl

theorem claimsOn_candidates : claimsOn reports now policy symbol venue =
    (candidatesOn reports now policy symbol venue).map Candidate.claim := by
  induction reports with
  | nil => rfl
  | cons report reports ih =>
    have split : candidatesOn (report :: reports) now policy symbol venue =
        candidatesOn [report] now policy symbol venue ++
          candidatesOn reports now policy symbol venue := by
      rw [candidatesOn, List.flatMap_cons, candidatesOn, candidatesOn, List.flatMap_singleton]
    rw [claimsOn_cons, split, List.map_append, claims_candidates, ih]

theorem candidates_nodes : (claimsOn reports now policy symbol venue).map Claim.node =
    (candidatesOn reports now policy symbol venue).map Candidate.node := by
  rw [claimsOn_candidates, List.map_map]
  rfl

theorem claimsOn_venue {claim : Claim κ ρ} (h : claim ∈ claimsOn reports now policy symbol venue) :
    claim.view.venue = venue := by
  rw [claimsOn_candidates] at h
  obtain ⟨c, mem, rfl⟩ := List.mem_map.mp h
  obtain ⟨report, -, own⟩ := List.mem_flatMap.mp mem
  split at own
  · cases own
  · obtain ⟨view, found, rfl⟩ := List.mem_map.mp own
    obtain ⟨s, -, listed⟩ := List.mem_flatMap.mp found
    exact of_decide_eq_true (List.mem_filter.mp listed).2

end Candidates

section Merged

variable {reports : List (NodeReport κ ρ)} {now : IngestTime} {policy : GatewayPolicy}
  {symbol : Symbol} {venue : VenueId}

theorem filter_filterMap_key {K V W : Type} [DecidableEq K] {l : List (K × V)} (f : V → Option W)
    (key : W → K) (agree : ∀ e ∈ l, ∀ w, f e.2 = some w → key w = e.1) (k : K) :
    (l.filterMap (fun e => f e.2)).filter (fun w => key w = k) =
      (l.filter (fun e => e.1 = k)).filterMap (fun e => f e.2) := by
  induction l with
  | nil => rfl
  | cons e l ih =>
    have inner := ih fun x mem => agree x (List.mem_cons_of_mem _ mem)
    rw [List.filterMap_cons, List.filter_cons]
    cases given : f e.2 with
    | none =>
      rw [inner]
      split
      · rw [List.filterMap_cons, given]
      · rfl
    | some w =>
      have own := agree e List.mem_cons_self w given
      dsimp only
      rw [List.filter_cons, own, inner]
      split
      · rw [List.filterMap_cons, given]
      · rfl

theorem serve_nil : serve ([] : List (Claim κ ρ)) = none := rfl

theorem serve_held (l : List (Claim κ ρ)) : ((held l).map (fun v => (venue, v))).toList.filterMap
    (fun e => (serve e.2).map Claim.view) = ((serve l).map Claim.view).toList := by
  cases l with
  | nil => rfl
  | cons c l =>
    change [(venue, c :: l)].filterMap (fun e => (serve e.2).map Claim.view) = _
    rw [List.filterMap_cons]
    cases serve (c :: l) <;> rfl

theorem mergeSymbol_venues (arith : TouchArith)
    (entry : Symbol × OrderedMap VenueId (List (Claim κ ρ)) VenueId.cmp) :
    (mergeSymbol arith now policy entry).venues =
      entry.2.entries.filterMap (fun e => (serve e.2).map Claim.view) := by
  rw [mergeSymbol]
  dsimp only
  rw [List.map_filterMap]
  simp only [Option.map_map]
  rfl

theorem venues_of_found (arith : TouchArith)
    {byVenue : OrderedMap VenueId (List (Claim κ ρ)) VenueId.cmp}
    (found : (gather reports now policy).find? symbol = some byVenue) :
    (mergeSymbol arith now policy (symbol, byVenue)).venues.filter
        (fun view => view.venue = venue) =
      ((servedOn reports now policy symbol venue).map Claim.view).toList := by
  have agree : ∀ e ∈ byVenue.entries, ∀ view, (serve e.2).map Claim.view = some view →
      view.venue = e.1 := by
    intro e mem view given
    obtain ⟨claim, served, rfl⟩ := Option.map_eq_some_iff.mp given
    have one := (serve_least served).1
    rw [entry_claims found mem] at one
    exact claimsOn_venue one
  have kept := filter_filterMap_key (fun l => (serve l).map Claim.view) VenueView.venue agree venue
  rw [mergeSymbol_venues, kept, OrderedMap.filter_key, claimsOn_found found, serve_held]
  rfl

/-- The views of a snapshot that renders a map by symbol. -/
theorem viewsOf_rendered {V : Type} {snapshot : Snapshot κ ρ} {m : OrderedMap Symbol V Symbol.cmp}
    {render : Symbol × V → SymbolView κ ρ} (named : ∀ e, (render e).symbol = e.1.text)
    (rendered : snapshot.symbols = m.entries.map render) : viewsOf snapshot symbol venue =
      (m.find? symbol).elim [] (fun value =>
        (render (symbol, value)).venues.filter (fun view => view.venue = venue)) := by
  have keys : (m.entries.map render).filter (fun s => s.symbol = symbol.text) =
      (m.entries.filter (fun e => e.1 = symbol)).map render := by
    rw [List.filter_map]
    congr 1
    refine List.filter_congr ?_
    rintro ⟨⟨text⟩, value⟩ -
    obtain ⟨own⟩ := symbol
    have texts : text = own ↔ (⟨text⟩ : Symbol) = ⟨own⟩ := Symbol.mk.injEq text own ▸ Iff.rfl
    rw [Function.comp_apply, named]
    exact decide_eq_decide.mpr texts
  rw [viewsOf, rendered, keys, OrderedMap.filter_key]
  cases m.find? symbol with
  | none => rfl
  | some value => rw [Option.map_some, Option.toList_some, List.map_singleton,
      List.flatMap_singleton, Option.elim_some]

/-- Of every stream the merge shows the view of the claim that is served. -/
theorem viewsOf_merge (arith : TouchArith) (seq : Nat) :
    viewsOf (merge arith reports now seq policy).snapshot symbol venue =
      ((servedOn reports now policy symbol venue).map Claim.view).toList := by
  have rendered : (merge arith reports now seq policy).snapshot.symbols =
      (gather reports now policy).entries.map (mergeSymbol arith now policy) := rfl
  rw [viewsOf_rendered (fun _ => rfl) rendered]
  cases found : (gather reports now policy).find? symbol with
  | none =>
    rw [servedOn, claimsOn_absent found, serve_nil]
    rfl
  | some byVenue => rw [Option.elim_some, venues_of_found arith found]

/-- The streams that several nodes claim, with their labels. -/
theorem mem_duplicated (arith : TouchArith) (seq : Nat) (nodes : List String) :
    ⟨symbol.text, venue, nodes⟩ ∈ (merge arith reports now seq policy).duplicated ↔
      nodes = (candidatesOn reports now policy symbol venue).map Candidate.node ∧
        1 < nodes.length := by
  have length : ∀ l : List (Claim κ ρ), (l.map Claim.node).length = l.length :=
    fun l => List.length_map _
  rw [← candidates_nodes]
  constructor
  · intro mem
    obtain ⟨⟨⟨text⟩, byVenue⟩, listed, mem⟩ := List.mem_flatMap.mp mem
    obtain ⟨e, own, given⟩ := List.mem_filterMap.mp mem
    have found := OrderedMap.mem_find? listed
    rw [duplicatedStream] at given
    split at given
    · rename_i several
      cases given
      rw [← entry_claims found own]
      exact ⟨rfl, by rw [length]; exact several⟩
    · cases given
  · rintro ⟨rfl, several⟩
    rw [length] at several
    cases found : (gather reports now policy).find? symbol with
    | none =>
      rw [claimsOn_absent found] at several
      exact False.elim (Nat.not_lt_zero _ several)
    | some byVenue =>
      obtain ⟨key, listed, same⟩ := OrderedMap.find?_mem found
      obtain rfl := symbol_cmp_eq.mp same
      refine List.mem_flatMap.mpr ⟨_, listed, ?_⟩
      have kept : held (claimsOn reports now policy symbol venue) =
          some (claimsOn reports now policy symbol venue) := by
        cases own : claimsOn reports now policy symbol venue with
        | nil =>
          rw [own] at several
          exact False.elim (Nat.not_lt_zero _ several)
        | cons c l => rfl
      obtain ⟨venueKey, listedClaims, same⟩ :=
        OrderedMap.find?_mem ((claimsOn_found found).trans kept)
      obtain rfl := venue_cmp_eq.mp same
      refine List.mem_filterMap.mpr ⟨_, listedClaims, ?_⟩
      rw [duplicatedStream, if_pos several]

end Merged

section Order

variable {c d : Candidate κ ρ}

/-- The age that is compared: a missing one counts as the lag. -/
def Candidate.counted (c : Candidate κ ρ) : Nat := c.age.getD (millis c.lag)

theorem effectiveAge_claim (c : Candidate κ ρ) : effectiveAge c.claim.view = c.counted := rfl

theorem claimCmp_claim : (claimCmp c.claim d.claim).isLE = true ↔
    c.counted < d.counted ∨
      c.counted = d.counted ∧ (compare c.node d.node).isLE = true := by
  rw [claimCmp, compareLex, compareOn, compareOn, effectiveAge_claim, effectiveAge_claim]
  rcases Nat.lt_trichotomy c.counted d.counted with lt | same | gt
  · rw [Nat.compare_eq_lt.mpr lt]
    simp [lt]
  · rw [same, Nat.compare_eq_eq.mpr rfl]
    simp
    rfl
  · rw [Nat.compare_eq_gt.mpr gt]
    constructor
    · intro h
      cases h
    · rintro (lt | ⟨same, -⟩)
      · omega
      · omega

theorem serve_candidate {candidates : List (Candidate κ ρ)} (some_claim : candidates ≠ []) :
    ∃ c ∈ candidates, serve (candidates.map Candidate.claim) = some c.claim ∧
      ∀ d ∈ candidates, (claimCmp c.claim d.claim).isLE = true := by
  have some_mapped : candidates.map Candidate.claim ≠ [] := by
    intro empty
    exact some_claim (List.map_eq_nil_iff.mp empty)
  obtain ⟨claim, served⟩ := Option.isSome_iff_exists.mp (serve_isSome some_mapped)
  obtain ⟨mem, least⟩ := serve_least served
  obtain ⟨c, given, rfl⟩ := List.mem_map.mp mem
  exact ⟨c, given, served, fun d one => least d.claim (List.mem_map_of_mem one)⟩

theorem node_of_claim (same : c.claim = d.claim) : c.node = d.node :=
  congrArg Claim.node same

theorem candidate_of_node {candidates : List (Candidate κ ρ)}
    (nodes : (candidates.map Candidate.node).Nodup) (hc : c ∈ candidates) (hd : d ∈ candidates)
    (same : c.node = d.node) : c = d :=
  List.inj_on_of_nodup_map nodes hc hd same

theorem node_le_antisymm (there : (compare c.node d.node).isLE = true)
    (back : (compare d.node c.node).isLE = true) : c.node = d.node := by
  refine Std.LawfulEqOrd.eq_of_compare (α := String) ?_
  exact Std.OrientedCmp.isLE_antisymm there back

theorem notOlder_of_updated {a : Nat} (updated : c.age = some a)
    (first : (claimCmp c.claim d.claim).isLE = true) : c.NotOlder d := by
  have order := claimCmp_claim.mp first
  rw [Candidate.counted, Candidate.counted, updated] at order
  rw [Candidate.NotOlder, updated]
  cases other : d.age with
  | none => trivial
  | some b =>
    rw [other] at order
    exact order

theorem notOlder_of_neither (missing : c.age = none) (other : d.age = none) :
    c.NotOlder d ↔ (compare c.node d.node).isLE = true := by
  rw [Candidate.NotOlder, missing, other]

theorem updatedFirst_of_freshest {candidates : List (Candidate κ ρ)} (hc : c ∈ candidates)
    (least : ∀ d ∈ candidates, (claimCmp c.claim d.claim).isLE = true)
    (freshest : ∀ d ∈ candidates, c.NotOlder d) : UpdatedFirst candidates := by
  cases age : c.age with
  | some a =>
    refine .inr (.inl ⟨c, hc, a, age, ?_⟩)
    intro d mem missing
    have order := claimCmp_claim.mp (least d mem)
    rw [Candidate.counted, Candidate.counted, age, missing] at order
    exact order
  | none =>
    have missing : ∀ d ∈ candidates, d.age = none := by
      intro d mem
      have older := freshest d mem
      rw [Candidate.NotOlder, age] at older
      cases other : d.age with
      | none => rfl
      | some b =>
        rw [other] at older
        exact False.elim older
    refine .inr (.inr ⟨missing, c, hc, ?_⟩)
    intro d mem
    have order := claimCmp_claim.mp (least d mem)
    rw [Candidate.counted, Candidate.counted, age, missing d mem] at order
    simp only [Option.getD_none] at order
    constructor
    · exact (notOlder_of_neither age (missing d mem)).mp (freshest d mem)
    · omega

theorem freshest_of_updatedFirst {candidates : List (Candidate κ ρ)}
    (nodes : (candidates.map Candidate.node).Nodup) (hc : c ∈ candidates)
    (least : ∀ d ∈ candidates, (claimCmp c.claim d.claim).isLE = true)
    (first : UpdatedFirst candidates) : ∀ d ∈ candidates, c.NotOlder d := by
  intro d mem
  rcases first with none | ⟨e, he, a, age, passed⟩ | ⟨missing, e, he, lowest⟩
  · rw [none] at mem
    cases mem
  · cases own : c.age with
    | some b => exact notOlder_of_updated own (least d mem)
    | none =>
      -- the updated book is least as well, so both are one
      have back := claimCmp_claim.mp (least e he)
      have there := passed c hc own
      rw [Candidate.counted, Candidate.counted, own, age] at back
      simp only [Option.getD_none, Option.getD_some] at back
      have level : (compare c.node e.node).isLE = true ∧ (compare e.node c.node).isLE = true := by
        rcases there with lt | ⟨same, le⟩
        · omega
        · rcases back with lt | ⟨-, ge⟩
          · omega
          · exact ⟨ge, le⟩
      obtain rfl := candidate_of_node nodes hc he (node_le_antisymm level.1 level.2)
      rw [own] at age
      cases age
  · have back := claimCmp_claim.mp (least e he)
    obtain ⟨le, lag⟩ := lowest c hc
    rw [Candidate.counted, Candidate.counted, missing c hc, missing e he] at back
    simp only [Option.getD_none] at back
    have ge : (compare c.node e.node).isLE = true := by
      rcases back with lt | ⟨-, ge⟩
      · omega
      · exact ge
    obtain rfl := candidate_of_node nodes hc he (node_le_antisymm ge le)
    exact (notOlder_of_neither (missing c hc) (missing d mem)).mpr (lowest d mem).1

end Order

/-- The served view comes from the freshest book exactly when no book that was never updated
passes every updated one, and, among books that never were, the first label has the least
lag. All else holds of every merge. -/
theorem freshest_served_iff (arith : TouchArith) {reports : List (NodeReport κ ρ)}
    (labels : (reports.map NodeReport.node).Nodup) (once : ListedOnce reports) (now : IngestTime)
    (seq : Nat) (policy : GatewayPolicy) :
    FreshestServed arith reports now seq policy ↔
      ∀ symbol venue, UpdatedFirst (candidatesOn reports now policy symbol venue) := by
  have distinct : ∀ symbol venue,
      ((candidatesOn reports now policy symbol venue).map Candidate.node).Nodup := by
    intro symbol venue
    rw [← candidates_nodes]
    exact claimsOn_nodup labels once
  have servedOn_eq : ∀ symbol venue, servedOn reports now policy symbol venue =
      serve ((candidatesOn reports now policy symbol venue).map Candidate.claim) := by
    intro symbol venue
    rw [servedOn, claimsOn_candidates]
  constructor
  · intro h symbol venue
    by_cases empty : candidatesOn reports now policy symbol venue = []
    · exact .inl empty
    · obtain ⟨c, hc, served, least⟩ := serve_candidate empty
      obtain ⟨e, he, same, freshest⟩ := h.freshest symbol venue c.claim
        ((servedOn_eq symbol venue).trans served)
      obtain rfl := candidate_of_node (distinct symbol venue) he hc (node_of_claim same)
      exact updatedFirst_of_freshest hc least freshest
  · intro first
    constructor
    · intro symbol venue
      exact viewsOf_merge arith seq
    · intro symbol venue some_claim
      obtain ⟨c, -, served, -⟩ := serve_candidate some_claim
      rw [servedOn_eq, served]
      rfl
    · intro symbol venue claim served
      have some_claim : candidatesOn reports now policy symbol venue ≠ [] := by
        intro empty
        rw [servedOn_eq, empty] at served
        cases served
      obtain ⟨c, hc, chosen, least⟩ := serve_candidate some_claim
      rw [servedOn_eq, chosen] at served
      cases served
      exact ⟨c, hc, rfl, freshest_of_updatedFirst (distinct symbol venue) hc least
        (first symbol venue)⟩
    · intro symbol venue nodes
      exact mem_duplicated arith seq nodes

theorem freshest_served_handover :
    FreshestServed TouchArith.idle handover ⟨0, 0⟩ 1 ⟨0, ⟨0⟩⟩ ↔
      ∀ symbol venue, UpdatedFirst (candidatesOn handover ⟨0, 0⟩ ⟨0, ⟨0⟩⟩ symbol venue) :=
  freshest_served_iff TouchArith.idle handover_labels handover_listedOnce ⟨0, 0⟩ 1 ⟨0, ⟨0⟩⟩

/-- The book that was just opened is served instead of the one updated 5 ms ago. -/
theorem never_updated_served : ¬ FreshestServed TouchArith.idle handover ⟨0, 0⟩ 1 ⟨0, ⟨0⟩⟩ := by
  intro h
  let opened : Candidate Unit Unit := ⟨"a", 0, bareView .uninitialized none⟩
  let updated : Candidate Unit Unit := ⟨"b", 0, bareView .live (some 5)⟩
  have both : candidatesOn handover ⟨0, 0⟩ ⟨0, ⟨0⟩⟩ ⟨"BTC-USD"⟩ .kraken =
      [opened, updated] := rfl
  have served : servedOn handover ⟨0, 0⟩ ⟨0, ⟨0⟩⟩ ⟨"BTC-USD"⟩ .kraken = some opened.claim := by
    rw [servedOn, claimsOn_candidates, both]
    refine serve_unique (by decide) List.mem_cons_self ?_
    intro d mem
    rcases List.mem_pair.mp mem with rfl | rfl
    · exact claimCmp_claim.mpr (.inr (by decide))
    · exact claimCmp_claim.mpr (.inl (by decide))
  obtain ⟨c, mem, same, freshest⟩ := h.freshest ⟨"BTC-USD"⟩ .kraken opened.claim served
  rw [both] at mem freshest
  rcases List.mem_pair.mp mem with rfl | rfl
  · exact freshest updated (List.mem_cons_of_mem _ List.mem_cons_self)
  · exact absurd (node_of_claim same) (by decide)

end FreshestClaims

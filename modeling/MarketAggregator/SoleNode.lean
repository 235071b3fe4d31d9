import MarketAggregator.FreshestClaims
import MarketAggregator.MergeOrder
import MarketAggregator.NodeSnapshots

/-!
# A gateway over one node

The node consolidates its books with exact ages, and the gateway with the whole milliseconds
of the view. A missing age becomes zero on the way. A gateway that has just received the only
report shows what the node shows when neither makes a difference.
-/

namespace SoleNode

open AggregatorApply BookInvariants Clocks CrossTouch Decimals FreshestClaims GatewayMerge
  GuardedRuns MarketEvents MergeOrder NodeSnapshots OrderBook OrderedMaps VenueBooks VenueStreams
  WindowBuckets

universe u

variable {σ : Type u} {κ ρ : Type}

/-- A symbol with its touch under the name of another clock. -/
def reclock (clock : String) (s : SymbolView κ ρ) : SymbolView κ ρ :=
  { s with cross := { s.cross with clock := clock } }

/-- The merge shows the symbols of a snapshot, under the gateway's clock. -/
def Shows (snapshot : Snapshot κ ρ) (merged : MergedSnapshot κ ρ) : Prop :=
  merged.snapshot.symbols = snapshot.symbols.map (reclock gatewayClock)

/-- A report of a snapshot that arrives at an instant. -/
def arriving (report : NodeReport κ ρ) (snapshot : Snapshot κ ρ) (now : IngestTime) :
    NodeReport κ ρ :=
  { report with snapshot := some snapshot, receivedAt := some now }

/-- An age over the limit is over it in whole milliseconds, which fit. -/
def StaysStale (policy : CrossPolicy) (age : Nat) : Prop :=
  policy.maxAge < age →
    age / nanosPerMilli ≤ u64Max ∧ policy.maxAge < age / nanosPerMilli * nanosPerMilli

/-- The book has been updated, and if it is live and stale it stays stale. -/
def Mirrored (policy : CrossPolicy) (now : IngestTime) (book : Book) : Prop :=
  ∃ updated, book.lastUpdate = some updated ∧
    (book.state.isLive = true → StaysStale policy (now.since updated))

section Messages

theorem toString_injective {m n : Nat} (h : toString m = toString n) : m = n := by
  have digits : (toString m).toList = (toString n).toList := congrArg String.toList h
  have read := congrArg (fun l => Nat.ofDigitChars 10 l 0) digits
  simpa using read

theorem stale_message {a b : Nat}
    (h : (ExclusionReason.stale a).message = (ExclusionReason.stale b).message) :
    a / nanosPerMilli = b / nanosPerMilli := by
  rw [ExclusionReason.message, ExclusionReason.message] at h
  have front := (String.append_left_inj _).mp h
  exact toString_injective ((String.append_right_inj _).mp front)

theorem stale_message_ne {a : Nat} :
    (ExclusionReason.stale a).message ≠ ExclusionReason.noQuote.message := by
  intro h
  have chars := congrArg String.toList h
  simp [ExclusionReason.message] at chars

end Messages

section Touches

variable {policy : CrossPolicy} {t u : Touch} {q r : VenueId × TopOfBook}

/-- Why a book takes no part in the touch. -/
def exclusionOf (policy : CrossPolicy) (top : TopOfBook) : Option ExclusionReason :=
  match top.state with
  | .live .. =>
    if policy.maxAge < top.age.getD durationMax then some (.stale (top.age.getD durationMax))
    else if top.bid.isNone ∧ top.ask.isNone then some .noQuote
    else none
  | _ => some .untrusted

def exclusionView (e : Exclusion) : ExclusionView := ⟨e.venue, e.reason.message⟩

def shownExclusion (policy : CrossPolicy) (q : VenueId × TopOfBook) : Option ExclusionView :=
  (exclusionOf policy q.2).map (fun reason => exclusionView ⟨q.1, reason⟩)

theorem quote_excluded : (Touch.quote policy t q).excluded =
    t.excluded ++ ((exclusionOf policy q.2).map (fun reason => ⟨q.1, reason⟩)).toList := by
  rw [Touch.quote, exclusionOf]
  cases q.2.state with
  | uninitialized => rfl
  | desynced since reason => rfl
  | live integrity since verified =>
    dsimp only
    split
    · rfl
    · split
      · rfl
      · simp [Touch.use]

theorem excluded_foldl (quotes : List (VenueId × TopOfBook)) (t : Touch) :
    ((quotes.foldl (Touch.quote policy) t).excluded).map exclusionView =
      t.excluded.map exclusionView ++ quotes.filterMap (shownExclusion policy) := by
  induction quotes generalizing t with
  | nil => simp
  | cons q quotes ih =>
    rw [List.foldl_cons, ih, quote_excluded, List.map_append, List.append_assoc,
      List.filterMap_cons, shownExclusion]
    cases exclusionOf policy q.2 <;> rfl

theorem crossView_excluded (arith : TouchArith) (quotes : List (VenueId × TopOfBook))
    (clock : String) : (crossView arith quotes policy clock).excluded =
      quotes.filterMap (shownExclusion policy) := by
  have all : ((quotes.foldl (Touch.quote policy) Touch.empty).excluded).map exclusionView = _ :=
    excluded_foldl quotes Touch.empty
  rw [← List.nil_append (quotes.filterMap _)]
  refine Eq.trans ?_ all
  rw [crossView, consolidate]
  dsimp only
  split <;> rfl

/-- The same legs, and exclusions that read alike. -/
structure AlikeTouch (t u : Touch) : Prop where
  bid : t.bid = u.bid
  ask : t.ask = u.ask
  used : t.used = u.used
  excluded : t.excluded.map exclusionView = u.excluded.map exclusionView

/-- Quotes that every touch takes alike. -/
def AlikeQuote (policy : CrossPolicy) (q r : VenueId × TopOfBook) : Prop :=
  ∀ t u, AlikeTouch t u → AlikeTouch (Touch.quote policy t q) (Touch.quote policy u r)

theorem alike_exclude {venue : VenueId} {reason other : ExclusionReason} (h : AlikeTouch t u)
    (reads : reason.message = other.message) :
    AlikeTouch (t.exclude venue reason) (u.exclude venue other) := by
  constructor
  · exact h.bid
  · exact h.ask
  · exact h.used
  · rw [Touch.exclude, Touch.exclude, List.map_append, List.map_append, h.excluded]
    simp [exclusionView, reads]

theorem alike_foldl {quotes others : List (VenueId × TopOfBook)}
    (related : List.Forall₂ (AlikeQuote policy) quotes others) (h : AlikeTouch t u) :
    AlikeTouch (quotes.foldl (Touch.quote policy) t) (others.foldl (Touch.quote policy) u) := by
  induction related generalizing t u with
  | nil => exact h
  | cons first _ ih => exact ih (first _ _ h)

theorem crossView_alike (arith : TouchArith) {quotes others : List (VenueId × TopOfBook)}
    (related : List.Forall₂ (AlikeQuote policy) quotes others) (clock : String) :
    crossView arith quotes policy clock = crossView arith others policy clock := by
  obtain ⟨bid, ask, used, excluded⟩ := alike_foldl (t := Touch.empty) (u := Touch.empty) related
    ⟨rfl, rfl, rfl, rfl⟩
  have shown : ∀ l : List Exclusion,
      l.map (fun e => (⟨e.venue, e.reason.message⟩ : ExclusionView)) = l.map exclusionView :=
    fun _ => rfl
  simp only [crossView, consolidate, CrossVenue.isCrossed, CrossVenue.isSingleVenue, bid, ask]
  split
  · simp only [used, shown, excluded]
  · simp only [used, shown, excluded]

end Touches

section Views

variable {arith : TouchArith} {depth : Nat} {now arrival : IngestTime} {readings : StreamId → κ × ρ}
  {x : StreamId × VenueState σ RollingWindows} {policy : CrossPolicy}

theorem millis_zero : millis 0 = 0 := rfl

theorem saturatingAdd_millis (d : Nat) : saturatingAdd (millis d) 0 = millis d :=
  Nat.min_eq_left (Nat.min_le_right _ _)

/-- Without a lag only a missing age changes. -/
theorem aged_view : aged (venueView arith depth now readings x) 0 =
    venueView arith depth now readings x ↔ x.2.book.book.lastUpdate ≠ none := by
  have age : (venueView arith depth now readings x).ageMs =
      x.2.book.book.lastUpdate.map (fun updated => millis (now.since updated)) := by
    rw [venueView, Book.topOfBook, Option.map_map]
    rfl
  constructor
  · intro same missing
    have ages := congrArg VenueView.ageMs same
    rw [age, missing] at ages
    cases ages
  · intro updated
    obtain ⟨instant, given⟩ := Option.ne_none_iff_exists'.mp updated
    rw [given] at age
    have verified : (venueView arith depth now readings x).lastVerifiedMs.map
        (saturatingAdd · (millis 0)) = (venueView arith depth now readings x).lastVerifiedMs := by
      rw [venueView, Option.map_map, millis_zero]
      simp only [Function.comp_def, saturatingAdd_millis]
    have traded : (venueView arith depth now readings x).lastTrade.map
        (fun t => { t with ageMs := saturatingAdd t.ageMs (millis 0) }) =
          (venueView arith depth now readings x).lastTrade := by
      rw [venueView, Option.map_map, millis_zero]
      simp only [Function.comp_def, saturatingAdd_millis]
    have held : saturatingAdd (venueView arith depth now readings x).statusForMs (millis 0) =
        (venueView arith depth now readings x).statusForMs := saturatingAdd_millis _
    rw [aged, verified, traded, held, age, Option.map_some, Option.map_some, Option.getD_some,
      millis_zero, saturatingAdd_millis]
    rw [Option.map_some] at age
    rw [← age]

/-- The age that the gateway reads off the view. -/
theorem gateway_age {updated : IngestTime} (given : x.2.book.book.lastUpdate = some updated) :
    (topOfBook (aged (venueView arith depth now readings x) 0) arrival).age =
      some (millis (now.since updated) * nanosPerMilli) := by
  have kept : aged (venueView arith depth now readings x) 0 = _ :=
    aged_view.mpr (given ▸ Option.some_ne_none updated)
  rw [kept, topOfBook, venueView, Book.topOfBook, given]
  rfl

theorem floor_le (age : Nat) : millis age * nanosPerMilli ≤ age :=
  (Nat.mul_le_mul_right _ (Nat.min_le_left _ _)).trans (Nat.div_mul_le_self age nanosPerMilli)

theorem millis_floor (age : Nat) : millis (millis age * nanosPerMilli) = millis age := by
  have fits : millis age ≤ u64Max := Nat.min_le_right _ _
  have whole : millis age * nanosPerMilli / nanosPerMilli = millis age :=
    Nat.mul_div_cancel _ (by decide)
  rw [millis, whole, Nat.min_eq_left fits]

/-- An age that stays stale reads the same in whole milliseconds. -/
theorem floor_of_fits {age : Nat} (fits : age / nanosPerMilli ≤ u64Max) :
    millis age = age / nanosPerMilli := Nat.min_eq_left fits

theorem shown_state : (topOfBook (aged (venueView arith depth now readings x) 0) arrival).state =
    match x.2.book.book.state with
    | .live integrity _ _ => .live integrity arrival none
    | .desynced .. => .desynced arrival .connectionLost
    | .uninitialized => .uninitialized := by
  rw [topOfBook, aged, venueView, Book.topOfBook]
  cases x.2.book.book.state <;> rfl

/-- A mirrored book enters the touch of the gateway as it enters the node's. -/
theorem alike_quote (mirrored : Mirrored policy now x.2.book.book) : AlikeQuote policy
    (x.1.venue, topOfBook (aged (venueView arith depth now readings x) 0) arrival)
    (x.1.venue, x.2.book.book.topOfBook now) := by
  intro t u h
  obtain ⟨updated, given, stays⟩ := mirrored
  have shown : (topOfBook (aged (venueView arith depth now readings x) 0) arrival).state = _ :=
    shown_state
  have age : (topOfBook (aged (venueView arith depth now readings x) 0) arrival).age = _ :=
    gateway_age given
  rw [Touch.quote, Touch.quote]
  dsimp only
  rw [shown, age, Book.topOfBook]
  cases state : x.2.book.book.state with
  | uninitialized => exact alike_exclude h rfl
  | desynced since reason => exact alike_exclude h rfl
  | live integrity since verified =>
    dsimp only
    rw [given, Option.map_some, Option.getD_some, Option.getD_some]
    rw [state] at stays
    by_cases stale : policy.maxAge < now.since updated
    · obtain ⟨fits, still⟩ := stays rfl stale
      rw [floor_of_fits fits, if_pos still, if_pos stale]
      refine alike_exclude h ?_
      rw [ExclusionReason.message, ExclusionReason.message, Nat.mul_div_cancel _ (by decide)]
    · have floor := floor_le (now.since updated)
      rw [if_neg stale, if_neg (by omega)]
      by_cases bare : (x.2.book.book.levels.best .bid).isNone = true ∧
          (x.2.book.book.levels.best .ask).isNone = true
      · rw [if_pos bare]
        have bare' : (topOfBook (aged (venueView arith depth now readings x) 0) arrival).bid.isNone
            = true ∧ (topOfBook (aged (venueView arith depth now readings x) 0)
              arrival).ask.isNone = true := bare
        rw [if_pos bare']
        exact alike_exclude h rfl
      · rw [if_neg bare]
        have bare' : ¬ ((topOfBook (aged (venueView arith depth now readings x) 0)
            arrival).bid.isNone = true ∧ (topOfBook (aged (venueView arith depth now readings x) 0)
              arrival).ask.isNone = true) := bare
        rw [if_neg bare']
        constructor
        · simp only [Touch.use, topOfBook, aged, venueView, Book.topOfBook, millis_floor, h.bid]
        · simp only [Touch.use, topOfBook, aged, venueView, Book.topOfBook, millis_floor, h.ask]
        · exact congrArg (· + 1) h.used
        · exact h.excluded

/-- A live book whose exclusion reads the same at the gateway stays stale. -/
theorem stays_stale {updated : IngestTime} (given : x.2.book.book.lastUpdate = some updated)
    (live : x.2.book.book.state.isLive = true)
    (same : shownExclusion policy
        (x.1.venue, topOfBook (aged (venueView arith depth now readings x) 0) arrival) =
      shownExclusion policy (x.1.venue, x.2.book.book.topOfBook now)) :
    StaysStale policy (now.since updated) := by
  intro stale
  have shown : (topOfBook (aged (venueView arith depth now readings x) 0) arrival).state = _ :=
    shown_state
  have age : (topOfBook (aged (venueView arith depth now readings x) 0) arrival).age = _ :=
    gateway_age given
  rw [shownExclusion, shownExclusion, exclusionOf, exclusionOf] at same
  dsimp only at same
  rw [shown, age, Book.topOfBook] at same
  cases state : x.2.book.book.state with
  | uninitialized =>
    rw [state] at live
    cases live
  | desynced since reason =>
    rw [state] at live
    cases live
  | live integrity since verified =>
    rw [state] at same
    dsimp only at same
    rw [given, Option.map_some, Option.getD_some, Option.getD_some, if_pos stale,
      Option.map_some] at same
    by_cases still : policy.maxAge < millis (now.since updated) * nanosPerMilli
    · rw [if_pos still, Option.map_some] at same
      have reads := stale_message (congrArg ExclusionView.reason (Option.some.inj same))
      rw [Nat.mul_div_cancel _ (by decide)] at reads
      have fits : millis (now.since updated) ≤ u64Max := Nat.min_le_right _ _
      rw [reads] at fits still
      exact ⟨fits, still⟩
    · rw [if_neg still] at same
      split at same
      · have reads := congrArg ExclusionView.reason (Option.some.inj same)
        exact False.elim (stale_message_ne reads.symm)
      · cases same

end Views

section Symbols

variable {arith : TouchArith} {depth : Nat} {now arrival : IngestTime}
  {readings : StreamId → κ × ρ} {policy : CrossPolicy}
  {part : List (StreamId × VenueState σ RollingWindows)}

/-- What the gateway makes of the views of one symbol that it just received. -/
def soleView (arith : TouchArith) (policy : CrossPolicy) (arrival : IngestTime) (symbol : Symbol)
    (views : List (VenueView κ ρ)) : SymbolView κ ρ where
  symbol := symbol.text
  weakestIntegrity := (((views.map (aged · 0)).filter (fun v => v.status = .live)).filterMap
    VenueView.integrity).min?
  cross := crossView arith (views.map (fun v => (v.venue, topOfBook (aged v 0) arrival))) policy
    gatewayClock
  crossWindows := consolidatedWindows (views.map (fun v => (aged v 0, 0)))
  venues := views.map (aged · 0)

theorem integrity_live {x : StreamId × VenueState σ RollingWindows}
    (down : (venueView arith depth now readings x).status ≠ .live) :
    (venueView arith depth now readings x).integrity = none := by
  simp only [venueView, Book.topOfBook, integrityOf] at down ⊢
  cases state : x.2.book.book.state with
  | uninitialized => rfl
  | desynced since reason => rfl
  | live integrity since verified =>
    rw [state] at down
    exact False.elim (down rfl)

/-- Only live books have an integrity, so both minima are over the same books. -/
theorem weakest_live (part : List (StreamId × VenueState σ RollingWindows)) :
    ((part.map (venueView arith depth now readings)).filter (fun v => v.status = .live)).filterMap
        VenueView.integrity =
      (part.map (venueView arith depth now readings)).filterMap VenueView.integrity := by
  induction part with
  | nil => rfl
  | cons x part ih =>
    rw [List.map_cons, List.filter_cons]
    split
    · rw [List.filterMap_cons, List.filterMap_cons, ih]
    · rename_i down
      rw [List.filterMap_cons, integrity_live (by simpa using down), ih]

/-- Equal renderings of two lists by distinct keys are equal entry by entry. -/
theorem filterMap_pointwise {A V K : Type*} {l : List A} {f g : A → Option V} {key : A → K}
    (keyOf : V → K) (nodup : (l.map key).Nodup) (hf : ∀ a v, f a = some v → keyOf v = key a)
    (hg : ∀ a v, g a = some v → keyOf v = key a) (same : l.filterMap f = l.filterMap g) :
    ∀ a ∈ l, f a = g a := by
  induction l with
  | nil => exact fun a mem => absurd mem List.not_mem_nil
  | cons a l ih =>
    rw [List.map_cons, List.nodup_cons] at nodup
    -- what the head renders cannot come from the rest
    have absent : ∀ h : A → Option V, (∀ b v, h b = some v → keyOf v = key b) →
        ∀ v rest, l.filterMap h = v :: rest → keyOf v ≠ key a := by
      intro h keyed v rest listed own
      have mem : v ∈ l.filterMap h := listed ▸ List.mem_cons_self
      obtain ⟨b, given, found⟩ := List.mem_filterMap.mp mem
      exact nodup.1 (List.mem_map.mpr ⟨b, given, (keyed b v found).symm.trans own⟩)
    rw [List.filterMap_cons, List.filterMap_cons] at same
    have both : f a = g a ∧ l.filterMap f = l.filterMap g := by
      cases left : f a with
      | none =>
        cases right : g a with
        | none =>
          rw [left, right] at same
          exact ⟨rfl, same⟩
        | some v =>
          rw [left, right] at same
          exact False.elim (absent f hf v _ same (hg a v right))
      | some v =>
        cases right : g a with
        | none =>
          rw [left, right] at same
          exact False.elim (absent g hg v _ same.symm (hf a v left))
        | some w =>
          rw [left, right] at same
          obtain ⟨head, rest⟩ := List.cons.inj same
          exact ⟨congrArg some head, rest⟩
    intro b mem
    rcases List.mem_cons.mp mem with rfl | mem
    · exact both.1
    · exact ih nodup.2 both.2 b mem

theorem shownExclusion_venue {q : VenueId × TopOfBook} {e : ExclusionView}
    (h : shownExclusion policy q = some e) : e.venue = q.1 := by
  obtain ⟨reason, -, rfl⟩ := Option.map_eq_some_iff.mp h
  rfl

/-- The node's view of one symbol, under the gateway's clock. -/
theorem reclock_symbolView {tops : OrderedMap Symbol (List (VenueId × TopOfBook)) Symbol.cmp}
    {symbol : Symbol} {views : List (VenueView κ ρ)} :
    reclock gatewayClock (symbolView arith policy tops (symbol, views)) =
      { symbol := symbol.text
        weakestIntegrity := (views.filterMap VenueView.integrity).min?
        cross := crossView arith ((tops.find? symbol).getD []) policy gatewayClock
        crossWindows := consolidatedWindows (views.map (fun view => (view, 0)))
        venues := views } := rfl

/-- One symbol reads the same exactly when all its books are mirrored. -/
theorem soleView_iff {tops : OrderedMap Symbol (List (VenueId × TopOfBook)) Symbol.cmp}
    {symbol : Symbol} (nodup : (part.map (fun x => x.1.venue)).Nodup)
    (found : (tops.find? symbol).getD [] =
      part.map (fun x => (x.1.venue, x.2.book.book.topOfBook now))) :
    soleView arith policy arrival symbol (part.map (venueView arith depth now readings)) =
        reclock gatewayClock (symbolView arith policy tops
          (symbol, part.map (venueView arith depth now readings))) ↔
      ∀ x ∈ part, Mirrored policy now x.2.book.book := by
  rw [reclock_symbolView, found]
  constructor
  · intro same x mem
    have venues := congrArg SymbolView.venues same
    dsimp only [soleView] at venues
    rw [List.map_map] at venues
    have kept : aged (venueView arith depth now readings x) 0 =
        venueView arith depth now readings x := List.map_inj_left.mp venues x mem
    obtain ⟨updated, given⟩ := Option.ne_none_iff_exists'.mp (aged_view.mp kept)
    refine ⟨updated, given, ?_⟩
    intro live
    have excluded := congrArg (fun s => s.cross.excluded) same
    dsimp only [soleView] at excluded
    rw [crossView_excluded, crossView_excluded, List.map_map, List.filterMap_map,
      List.filterMap_map] at excluded
    have alike := filterMap_pointwise ExclusionView.venue nodup
      (fun a e shown => shownExclusion_venue shown) (fun a e shown => shownExclusion_venue shown)
      excluded x mem
    exact stays_stale given live alike
  · intro mirrored
    have kept : ∀ x ∈ part, aged (venueView arith depth now readings x) 0 =
        venueView arith depth now readings x := by
      intro x mem
      obtain ⟨updated, given, -⟩ := mirrored x mem
      exact aged_view.mpr (given ▸ Option.some_ne_none updated)
    have venues : (part.map (venueView arith depth now readings)).map (aged · 0) =
        part.map (venueView arith depth now readings) := by
      rw [List.map_map]
      exact List.map_inj_left.mpr kept
    have windows : (part.map (venueView arith depth now readings)).map (fun v => (aged v 0, 0)) =
        (part.map (venueView arith depth now readings)).map (fun view => (view, (0 : Nat))) := by
      rw [List.map_map, List.map_map]
      refine List.map_inj_left.mpr ?_
      intro x mem
      rw [Function.comp_apply, kept x mem]
      rfl
    have touch : List.Forall₂ (AlikeQuote policy)
        ((part.map (venueView arith depth now readings)).map (fun v =>
          (v.venue, topOfBook (aged v 0) arrival)))
        (part.map (fun x => (x.1.venue, x.2.book.book.topOfBook now))) := by
      rw [List.map_map, List.forall₂_map_left_iff, List.forall₂_map_right_iff, List.forall₂_same]
      intro x mem
      exact alike_quote (mirrored x mem)
    rw [soleView, venues, windows, weakest_live, crossView_alike arith touch]

end Symbols

section Reports

variable {arith : TouchArith} {p : Publisher σ} {owned : Option (List StreamId)}
  {now arrival : IngestTime} {readings : StreamId → κ × ρ} {channel : ChannelMetrics}
  {report : NodeReport κ ρ} {policy : GatewayPolicy} {symbol : Symbol} {venue : VenueId}

/-- The published streams of one symbol. -/
def part (p : Publisher σ) (owned : Option (List StreamId)) (symbol : Symbol) :
    List (StreamId × VenueState σ RollingWindows) :=
  (p.published owned).filter (fun e => e.1.symbol = symbol)

theorem venue_lt {a b : StreamId} (lt : StreamId.cmp a b = .lt) (same : a.symbol = b.symbol) :
    VenueId.cmp a.venue b.venue = .lt := by
  have text : compare b.symbol.text b.symbol.text = .eq := Std.ReflCmp.compare_self
  rw [StreamId.cmp, compareLex, compareOn, compareOn, same, text, Ordering.then_eq] at lt
  exact lt

/-- The streams of one symbol are in the order of their venues. -/
theorem part_sorted (p : Publisher σ) (owned : Option (List StreamId)) (symbol : Symbol) :
    (part p owned symbol).Pairwise (fun a b => VenueId.cmp a.1.venue b.1.venue = .lt) := by
  have streams := p.agg.streams.sorted.sublist
    ((List.filter_sublist.trans List.filter_sublist : (part p owned symbol).Sublist _))
  refine streams.imp_of_mem ?_
  intro a b ha hb lt
  have symbol_a : a.1.symbol = symbol := of_decide_eq_true (List.mem_filter.mp ha).2
  have symbol_b : b.1.symbol = symbol := of_decide_eq_true (List.mem_filter.mp hb).2
  exact venue_lt lt (symbol_a.trans symbol_b.symm)

theorem part_nodup (p : Publisher σ) (owned : Option (List StreamId)) (symbol : Symbol) :
    ((part p owned symbol).map (fun x => x.1.venue)).Nodup := by
  refine List.pairwise_map.mpr ((part_sorted p owned symbol).imp ?_)
  intro a b lt same
  rw [same, venue_cmp_eq.mpr rfl] at lt
  cases lt

theorem bySymbol_find : (p.bySymbol arith owned now readings).find? symbol =
    if part p owned symbol = [] then none
    else some ((part p owned symbol).map (venueView arith p.depthLevels now readings)) :=
  OrderedMap.find?_grouped_map (p.published owned) (fun e => e.1.symbol)
    (venueView arith p.depthLevels now readings) symbol

theorem tops_find : ((p.tops owned now).find? symbol).getD [] =
    (part p owned symbol).map (fun x => (x.1.venue, x.2.book.book.topOfBook now)) := by
  rw [Publisher.tops, OrderedMap.find?_grouped_map (p.published owned) (fun e => e.1.symbol)
    (fun e => (e.1.venue, e.2.book.book.topOfBook now)) symbol]
  have same : (p.published owned).filter (fun e => e.1.symbol = symbol) = part p owned symbol := rfl
  rw [same]
  split
  · rename_i empty
    rw [empty]
    rfl
  · rfl

theorem viewsOf_snapshot : viewsOf (p.snapshot arith owned now readings channel).1 symbol venue =
    ((part p owned symbol).map (venueView arith p.depthLevels now readings)).filter
      (fun view => view.venue = venue) := by
  have rendered : (p.snapshot arith owned now readings channel).1.symbols =
      (p.bySymbol arith owned now readings).entries.map
        (symbolView arith p.crossPolicy (p.tops owned now)) := rfl
  rw [viewsOf_rendered (fun _ => rfl) rendered, bySymbol_find]
  split
  · rename_i empty
    rw [empty]
    rfl
  · rfl

/-- The claim that a view just received makes. -/
def soleClaim (node : String) (view : VenueView κ ρ) : Claim κ ρ := ⟨node, millis 0, aged view 0⟩

theorem claimsOn_arriving (snapshot : Snapshot κ ρ) :
    claimsOn [arriving report snapshot arrival] arrival policy symbol venue =
      (viewsOf snapshot symbol venue).map (soleClaim report.node) := by
  have lag : arrival.since arrival = 0 := Nat.sub_self _
  have taken : (arriving report snapshot arrival).taking arrival policy = some (snapshot, 0) := by
    simp [NodeReport.taking, NodeReport.excluded, NodeReport.lag, arriving, lag]
  rw [claimsOn_candidates, candidatesOn, List.flatMap_singleton, taken, List.map_map]
  rfl

/-- One claim for every view of a symbol, in the order of the venues. -/
def soleClaims (node : String) (views : List (VenueView κ ρ)) : List (VenueId × List (Claim κ ρ)) :=
  views.map (fun view => (view.venue, [soleClaim node view]))

theorem held_filter {views : List (VenueView κ ρ)}
    (sorted : views.Pairwise (fun a b => VenueId.cmp a.venue b.venue = .lt)) (node : String) :
    ((soleClaims node views).find? (fun e => VenueId.cmp venue e.1 == .eq)).map Prod.snd =
      held ((views.filter (fun view => view.venue = venue)).map (soleClaim node)) := by
  induction views with
  | nil => rfl
  | cons view views ih =>
    obtain ⟨first, rest⟩ := List.pairwise_cons.mp sorted
    rw [soleClaims, List.map_cons]
    by_cases own : view.venue = venue
    · subst own
      have alone : views.filter (fun other => other.venue = view.venue) = [] := by
        refine List.filter_eq_nil_iff.mpr ?_
        intro other mem same
        have lt := first other mem
        rw [of_decide_eq_true same, venue_cmp_eq.mpr rfl] at lt
        cases lt
      rw [List.find?_cons_of_pos (by simp [venue_cmp_eq.mpr]), List.filter_cons_of_pos (by simp),
        alone]
      rfl
    · have other : VenueId.cmp venue view.venue ≠ .eq := fun same => own (venue_cmp_eq.mp same).symm
      rw [OrderedMap.find?_cons_of_ne other, List.filter_cons_of_neg (by simpa using own)]
      exact ih rest

theorem forall₂_eq {A : Type*} {l r : List A} (h : List.Forall₂ (· = ·) l r) : l = r :=
  List.forall₂_eq_eq_eq ▸ h

theorem option_rel_refl {A : Type*} (o : Option A) : Option.Rel (· = ·) o o := by
  cases o with
  | none => exact .none
  | some a => exact .some rfl

/-- The gateway's books of a symbol are the node's views of it. -/
theorem gather_entries {byVenue : OrderedMap VenueId (List (Claim κ ρ)) VenueId.cmp}
    (found : (gather [arriving report (p.snapshot arith owned now readings channel).1 arrival]
      arrival policy).find? symbol = some byVenue) : byVenue.entries =
      soleClaims report.node ((part p owned symbol).map
        (venueView arith p.depthLevels now readings)) := by
  have sorted : ((part p owned symbol).map (venueView arith p.depthLevels now readings)).Pairwise
      (fun a b => VenueId.cmp a.venue b.venue = .lt) :=
    List.pairwise_map.mpr (part_sorted p owned symbol)
  have keyed : (soleClaims report.node ((part p owned symbol).map
      (venueView arith p.depthLevels now readings))).Pairwise
        (fun a b => VenueId.cmp a.1 b.1 = .lt) := List.pairwise_map.mpr sorted
  have alike := OrderedMap.forall₂_entries (R := Eq) byVenue.sorted keyed
  refine forall₂_eq (List.Forall₂.imp ?_ (alike ?_))
  · rintro ⟨v, claims⟩ ⟨w, others⟩ ⟨rfl, rfl⟩
    rfl
  · intro venue
    have claims : byVenue.find? venue = held (claimsOn _ arrival policy symbol venue) :=
      claimsOn_found found
    rw [claimsOn_arriving, viewsOf_snapshot] at claims
    have own : (byVenue.entries.find? (fun e => VenueId.cmp venue e.1 == .eq)).map Prod.snd = _ :=
      claims
    rw [own, held_filter sorted]
    exact option_rel_refl _

theorem part_empty_iff : part p owned symbol = [] ↔
    (gather [arriving report (p.snapshot arith owned now readings channel).1 arrival]
      arrival policy).find? symbol = none := by
  constructor
  · intro empty
    cases found : (gather [arriving report (p.snapshot arith owned now readings channel).1 arrival]
      arrival policy).find? symbol with
    | none => rfl
    | some byVenue =>
      obtain ⟨venue, claimed⟩ := holds_gather.claimed symbol byVenue found
      have claims : claimsOn _ arrival policy symbol venue ≠ [] := claimed
      rw [claimsOn_arriving, viewsOf_snapshot, empty] at claims
      exact False.elim (claims rfl)
  · intro absent
    cases streams : part p owned symbol with
    | nil => rfl
    | cons x rest =>
      have claims : claimsOn _ arrival policy symbol x.1.venue = [] := claimsOn_absent absent
      have own : decide ((venueView arith p.depthLevels now readings x).venue = x.1.venue) = true :=
        decide_eq_true rfl
      rw [claimsOn_arriving, viewsOf_snapshot, streams, List.map_cons, List.filter_cons,
        if_pos own] at claims
      cases claims

/-- The gateway groups the streams as the node does. -/
theorem gather_alike : List.Forall₂
    (fun a b => a.1 = b.1 ∧ b.2.entries = soleClaims report.node a.2)
    (p.bySymbol arith owned now readings).entries
    (gather [arriving report (p.snapshot arith owned now readings channel).1 arrival]
      arrival policy).entries := by
  have related := OrderedMap.forall₂_of_find? (m := p.bySymbol arith owned now readings)
    (n := gather [arriving report (p.snapshot arith owned now readings channel).1 arrival]
      arrival policy)
    (R := fun views byVenue => byVenue.entries = soleClaims report.node views)
  refine related ?_
  intro symbol
  cases found : (gather [arriving report (p.snapshot arith owned now readings channel).1 arrival]
      arrival policy).find? symbol with
  | none =>
    rw [bySymbol_find, if_pos (part_empty_iff.mpr found)]
    exact .none
  | some byVenue =>
    have some_part : part p owned symbol ≠ [] := by
      intro empty
      rw [part_empty_iff.mp empty] at found
      cases found
    rw [bySymbol_find, if_neg some_part]
    exact .some (gather_entries found)

/-- The gateway's rendering of the claims of one symbol. -/
theorem mergeSymbol_sole {node : String} {views : List (VenueView κ ρ)}
    {byVenue : OrderedMap VenueId (List (Claim κ ρ)) VenueId.cmp}
    (claims : byVenue.entries = soleClaims node views) :
    mergeSymbol arith arrival policy (symbol, byVenue) =
      soleView arith policy.cross arrival symbol views := by
  have served : byVenue.entries.filterMap (fun e => (serve e.2).map (fun claim => (e.1, claim))) =
      views.map (fun view => (view.venue, soleClaim node view)) := by
    have each : ((fun e : VenueId × List (Claim κ ρ) =>
        (serve e.2).map (fun claim => (e.1, claim))) ∘
          fun view => (view.venue, [soleClaim node view])) =
        some ∘ fun view => (view.venue, soleClaim node view) := rfl
    rw [claims, soleClaims, List.filterMap_map, each, List.filterMap_eq_map]
  rw [mergeSymbol, soleView, served]
  simp only [List.map_map]
  rfl

theorem bySymbol_entry {e : Symbol × List (VenueView κ ρ)}
    (mem : e ∈ (p.bySymbol arith owned now readings).entries) :
    e.2 = (part p owned e.1).map (venueView arith p.depthLevels now readings) := by
  have found := OrderedMap.mem_find? mem
  rw [bySymbol_find] at found
  split at found
  · cases found
  · exact (Option.some.inj found).symm

/-- The gateway shows the node exactly when every published book is mirrored. -/
theorem shows_iff_mirrored (cross : policy.cross = p.crossPolicy) (seq : Nat) :
    Shows (p.snapshot arith owned now readings channel).1
        (merge arith [arriving report (p.snapshot arith owned now readings channel).1 arrival]
          arrival seq policy) ↔
      ∀ e ∈ p.published owned, Mirrored p.crossPolicy now e.2.book.book := by
  have merged : (merge arith
      [arriving report (p.snapshot arith owned now readings channel).1 arrival] arrival seq
        policy).snapshot.symbols = (p.bySymbol arith owned now readings).entries.map (fun e =>
          soleView arith p.crossPolicy arrival e.1 e.2) := by
    rw [← cross]
    refine (map_alike gather_alike ?_).symm
    rintro ⟨symbol, views⟩ ⟨_, byVenue⟩ ⟨rfl, claims⟩
    exact (mergeSymbol_sole claims).symm
  have own : (p.snapshot arith owned now readings channel).1.symbols.map (reclock gatewayClock) =
      (p.bySymbol arith owned now readings).entries.map (fun e => reclock gatewayClock
        (symbolView arith p.crossPolicy (p.tops owned now) e)) := by
    rw [Publisher.snapshot, List.map_map]
    rfl
  rw [Shows, merged, own, List.map_inj_left]
  have symbolwise : ∀ e ∈ (p.bySymbol arith owned now readings).entries,
      soleView arith p.crossPolicy arrival e.1 e.2 =
          reclock gatewayClock (symbolView arith p.crossPolicy (p.tops owned now) e) ↔
        ∀ x ∈ part p owned e.1, Mirrored p.crossPolicy now x.2.book.book := by
    rintro ⟨symbol, views⟩ mem
    have own : views = (part p owned symbol).map (venueView arith p.depthLevels now readings) :=
      bySymbol_entry mem
    subst own
    exact soleView_iff (part_nodup p owned symbol) tops_find
  constructor
  · intro same x mem
    have in_part : x ∈ part p owned x.1.symbol := List.mem_filter.mpr ⟨mem, decide_eq_true rfl⟩
    have found : (p.bySymbol arith owned now readings).find? x.1.symbol = some
        ((part p owned x.1.symbol).map (venueView arith p.depthLevels now readings)) := by
      rw [bySymbol_find, if_neg (List.ne_nil_of_mem in_part)]
    obtain ⟨symbol, listed, key⟩ := OrderedMap.find?_mem found
    obtain rfl := symbol_cmp_eq.mp key
    exact (symbolwise _ listed).mp (same _ listed) x in_part
  · intro mirrored e mem
    refine (symbolwise e mem).mpr ?_
    intro x given
    exact mirrored x (List.mem_of_mem_filter given)

end Reports

/-- An untrusted book was updated before, and a stale live book stays stale. -/
def Undistorted (policy : CrossPolicy) (now : IngestTime) (book : Book) : Prop :=
  if book.state.isLive then
    ∀ updated, book.lastUpdate = some updated → StaysStale policy (now.since updated)
  else book.lastUpdate ≠ none

theorem mirrored_iff {policy : CrossPolicy} {now : IngestTime} {book : Book} (sound : Sound book) :
    Mirrored policy now book ↔ Undistorted policy now book := by
  rw [Undistorted]
  constructor
  · rintro ⟨updated, given, stays⟩
    split
    · rename_i live
      intro instant same
      obtain rfl := Option.some.inj (given.symm.trans same)
      exact stays live
    · exact given ▸ Option.some_ne_none updated
  · intro h
    split at h
    · rename_i live
      obtain ⟨updated, given⟩ := Option.isSome_iff_exists.mp (sound.updated live)
      exact ⟨updated, given, fun _ => h updated given⟩
    · rename_i down
      obtain ⟨updated, given⟩ := Option.ne_none_iff_exists'.mp h
      exact ⟨updated, given, fun live => False.elim (down live)⟩

/-- In every state that messages and ticks reach and at every instant, a gateway with the
node's policy that has just received the node's snapshot shows that node exactly when every
published book is undistorted. -/
theorem sole_node_shown_iff (v : VenueSync σ) (arith : TouchArith) (specs : List (VenueSpec σ))
    (windows : WindowSpec) (begin : IngestTime) (sink : Bool) (depthLevels : Nat)
    (crossPolicy : CrossPolicy) (turns : List Turn) (owned : Option (List StreamId))
    (now : IngestTime) (readings : StreamId → κ × ρ) (channel : ChannelMetrics)
    (report : NodeReport κ ρ) (arrival : IngestTime) (seq maxNodeAge : Nat) :
    let p := exec (step v arith.toDecimalArith)
      (start v specs windows begin sink depthLevels crossPolicy) turns
    let snapshot := (p.snapshot arith owned now readings channel).1
    Shows snapshot (merge arith [arriving report snapshot arrival] arrival seq
        ⟨maxNodeAge, p.crossPolicy⟩) ↔
      ∀ e ∈ p.published owned, Undistorted p.crossPolicy now e.2.book.book := by
  intro p snapshot
  have sound : AllSound p := allSound_run specs windows begin sink depthLevels crossPolicy turns
  have same : (⟨maxNodeAge, p.crossPolicy⟩ : GatewayPolicy).cross = p.crossPolicy := rfl
  refine (shows_iff_mirrored same seq).trans ?_
  have each : ∀ e ∈ p.published owned, (Mirrored p.crossPolicy now e.2.book.book ↔
      Undistorted p.crossPolicy now e.2.book.book) := by
    intro e mem
    exact mirrored_iff (sound e.1 e.2 (OrderedMap.mem_find? (List.mem_of_mem_filter mem)))
  constructor
  · intro all e mem
    exact (each e mem).mp (all e mem)
  · intro all e mem
    exact (each e mem).mpr (all e mem)

example : ¬ StaysStale ⟨5 * nanosPerSec⟩ (5 * nanosPerSec + 500000) := by
  intro stays
  exact absurd (stays (by decide)).2 (by decide)

/-- A node that tracks one stream and has heard nothing yet. -/
def idleNode : Publisher CoinbaseFeed.CoinbaseSync :=
  exec (step (CoinbaseFeed.CoinbaseSync.sync (CoinbaseFeed.tableWire [] [])) DecimalArith.idle)
    (start (CoinbaseFeed.CoinbaseSync.sync (CoinbaseFeed.tableWire [] []))
      [⟨CoinbaseFeed.CoinbaseSync.new "BTC-USD", ⟨"BTC-USD"⟩, none⟩]
      (WindowSpec.new nanosPerSec [60 * nanosPerSec]) ⟨0, 0⟩ false 10 ⟨5 * nanosPerSec⟩) []

def idleSnapshot : Snapshot Unit Unit :=
  (idleNode.snapshot TouchArith.idle none ⟨0, 0⟩ (fun _ => ((), ())) ⟨0, 0, 0⟩).1

/-- The gateway shows an age for the book that was never updated. -/
theorem idle_node_not_shown : ¬ Shows idleSnapshot (merge TouchArith.idle
    [arriving (soleReport "a" (bareView .live none)) idleSnapshot ⟨0, 0⟩] ⟨0, 0⟩ 1
      ⟨nanosPerSec, idleNode.crossPolicy⟩) := by
  intro shows
  have all := (shows_iff_mirrored rfl 1).mp shows
  have tracked : ∃ x s, (x, s) ∈ idleNode.published none ∧ s.book.book.lastUpdate = none :=
    ⟨_, _, List.mem_cons_self, rfl⟩
  obtain ⟨x, s, mem, missing⟩ := tracked
  obtain ⟨updated, given, -⟩ := all (x, s) mem
  cases missing.symm.trans given

end SoleNode

import MarketAggregator.BestElement
import MarketAggregator.CrossTouch

/-!
# Which books make the consolidated touch

A quote is eligible if its book is live, was updated recently enough and shows a side. The touch
is that of the eligible quotes alone: the others add their exclusions and nothing else.
-/

namespace TouchEligibility

open BestElement Clocks CrossTouch Decimals MarketEvents OrderBook VenueStreams WindowBuckets

abbrev Quote := VenueId × TopOfBook

/-- The book was updated, and recently enough. -/
def Fresh (policy : CrossPolicy) (q : Quote) : Prop := ∃ age ∈ q.2.age, age ≤ policy.maxAge

instance (policy : CrossPolicy) (q : Quote) : Decidable (Fresh policy q) :=
  inferInstanceAs (Decidable (∃ age ∈ q.2.age, age ≤ policy.maxAge))

structure Eligible (policy : CrossPolicy) (q : Quote) : Prop where
  live : q.2.state.isLive = true
  fresh : Fresh policy q
  shows : q.2.bid.isSome = true ∨ q.2.ask.isSome = true

instance (policy : CrossPolicy) (q : Quote) : Decidable (Eligible policy q) :=
  decidable_of_iff (q.2.state.isLive = true ∧ Fresh policy q ∧
      (q.2.bid.isSome = true ∨ q.2.ask.isSome = true))
    ⟨fun ⟨live, fresh, shows⟩ => ⟨live, fresh, shows⟩, fun h => ⟨h.live, h.fresh, h.shows⟩⟩

def eligible (policy : CrossPolicy) (quotes : List Quote) : List Quote :=
  quotes.filter (Eligible policy ·)

/-- The first of the reasons that applies. -/
def exclusion (policy : CrossPolicy) (q : Quote) : Exclusion where
  venue := q.1
  reason :=
    if ¬ q.2.state.isLive = true then .untrusted
    else if ¬ Fresh policy q then .stale (q.2.age.getD durationMax)
    else .noQuote

def shown (side : Side) (top : TopOfBook) : Option Level :=
  match side with
  | .bid => top.bid
  | .ask => top.ask

/-- What a quote offers on a side, under its book's age and integrity. -/
def legOf (side : Side) (q : Quote) : Option CrossLeg :=
  match q.2.state, q.2.age with
  | .live integrity _ _, some age =>
    (shown side q.2).map (fun level => ⟨q.1, level.price, level.qty, millis age, integrity⟩)
  | _, _ => none

/-- The legs of a side that the eligible quotes offer, in order. -/
def legs (policy : CrossPolicy) (side : Side) (quotes : List Quote) : List CrossLeg :=
  (eligible policy quotes).filterMap (legOf side)

/-- The greater, the better. -/
def merit (side : Side) (leg : CrossLeg) : Int :=
  match side with
  | .bid => leg.price.decimal.units
  | .ask => -leg.price.decimal.units

section Quotes

variable {policy : CrossPolicy} {t : Touch} {q : Quote}

theorem betterBid_eq (best : Option CrossLeg) (leg : CrossLeg) :
    Touch.betterBid best leg = pickFirst (merit .bid) best leg := by
  cases best with
  | none => rfl
  | some b =>
    rw [Touch.betterBid, pickFirst]
    by_cases higher : merit .bid b < merit .bid leg
    · have above : Price.cmp leg.price b.price = .gt := Price.cmp_gt.mpr higher
      rw [if_pos above, if_pos higher]
    · have not_above : ¬ Price.cmp leg.price b.price = .gt := fun h => higher (Price.cmp_gt.mp h)
      rw [if_neg not_above, if_neg higher]

theorem betterAsk_eq (best : Option CrossLeg) (leg : CrossLeg) :
    Touch.betterAsk best leg = pickFirst (merit .ask) best leg := by
  cases best with
  | none => rfl
  | some a =>
    rw [Touch.betterAsk, pickFirst]
    by_cases lower : merit .ask a < merit .ask leg
    · have below : Price.cmp leg.price a.price = .lt :=
        Price.cmp_lt.mpr (Int.neg_lt_neg_iff.mp lower)
      rw [if_pos below, if_pos lower]
    · have not_below : ¬ Price.cmp leg.price a.price = .lt :=
        fun h => lower (Int.neg_lt_neg_iff.mpr (Price.cmp_lt.mp h))
      rw [if_neg not_below, if_neg lower]

/-- An eligible quote is used, and its legs compete. -/
theorem quote_eligible (h : Eligible policy q) :
    Touch.quote policy t q =
      { t with
        used := t.used + 1
        bid := (legOf .bid q).toList.foldl (pickFirst (merit .bid)) t.bid
        ask := (legOf .ask q).toList.foldl (pickFirst (merit .ask)) t.ask } := by
  obtain ⟨live, ⟨age, known, recent⟩, shows⟩ := h
  have aged : q.2.age = some age := known
  cases state : q.2.state with
  | uninitialized =>
    rw [state] at live
    cases live
  | desynced since reason =>
    rw [state] at live
    cases live
  | live integrity since verified =>
    have young : ¬ policy.maxAge < age := Nat.not_lt_of_le recent
    have some : ¬ (q.2.bid.isNone = true ∧ q.2.ask.isNone = true) := by
      rw [Option.isNone_iff_eq_none, Option.isNone_iff_eq_none]
      rintro ⟨noBid, noAsk⟩
      rw [noBid, noAsk] at shows
      rcases shows with bid | ask
      · cases bid
      · cases ask
    rw [Touch.quote, legOf, legOf, state, aged]
    dsimp only [Option.getD_some]
    rw [if_neg young, if_neg some, Touch.use]
    dsimp only [shown]
    cases q.2.bid with
    | none => cases q.2.ask <;> simp [betterAsk_eq]
    | some bid => cases q.2.ask <;> simp [betterAsk_eq, betterBid_eq]

/-- Any other is excluded. -/
theorem quote_ineligible (bounded : policy.maxAge < durationMax) (h : ¬ Eligible policy q) :
    Touch.quote policy t q = { t with excluded := t.excluded ++ [exclusion policy q] } := by
  cases state : q.2.state with
  | uninitialized => simp [Touch.quote, Touch.exclude, exclusion, state, BookState.isLive]
  | desynced since reason => simp [Touch.quote, Touch.exclude, exclusion, state, BookState.isLive]
  | live integrity since verified =>
    have live : q.2.state.isLive = true := congrArg BookState.isLive state
    have fresh : ¬ policy.maxAge < q.2.age.getD durationMax ↔ Fresh policy q := by
      cases known : q.2.age with
      | none =>
        constructor
        · intro young
          exact False.elim (young bounded)
        · rintro ⟨age, mem, _⟩
          rw [known] at mem
          cases mem
      | some age =>
        constructor
        · intro young
          exact ⟨age, known, Nat.not_lt.mp young⟩
        · rintro ⟨other, mem, recent⟩
          rw [known] at mem
          cases mem
          exact Nat.not_lt_of_le recent
    rw [Touch.quote, exclusion, if_neg (not_not_intro live), state]
    dsimp only
    by_cases young : policy.maxAge < q.2.age.getD durationMax
    · have old : ¬ Fresh policy q := fun recent => fresh.mpr recent young
      rw [if_pos young, if_pos old]
      rfl
    · have recent := fresh.mp young
      have blank : q.2.bid.isNone = true ∧ q.2.ask.isNone = true := by
        constructor
        · by_contra shows
          have offered : q.2.bid.isSome = true :=
            Option.isSome_iff_ne_none.mpr fun none => shows (Option.isNone_iff_eq_none.mpr none)
          exact h ⟨live, recent, .inl offered⟩
        · by_contra shows
          have offered : q.2.ask.isSome = true :=
            Option.isSome_iff_ne_none.mpr fun none => shows (Option.isNone_iff_eq_none.mpr none)
          exact h ⟨live, recent, .inr offered⟩
      rw [if_neg young, if_pos blank, if_neg (not_not_intro recent)]
      rfl

/-- The touch of some quotes is the best legs of the eligible ones. -/
theorem foldl_quote (bounded : policy.maxAge < durationMax) (quotes : List Quote) (t : Touch) :
    quotes.foldl (Touch.quote policy) t =
      { bid := (legs policy .bid quotes).foldl (pickFirst (merit .bid)) t.bid
        ask := (legs policy .ask quotes).foldl (pickFirst (merit .ask)) t.ask
        excluded := t.excluded ++
          (quotes.filter (fun q => ¬ Eligible policy q)).map (exclusion policy)
        used := t.used + (eligible policy quotes).length } := by
  induction quotes generalizing t with
  | nil => simp [legs, eligible]
  | cons q rest ih =>
    rw [List.foldl_cons, ih]
    by_cases here : Eligible policy q
    · rw [quote_eligible here]
      have first : eligible policy (q :: rest) = q :: eligible policy rest :=
        List.filter_cons_of_pos (decide_eq_true here)
      have later : (q :: rest).filter (fun q => ¬ Eligible policy q) =
          rest.filter (fun q => ¬ Eligible policy q) :=
        List.filter_cons_of_neg (by simpa using here)
      have offers : ∀ side, legs policy side (q :: rest) =
          (legOf side q).toList ++ legs policy side rest := by
        intro side
        rw [legs, first, List.filterMap_cons]
        cases legOf side q <;> rfl
      rw [first, later, offers, offers, List.foldl_append, List.foldl_append, List.length_cons]
      congr 1
      dsimp only
      omega
    · rw [quote_ineligible bounded here]
      have first : eligible policy (q :: rest) = eligible policy rest :=
        List.filter_cons_of_neg (by simpa using here)
      have later : (q :: rest).filter (fun q => ¬ Eligible policy q) =
          q :: rest.filter (fun q => ¬ Eligible policy q) :=
        List.filter_cons_of_pos (by simpa using here)
      have same : ∀ side, legs policy side (q :: rest) = legs policy side rest :=
        fun side => congrArg (List.filterMap (legOf side)) first
      rw [same, same, first, later, List.map_cons, List.append_assoc]
      rfl

theorem eligible_eligible (quotes : List Quote) :
    eligible policy (eligible policy quotes) = eligible policy quotes := by
  rw [eligible, eligible, List.filter_filter]
  simp only [Bool.and_self]

theorem none_excluded (quotes : List Quote) :
    (eligible policy quotes).filter (fun q => ¬ Eligible policy q) = [] := by
  refine List.filter_eq_nil_iff.mpr ?_
  intro q mem
  simpa using (List.mem_filter.mp mem).2

end Quotes

section Touches

/-- The legs that a touch uses. -/
def used (c : CrossVenue) : List CrossLeg := c.bid.toList ++ c.ask.toList

/-- No leg, or the first of the best. -/
def Leads (side : Side) (offers : List CrossLeg) (best : Option CrossLeg) : Prop :=
  (offers = [] ∧ best = none) ∨ ∃ leg, best = some leg ∧ FirstMax (merit side) offers leg

/-- A touch that the eligible quotes alone decide. -/
structure OfEligible (arith : TouchArith) (policy : CrossPolicy) (quotes : List Quote)
    (c : CrossVenue) : Prop where
  same : c = { consolidate arith (eligible policy quotes) policy with excluded := c.excluded }
  bid : Leads .bid (legs policy .bid quotes) c.bid
  ask : Leads .ask (legs policy .ask quotes) c.ask
  floor : c.integrityFloor = ((used c).map CrossLeg.integrity).min?
  oldest : c.oldestLegMs = ((used c).map CrossLeg.ageMs).max?
  counted : c.venuesUsed = (eligible policy quotes).length
  listed : c.excluded =
    (quotes.filter (fun q => ¬ Eligible policy q)).map (exclusion policy)

variable {policy : CrossPolicy} {quotes : List Quote}

theorem leads_foldl (side : Side) (offers : List CrossLeg) :
    Leads side offers (offers.foldl (pickFirst (merit side)) none) := by
  rcases foldl_pickFirst (merit side) offers with ⟨rfl, none⟩ | best
  · exact .inl ⟨rfl, none⟩
  · exact .inr best

/-- Quotes that are not eligible add an exclusion each and change nothing else. -/
theorem touch_of_eligible (arith : TouchArith) (policy : CrossPolicy) (quotes : List Quote)
    (bounded : policy.maxAge < durationMax) :
    OfEligible arith policy quotes (consolidate arith quotes policy) := by
  have all := foldl_quote bounded quotes Touch.empty
  have own := foldl_quote bounded (eligible policy quotes) Touch.empty
  have same : ∀ side, legs policy side (eligible policy quotes) = legs policy side quotes :=
    fun side => congrArg (List.filterMap (legOf side)) (eligible_eligible quotes)
  rw [same, same, eligible_eligible, none_excluded] at own
  have bids : Leads .bid (legs policy .bid quotes) _ := leads_foldl .bid _
  have asks : Leads .ask (legs policy .ask quotes) _ := leads_foldl .ask _
  rw [consolidate, all]
  dsimp only [Touch.empty] at own bids asks ⊢
  generalize (legs policy .bid quotes).foldl (pickFirst (merit .bid)) none = bid at own bids ⊢
  generalize (legs policy .ask quotes).foldl (pickFirst (merit .ask)) none = ask at own asks ⊢
  -- Whichever legs there are, both runs publish them alike.
  cases bid <;> cases ask <;>
    exact ⟨by rw [consolidate, Touch.empty, own], bids, asks, rfl, rfl, Nat.zero_add _, rfl⟩

end Touches

section Sample

def bidAt (n : Fin (2 ^ 96)) : TopOfBook where
  bid := some (.whole n 1)
  ask := none
  state := .live .verified ⟨0, 0⟩ none
  age := some 10

/-- A bid on one venue, and a higher one that its book's desync left behind on another. -/
def sampleQuotes : List Quote :=
  [(.kraken, bidAt 5), (.coinbase, { bidAt 9 with state := .desynced ⟨0, 0⟩ .connectionLost })]

theorem touch_of_sample : OfEligible ⟨.idle, fun d _ => d⟩ ⟨2000000000⟩ sampleQuotes
    (consolidate ⟨.idle, fun d _ => d⟩ sampleQuotes ⟨2000000000⟩) :=
  touch_of_eligible ⟨.idle, fun d _ => d⟩ ⟨2000000000⟩ sampleQuotes (by decide)

end Sample

end TouchEligibility

import MarketAggregator.AuditComparison
import MarketAggregator.AuditStreaks
import MarketAggregator.BitstampSplice
import MarketAggregator.EventReplay

/-!
# The audits of a book along its inputs

An audit carries the first disagreements of both sides, and the trail sees no others. A level
that two audits in a row find wrong desyncs the book unless noise crowds it out of one of them.
The trail is cleared by a reset and by a match, but not by a snapshot that replaces the book:
what it holds against the old book counts against the new one.
-/

namespace AuditEvidence

open AuditComparison AuditStreaks Clocks Decimals DepthAudit EventReplay GuardedRuns MarketEvents
  OrderBook OrderedMaps PersistentFaults RankedLists VenueBooks VenueStreams

universe u

/-- What an audit compares. -/
structure Audit where
  levels : Levels
  snapshot : RestSnapshot
  deriving DecidableEq

section Findings

variable (arith : DecimalArith) (levels : Levels) (policy : AuditPolicy)

/-- The windows of a side as the comparison reads them. -/
def ourWindow (side : Side) : PriceMap :=
  match levels.best side with
  | none => OrderedMap.empty
  | some best => ourMap arith levels policy side best

def theirWindow (side : Side) (snapshot : List Level) : PriceMap :=
  match levels.best side with
  | none => OrderedMap.empty
  | some best => theirMap arith policy side best snapshot

variable {arith levels policy} {side : Side} {snapshot : List Level}

theorem sideFindings_windows : sideFindings arith levels policy side snapshot =
    disagreements side (ourWindow arith levels policy side)
      (theirWindow arith levels policy side snapshot) := by
  rw [sideFindings, ourWindow, theirWindow]
  cases levels.best side <;> rfl

/-- Bids come before asks, and lower prices before higher ones. -/
def Before (x y : Side × Int) : Prop := (x.1 = .bid ∧ y.1 = .ask) ∨ (x.1 = y.1 ∧ x.2 < y.2)

instance : DecidableRel Before := fun x y =>
  inferInstanceAs (Decidable ((x.1 = .bid ∧ y.1 = .ask) ∨ (x.1 = y.1 ∧ x.2 < y.2)))

theorem before_asymm (x y : Side × Int) (h : Before x y) : ¬ Before y x := by
  rcases h with ⟨bid, ask⟩ | ⟨same, below⟩
  · rintro (⟨other, _⟩ | ⟨same, _⟩)
    · rw [ask] at other
      cases other
    · rw [ask, bid] at same
      cases same
  · rintro (⟨bid, ask⟩ | ⟨_, above⟩)
    · rw [same, bid] at ask
      cases ask
    · exact Int.lt_asymm below above

/-- Where a finding is. -/
def place (f : AuditFinding) : Side × Int := (f.side, f.price.decimal.units)

theorem disagreements_side {ours theirs : PriceMap} {f : AuditFinding}
    (mem : f ∈ disagreements side ours theirs) : f.side = side := by
  obtain ⟨p, _, made⟩ := List.mem_filterMap.mp mem
  split at made
  · cases made
  · cases made
    rfl

theorem comparedPrices_sorted (ours theirs : PriceMap) :
    (comparedPrices ours theirs).Pairwise (fun p q => p.decimal.units < q.decimal.units) := by
  rw [comparedPrices]
  split
  · rename_i ourLow theirLow ourHigh theirHigh _ _ _ _
    dsimp only
    generalize (if Price.cmp ourLow.1 theirLow.1 = .gt then ourLow.1 else theirLow.1) = lo
    generalize (if Price.cmp ourHigh.1 theirHigh.1 = .gt then theirHigh.1 else ourHigh.1) = hi
    split
    · exact List.Pairwise.nil
    · refine List.pairwise_map.mpr ((OrderedMap.sorted _).imp ?_)
      exact fun below => Price.cmp_lt.mp below
  · exact List.Pairwise.nil

theorem disagreements_sorted (side : Side) (ours theirs : PriceMap) :
    ((disagreements side ours theirs).map place).Pairwise Before := by
  refine List.pairwise_map.mpr (List.pairwise_filterMap.mpr ?_)
  refine (comparedPrices_sorted ours theirs).imp ?_
  intro p q below f first g second
  split at first
  · cases first
  · cases first
    split at second
    · cases second
    · cases second
      exact .inr ⟨rfl, below⟩

end Findings

namespace Audit

variable (arith : DecimalArith) (policy : AuditPolicy) (a : Audit)

def ours (side : Side) : Window := At (ourWindow arith a.levels policy side)

def theirs (side : Side) : Window :=
  At (theirWindow arith a.levels policy side
    (sideOf a.snapshot.bids a.snapshot.asks side))

/-- The windows of a side differ at the value. -/
def Disagrees (side : Side) (u : Int) : Prop :=
  Differs (a.ours arith policy side) (a.theirs arith policy side) u

/-- Both windows of a side hold the value, with different quantities. -/
def Wrong (side : Side) (u : Int) : Prop :=
  ∃ q r, a.ours arith policy side u q ∧ a.theirs arith policy side u r ∧ q ≠ r

/-- Few enough disagreements come before one at the value. -/
def Carries (u : Int) : Prop :=
  ∃ side, a.Disagrees arith policy side u ∧
    ({x | a.Disagrees arith policy x.1 x.2 ∧ Before x (side, u)} : Set (Side × Int)).ncard <
      maxFindings

def outcome : AuditOutcome :=
  DepthAudit.audit arith a.levels a.snapshot.bids a.snapshot.asks policy

def found : List AuditFinding :=
  sideFindings arith a.levels policy .bid a.snapshot.bids ++
    sideFindings arith a.levels policy .ask a.snapshot.asks

instance (m : PriceMap) (u q : Int) : Decidable (At m u q) :=
  inferInstanceAs (Decidable (∃ e ∈ m.entries, _ ∧ _))

instance (side : Side) (u q : Int) : Decidable (a.ours arith policy side u q) :=
  inferInstanceAs (Decidable (At _ u q))

instance (side : Side) (u q : Int) : Decidable (a.theirs arith policy side u q) :=
  inferInstanceAs (Decidable (At _ u q))

variable {arith policy a}

theorem disagrees_of_wrong {side : Side} {u : Int} (h : a.Wrong arith policy side u) :
    a.Disagrees arith policy side u := by
  obtain ⟨q, r, ours, theirs, other⟩ := h
  refine ⟨⟨⟨u, q, ours, Int.le_refl u⟩, u, q, ours, Int.le_refl u⟩,
    ⟨⟨u, r, theirs, Int.le_refl u⟩, u, r, theirs, Int.le_refl u⟩, q, ?_⟩
  intro alike
  exact other (at_unique (alike.mp ours) theirs)

theorem mem_found {side : Side} {u : Int} :
    (side, u) ∈ (a.found arith policy).map place ↔ a.Disagrees arith policy side u := by
  have there : ∀ side, (∃ f ∈ disagreements side (ourWindow arith a.levels policy side)
      (theirWindow arith a.levels policy side (sideOf a.snapshot.bids a.snapshot.asks side)),
        f.price.decimal.units = u) ↔ a.Disagrees arith policy side u :=
    fun side => disagreements_iff
  rw [← there, found, sideFindings_windows, sideFindings_windows]
  constructor
  · intro mem
    obtain ⟨f, listed, same⟩ := List.mem_map.mp mem
    cases same
    rcases List.mem_append.mp listed with listed | listed
    · rw [disagreements_side listed]
      exact ⟨f, listed, rfl⟩
    · rw [disagreements_side listed]
      exact ⟨f, listed, rfl⟩
  · rintro ⟨f, mem, rfl⟩
    have where_ : f.side = side := disagreements_side mem
    refine List.mem_map.mpr ⟨f, ?_, congrArg (·, f.price.decimal.units) where_⟩
    cases side with
    | bid => exact List.mem_append_left _ mem
    | ask => exact List.mem_append_right _ mem

theorem found_sorted (arith : DecimalArith) (policy : AuditPolicy) (a : Audit) :
    ((a.found arith policy).map place).Pairwise Before := by
  rw [found, sideFindings_windows, sideFindings_windows, List.map_append]
  refine List.pairwise_append.mpr ⟨disagreements_sorted .., disagreements_sorted .., ?_⟩
  intro x bid y ask
  obtain ⟨f, first, rfl⟩ := List.mem_map.mp bid
  obtain ⟨g, second, rfl⟩ := List.mem_map.mp ask
  exact .inl ⟨disagreements_side first, disagreements_side second⟩

/-- The findings that are carried are at the values that are. -/
theorem values_carried : values (carried arith a.levels policy a.snapshot.bids a.snapshot.asks) =
    {u | a.Carries arith policy u} := by
  have kept : carried arith a.levels policy a.snapshot.bids a.snapshot.asks =
      (a.found arith policy).take maxFindings := rfl
  have sorted := found_sorted arith policy a
  have distinct := nodup_of_asymm before_asymm sorted
  have rank : ∀ x, ({y | a.Disagrees arith policy y.1 y.2 ∧ Before y x} : Set (Side × Int)).ncard =
      rank Before ((a.found arith policy).map place) x := by
    intro x
    have same : ({y | a.Disagrees arith policy y.1 y.2 ∧ Before y x} : Set (Side × Int)) =
        {y | y ∈ (a.found arith policy).map place ∧ Before y x} := by
      ext y
      exact and_congr_left' mem_found.symm
    rw [same, ncard_before distinct]
  have top : ∀ side u, (side, u) ∈ ((a.found arith policy).take maxFindings).map place ↔
      a.Disagrees arith policy side u ∧
        ({y | a.Disagrees arith policy y.1 y.2 ∧ Before y (side, u)} : Set (Side × Int)).ncard <
          maxFindings := by
    intro side u
    rw [List.map_take, mem_take_iff before_asymm sorted, RankedLists.Top, mem_found, rank]
  ext u
  rw [kept]
  constructor
  · rintro ⟨f, mem, rfl⟩
    exact ⟨f.side, (top _ _).mp (List.mem_map_of_mem mem)⟩
  · rintro ⟨side, there⟩
    obtain ⟨f, mem, same⟩ := List.mem_map.mp ((top side u).mpr there)
    exact ⟨f, mem, congrArg Prod.snd same⟩

/-- An audit that disagrees anywhere carries something. -/
theorem outcome_mismatch {side : Side} {u : Int} (h : a.Disagrees arith policy side u) :
    ∃ findings compared, a.outcome arith policy = .mismatch findings compared ∧
      values findings = {u | a.Carries arith policy u} := by
  have some : carried arith a.levels policy a.snapshot.bids a.snapshot.asks ≠ [] := by
    have mem := mem_found.mpr h
    obtain ⟨f, mem, _⟩ := List.mem_map.mp mem
    have all : a.found arith policy ≠ [] := List.ne_nil_of_mem mem
    have limit : maxFindings ≠ 0 := by decide
    rw [carried, ne_eq, List.take_eq_nil_iff]
    rintro (zero | none)
    · exact limit zero
    · exact all none
  rw [outcome, audit_eq, if_pos some]
  exact ⟨_, _, rfl, values_carried⟩

/-- What a mismatch names are the values it carries. -/
theorem outcome_values {findings : List AuditFinding} {compared : Nat}
    (h : a.outcome arith policy = .mismatch findings compared) :
    values findings = {u | a.Carries arith policy u} := by
  rw [outcome, audit_eq] at h
  split at h
  · cases h
    exact values_carried
  · split at h <;> cases h

end Audit

section Trail

variable {σ : Type u} (v : VenueSync σ) (arith : DecimalArith) (vb : VenueBook σ)

/-- The audit that an input performs, on a live book only. -/
def auditOf : Input → Option Audit
  | .feed frame => match frame.source with
    | .webSocket => none
    | .restSnapshot => none
    | .restAudit => match frame.asStr.bind (v.parseRestSnapshot vb.sync) with
      | .error _ => none
      | .ok snapshot => if vb.book.state.isLive then some ⟨vb.book.levels, snapshot⟩ else none
  | .audit snapshot _ => if vb.book.state.isLive then some ⟨vb.book.levels, snapshot⟩ else none
  | .reset _ => none

/-- What an input does to the trail. -/
def trailOp (input : Input) : Option TrailOp :=
  match input with
  | .reset _ => some .reset
  | _ => (auditOf v vb input).map (fun a => .observe (a.outcome arith vb.auditPolicy))

variable {v arith vb} {input : Input} {a : Audit}

theorem audit_live (live : vb.book.state.isLive = true) (snapshot : RestSnapshot)
    (now : IngestTime) :
    let observed := vb.auditTrail.observe
      ((Audit.mk vb.book.levels snapshot).outcome arith vb.auditPolicy) vb.auditPolicy
    (vb.audit arith snapshot now).2 =
      { vb with
        auditTrail := observed.2
        book := observed.1.elim vb.book (vb.book.markDesynced · now) } := by
  rw [VenueBook.audit, if_pos live]
  dsimp only [Audit.outcome]
  cases (vb.auditTrail.observe (DepthAudit.audit arith vb.book.levels snapshot.bids snapshot.asks
    vb.auditPolicy) vb.auditPolicy).1 <;> rfl

theorem audit_down (down : ¬ vb.book.state.isLive = true) (snapshot : RestSnapshot)
    (now : IngestTime) : (vb.audit arith snapshot now).2 = vb := by
  rw [VenueBook.audit, if_neg down]

variable (arith) in
/-- An input that audits a book observes the outcome, and desyncs the book for a reason. -/
theorem receive_audit (h : auditOf v vb input = some a) :
    vb.book.state.isLive = true ∧ ∃ now,
      let observed := vb.auditTrail.observe (a.outcome arith vb.auditPolicy) vb.auditPolicy
      (receive v arith vb input).2 =
        { vb with
          auditTrail := observed.2
          book := observed.1.elim vb.book (vb.book.markDesynced · now) } := by
  cases input with
  | reset now => cases h
  | audit snapshot now =>
    rw [auditOf] at h
    split at h
    · rename_i live
      cases h
      exact ⟨live, now, audit_live live snapshot now⟩
    · cases h
  | feed frame =>
    rw [auditOf] at h
    cases source : frame.source with
    | webSocket =>
      rw [source] at h
      cases h
    | restSnapshot =>
      rw [source] at h
      cases h
    | restAudit =>
      rw [source] at h
      cases parsed : frame.asStr.bind (v.parseRestSnapshot vb.sync) with
      | error e =>
        rw [parsed] at h
        cases h
      | ok snapshot =>
        rw [parsed] at h
        dsimp only at h
        split at h
        · rename_i live
          cases h
          refine ⟨live, frame.ingestTs, ?_⟩
          have fed : (receive v arith vb (.feed frame)).2 =
              (vb.audit arith snapshot frame.ingestTs).2 := by
            rw [receive, VenueBook.feed, source]
            dsimp only
            rw [parsed]
          rw [fed]
          exact audit_live live snapshot frame.ingestTs
        · cases h

theorem receive_feed (frame : RawFrame) :
    (receive v arith vb (.feed frame)).2 = (vb.feed v arith frame).2 := by
  rw [receive]
  split <;> rfl

/-- Any other input leaves the policy alone, and the trail unless it is a reset. -/
theorem receive_plain (h : auditOf v vb input = none) :
    (receive v arith vb input).2.auditPolicy = vb.auditPolicy ∧
      (receive v arith vb input).2.auditTrail =
        (trailOp v arith vb input).elim vb.auditTrail
          (AuditStreaks.step vb.auditPolicy vb.auditTrail) := by
  cases input with
  | reset now => exact ⟨rfl, rfl⟩
  | audit snapshot now =>
    have still : trailOp v arith vb (.audit snapshot now) = none := by
      simp only [trailOp, h, Option.map_none]
    have down : ¬ vb.book.state.isLive = true := by
      intro live
      rw [auditOf, if_pos live] at h
      cases h
    rw [still, receive, audit_down down]
    exact ⟨rfl, rfl⟩
  | feed frame =>
    have still : trailOp v arith vb (.feed frame) = none := by
      simp only [trailOp, h, Option.map_none]
    rw [still, receive_feed, VenueBook.feed]
    rw [auditOf] at h
    cases source : frame.source with
    | webSocket =>
      dsimp only
      split <;> exact ⟨rfl, rfl⟩
    | restSnapshot =>
      dsimp only
      split <;> exact ⟨rfl, rfl⟩
    | restAudit =>
      rw [source] at h
      dsimp only at h ⊢
      split
      · exact ⟨rfl, rfl⟩
      · rename_i snapshot parsed
        rw [parsed] at h
        dsimp only at h ⊢
        have down : ¬ vb.book.state.isLive = true := by
          intro live
          rw [if_pos live] at h
          cases h
        rw [audit_down down]
        exact ⟨rfl, rfl⟩

theorem receive_policy (v : VenueSync σ) (arith : DecimalArith) (vb : VenueBook σ)
    (input : Input) : (receive v arith vb input).2.auditPolicy = vb.auditPolicy := by
  cases audited : auditOf v vb input with
  | none => exact (receive_plain audited).1
  | some a =>
    obtain ⟨_, now, after⟩ := receive_audit arith audited
    rw [after]

theorem trailOp_audit (arith : DecimalArith) (audited : auditOf v vb input = some a) :
    trailOp v arith vb input = some (.observe (a.outcome arith vb.auditPolicy)) := by
  cases input with
  | reset now => cases audited
  | _ => simp only [trailOp, audited, Option.map_some]

theorem receive_trail (v : VenueSync σ) (arith : DecimalArith) (vb : VenueBook σ)
    (input : Input) : (receive v arith vb input).2.auditTrail =
      (trailOp v arith vb input).elim vb.auditTrail
        (AuditStreaks.step vb.auditPolicy vb.auditTrail) := by
  cases audited : auditOf v vb input with
  | none => exact (receive_plain audited).2
  | some a =>
    obtain ⟨_, now, after⟩ := receive_audit arith audited
    rw [after, trailOp_audit arith audited]
    rfl

/-- An audit desyncs the book exactly when what it carries makes the streak long enough. -/
theorem receive_desyncs (audited : auditOf v vb input = some a)
    (disagrees : ∃ side u, a.Disagrees arith vb.auditPolicy side u) :
    (receive v arith vb input).2.book.state.kind = .desynced ↔
      (streakOf vb.auditTrail).Reports vb.auditPolicy.consecutiveBeforeDesync
        {u | a.Carries arith vb.auditPolicy u} := by
  obtain ⟨side, u, there⟩ := disagrees
  obtain ⟨findings, compared, outcome, found⟩ := Audit.outcome_mismatch there
  obtain ⟨live, now, after⟩ := receive_audit arith audited
  dsimp only at after
  have reports : (vb.auditTrail.observe (.mismatch findings compared) vb.auditPolicy).1 ≠ none ↔ _ :=
    reports_mismatch
  rw [after, outcome, ← found, ← reports]
  cases (vb.auditTrail.observe (.mismatch findings compared) vb.auditPolicy).1 with
  | none =>
    constructor
    · intro down
      cases state : vb.book.state with
      | live integrity since verified =>
        rw [Option.elim_none, state] at down
        cases down
      | _ =>
        rw [state] at live
        cases live
    · intro some
      exact False.elim (some rfl)
  | some reason =>
    constructor
    · intro _
      exact Option.some_ne_none reason
    · intro _
      rfl

end Trail

section Noise

variable {σ : Type u} (v : VenueSync σ) (arith : DecimalArith)

def after (vb : VenueBook σ) (input : Input) : VenueBook σ := (receive v arith vb input).2

/-- No reset, and no audit that compares anything. -/
def Quiet (vb : VenueBook σ) (input : Input) : Prop :=
  trailOp v arith vb input = none ∨
    trailOp v arith vb input = some (.observe .inconclusive)

variable {v arith} {vb : VenueBook σ}

theorem quiet_run {policy : AuditPolicy} {streak : Streak Int} {between : List Input}
    (quiet : Meets (after v arith) (Quiet v arith) vb between)
    (start : vb.auditPolicy = policy ∧ streakOf vb.auditTrail = streak) :
    (exec (after v arith) vb between).auditPolicy = policy ∧
      streakOf (exec (after v arith) vb between).auditTrail = streak := by
  refine exec_invariant (fun t input (h : t.auditPolicy = policy ∧
    streakOf t.auditTrail = streak) (still : Quiet v arith t input) => ?_) start quiet
  obtain ⟨ruled, under⟩ := h
  refine ⟨(receive_policy v arith t input).trans ruled, ?_⟩
  rw [after, receive_trail, ← under]
  rcases still with none | inconclusive
  · rw [none]
    rfl
  · rw [inconclusive]
    rfl

/-- A level that two audits in a row find wrong desyncs the book exactly if some value is carried
by both, few enough disagreements coming before it in each, and is in the streak that the first
of them continues, if any. -/
theorem wrong_level_desyncs_iff (v : VenueSync σ) (arith : DecimalArith) (vb : VenueBook σ)
    (first second : Input) (between : List Input) (a b : Audit)
    (threshold : vb.auditPolicy.consecutiveBeforeDesync = 2)
    (audited : auditOf v vb first = some a)
    (quiet : Meets (after v arith) (Quiet v arith) (after v arith vb first) between)
    (again : auditOf v (exec (after v arith) vb (first :: between)) second = some b)
    (wrong : ∃ side u, a.Wrong arith vb.auditPolicy side u ∧ b.Wrong arith vb.auditPolicy side u) :
    (exec (after v arith) vb (first :: between ++ [second])).book.state.kind = .desynced ↔
      ∃ u, a.Carries arith vb.auditPolicy u ∧ b.Carries arith vb.auditPolicy u ∧
        ((streakOf vb.auditTrail).Breaks {u | a.Carries arith vb.auditPolicy u} ∨
          u ∈ (streakOf vb.auditTrail).common) := by
  obtain ⟨side, u, wrongFirst, wrongAgain⟩ := wrong
  have disagrees := Audit.disagrees_of_wrong wrongFirst
  obtain ⟨findings, compared, outcome, found⟩ := Audit.outcome_mismatch disagrees
  obtain ⟨_, now, noted⟩ := receive_audit arith audited
  have streak : streakOf (after v arith vb first).auditTrail =
      (streakOf vb.auditTrail).extend {u | a.Carries arith vb.auditPolicy u} := by
    rw [after, noted, outcome, ← found]
    exact streak_mismatch
  obtain ⟨ruled, kept⟩ := quiet_run quiet ⟨receive_policy v arith vb first, streak⟩
  rw [← exec_cons] at ruled kept
  rw [exec_append, exec_cons, exec_nil]
  have later : ∃ side u, b.Disagrees arith
      (exec (after v arith) vb (first :: between)).auditPolicy side u := by
    rw [ruled]
    exact ⟨side, u, Audit.disagrees_of_wrong wrongAgain⟩
  have reports := receive_desyncs again later
  rw [ruled, kept, threshold] at reports
  rw [after, reports]
  have started : 1 ≤ ((streakOf vb.auditTrail).extend
      {u | a.Carries arith vb.auditPolicy u}).count := Streak.extend_started
  rw [Streak.Reports, Streak.breaks_iff started, not_not]
  constructor
  · rintro ⟨⟨x, common, everywhere⟩, _⟩
    obtain ⟨here, joined⟩ := Streak.mem_extend.mp common
    exact ⟨x, here, everywhere _ (List.mem_singleton_self _), joined⟩
  · rintro ⟨x, here, there, joined⟩
    refine ⟨⟨x, Streak.mem_extend.mpr ⟨here, joined⟩, ?_⟩, by omega⟩
    intro f mem
    rw [List.mem_singleton.mp mem]
    exact there

end Noise

section Replacement

variable {σ : Type u} (v : VenueSync σ) (arith : DecimalArith)

def replaces : SyncAction → Bool
  | .snapshot .. => true
  | _ => false

/-- A book, and the audits performed since a snapshot was last applied to it, newest first. -/
structure Ledger (σ : Type u) where
  vb : VenueBook σ
  since : List Audit

/-- The audits since the last snapshot, with those of one more input. -/
def Ledger.recorded (l : Ledger σ) (input : Input) : List Audit :=
  match auditOf v l.vb input with
  | some a => a :: l.since
  | none =>
    if (told v arith l.vb input).ingested.actions.any replaces then [] else l.since

def Ledger.step (l : Ledger σ) (input : Input) : Ledger σ :=
  ⟨after v arith l.vb input, l.recorded v arith input⟩

/-- The audit of an input desyncs the book for a price. -/
def Convicts (l : Ledger σ) (input : Input) (price : Price) (count : Nat) : Prop :=
  (auditOf v l.vb input).isSome = true ∧
    ∃ now, (l.step v arith input).vb.book.state = .desynced now (.auditMismatch price count)

/-- The value differs on some side. -/
def Audit.Against (policy : AuditPolicy) (a : Audit) (u : Int) : Prop :=
  ∃ side, a.Disagrees arith policy side u

/-- A price that desyncs the book has disagreed in two audits since the last snapshot. -/
def BackedSince (l : Ledger σ) (input : Input) : Prop :=
  ∀ price count, Convicts v arith l input price count → ∃ a b,
    [a, b].Sublist (l.recorded v arith input) ∧
      a.Against arith l.vb.auditPolicy price.decimal.units ∧
      b.Against arith l.vb.auditPolicy price.decimal.units

/-- The first audit to disagree after a snapshot does not make a streak long enough. -/
def FirstClears (l : Ledger σ) (input : Input) : Prop :=
  ∀ a, auditOf v l.vb input = some a →
    (∀ b ∈ l.since, ∀ u, ¬ b.Against arith l.vb.auditPolicy u) →
      ¬ (streakOf l.vb.auditTrail).Reports l.vb.auditPolicy.consecutiveBeforeDesync
        {u | a.Carries arith l.vb.auditPolicy u}

/-- Once an audit since the last snapshot disagreed, what the streak holds is from one of them. -/
def Ledger.Current (l : Ledger σ) : Prop :=
  1 ≤ (streakOf l.vb.auditTrail).count →
    (∃ b ∈ l.since, ∃ u, b.Against arith l.vb.auditPolicy u) →
      ∃ b ∈ l.since, (streakOf l.vb.auditTrail).common ⊆
        {u | b.Carries arith l.vb.auditPolicy u}

variable {v arith} {l : Ledger σ} {input : Input} {a : Audit}

theorem Audit.against_of_carries {policy : AuditPolicy} {u : Int}
    (h : a.Carries arith policy u) : a.Against arith policy u := by
  obtain ⟨side, there, _⟩ := h
  exact ⟨side, there⟩

theorem not_against_of_inconclusive {policy : AuditPolicy}
    (outcome : a.outcome arith policy = .inconclusive) (u : Int) : ¬ a.Against arith policy u := by
  rintro ⟨side, there⟩
  obtain ⟨findings, compared, mismatch, _⟩ := Audit.outcome_mismatch there
  rw [mismatch] at outcome
  cases outcome

theorem current_step (h : l.Current arith) (input : Input) :
    (l.step v arith input).Current arith := by
  rw [Ledger.Current, Ledger.step, after]
  dsimp only
  rw [receive_policy, receive_trail, Ledger.recorded]
  cases audited : auditOf v l.vb input with
  | none =>
    dsimp only
    split
    · rintro _ ⟨b, mem, _⟩
      cases mem
    · cases input with
      | reset now =>
        intro started
        exact absurd started (Nat.not_succ_le_zero 0)
      | _ =>
        simp only [trailOp, audited, Option.map_none, Option.elim_none]
        exact h
  | some a =>
    rw [trailOp_audit arith audited]
    dsimp only [Option.elim_some]
    cases outcome : a.outcome arith l.vb.auditPolicy with
    | agreed compared =>
      intro started
      exact absurd started (Nat.not_succ_le_zero 0)
    | inconclusive =>
      rintro started ⟨b, mem, u, against⟩
      rcases List.mem_cons.mp mem with rfl | mem
      · exact False.elim (not_against_of_inconclusive outcome u against)
      · obtain ⟨c, there, common⟩ := h started ⟨b, mem, u, against⟩
        exact ⟨c, List.mem_cons_of_mem _ there, common⟩
    | mismatch findings compared =>
      intro _ _
      refine ⟨a, List.mem_cons_self, ?_⟩
      have streak : streakOf (AuditStreaks.step l.vb.auditPolicy l.vb.auditTrail
          (.observe (.mismatch findings compared))) = _ := streak_mismatch
      rw [streak, ← Audit.outcome_values outcome]
      intro u common
      exact (Streak.mem_extend.mp common).1

/-- What an audit that desyncs the book holds against a price. -/
theorem convicts_cases {price : Price} {count : Nat}
    (audited : auditOf v l.vb input = some a) (h : Convicts v arith l input price count) :
    (streakOf l.vb.auditTrail).Reports l.vb.auditPolicy.consecutiveBeforeDesync
        {u | a.Carries arith l.vb.auditPolicy u} ∧
      price.decimal.units ∈ (streakOf l.vb.auditTrail).common ∧
      a.Carries arith l.vb.auditPolicy price.decimal.units := by
  obtain ⟨_, now, down⟩ := h
  obtain ⟨live, _, noted⟩ := receive_audit arith audited
  rw [Ledger.step, after, noted] at down
  dsimp only at down
  cases reason : (l.vb.auditTrail.observe (a.outcome arith l.vb.auditPolicy)
      l.vb.auditPolicy).1 with
  | none =>
    rw [reason, Option.elim_none] at down
    rw [down] at live
    cases live
  | some why =>
    rw [reason] at down
    cases down
    obtain ⟨findings, compared, outcome⟩ := reason_outcome reason
    rw [outcome] at reason
    have some : (l.vb.auditTrail.observe (.mismatch findings compared) l.vb.auditPolicy).1 ≠
        none := by
      rw [reason]
      exact Option.some_ne_none _
    have found := Audit.outcome_values outcome
    obtain ⟨_, _, _, before, again⟩ := reason_mismatch reason
    refine ⟨?_, before, ?_⟩
    · rw [← found]
      exact reports_mismatch.mp some
    · rw [found] at again
      exact again

/-- An audit whose findings make the streak long enough desyncs the book for some price. -/
theorem convicts_of_reports (audited : auditOf v l.vb input = some a)
    (reports : (streakOf l.vb.auditTrail).Reports l.vb.auditPolicy.consecutiveBeforeDesync
      {u | a.Carries arith l.vb.auditPolicy u}) :
    ∃ price count, Convicts v arith l input price count := by
  have disagrees : ∃ side u, a.Disagrees arith l.vb.auditPolicy side u := by
    by_contra none
    refine reports.1 (.inr (Set.eq_empty_iff_forall_notMem.mpr ?_))
    rintro u ⟨_, side, there, _⟩
    exact none ⟨side, u, there⟩
  obtain ⟨side, u, there⟩ := disagrees
  obtain ⟨findings, compared, outcome, found⟩ := Audit.outcome_mismatch there
  obtain ⟨live, now, noted⟩ := receive_audit arith audited
  have reported : (l.vb.auditTrail.observe (.mismatch findings compared) l.vb.auditPolicy).1 ≠
      none ↔ _ := reports_mismatch
  rw [← found, ← reported, ← outcome] at reports
  obtain ⟨reason, given⟩ := Option.ne_none_iff_exists'.mp reports
  obtain ⟨price, count, rfl⟩ := AuditTrail.observe_reason given
  refine ⟨price, count, Option.isSome_of_eq_some audited, now, ?_⟩
  rw [Ledger.step, after, noted]
  dsimp only
  rw [given]
  rfl

theorem backed_iff_first (current : l.Current arith) (input : Input) :
    BackedSince v arith l input ↔ FirstClears v arith l input := by
  constructor
  · intro backed a audited clear reports
    obtain ⟨price, count, convicts⟩ := convicts_of_reports audited reports
    obtain ⟨x, y, both, _, against⟩ := backed price count convicts
    rw [Ledger.recorded, audited] at both
    have mem : y ∈ l.since := by
      cases both with
      | cons _ later => exact later.subset (by simp)
      | cons_cons _ later => exact later.subset (by simp)
    exact clear y mem _ against
  · intro first price count convicts
    obtain ⟨a, audited⟩ := Option.isSome_iff_exists.mp convicts.1
    obtain ⟨reports, before, carries⟩ := convicts_cases audited convicts
    have earlier : ∃ b ∈ l.since, ∃ u, b.Against arith l.vb.auditPolicy u := by
      by_contra none
      refine first a audited ?_ reports
      intro b mem u against
      exact none ⟨b, mem, u, against⟩
    have started : 1 ≤ (streakOf l.vb.auditTrail).count := by
      by_contra zero
      exact reports.1 (.inl (by omega))
    obtain ⟨b, mem, common⟩ := current started earlier
    refine ⟨a, b, ?_, Audit.against_of_carries carries, Audit.against_of_carries (common before)⟩
    rw [Ledger.recorded, audited]
    exact List.Sublist.cons_cons _ (List.singleton_sublist.mpr mem)

/-- A price that desyncs the book has disagreed in two audits since the last snapshot, exactly
when no audit that is the first to disagree after a snapshot makes the streak long enough. -/
theorem evidence_current_iff (v : VenueSync σ) (arith : DecimalArith) (sync : σ) (symbol : Symbol)
    (depth : Option Nat) (policy : AuditPolicy) (inputs : List Input) :
    (∀ past input rest, inputs = past ++ input :: rest →
        BackedSince v arith
          (exec (Ledger.step v arith) ⟨fresh v sync symbol depth policy, []⟩ past) input) ↔
      Meets (Ledger.step v arith) (FirstClears v arith)
        ⟨fresh v sync symbol depth policy, []⟩ inputs := by
  have kept : ∀ (l : Ledger σ) input, l.Current arith → (l.step v arith input).Current arith :=
    fun _ input h => current_step h input
  have same : ∀ (l : Ledger σ) input, l.Current arith →
      (BackedSince v arith l input ↔ FirstClears v arith l input) :=
    fun _ input h => backed_iff_first h input
  have start : Ledger.Current arith ⟨fresh v sync symbol depth policy, []⟩ := by
    rintro _ ⟨b, mem, _⟩
    cases mem
  exact meets_iff_prefixes.symm.trans (meets_iff_of_invariant kept same start inputs)

end Replacement

section Sample

open BitstampFeed

/-- Arithmetic that is exact on whole numbers whose result is one. -/
def wholeArith : DecimalArith :=
  let op (f : Nat → Nat → Nat) (a b : Decimal) : Decimal :=
    if fits : f a.mantissa b.mantissa < 2 ^ 96 then .ofNat _ fits else a
  ⟨op (· + ·), op (· - ·), op (· * ·), op (· / ·)⟩

/-- Bids at some prices, of one each but for some of two. -/
def ladder (prices doubled : List Nat) : List Level :=
  prices.map (fun i => .whole (Fin.ofNat _ i) (if i ∈ doubled then 2 else 1))

/-- A book of single bids that is compared from its best price on. -/
def ladderBook (prices : List Nat) : VenueBook BitstampSync :=
  let vb := (VenueBook.new (BitstampSync.sync BitstampSplice.sampleWire) (BitstampSync.new "btcusd")
    ⟨"BTC-USD"⟩).withAuditPolicy ⟨0, 500, 2⟩
  (vb.applyRestSnapshot (BitstampSync.sync BitstampSplice.sampleWire) ⟨ladder prices [], [], 5⟩
    ⟨0, 0⟩).2

def shownBids (prices doubled : List Nat) : RestSnapshot := ⟨ladder prices doubled, [], 9⟩

/-- Of the bid at two we hold one, and the venue shows two. -/
def firstShown : Audit := ⟨(ladderBook [2, 1]).book.levels, shownBids [2, 1] [2]⟩

def secondShown : Audit := ⟨(ladderBook [2, 1]).book.levels, shownBids [2, 1] [2, 1]⟩

theorem wrong_level_desyncs_twice :
    (exec (after (BitstampSync.sync BitstampSplice.sampleWire) wholeArith) (ladderBook [2, 1])
        (.audit firstShown.snapshot ⟨1, 1⟩ :: [] ++ [.audit secondShown.snapshot ⟨2, 2⟩])
          ).book.state.kind = .desynced ↔
      ∃ u, firstShown.Carries wholeArith ⟨0, 500, 2⟩ u ∧
        secondShown.Carries wholeArith ⟨0, 500, 2⟩ u ∧
        ((streakOf (ladderBook [2, 1]).auditTrail).Breaks
            {u | firstShown.Carries wholeArith ⟨0, 500, 2⟩ u} ∨
          u ∈ (streakOf (ladderBook [2, 1]).auditTrail).common) :=
  wrong_level_desyncs_iff (BitstampSync.sync BitstampSplice.sampleWire) wholeArith
    (ladderBook [2, 1]) (.audit firstShown.snapshot ⟨1, 1⟩) (.audit secondShown.snapshot ⟨2, 2⟩)
    [] firstShown secondShown rfl rfl trivial rfl
    ⟨.bid, (Decimal.whole 2).units,
      ⟨(Decimal.whole 1).units, (Decimal.whole 2).units, by decide +kernel, by decide +kernel,
        by decide⟩,
      ⟨(Decimal.whole 1).units, (Decimal.whole 2).units, by decide +kernel, by decide +kernel,
        by decide⟩⟩

def noise : List Nat := (List.range' 1 64).reverse

/-- The best bid is wrong above as many wrong bids as an audit carries. -/
def noisyShown : Audit :=
  ⟨(ladderBook (65 :: noise)).book.levels, shownBids (65 :: noise) (65 :: noise)⟩

/-- It is wrong again, and the venue shows no other. -/
def quietShown : Audit := ⟨(ladderBook (65 :: noise)).book.levels, shownBids [65] [65]⟩

theorem level_hidden_by_noise :
    (ladderBook (65 :: noise)).auditPolicy.consecutiveBeforeDesync = 2 ∧
      auditOf (BitstampSync.sync BitstampSplice.sampleWire) (ladderBook (65 :: noise))
        (.audit noisyShown.snapshot ⟨1, 1⟩) = some noisyShown ∧
      auditOf (BitstampSync.sync BitstampSplice.sampleWire)
        (after (BitstampSync.sync BitstampSplice.sampleWire) wholeArith (ladderBook (65 :: noise))
          (.audit noisyShown.snapshot ⟨1, 1⟩)) (.audit quietShown.snapshot ⟨2, 2⟩) =
            some quietShown ∧
      noisyShown.Wrong wholeArith ⟨0, 500, 2⟩ .bid (Decimal.whole 65).units ∧
      quietShown.Wrong wholeArith ⟨0, 500, 2⟩ .bid (Decimal.whole 65).units ∧
      (exec (after (BitstampSync.sync BitstampSplice.sampleWire) wholeArith)
        (ladderBook (65 :: noise)) [.audit noisyShown.snapshot ⟨1, 1⟩,
          .audit quietShown.snapshot ⟨2, 2⟩]).book.state.kind = .live := by
  refine ⟨rfl, by decide +kernel, by decide +kernel, ?_, ?_, by decide +kernel⟩
  · exact ⟨(Decimal.whole 1).units, (Decimal.whole 2).units, by decide +kernel,
      by decide +kernel, by decide⟩
  · exact ⟨(Decimal.whole 1).units, (Decimal.whole 2).units, by decide +kernel,
      by decide +kernel, by decide⟩

/-- A snapshot, an audit that disagrees with it, and a second snapshot. -/
def replacedBook : Ledger BitstampSync :=
  exec (Ledger.step (BitstampSync.sync BitstampSplice.sampleWire) wholeArith)
    ⟨fresh (BitstampSync.sync BitstampSplice.sampleWire) (BitstampSync.new "btcusd") ⟨"BTC-USD"⟩
      none ⟨0, 500, 2⟩, []⟩
    [.feed (BitstampSplice.sampleFrame BitstampSplice.restText .restSnapshot),
      .audit (shownBids [100] [100]) ⟨1, 1⟩,
      .feed (BitstampSplice.sampleFrame BitstampSplice.restText .restSnapshot)]

theorem replaced_book_convicted : ¬ BackedSince (BitstampSync.sync BitstampSplice.sampleWire)
    wholeArith replacedBook (.audit (shownBids [100] [100]) ⟨2, 2⟩) := by
  intro backed
  have convicts : Convicts (BitstampSync.sync BitstampSplice.sampleWire) wholeArith replacedBook
      (.audit (shownBids [100] [100]) ⟨2, 2⟩) ⟨.whole 100⟩ 2 :=
    ⟨by decide +kernel, ⟨2, 2⟩, by decide +kernel⟩
  obtain ⟨a, b, both, _⟩ := backed _ _ convicts
  have one : (replacedBook.recorded (BitstampSync.sync BitstampSplice.sampleWire) wholeArith
      (.audit (shownBids [100] [100]) ⟨2, 2⟩)).length = 1 := by decide +kernel
  have two := both.length_le
  rw [one] at two
  exact Nat.not_succ_le_self 1 two

end Sample

end AuditEvidence

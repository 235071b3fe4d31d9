import MarketAggregator.EventReplay
import MarketAggregator.ResyncDuty
import MarketAggregator.TouchEligibility
import MarketAggregator.WindowFigures

/-!
# Runs whose arithmetic fits

A price or a print is admitted whatever its size, and nothing checks a result, so one print can
overflow. Between two prices, and with so many samples and so much volume and turnover in a
bucket, no figure of any run does, however its operations are rounded: the books hold admitted
prices, the buckets keep within their limits, and no snapshot sums up more buckets than its
windows and its venues cover.
-/

namespace PriceLimits

open AggregatorApply BestElement Clocks CrossTouch DecimalFigures DecimalRounding Decimals
  DepthAudit EventReplay FigureBounds GatewayMerge GuardedRuns MarketEvents OrderBook OrderedMaps
  RoundedWindows TouchEligibility VenueBooks VenueStreams WindowBuckets WindowFigures
open NodeSnapshots hiding step
open BookInvariants (Every every_applyLevels every_empty every_enterLevels every_prune)
open DesyncAccounts (stamp)
open ResyncDuty (instructions)
open WindowHistory (Print)

universe u

/-- The levels that an action enters into a book. A deletion enters none. -/
def entered : SyncAction → List Level
  | .snapshot bids asks => (bids ++ asks).filter (fun l => !l.qty.isDelete)
  | .delta bids asks => (bids ++ asks).filter (fun l => !l.qty.isDelete)
  | _ => []

def printOf : EventKind → Option Print
  | .trade price qty _ => some ⟨valueOf price.decimal, valueOf qty.decimal⟩
  | _ => none

def printed : SyncAction → Option Print
  | .forward kind => printOf kind
  | _ => none

section Conditions

variable {σ : Type u} {n : Nat} (l : Limits n) (v : VenueSync σ)

/-- The prints of a message. -/
def prints (vb : VenueBook σ) (message : IngestMessage) : List Print :=
  (instructions v vb message).1.filterMap printed

/-- The message enters prices within the limits and prints nothing smaller than a lot, and the
bucket of its instant has room for its prints and for the sample after it. -/
structure Admitted (s : VenueState σ RollingWindows) (message : IngestMessage) : Prop where
  entered : ∀ a ∈ (instructions v s.book message).1, ∀ level ∈ entered a,
    l.Priced (valueOf level.price.decimal)
  dealt : ∀ p ∈ prints v s.book message, Dealt l p
  room : Room l (bucketAt s.windows (stamp message)) (prints v s.book message)

/-- A snapshot can be taken at any instant. -/
def Within (p : Publisher σ) : Turn → Prop
  | .apply message => ∀ s, p.agg.streams.find? message.stream = some s → Admitted l v s message
  | .publish _ _ => True

end Conditions

section Books

variable {σ : Type u} {n : Nat} {l : Limits n} {v : VenueSync σ} {arith : DecimalArith}
  {vb : VenueBook σ} {message : IngestMessage}

/-- Every price of the side is within the limits. -/
def Quoted (l : Limits n) (levels : Levels) : Prop :=
  Every (fun p => l.Priced (valueOf p.decimal)) (fun _ => True) levels.bids ∧
    Every (fun p => l.Priced (valueOf p.decimal)) (fun _ => True) levels.asks

theorem quoted_best {levels : Levels} (quoted : Quoted l levels) (side : Side) {best : Level}
    (found : levels.best side = some best) : l.Priced (valueOf best.price.decimal) := by
  cases side with
  | bid =>
    obtain ⟨e, last, rfl⟩ := Option.map_eq_some_iff.mp found
    exact (quoted.1 e (List.mem_of_getLast? last)).1
  | ask =>
    obtain ⟨e, first, rfl⟩ := Option.map_eq_some_iff.mp found
    exact (quoted.2 e (List.mem_of_head? first)).1

theorem entered_mem {bids asks : List Level}
    (priced : ∀ level ∈ (bids ++ asks).filter (fun l => !l.qty.isDelete),
      l.Priced (valueOf level.price.decimal)) {given : List Level} (own : given ⊆ bids ++ asks) :
    ∀ level ∈ given, level.qty.isDelete = false →
      l.Priced (valueOf level.price.decimal) ∧ True := by
  intro level mem kept
  exact ⟨priced level (List.mem_filter.mpr ⟨own mem, by rw [kept]; rfl⟩), trivial⟩

/-- An action leaves the prices within the limits when those that it enters are. -/
theorem quoted_applyAction {hash : Levels → Option UInt32} {integrity : Integrity}
    {now : IngestTime} {book : Book} (quoted : Quoted l book.levels) {a : SyncAction}
    (priced : ∀ level ∈ entered a, l.Priced (valueOf level.price.decimal)) :
    Quoted l (applyAction hash integrity now book a).1.levels := by
  cases a with
  | ignore => exact quoted
  | forward kind => exact quoted
  | desync reason => exact quoted
  | verify checksum =>
    have same : (verify hash book checksum now).levels = book.levels := by
      rw [verify]
      split
      · split
        · rfl
        · split
          · exact markVerified_levels
          · rfl
      · rfl
    exact same.symm ▸ quoted
  | snapshot bids asks =>
    have levels : (applyAction hash integrity now book (.snapshot bids asks)).1.levels =
        (Levels.snapshot bids asks).prune book.maxDepth := applySnapshot_levels
    rw [levels]
    exact every_prune
      (every_enterLevels every_empty bids (entered_mem priced (List.subset_append_left _ _)))
      (every_enterLevels every_empty asks (entered_mem priced (List.subset_append_right _ _))) _
  | delta bids asks =>
    rw [applyAction_delta]
    cases live : book.state.isLive with
    | false =>
      rw [applyDelta_down live]
      exact quoted
    | true =>
      rw [(applyDelta_live bids asks now live).2.1]
      exact every_prune
        (every_applyLevels quoted.1 bids (entered_mem priced (List.subset_append_left _ _)))
        (every_applyLevels quoted.2 asks (entered_mem priced (List.subset_append_right _ _))) _

theorem quoted_applyActions {hash : Levels → Option UInt32} {integrity : Integrity}
    {now : IngestTime} {book : Book} (quoted : Quoted l book.levels) (actions : List SyncAction)
    (priced : ∀ a ∈ actions, ∀ level ∈ entered a, l.Priced (valueOf level.price.decimal)) :
    Quoted l (applyActions hash integrity now book actions).1.levels := by
  induction actions generalizing book with
  | nil => exact quoted
  | cons a actions ih =>
    obtain ⟨own, others⟩ := List.forall_mem_cons.mp priced
    rw [applyActions_cons]
    exact ih (quoted_applyAction quoted own) others

/-- The prints that are recorded are those that are forwarded. -/
theorem prints_applyActions {hash : Levels → Option UInt32} {integrity : Integrity}
    {now : IngestTime} (book : Book) (actions : List SyncAction) :
    (applyActions hash integrity now book actions).2.filterMap printOf =
      actions.filterMap printed := by
  induction actions generalizing book with
  | nil => rfl
  | cons a actions ih =>
    have own : (applyAction hash integrity now book a).2.toList.filterMap printOf =
        (printed a).toList := by
      cases a with
      | forward kind => cases kind <;> rfl
      | delta bids asks =>
        rw [applyAction]
        rcases book.applyDelta bids asks now with ⟨_ | _, _⟩ <;> rfl
      | _ => rfl
    simp only [applyActions, List.filterMap_append, ih, own]
    cases kind : printed a <;> simp [kind]

/-- What a message does: its instructions are applied, or levels and policy stay. -/
theorem deliver_cases (v : VenueSync σ) (arith : DecimalArith) (vb : VenueBook σ)
    (message : IngestMessage) :
    (∃ sync ingested, (instructions v vb message).1 = ingested.actions ∧
      deliver v arith vb message =
        (.ok (VenueBook.applyIngested v { vb with sync := sync } ingested (stamp message)).1,
          (VenueBook.applyIngested v { vb with sync := sync } ingested (stamp message)).2)) ∨
      (deliver v arith vb message).2.book.levels = vb.book.levels ∧
        (deliver v arith vb message).2.auditPolicy = vb.auditPolicy ∧
        ∀ outcomes, (deliver v arith vb message).1 = .ok outcomes →
          outcomeEvents outcomes = [] := by
  cases message with
  | sessionEnded stream now ending => exact .inr ⟨rfl, rfl, fun _ ok => Except.ok.inj ok ▸ rfl⟩
  | event stream event =>
    exact .inl ⟨vb.sync, ⟨[VenueBook.eventAction event.kind], event.venueTs⟩, rfl, rfl⟩
  | frame frame =>
    have refused : ∀ {e : VenueError} outcomes, (.error e : Except VenueError (List Outcome)) =
        .ok outcomes → outcomeEvents outcomes = [] := nofun
    simp only [deliver, VenueBook.feed, instructions]
    cases frame.source with
    | webSocket =>
      dsimp only
      cases read : v.ingest vb.sync frame with
      | mk result sync =>
        cases result with
        | error e => exact .inr ⟨rfl, rfl, refused⟩
        | ok ingested => exact .inl ⟨sync, ingested, rfl, rfl⟩
    | restSnapshot =>
      dsimp only
      cases frame.asStr.bind (v.parseRestSnapshot vb.sync) with
      | error e => exact .inr ⟨rfl, rfl, refused⟩
      | ok snapshot =>
        exact .inl ⟨(v.applyRestSnapshot vb.sync snapshot).2,
          .untimed (v.applyRestSnapshot vb.sync snapshot).1, rfl, rfl⟩
    | restAudit =>
      dsimp only
      cases frame.asStr.bind (v.parseRestSnapshot vb.sync) with
      | error e => exact .inr ⟨rfl, rfl, refused⟩
      | ok snapshot =>
        right
        dsimp only
        rw [VenueBook.audit]
        split
        · refine ⟨?_, rfl, ?_⟩
          · dsimp only
            split <;> rfl
          · intro outcomes ok
            rw [← Except.ok.inj ok]
            exact outcomeEvents_changed
        · exact ⟨rfl, rfl, fun _ ok => Except.ok.inj ok ▸ rfl⟩

theorem quoted_deliver (arith : DecimalArith) (quoted : Quoted l vb.book.levels)
    (priced : ∀ a ∈ (instructions v vb message).1, ∀ level ∈ entered a,
      l.Priced (valueOf level.price.decimal)) :
    Quoted l (deliver v arith vb message).2.book.levels := by
  rcases deliver_cases v arith vb message with ⟨sync, ingested, told, done⟩ | ⟨same, -⟩
  · rw [told] at priced
    rw [done]
    exact quoted_applyActions quoted _ priced
  · rw [same]
    exact quoted

theorem policy_deliver : (deliver v arith vb message).2.auditPolicy = vb.auditPolicy := by
  rcases deliver_cases v arith vb message with ⟨sync, ingested, told, done⟩ | ⟨-, same, -⟩
  · rw [done]
    rfl
  · exact same

/-- The events of a message are of its instant, and their prints are its own, or there are none. -/
theorem events_deliver {outcomes : List Outcome}
    (ok : (deliver v arith vb message).1 = .ok outcomes) :
    (∀ e ∈ outcomeEvents outcomes, e.ingestTs = stamp message) ∧
      ((outcomeEvents outcomes).filterMap (fun e => printOf e.kind) = prints v vb message ∨
        outcomeEvents outcomes = []) := by
  rcases deliver_cases v arith vb message with ⟨sync, ingested, told, done⟩ | ⟨-, -, none⟩
  · rw [done] at ok
    rw [← Except.ok.inj ok, applyIngested_events]
    refine ⟨?_, .inl ?_⟩
    · intro e mem
      obtain ⟨kind, -, rfl⟩ := List.mem_map.mp mem
      rfl
    · rw [List.filterMap_map, prints, told, ← prints_applyActions vb.book]
      rfl
  · rw [none outcomes ok]
    exact ⟨List.forall_mem_nil _, .inr rfl⟩

end Books

section Streams

variable {σ : Type u} {n : Nat} {l : Limits n} {v : VenueSync σ} {r : Rounding}
  {s : VenueState σ RollingWindows} {message : IngestMessage} {now : IngestTime}

/-- A stream within the limits: its prices, its buckets and the policy of its audits. -/
structure Kept (l : Limits n) (windows : WindowSpec) (s : VenueState σ RollingWindows) : Prop where
  quoted : Quoted l s.book.book.levels
  policy : s.book.auditPolicy = .default
  held : Held l s.windows
  spec : s.windows.spec = windows

theorem auditSide_fits {levels : Levels} (quoted : Quoted l levels) (side : Side) :
    ∀ q ∈ auditSideFigures r levels side .default, Fits q := by
  rw [auditSideFigures]
  split
  · exact List.forall_mem_nil _
  · rename_i best found
    exact guard_fits (quoted_best quoted _ found) side

theorem deliverFigures_fit (r : Rounding) (v : VenueSync σ) (message : IngestMessage)
    (quoted : Quoted l s.book.book.levels) (policy : s.book.auditPolicy = .default) :
    ∀ q ∈ deliverFigures r v s.book message, Fits q := by
  cases message with
  | event stream event => exact List.forall_mem_nil _
  | sessionEnded stream now ending => exact List.forall_mem_nil _
  | frame frame =>
    rw [deliverFigures, feedFigures]
    split
    · split
      · split
        · rw [policy, auditFigures, List.forall_mem_append]
          exact ⟨auditSide_fits quoted .bid, auditSide_fits quoted .ask⟩
        · exact List.forall_mem_nil _
      · exact List.forall_mem_nil _
    · exact List.forall_mem_nil _

/-- What an event does to the windows. -/
def noteWindows (r : Rounding) (w : RollingWindows) (e : MarketEvent) : RollingWindows :=
  match e.kind with
  | .trade price qty _ => observeTrade r w price.decimal qty.decimal e.ingestTs
  | _ => w

theorem noteEvent_windows (e : MarketEvent) :
    (s.noteEvent (roundedOps r) e).windows = noteWindows r s.windows e := by
  rw [VenueState.noteEvent, noteWindows]
  cases e.kind <;> rfl

theorem noteEvents_windows (events : List MarketEvent) :
    (events.foldl (VenueState.noteEvent (roundedOps r)) s).windows =
      events.foldl (noteWindows r) s.windows := by
  induction events generalizing s with
  | nil => rfl
  | cons e events ih => rw [List.foldl_cons, ih, List.foldl_cons, noteEvent_windows]

theorem noteTransition_windows {before after : BookState} :
    (s.noteTransition before after now).windows = s.windows := by
  rw [VenueState.noteTransition]
  cases isDesynced before <;> cases isDesynced after <;> rfl

/-- The prints of one instant fit when their bucket has room for all of them. -/
theorem events_fit (r : Rounding) (some_bucket : 1 ≤ n) (events : List MarketEvent)
    (held : Held l s.windows) (timed : ∀ e ∈ events, e.ingestTs = now)
    (dealt : ∀ p ∈ events.filterMap (fun e => printOf e.kind), Dealt l p)
    (room : Room l (bucketAt s.windows now) (events.filterMap (fun e => printOf e.kind))) :
    (∀ q ∈ outputs (VenueState.noteEvent (roundedOps r)) (eventFigures r) s events, Fits q) ∧
      Held l (events.foldl (noteWindows r) s.windows) ∧
      Room l (bucketAt (events.foldl (noteWindows r) s.windows) now) [] ∧
      (events.foldl (noteWindows r) s.windows).spec = s.windows.spec := by
  induction events generalizing s with
  | nil => exact ⟨List.forall_mem_nil _, held, room, rfl⟩
  | cons e events ih =>
    obtain ⟨instant, later⟩ := List.forall_mem_cons.mp timed
    have windows := noteEvent_windows (s := s) (r := r) e
    rw [outputs, List.forall_mem_append, List.foldl_cons]
    cases kind : e.kind with
    | trade price qty side =>
      have found : printOf e.kind = some ⟨valueOf price.decimal, valueOf qty.decimal⟩ := by
        rw [kind]
        rfl
      have written : noteWindows r s.windows e =
          observeTrade r s.windows price.decimal qty.decimal now := by
        rw [noteWindows, kind, instant]
      have figures : eventFigures r s e =
          observeTradeFigures r s.windows price.decimal qty.decimal now := by
        rw [eventFigures, kind, instant]
      rw [List.filterMap_cons, found] at dealt room
      obtain ⟨own, others⟩ := List.forall_mem_cons.mp dealt
      obtain ⟨fits, still, rest, same⟩ := observeTrade_fits r some_bucket held own room
      rw [← written, ← windows] at still rest
      obtain ⟨more, after, left, spec⟩ := ih still later others rest
      rw [windows] at after left spec
      rw [figures]
      exact ⟨⟨fits, more⟩, after, left, spec.trans (written ▸ same)⟩
    | _ =>
      have none : printOf e.kind = none := by
        rw [kind]
        rfl
      have idle : noteWindows r s.windows e = s.windows := by rw [noteWindows, kind]
      have figures : eventFigures r s e = [] := by rw [eventFigures, kind]
      rw [List.filterMap_cons, none] at dealt room
      rw [idle] at windows
      rw [← windows] at held room
      obtain ⟨more, rest⟩ := ih held later dealt room
      rw [windows] at rest
      rw [figures, idle]
      exact ⟨⟨List.forall_mem_nil _, more⟩, rest⟩

/-- The book is sampled within the limits. -/
theorem top_fits (r : Rounding) (some_bucket : 1 ≤ n) {w : RollingWindows} (held : Held l w)
    {book : Book} (quoted : Quoted l book.levels) (room : Room l (bucketAt w now) []) :
    (∀ q ∈ observeFigures r w (book.topOfBook now) now, Fits q) ∧
      Held l (observe r w (book.topOfBook now) now) ∧
      (observe r w (book.topOfBook now) now).spec = w.spec :=
  observe_fits r some_bucket held (fun _ found => quoted_best quoted .bid found)
    (fun _ found => quoted_best quoted .ask found) room

theorem settle_windows {sink : Bool} {before after : BookState} {outcomes : List Outcome} :
    (applyToStream.settle (roundedOps r) sink message s before after outcomes now).1.windows =
      observe r ((outcomeEvents outcomes).foldl (noteWindows r) s.windows)
        (s.book.book.topOfBook now) now := by
  rw [applyToStream.settle]
  dsimp only
  rw [VenueState.sampleWindows, noteEvents_windows, noteEvents_book]
  split
  · rfl
  · rw [noteTransition_windows, noteTransition_book]
    rfl

/-- Settling computes the prints of the message in turn, and the sample after them. -/
theorem settle_fits (r : Rounding) (some_bucket : 1 ≤ n) {outcomes : List Outcome}
    (held : Held l s.windows) (quoted : Quoted l s.book.book.levels)
    (timed : ∀ e ∈ outcomeEvents outcomes, e.ingestTs = now)
    (dealt : ∀ p ∈ (outcomeEvents outcomes).filterMap (fun e => printOf e.kind), Dealt l p)
    (room : Room l (bucketAt s.windows now)
      ((outcomeEvents outcomes).filterMap (fun e => printOf e.kind)))
    (sink : Bool) (message : IngestMessage) (before after : BookState) :
    (∀ q ∈ settleFigures r s outcomes now, Fits q) ∧
      Held l (applyToStream.settle (roundedOps r) sink message s before after outcomes
        now).1.windows ∧
      (applyToStream.settle (roundedOps r) sink message s before after outcomes
        now).1.windows.spec = s.windows.spec := by
  obtain ⟨fits, still, left, spec⟩ := events_fit r some_bucket (outcomeEvents outcomes) held timed
    dealt room
  obtain ⟨sample, sampled, same⟩ := top_fits r some_bucket still quoted left
  rw [settle_windows]
  refine ⟨?_, sampled, same.trans spec⟩
  rw [settleFigures, List.forall_mem_append]
  refine ⟨fits, ?_⟩
  have windows : (exec (VenueState.noteEvent (roundedOps r)) s (outcomeEvents outcomes)).windows =
      (outcomeEvents outcomes).foldl (noteWindows r) s.windows := noteEvents_windows _
  have book : (exec (VenueState.noteEvent (roundedOps r)) s (outcomeEvents outcomes)).book =
      s.book := noteEvents_book
  rw [sampleFigures, windows, book]
  exact sample

/-- A message that is admitted computes nothing that does not fit, and keeps its stream within
the limits. -/
theorem applyToStream_fits (r : Rounding) (arith : DecimalArith) {windows : WindowSpec}
    (some_bucket : 1 ≤ n) (kept : Kept l windows s) (admitted : Admitted l v s message)
    (sink : Bool) : (∀ q ∈ applyToStreamFigures r v arith s message, Fits q) ∧
      Kept l windows (applyToStream v arith (roundedOps r) sink s message).1 := by
  have quoted := quoted_deliver arith kept.quoted admitted.entered
  have policy : (deliver v arith s.book message).2.auditPolicy = .default :=
    policy_deliver.trans kept.policy
  have silent := admitted.room.silent
  have delivered := deliverFigures_fit r v message kept.quoted kept.policy
  obtain ⟨sample, sampled, same⟩ := top_fits r some_bucket kept.held quoted silent
  have noted : ∀ outcomes, (deliver v arith s.book message).1 = .ok outcomes →
      (∀ e ∈ outcomeEvents outcomes, e.ingestTs = stamp message) ∧
      (∀ p ∈ (outcomeEvents outcomes).filterMap (fun e => printOf e.kind), Dealt l p) ∧
      Room l (bucketAt s.windows (stamp message))
        ((outcomeEvents outcomes).filterMap (fun e => printOf e.kind)) := by
    intro outcomes ok
    obtain ⟨timed, own | none⟩ := events_deliver ok
    · rw [own]
      exact ⟨timed, admitted.dealt, admitted.room⟩
    · rw [none]
      exact ⟨List.forall_mem_nil _, List.forall_mem_nil _, silent⟩
  have book : (applyToStream v arith (roundedOps r) sink s message).1.book =
      (deliver v arith s.book message).2 := applyToStream_book
  suffices rest : (∀ q ∈ applyToStreamFigures r v arith s message, Fits q) ∧
      Held l (applyToStream v arith (roundedOps r) sink s message).1.windows ∧
      (applyToStream v arith (roundedOps r) sink s message).1.windows.spec = s.windows.spec by
    refine ⟨rest.1, ?_, ?_, rest.2.1, rest.2.2.trans kept.spec⟩
    · rw [book]
      exact quoted
    · rw [book]
      exact policy
  rw [applyToStreamFigures.eq_def, List.forall_mem_append]
  cases message with
  | sessionEnded stream now ending =>
    refine ⟨⟨delivered, sample⟩, ?_⟩
    rw [applyToStream]
    dsimp only
    split
    · exact ⟨sampled, same⟩
    · rw [VenueState.sampleWindows, noteTransition_windows, noteTransition_book]
      exact ⟨sampled, same⟩
  | event stream event =>
    obtain ⟨timed, prints, room⟩ := noted _ rfl
    obtain ⟨fits, after⟩ := settle_fits (s := { s with
      counters := { s.counters with applied := s.counters.applied + 1 }
      book := (deliver v arith s.book (.event stream event)).2 })
      r some_bucket kept.held quoted timed prints room sink (.event stream event)
      s.book.book.state (deliver v arith s.book (.event stream event)).2.book.state
    exact ⟨⟨delivered, fits⟩, after⟩
  | frame frame =>
    cases result : (deliver v arith s.book (.frame frame)).1 with
    | error e =>
      simp only [result, applyToStream]
      exact ⟨⟨delivered, sample⟩, sampled, same⟩
    | ok outcomes =>
      obtain ⟨timed, prints, room⟩ := noted outcomes result
      obtain ⟨fits, after⟩ := settle_fits (s := { s with
        counters := { s.counters with applied := s.counters.applied + 1 }
        book := (deliver v arith s.book (.frame frame)).2 })
        r some_bucket kept.held quoted timed prints room sink (.frame frame) s.book.book.state
        (deliver v arith s.book (.frame frame)).2.book.state
      simp only [result, applyToStream]
      exact ⟨⟨delivered, fits⟩, after⟩

end Streams

section Snapshots

variable {σ : Type u} {n : Nat} {l : Limits n} {r : Rounding}
  {s : VenueState σ RollingWindows} {windows : WindowSpec} {now : IngestTime}

/-- The prices that a top shows are within the limits. -/
structure TopPriced (l : Limits n) (top : TopOfBook) : Prop where
  bid : ∀ level, top.bid = some level → l.Priced (valueOf level.price.decimal)
  ask : ∀ level, top.ask = some level → l.Priced (valueOf level.price.decimal)

theorem top_priced (now : IngestTime) (quoted : Quoted l s.book.book.levels) :
    TopPriced l (s.book.book.topOfBook now) :=
  ⟨fun _ found => quoted_best quoted .bid found,
    fun _ found => quoted_best quoted .ask found⟩

theorem venueView_fits (r : Rounding) (kept : Kept l windows s) (room : widest windows ≤ n)
    (now : IngestTime) : ∀ q ∈ venueViewFigures r now s, Fits q := by
  have priced := top_priced now kept.quoted
  have figures := (read_fits r kept.held (kept.spec.symm ▸ room) now).1
  rw [venueViewFigures, List.forall_mem_append]
  refine ⟨?_, figures⟩
  rw [topFigures]
  split
  · rename_i bid ask bought sold
    exact spread_fits (priced.bid bid bought) (priced.ask ask sold)
  · exact List.forall_mem_nil _

/-- The legs of a touch are priced within the limits. -/
structure TouchPriced (l : Limits n) (t : Touch) : Prop where
  bid : ∀ leg, t.bid = some leg → l.Priced (valueOf leg.price.decimal)
  ask : ∀ leg, t.ask = some leg → l.Priced (valueOf leg.price.decimal)

theorem touch_quote {policy : CrossPolicy} {t : Touch} (touch : TouchPriced l t)
    {q : VenueId × TopOfBook} (priced : TopPriced l q.2) :
    TouchPriced l (Touch.quote policy t q) := by
  rw [Touch.quote]
  split
  · dsimp only
    split
    · exact ⟨touch.bid, touch.ask⟩
    · split
      · exact ⟨touch.bid, touch.ask⟩
      · rw [Touch.use]
        constructor
        · intro leg found
          dsimp only at found
          split at found
          · exact touch.bid leg found
          · rename_i level shown
            rw [betterBid_eq] at found
            rcases pickFirst_from found with old | rfl
            · exact touch.bid leg old
            · exact priced.bid level shown
        · intro leg found
          dsimp only at found
          split at found
          · exact touch.ask leg found
          · rename_i level shown
            rw [betterAsk_eq] at found
            rcases pickFirst_from found with old | rfl
            · exact touch.ask leg old
            · exact priced.ask level shown
  · exact ⟨touch.bid, touch.ask⟩

theorem touch_quotes (policy : CrossPolicy) (quotes : List (VenueId × TopOfBook)) {t : Touch}
    (touch : TouchPriced l t) (priced : ∀ q ∈ quotes, TopPriced l q.2) :
    TouchPriced l (quotes.foldl (Touch.quote policy) t) := by
  induction quotes generalizing t with
  | nil => exact touch
  | cons q quotes ih =>
    obtain ⟨own, others⟩ := List.forall_mem_cons.mp priced
    exact ih (touch_quote touch own) others

theorem consolidate_fits (r : Rounding) {quotes : List (VenueId × TopOfBook)}
    (priced : ∀ q ∈ quotes, TopPriced l q.2) (policy : CrossPolicy) :
    ∀ q ∈ consolidateFigures r quotes policy, Fits q := by
  have touch := touch_quotes policy quotes (t := Touch.empty) ⟨nofun, nofun⟩ priced
  rw [consolidateFigures]
  dsimp only
  split
  · rename_i bid ask bought sold
    have low := touch.bid bid bought
    have high := touch.ask ask sold
    obtain ⟨-, spread⟩ := difference_fits r high low
    obtain ⟨-, -, mid⟩ := mid_fits r high low
    rw [List.forall_mem_append]
    refine ⟨spread_fits low high, ?_⟩
    split
    · exact List.forall_mem_nil _
    · exact price_bps_fits spread mid
  · exact List.forall_mem_nil _

end Snapshots

section Turns

variable {σ : Type u} {n : Nat} {l : Limits n} {v : VenueSync σ} {r : Rounding}
  {arith : DecimalArith} {p : Publisher σ} {windows : WindowSpec} {streams : Nat}

/-- The most buckets that one window of all streams covers, and one at least. -/
def reach (windows : WindowSpec) (streams : Nat) : Nat := max 1 streams * widest windows

/-- Every stream is within the limits, and there are no more streams than at the start. -/
structure Limited (l : Limits n) (windows : WindowSpec) (streams : Nat) (p : Publisher σ) :
    Prop where
  kept : ∀ x s, p.agg.streams.find? x = some s → Kept l windows s
  count : p.agg.streams.size ≤ streams

theorem published_kept (limited : Limited l windows streams p) {owned : Option (List StreamId)}
    {e : StreamId × VenueState σ RollingWindows} (mem : e ∈ p.published owned) :
    Kept l windows e.2 :=
  limited.kept e.1 e.2 (OrderedMap.mem_find? (List.mem_of_mem_filter mem))

theorem published_length (limited : Limited l windows streams p)
    (owned : Option (List StreamId)) : (p.published owned).length ≤ streams :=
  (List.length_filter_le _ _).trans limited.count

theorem widest_le (windows : WindowSpec) (streams : Nat) :
    widest windows ≤ reach windows streams :=
  Nat.le_mul_of_pos_left _ (Nat.le_max_left 1 streams)

/-- The windows that are merged are those of the published streams of the symbol. -/
theorem legs_fit (r : Rounding) (limited : Limited l windows streams p)
    (room : reach windows streams ≤ n) (owned : Option (List StreamId)) (now : IngestTime)
    {entry : Symbol × List WindowLeg} (mem : entry ∈ (windowLegs r p owned now).entries) :
    ∀ q ∈ consolidateWindowsFigures r entry.2, Fits q := by
  have found := OrderedMap.mem_find? mem
  rw [windowLegs, OrderedMap.find?_grouped_map] at found
  split at found
  · cases found
  · have own := (Option.some.inj found).symm
    rw [own]
    have few : ((p.published owned).filter (fun e => e.1.symbol = entry.1)).length ≤ streams :=
      (List.length_filter_le _ _).trans (published_length limited owned)
    apply consolidateWindows_fits (k := widest windows)
    · intro leg listed
      obtain ⟨e, own, rfl⟩ := List.mem_map.mp listed
      have kept := published_kept limited (List.mem_of_mem_filter own)
      have short : widest e.2.windows.spec ≤ n :=
        kept.spec.symm ▸ (widest_le windows streams).trans room
      have reads := (read_fits r kept.held short now).2
      rw [kept.spec] at reads
      exact reads
    · rw [List.length_map]
      exact (Nat.mul_le_mul_right _ (few.trans (Nat.le_max_right 1 streams))).trans room

theorem tops_priced (limited : Limited l windows streams p) (owned : Option (List StreamId))
    (now : IngestTime) (symbol : Symbol) :
    ∀ q ∈ ((p.tops owned now).find? symbol).getD [], TopPriced l q.2 := by
  intro q quoted
  rw [Publisher.tops, OrderedMap.find?_grouped_map] at quoted
  split at quoted
  · cases quoted
  · obtain ⟨e, own, rfl⟩ := List.mem_map.mp quoted
    exact top_priced _ (published_kept limited (List.mem_of_mem_filter own)).quoted

theorem snapshot_fits (r : Rounding) (limited : Limited l windows streams p)
    (room : reach windows streams ≤ n) (owned : Option (List StreamId)) (now : IngestTime) :
    ∀ q ∈ snapshotFigures r p owned now, Fits q := by
  rw [snapshotFigures, List.forall_mem_append]
  constructor
  · intro q mem
    obtain ⟨e, listed, own⟩ := List.mem_flatMap.mp mem
    exact venueView_fits r (published_kept limited listed)
      ((widest_le windows streams).trans room) now q own
  · intro q mem
    obtain ⟨entry, listed, own⟩ := List.mem_flatMap.mp mem
    rcases List.mem_append.mp own with touch | merged
    · exact consolidate_fits r (tops_priced limited owned now entry.1) p.crossPolicy q touch
    · exact legs_fit r limited room owned now listed q merged

/-- A message writes to a stream that is there, or to none. -/
theorem apply_size (r : Rounding) (message : IngestMessage) {agg : Aggregator σ RollingWindows} :
    (apply v arith (roundedOps r) agg message).1.streams.size = agg.streams.size := by
  apply List.Forall₂.length_eq
  apply OrderedMap.forall₂_of_find? (R := fun _ _ => True)
  intro x
  rw [apply_find]
  split
  · cases agg.streams.find? x with
    | none => exact .none
    | some s => exact .some trivial
  · cases agg.streams.find? x with
    | none => exact .none
    | some s => exact .some trivial

theorem kept_advance {s : VenueState σ RollingWindows} (kept : Kept l windows s)
    (now : IngestTime) : Kept l windows { s with windows := (s.windows.read now).2 } where
  quoted := kept.quoted
  policy := kept.policy
  held := (charged_charge l s.windows now).held kept.held
  spec := (charged_charge l s.windows now).spec.trans kept.spec

/-- A turn within the limits computes nothing that does not fit, and leaves every stream within
the limits. -/
theorem turn_fits (r : Rounding) (arith : DecimalArith) (limited : Limited l windows streams p)
    (room : reach windows streams ≤ n) (turn : Turn) (within : Within l v p turn) :
    (∀ q ∈ turnFigures r v arith p turn, Fits q) ∧
      Limited l windows streams (step r v arith p turn) := by
  have some_bucket : 1 ≤ n :=
    (Nat.le_max_left 1 _).trans ((widest_le windows streams).trans room)
  cases turn with
  | publish owned now =>
    refine ⟨snapshot_fits r limited room owned now, ?_, ?_⟩
    · intro x t found
      rw [step, Publisher.advance, OrderedMap.find?_mapValues] at found
      obtain ⟨s, was, rfl⟩ := Option.map_eq_some_iff.mp found
      have kept := limited.kept x s was
      split
      · exact kept_advance kept now
      · exact kept
    · rw [step, Publisher.advance, OrderedMap.size, OrderedMap.mapValues, List.length_map]
      exact limited.count
  | apply message =>
    refine ⟨?_, ?_, ?_⟩
    · rw [turnFigures, applyFigures]
      split
      · exact List.forall_mem_nil _
      · rename_i s found
        exact (applyToStream_fits r arith some_bucket (limited.kept _ s found) (within s found)
          p.agg.sink).1
    · intro x t found
      rw [step, apply_find] at found
      split at found
      · rename_i same
        subst same
        obtain ⟨s, was, rfl⟩ := Option.map_eq_some_iff.mp found
        exact (applyToStream_fits r arith some_bucket (limited.kept _ s was)
          (within s was) p.agg.sink).2
      · exact limited.kept x t found
    · rw [step, apply_size]
      exact limited.count

theorem held_new (spec : WindowSpec) (origin : IngestTime) :
    Held l (RollingWindows.new spec origin) := by
  intro b mem
  rw [List.eq_of_mem_replicate mem]
  exact bucketHeld_blank none

theorem limited_start (specs : List (VenueSpec σ)) (windows : WindowSpec) (begin : IngestTime)
    (sink : Bool) (depthLevels : Nat) (crossPolicy : CrossPolicy) :
    Limited l windows specs.length
      (start v specs windows begin sink depthLevels crossPolicy) where
  kept x s found := by
    obtain ⟨spec, -, -, rfl⟩ := find?_new found
    have levels : (VenueState.new v spec.sync spec.symbol spec.maxDepth
        (RollingWindows.new windows begin) begin).book.book.levels = Levels.empty := by
      cases depth : spec.maxDepth <;> rw [VenueState.new] <;> rfl
    have policy : (VenueState.new v spec.sync spec.symbol spec.maxDepth
        (RollingWindows.new windows begin) begin).book.auditPolicy = .default := by
      cases depth : spec.maxDepth <;> rw [VenueState.new] <;> rfl
    refine ⟨?_, policy, held_new windows begin, rfl⟩
    rw [levels]
    exact ⟨every_empty, every_empty⟩
  count := (OrderedMap.size_ofList_le _).trans (List.length_map _).le

/-- In a run whose messages all keep within limits, no figure of a message or of a snapshot has
more than 96 bits, whichever way the figures before it were rounded. -/
theorem figures_fit (r : Rounding) (v : VenueSync σ) (arith : DecimalArith)
    (specs : List (VenueSpec σ)) (windows : WindowSpec) (begin : IngestTime) (sink : Bool)
    (depthLevels : Nat) (crossPolicy : CrossPolicy) (l : Limits (reach windows specs.length))
    (turns : List Turn)
    (within : Meets (step r v arith) (Within l v)
      (start v specs windows begin sink depthLevels crossPolicy) turns) :
    ∀ q ∈ outputs (step r v arith) (turnFigures r v arith)
      (start v specs windows begin sink depthLevels crossPolicy) turns, Fits q := by
  rw [forall_outputs]
  exact within.strengthen
    (fun p turn (limited : Limited l windows specs.length p) admitted =>
      (turn_fits r arith limited le_rfl turn admitted).2)
    (fun _ turn limited admitted => (turn_fits r arith limited le_rfl turn admitted).1)
    (limited_start specs windows begin sink depthLevels crossPolicy)

end Turns

section Sample

open BitstampFeed

def printText (price : String) : String :=
  "\x7b\"event\":\"trade\",\"channel\":\"live_trades_btcusd\",\"data\":\x7b\"price_str\":\"" ++
    price ++ "\",\"amount_str\":\"2\",\"type\":0,\"microtimestamp\":\"7\"\x7d\x7d"

/-- Two to the power of 95. -/
def hugePrice : String := "39614081257132168796771975168"

/-- A wire that reads two prints of two units each. -/
def printWire : BitstampWire String :=
  { tableWire [(printText hugePrice, ⟨"trade", "live_trades_btcusd", hugePrice⟩),
      (printText "100", ⟨"trade", "live_trades_btcusd", "100"⟩)] [] [] with
    tradeData := fun price => .ok ⟨"7", price, "2", some 0⟩ }

def printFrame (price : String) : RawFrame :=
  ⟨⟨.bitstamp, ⟨"BTC-USD"⟩⟩, .text (printText price), ⟨0, 0⟩, .webSocket⟩

def printSpecs : List (VenueSpec BitstampSync) := [⟨BitstampSync.new "btcusd", ⟨"BTC-USD"⟩, none⟩]

/-- A bucket of a quarter of a second and a window of one. -/
def secondWindow : WindowSpec := .new 250000000 [1000000000]

def printLimits : Limits (reach secondWindow printSpecs.length) where
  digits := 0
  most := 1000
  samples := 10
  volume := 100
  turnover := 100000
  places := 0
  few_digits := by norm_num
  few_places := by norm_num
  some_price := by norm_num
  ratio := by norm_num [ceiling]
  mean := by norm_num [ceiling, midScale]
  sampled := by
    have four : reach secondWindow printSpecs.length = 4 := by decide
    norm_num [four, ceiling]
  traded := by
    have four : reach secondWindow printSpecs.length = 4 := by decide
    norm_num [four, ceiling]

theorem huge_print_overflows :
    ¬ ∀ (r : Rounding) (J : Type) (w : BitstampWire J) (arith : DecimalArith)
      (specs : List (VenueSpec BitstampSync)) (windows : WindowSpec) (begin : IngestTime)
      (sink : Bool) (depthLevels : Nat) (crossPolicy : CrossPolicy) (turns : List Turn),
      ∀ q ∈ outputs (step r (BitstampSync.sync w) arith)
        (turnFigures r (BitstampSync.sync w) arith)
        (start (BitstampSync.sync w) specs windows begin sink depthLevels crossPolicy) turns,
        Fits q := by
  intro claim
  have fits := claim .exact String printWire .idle printSpecs secondWindow ⟨0, 0⟩ false 10 ⟨0⟩
    [.apply (.frame (printFrame hugePrice))]
  exact absurd fits (by decide +kernel)

/-- The same print at a price of a hundred, and a snapshot of its window a second later. -/
theorem figures_fit_hundred :
    (outputs (step .exact (BitstampSync.sync printWire) .idle)
      (turnFigures .exact (BitstampSync.sync printWire) .idle)
      (start (BitstampSync.sync printWire) printSpecs secondWindow ⟨0, 0⟩ false 10 ⟨0⟩)
      [.apply (.frame (printFrame "100")),
        .publish none ⟨1000000000, 1000000000⟩]).Forall Fits := by
  refine List.forall_iff_forall_mem.mpr ?_
  apply figures_fit .exact (BitstampSync.sync printWire) .idle printSpecs secondWindow ⟨0, 0⟩
    false 10 ⟨0⟩ printLimits
  refine ⟨?_, trivial, trivial⟩
  intro s found
  obtain ⟨spec, listed, -, rfl⟩ := find?_new found
  obtain rfl := List.mem_singleton.mp listed
  have told : (instructions (BitstampSync.sync printWire)
      (VenueBook.new (BitstampSync.sync printWire) (BitstampSync.new "btcusd") ⟨"BTC-USD"⟩)
      (.frame (printFrame "100"))).1 =
      [.forward (.trade ⟨.whole 100⟩ ⟨.whole 2, nofun⟩ (some .bid))] := by decide +kernel
  have only : prints (BitstampSync.sync printWire)
      (VenueBook.new (BitstampSync.sync printWire) (BitstampSync.new "btcusd") ⟨"BTC-USD"⟩)
      (.frame (printFrame "100")) = [⟨100, 2⟩] := by
    have one : printed (.forward (.trade ⟨.whole 100⟩ ⟨.whole 2, nofun⟩ (some .bid))) =
        some ⟨100, 2⟩ := by
      rw [printed, printOf]
      norm_num [valueOf, Decimal.whole, Decimal.ofNat]
    rw [prints, told, List.filterMap_cons, one]
    rfl
  constructor
  · intro a mem
    obtain rfl := List.mem_singleton.mp (told ▸ mem)
    exact List.forall_mem_nil _
  · intro p mem
    obtain rfl := List.mem_singleton.mp (only ▸ mem)
    exact .inr (by norm_num [Limits.lot, printLimits])
  · have blank : bucketAt (RollingWindows.new secondWindow ⟨0, 0⟩) ⟨0, 0⟩ =
        Bucket.blank (some 0) := by decide +kernel
    have room : Room printLimits (Bucket.blank (some 0)) [⟨100, 2⟩] := by
      constructor
      · norm_num [Bucket.blank, printLimits]
      · norm_num [Bucket.blank, printLimits, wholeVolume]
      · norm_num [Bucket.blank, printLimits, wholeTurnover]
    rw [← only, ← blank] at room
    exact room

end Sample

end PriceLimits

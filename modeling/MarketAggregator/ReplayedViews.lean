import MarketAggregator.EventReplay
import MarketAggregator.NodeSnapshots
import MarketAggregator.TapeText

/-!
# A replay shows what the live run showed

A run is told again from another base: every monotonic reading keeps its distance from the
start, and the wall readings may be anything. Books, windows and accounts of the two runs
differ in instants only, so the snapshots published along the way are the same but for the
wall clock they carry.
-/

namespace ReplayedViews

open AggregatorApply Clocks CrossTouch Decimals DepthAudit DesyncAccounts FakeFeed GatewayMerge
  GuardedRuns MarketEvents NodeSnapshots OrderBook OrderedMaps TapeFiles TapeText VenueBooks
  VenueDispatch VenueStreams WindowBuckets

universe u v

/-- The same distance from two starts. -/
def Moved (from_ to_ : Nat) (t u : IngestTime) : Prop := u.mono + from_ = t.mono + to_

section Instants

variable {a b : Nat} {t u now later : IngestTime}

theorem Moved.since (h : Moved a b now later) (k : Moved a b t u) :
    later.since u = now.since t := by
  simp only [Moved, IngestTime.since] at *
  omega

end Instants

/-- One state of a book at two instants. -/
inductive StateMoved (a b : Nat) : BookState → BookState → Prop
  | uninitialized : StateMoved a b .uninitialized .uninitialized
  | live {integrity : Integrity} {since since' : IngestTime}
    {verified verified' : Option IngestTime}
    (began : Moved a b since since') (hashed : Option.Rel (Moved a b) verified verified') :
    StateMoved a b (.live integrity since verified) (.live integrity since' verified')
  | desynced {reason : DesyncReason} {since since' : IngestTime} (began : Moved a b since since') :
    StateMoved a b (.desynced since reason) (.desynced since' reason)

structure BookMoved (a b : Nat) (book copy : Book) : Prop where
  levels : copy.levels = book.levels
  depth : copy.maxDepth = book.maxDepth
  state : StateMoved a b book.state copy.state
  updated : Option.Rel (Moved a b) book.lastUpdate copy.lastUpdate

section Books

variable {a b : Nat} {book copy : Book} {now later : IngestTime} {before after : BookState}

theorem StateMoved.isLive (h : StateMoved a b before after) : after.isLive = before.isLive := by
  cases h <;> rfl

theorem StateMoved.isDesynced (h : StateMoved a b before after) :
    isDesynced after = isDesynced before := by
  cases h <;> rfl

theorem BookMoved.markDesynced (h : BookMoved a b book copy) (at_ : Moved a b now later)
    (reason : DesyncReason) :
    BookMoved a b (book.markDesynced reason now) (copy.markDesynced reason later) :=
  ⟨h.levels, h.depth, .desynced at_, h.updated⟩

theorem BookMoved.markVerified (h : BookMoved a b book copy) (at_ : Moved a b now later) :
    BookMoved a b (book.markVerified now) (copy.markVerified later) := by
  have state := h.state
  rw [Book.markVerified, Book.markVerified]
  revert state
  generalize was : book.state = s
  generalize is_ : copy.state = t
  intro state
  cases state with
  | uninitialized => exact h
  | desynced began => exact h
  | @live integrity _ _ _ _ began hashed => cases integrity with
    | orderOnly => exact h
    | gapDetectable => exact h
    | verified => exact ⟨h.levels, h.depth, .live began (.some at_), h.updated⟩

theorem BookMoved.guardCrossed (h : BookMoved a b book copy) (at_ : Moved a b now later) :
    BookMoved a b (book.guardCrossed now).2 (copy.guardCrossed later).2 := by
  rw [Book.guardCrossed, Book.guardCrossed, h.levels]
  cases book.levels.crossed with
  | none => exact h
  | some reason => exact h.markDesynced at_ reason

theorem BookMoved.applySnapshot (h : BookMoved a b book copy) (at_ : Moved a b now later)
    (bids asks : List Level) (integrity : Integrity) :
    BookMoved a b (book.applySnapshot bids asks integrity now).2
      (copy.applySnapshot bids asks integrity later).2 := by
  refine BookMoved.guardCrossed ⟨?_, h.depth, .live at_ .none, .some at_⟩ at_
  exact congrArg (Levels.snapshot bids asks).prune h.depth

theorem BookMoved.applyDelta (h : BookMoved a b book copy) (at_ : Moved a b now later)
    (bids asks : List Level) :
    BookMoved a b (book.applyDelta bids asks now).2 (copy.applyDelta bids asks later).2 := by
  rw [Book.applyDelta, Book.applyDelta, h.state.isLive]
  cases book.state.isLive with
  | false => exact h
  | true =>
    refine BookMoved.guardCrossed ⟨?_, h.depth, h.state, .some at_⟩ at_
    simp only [h.levels, h.depth]

theorem BookMoved.verify (h : BookMoved a b book copy) (at_ : Moved a b now later)
    (hash : Levels → Option UInt32) (expected : UInt32) :
    BookMoved a b (verify hash book expected now) (verify hash copy expected later) := by
  rw [VenueBooks.verify, VenueBooks.verify, h.state.isLive, h.levels]
  cases book.state.isLive with
  | false => exact h
  | true =>
    cases hash book.levels with
    | none => exact h
    | some computed =>
      by_cases same : computed = expected
      · simp only [same, if_true]
        exact h.markVerified at_
      · simp only [same, if_false]
        exact h.markDesynced at_ _

/-- One action moves both books and is recorded as one kind of event. -/
theorem BookMoved.applyAction (h : BookMoved a b book copy) (at_ : Moved a b now later)
    (hash : Levels → Option UInt32) (integrity : Integrity) (action : SyncAction) :
    BookMoved a b (applyAction hash integrity now book action).1
        (applyAction hash integrity later copy action).1 ∧
      (VenueBooks.applyAction hash integrity later copy action).2 =
        (VenueBooks.applyAction hash integrity now book action).2 := by
  cases action with
  | ignore => exact ⟨h, rfl⟩
  | forward kind => exact ⟨h, rfl⟩
  | desync reason => exact ⟨h.markDesynced at_ reason, rfl⟩
  | verify checksum => exact ⟨h.verify at_ hash checksum, rfl⟩
  | snapshot bids asks => exact ⟨h.applySnapshot at_ bids asks integrity, rfl⟩
  | delta bids asks =>
    refine ⟨by simpa using h.applyDelta at_ bids asks, ?_⟩
    simp only [VenueBooks.applyAction, Book.applyDelta, h.state.isLive]
    cases book.state.isLive <;> rfl

theorem BookMoved.applyActions (h : BookMoved a b book copy) (at_ : Moved a b now later)
    (hash : Levels → Option UInt32) (integrity : Integrity) (actions : List SyncAction) :
    BookMoved a b (applyActions hash integrity now book actions).1
        (applyActions hash integrity later copy actions).1 ∧
      (VenueBooks.applyActions hash integrity later copy actions).2 =
        (VenueBooks.applyActions hash integrity now book actions).2 := by
  induction actions generalizing book copy with
  | nil => exact ⟨h, rfl⟩
  | cons action actions ih =>
    obtain ⟨moved, kind⟩ := h.applyAction at_ hash integrity action
    obtain ⟨rest, kinds⟩ := ih moved
    refine ⟨rest, ?_⟩
    simp only [VenueBooks.applyActions, kind, kinds]

end Books

/-- One event at two instants. -/
def EventMoved (a b : Nat) (e f : MarketEvent) : Prop :=
  f.kind = e.kind ∧ Moved a b e.ingestTs f.ingestTs

structure VenueBookMoved {σ : Type u} (a b : Nat) (vb vc : VenueBook σ) : Prop where
  sync : vc.sync = vb.sync
  policy : vc.auditPolicy = vb.auditPolicy
  trail : vc.auditTrail = vb.auditTrail
  book : BookMoved a b vb.book vc.book

/-- The same message at two instants. What ended a session is not on a tape. -/
inductive MessageMoved (a b : Nat) : IngestMessage → IngestMessage → Prop
  | frame (frame : RawFrame) {later : IngestTime} (at_ : Moved a b frame.ingestTs later) :
    MessageMoved a b (.frame frame) (.frame { frame with ingestTs := later })
  | event (stream : StreamId) (event : MarketEvent) {later : IngestTime}
    (at_ : Moved a b event.ingestTs later) :
    MessageMoved a b (.event stream event) (.event stream { event with ingestTs := later })
  | sessionEnded (stream : StreamId) {now later : IngestTime} (at_ : Moved a b now later)
    (ending other : SessionEnd) :
    MessageMoved a b (.sessionEnded stream now ending) (.sessionEnded stream later other)

/-- Both deliveries fail, or both succeed with the same events. -/
def ResultMoved (a b : Nat) :
    Except VenueError (List Outcome) → Except VenueError (List Outcome) → Prop
  | .error _, .error _ => True
  | .ok outcomes, .ok others =>
    List.Forall₂ (EventMoved a b) (outcomeEvents outcomes) (outcomeEvents others)
  | _, _ => False

section Delivery

variable {σ : Type u} {v : VenueSync σ} {arith : DecimalArith} {a b : Nat} {vb vc : VenueBook σ}
  {now later : IngestTime} {message copied : IngestMessage}

theorem events_moved (at_ : Moved a b now later) {venue venue' : VenueId} {symbol symbol' : Symbol}
    (venueTs : Option Int) (kinds : List EventKind) :
    List.Forall₂ (EventMoved a b)
      (kinds.map fun kind => (⟨venue, symbol, venueTs, now, kind⟩ : MarketEvent))
      (kinds.map fun kind => (⟨venue', symbol', venueTs, later, kind⟩ : MarketEvent)) := by
  induction kinds with
  | nil => exact .nil
  | cons kind kinds ih => exact .cons ⟨rfl, at_⟩ ih

theorem VenueBookMoved.applyIngested (h : VenueBookMoved a b vb vc) (at_ : Moved a b now later)
    (ingested : Ingested) :
    VenueBookMoved a b (vb.applyIngested v ingested now).2 (vc.applyIngested v ingested later).2 ∧
      List.Forall₂ (EventMoved a b) (outcomeEvents (vb.applyIngested v ingested now).1)
        (outcomeEvents (vc.applyIngested v ingested later).1) := by
  obtain ⟨book, kinds⟩ := h.book.applyActions at_ (v.checksum vb.sync) (v.integrity vb.sync)
    ingested.actions
  constructor
  · refine ⟨h.sync, h.policy, h.trail, ?_⟩
    simpa only [VenueBook.applyIngested, h.sync] using book
  · rw [EventReplay.applyIngested_events, EventReplay.applyIngested_events, h.sync, kinds]
    exact events_moved at_ ingested.venueTs _

theorem VenueBookMoved.audit (h : VenueBookMoved a b vb vc) (arith : DecimalArith)
    (at_ : Moved a b now later) (snapshot : RestSnapshot) :
    VenueBookMoved a b (vb.audit arith snapshot now).2 (vc.audit arith snapshot later).2 ∧
      outcomeEvents (vb.audit arith snapshot now).1 = [] ∧
      outcomeEvents (vc.audit arith snapshot later).1 = [] := by
  rw [VenueBook.audit, VenueBook.audit, h.book.state.isLive, h.book.levels, h.policy, h.trail]
  cases vb.book.state.isLive with
  | false => exact ⟨h, rfl, rfl⟩
  | true =>
    simp only [if_true]
    generalize vb.auditTrail.observe _ _ = observed
    obtain ⟨reason, trail⟩ := observed
    cases reason with
    | none =>
      exact ⟨⟨h.sync, rfl, rfl, h.book⟩, EventReplay.outcomeEvents_changed,
        EventReplay.outcomeEvents_changed⟩
    | some reason =>
      exact ⟨⟨h.sync, rfl, rfl, h.book.markDesynced at_ reason⟩,
        EventReplay.outcomeEvents_changed, EventReplay.outcomeEvents_changed⟩

theorem VenueBookMoved.withSync (h : VenueBookMoved a b vb vc) (sync : σ) :
    VenueBookMoved a b { vb with sync := sync } { vc with sync := sync } :=
  ⟨rfl, h.policy, h.trail, h.book⟩

theorem VenueBookMoved.feed (timeless : Timeless v) (h : VenueBookMoved a b vb vc)
    (frame : RawFrame) (at_ : Moved a b frame.ingestTs later) :
    VenueBookMoved a b (vb.feed v arith frame).2
        (vc.feed v arith { frame with ingestTs := later }).2 ∧
      ResultMoved a b (vb.feed v arith frame).1
        (vc.feed v arith { frame with ingestTs := later }).1 := by
  obtain ⟨stream, payload, now, source⟩ := frame
  have read : (RawFrame.mk stream payload later source).asStr =
      (RawFrame.mk stream payload now source).asStr := rfl
  rw [VenueBook.feed, VenueBook.feed, read, h.sync]
  cases source with
  | webSocket =>
    have same := timeless vb.sync ⟨stream, payload, now, .webSocket⟩ later
    dsimp only at same ⊢
    rw [same]
    split
    · exact ⟨h.withSync _, trivial⟩
    · exact (h.withSync _).applyIngested at_ _
  | restSnapshot =>
    dsimp only
    split
    · exact ⟨h, trivial⟩
    · rw [VenueBook.applyRestSnapshot, VenueBook.applyRestSnapshot, h.sync]
      exact (h.withSync _).applyIngested at_ _
  | restAudit =>
    dsimp only
    split
    · exact ⟨h, trivial⟩
    · rename_i snapshot _
      obtain ⟨moved, quiet, still⟩ := h.audit arith at_ snapshot
      refine ⟨moved, ?_⟩
      rw [ResultMoved, quiet, still]
      exact .nil

theorem VenueBookMoved.deliver (arith : DecimalArith) (timeless : Timeless v)
    (h : VenueBookMoved a b vb vc) (same : MessageMoved a b message copied) :
    VenueBookMoved a b (deliver v arith vb message).2 (deliver v arith vc copied).2 ∧
      ResultMoved a b (AggregatorApply.deliver v arith vb message).1
        (AggregatorApply.deliver v arith vc copied).1 := by
  cases same with
  | frame frame at_ => exact h.feed timeless frame at_
  | event stream event at_ => exact h.applyIngested at_ _
  | sessionEnded stream at_ ending other =>
    refine ⟨⟨congrArg v.reset h.sync, h.policy, congrArg AuditTrail.reset h.trail, ?_⟩, .nil⟩
    exact h.book.markDesynced at_ .connectionLost

end Delivery

structure WindowsMoved (a b : Nat) (s t : RollingWindows) : Prop where
  spec : t.spec = s.spec
  buckets : t.buckets = s.buckets
  origin : Moved a b s.origin t.origin
  chargedTo : Moved a b s.chargedTo t.chargedTo
  trusted : t.trusted = s.trusted

/-- One top of a book at two instants. -/
structure TopMoved (a b : Nat) (top copy : TopOfBook) : Prop where
  bid : copy.bid = top.bid
  ask : copy.ask = top.ask
  state : StateMoved a b top.state copy.state
  age : copy.age = top.age

section Windows

variable {a b : Nat} {s t : RollingWindows} {now later : IngestTime} {top copy : TopOfBook}

theorem WindowsMoved.indexOf (h : WindowsMoved a b s t) {m n : Nat} (at_ : n + a = m + b) :
    t.indexOf n = s.indexOf m := by
  have origin := h.origin
  rw [Moved] at origin
  have far : n - t.origin.mono = m - s.origin.mono := by omega
  rw [RollingWindows.indexOf, RollingWindows.indexOf, far, h.spec]

theorem WindowsMoved.bucketStart (h : WindowsMoved a b s t) (index : Nat) :
    t.bucketStart index + a = s.bucketStart index + b := by
  have origin := h.origin
  rw [Moved] at origin
  rw [RollingWindows.bucketStart, RollingWindows.bucketStart, h.spec]
  omega

theorem WindowsMoved.slotMut (h : WindowsMoved a b s t) (index : Nat) (write : Bucket → Bucket) :
    WindowsMoved a b (s.slotMut index write) (t.slotMut index write) := by
  obtain ⟨spec, buckets, origin, chargedTo, trusted⟩ := s
  obtain ⟨spec', buckets', origin', chargedTo', trusted'⟩ := t
  obtain rfl : buckets' = buckets := h.buckets
  exact ⟨h.spec, rfl, h.origin, h.chargedTo, h.trusted⟩

theorem WindowsMoved.chargeFrom {m n : Nat} (at_ : n + a = m + b) (fuel : Nat)
    {cursor cursor' : Nat} (here : cursor' + a = cursor + b) (h : WindowsMoved a b s t) :
    WindowsMoved a b (RollingWindows.chargeFrom m fuel cursor s)
      (RollingWindows.chargeFrom n fuel cursor' t) := by
  induction fuel generalizing cursor cursor' s t with
  | zero => exact h
  | succ fuel ih =>
    rw [RollingWindows.chargeFrom, RollingWindows.chargeFrom]
    have reached : cursor' < n ↔ cursor < m := by omega
    by_cases go : cursor < m
    · rw [if_pos go, if_pos (reached.mpr go)]
      dsimp only
      rw [h.indexOf here]
      have boundary := h.bucketStart (RollingWindows.saturatingSucc (s.indexOf cursor))
      have slice : (if t.bucketStart (RollingWindows.saturatingSucc (s.indexOf cursor)) < n then
            t.bucketStart (RollingWindows.saturatingSucc (s.indexOf cursor)) else n) + a =
          (if s.bucketStart (RollingWindows.saturatingSucc (s.indexOf cursor)) < m then
            s.bucketStart (RollingWindows.saturatingSucc (s.indexOf cursor)) else m) + b := by
        split <;> split <;> omega
      revert slice
      generalize (if t.bucketStart _ < n then _ else n) = ends'
      generalize (if s.bucketStart _ < m then _ else m) = ends
      intro slice
      have elapsed : ends' - cursor' = ends - cursor := by omega
      have stuck : ends' ≤ cursor' ↔ ends ≤ cursor := by omega
      rw [elapsed, h.trusted]
      have written := h.slotMut (s.indexOf cursor)
        (fun bucket => if s.trusted then bucket else bucket.charged (ends - cursor))
      by_cases stop : ends ≤ cursor
      · rw [if_pos stop, if_pos (stuck.mpr stop)]
        exact written
      · rw [if_neg stop, if_neg (fun ended => stop (stuck.mp ended))]
        exact ih slice written
    · rw [if_neg go, if_neg (fun on => go (reached.mp on))]
      exact h

theorem chargeBetween (at_ : Moved a b now later) {cursor cursor' : Nat}
    (here : cursor' + a = cursor + b) (h : WindowsMoved a b s t) :
    WindowsMoved a b
      { RollingWindows.chargeFrom now.mono (now.mono - cursor) cursor s with chargedTo := now }
      { RollingWindows.chargeFrom later.mono (later.mono - cursor') cursor' t with
        chargedTo := later } := by
  have instants := at_
  rw [Moved] at instants
  have fuel : later.mono - cursor' = now.mono - cursor := by omega
  rw [fuel]
  have charged := WindowsMoved.chargeFrom instants (now.mono - cursor) here h
  exact ⟨charged.spec, charged.buckets, charged.origin, at_, charged.trusted⟩

theorem WindowsMoved.charge (h : WindowsMoved a b s t) (at_ : Moved a b now later) :
    WindowsMoved a b (s.charge now) (t.charge later) := by
  have upTo := h.chargedTo
  have last : t.indexAt later = s.indexAt now := h.indexOf at_
  have first : t.indexAt t.chargedTo = s.indexAt s.chargedTo := h.indexOf upTo
  have ring : t.ring = s.ring := congrArg List.length h.buckets
  have start := h.bucketStart (RollingWindows.saturatingSucc (s.indexAt now - s.ring))
  have instants := at_
  rw [Moved] at instants upTo
  rw [RollingWindows.charge, RollingWindows.charge]
  by_cases past : now.mono ≤ s.chargedTo.mono
  · rw [if_pos past, if_pos (by omega)]
    exact h
  · rw [if_neg past, if_neg (by omega)]
    simp only [last, first, ring]
    -- Both resume where they stopped, or both skip to the oldest bucket still in reach.
    by_cases skip : s.ring ≤ s.indexAt now - s.indexAt s.chargedTo
    · rw [if_pos skip, if_pos skip]
      exact chargeBetween at_ start h
    · rw [if_neg skip, if_neg skip]
      exact chargeBetween at_ upTo h

theorem WindowsMoved.observe (h : WindowsMoved a b s t) (at_ : Moved a b now later)
    (same : TopMoved a b top copy) :
    WindowsMoved a b (s.observe top now) (t.observe copy later) := by
  have charged := h.charge at_
  rw [RollingWindows.observe, RollingWindows.observe, same.bid, same.ask]
  have state := same.state
  revert state
  generalize top.state = before
  generalize copy.state = after
  intro state
  cases state with
  | uninitialized => exact ⟨charged.spec, charged.buckets, charged.origin, charged.chargedTo, rfl⟩
  | desynced began =>
    exact ⟨charged.spec, charged.buckets, charged.origin, charged.chargedTo, rfl⟩
  | live began hashed =>
    have trusted : WindowsMoved a b { s.charge now with trusted := true }
        { t.charge later with trusted := true } :=
      ⟨charged.spec, charged.buckets, charged.origin, charged.chargedTo, rfl⟩
    have index : ({ t.charge later with trusted := true } : RollingWindows).indexAt later =
        ({ s.charge now with trusted := true } : RollingWindows).indexAt now :=
      trusted.indexOf at_
    dsimp only
    cases top.bid with
    | none => exact trusted
    | some bid => cases top.ask with
      | none => exact trusted
      | some ask =>
        dsimp only
        rw [index]
        exact trusted.slotMut _ _

theorem WindowsMoved.observeTrade (h : WindowsMoved a b s t) (at_ : Moved a b now later)
    (price qty : Decimal) :
    WindowsMoved a b (s.observeTrade price qty now) (t.observeTrade price qty later) := by
  have charged := h.charge at_
  have index : (t.charge later).indexAt later = (s.charge now).indexAt now := charged.indexOf at_
  rw [RollingWindows.observeTrade, RollingWindows.observeTrade, index]
  exact charged.slotMut _ _

theorem WindowsMoved.read (h : WindowsMoved a b s t) (at_ : Moved a b now later) :
    (t.read later).1 = (s.read now).1 ∧ WindowsMoved a b (s.read now).2 (t.read later).2 := by
  have charged := h.charge at_
  have index : (t.charge later).indexAt later = (s.charge now).indexAt now := charged.indexOf at_
  refine ⟨?_, charged⟩
  simp only [RollingWindows.read, index, charged.spec]
  refine List.map_congr_left fun span _ => ?_
  simp only [RollingWindows.readSpan, RollingWindows.slot, RollingWindows.place,
    RollingWindows.ring, charged.spec, charged.buckets]

end Windows

/-- A state without its last verification. -/
def unverified : BookState → BookState
  | .live integrity since _ => .live integrity since none
  | state => state

/-- When a state began, unless nothing has happened yet. -/
def sinceOf : BookState → Option IngestTime
  | .uninitialized => none
  | .live _ since _ => some since
  | .desynced since _ => some since

/-- A state that goes on, verified again or not, or one that begins now. -/
def GoesOn (now : IngestTime) (before after : BookState) : Prop :=
  unverified after = unverified before ∨ sinceOf after = some now

/-- The status of a stream is as old as the state of its book. -/
def Anchored {σ : Type u} {ω : Type v} (s : VenueState σ ω) : Prop :=
  ∀ since, sinceOf s.book.book.state = some since → s.statusSince.mono = since.mono

section Status

variable {σ : Type u} {ω : Type v} {v : VenueSync σ} {arith : DecimalArith} {ops : WindowOps ω}
  {now : IngestTime} {before middle after : BookState} {book : Book} {vb : VenueBook σ}
  {s : VenueState σ ω} {message : IngestMessage} {sink : Bool}

theorem sinceOf_unverified (state : BookState) : sinceOf (unverified state) = sinceOf state := by
  cases state <;> rfl

theorem StateMoved.sinceOf {a b : Nat} (h : StateMoved a b before after) :
    Option.Rel (Moved a b) (sinceOf before) (sinceOf after) := by
  cases h with
  | uninitialized => exact .none
  | live began hashed => exact .some began
  | desynced began => exact .some began

theorem GoesOn.trans (first : GoesOn now before middle) (second : GoesOn now middle after) :
    GoesOn now before after := by
  rcases second with kept | began
  · rcases first with kept' | began
    · exact .inl (kept.trans kept')
    · refine .inr ?_
      rw [← sinceOf_unverified, kept, sinceOf_unverified, began]
  · exact .inr began

theorem sameAs_self (reason : DesyncReason) : reason.sameAs reason = true := by
  have self : ∀ p : Price, Price.cmp p p = .eq := fun p => Std.ReflCmp.compare_self
  cases reason <;> simp [DesyncReason.sameAs, self]

theorem sameStatus_of_kept (kept : unverified after = unverified before) :
    before.sameStatus after = true := by
  cases before with
  | uninitialized => cases after <;> first | rfl | cases kept
  | live integrity since verified => cases after with
    | live integrity' since' verified' =>
      cases kept
      simp [BookState.sameStatus]
    | uninitialized => cases kept
    | desynced since' reason => cases kept
  | desynced since reason => cases after with
    | desynced since' reason' =>
      cases kept
      simp [BookState.sameStatus, sameAs_self]
    | uninitialized => cases kept
    | live integrity since' verified => cases kept

theorem sinceOf_of_sameStatus (same : before.sameStatus after = true) :
    sinceOf after = sinceOf before := by
  cases before <;> cases after <;> simp_all [BookState.sameStatus, sinceOf]

theorem goesOn_guardCrossed (goes : GoesOn now before book.state) :
    GoesOn now before (book.guardCrossed now).2.state := by
  rw [guardCrossed_state]
  cases book.levels.crossed with
  | none => exact goes
  | some reason => exact .inr rfl

theorem goesOn_verify (hash : Levels → Option UInt32) (expected : UInt32) :
    GoesOn now book.state (verify hash book expected now).state := by
  rw [VenueBooks.verify]
  split_ifs with live
  · cases hash book.levels with
    | none => exact .inl rfl
    | some computed =>
      dsimp only
      split_ifs with same
      · refine .inl ?_
        rw [Book.markVerified]
        split
        · rename_i was
          rw [was]
          rfl
        · rfl
      · exact .inr rfl
  · exact .inl rfl

theorem goesOn_applyAction (hash : Levels → Option UInt32) (integrity : Integrity)
    (action : SyncAction) :
    GoesOn now book.state (applyAction hash integrity now book action).1.state := by
  cases action with
  | ignore => exact .inl rfl
  | forward kind => exact .inl rfl
  | desync reason => exact .inr rfl
  | verify checksum => exact goesOn_verify hash checksum
  | snapshot bids asks => exact goesOn_guardCrossed (.inr rfl)
  | delta bids asks =>
    rw [applyAction_delta, Book.applyDelta]
    cases live : book.state.isLive with
    | false => exact .inl rfl
    | true => exact goesOn_guardCrossed (.inl rfl)

theorem goesOn_applyActions (hash : Levels → Option UInt32) (integrity : Integrity)
    (actions : List SyncAction) :
    GoesOn now book.state (applyActions hash integrity now book actions).1.state := by
  induction actions generalizing book with
  | nil => exact .inl rfl
  | cons action actions ih =>
    rw [applyActions_cons]
    exact (goesOn_applyAction hash integrity action).trans ih

/-- A message leaves the state of a book going on, or begins a new one at its instant. -/
theorem goesOn_deliver (message : IngestMessage) :
    GoesOn (stamp message) vb.book.state (deliver v arith vb message).2.book.state := by
  cases message with
  | event stream event => exact goesOn_applyActions _ _ _
  | sessionEnded stream now ending => exact .inr rfl
  | frame frame =>
    rw [deliver, stamp]
    rcases VenueBook.feed_cases v arith vb frame with
      ⟨_, _, _, fed⟩ | ⟨_, _, _, _, fed⟩ | ⟨_, fed⟩ | ⟨_, _, fed⟩ | ⟨snapshot, _, fed⟩
    · rw [fed]
      exact .inl rfl
    · rw [fed]
      exact goesOn_applyActions _ _ _
    · rw [fed]
      exact .inl rfl
    · rw [fed]
      exact goesOn_applyActions _ _ _
    · rw [fed]
      rcases (VenueBook.audit_book arith vb snapshot frame.ingestTs).2 with kept | ⟨_, -, marked⟩
      · rw [kept]
        exact .inl rfl
      · rw [marked]
        exact .inr rfl

theorem noteEvents_statusSince (events : List MarketEvent) :
    (events.foldl (VenueState.noteEvent ops) s).statusSince = s.statusSince := by
  induction events generalizing s with
  | nil => rfl
  | cons event events ih =>
    rw [List.foldl_cons, ih, VenueState.noteEvent]
    split <;> rfl

theorem noted_statusSince : (if before.sameStatus after = true then s
      else s.noteTransition before after now).statusSince =
    if before.sameStatus after = true then s.statusSince else now := by
  split
  · rfl
  · rw [VenueState.noteTransition]

theorem statusSince_applyToStream : (applyToStream v arith ops sink s message).1.statusSince =
    if s.book.book.state.sameStatus
        (applyToStream v arith ops sink s message).1.book.book.state = true then s.statusSince
    else stamp message := by
  rw [applyToStream_book]
  cases message with
  | sessionEnded stream ended ending =>
    exact noted_statusSince
  | event stream event =>
    have done : (deliver v arith s.book (.event stream event)).1 =
        .ok (s.book.applyEvent v event event.ingestTs).1 := rfl
    simp only [applyToStream, done, applyToStream.settle, VenueState.sampleWindows,
      noteEvents_statusSince]
    exact noted_statusSince
  | frame frame =>
    cases result : (deliver v arith s.book (.frame frame)).1 with
    | error e =>
      rw [deliver_error result, if_pos (sameStatus_of_kept rfl)]
      simp only [applyToStream, result]
      rfl
    | ok outcomes =>
      simp only [applyToStream, result, applyToStream.settle, VenueState.sampleWindows,
        noteEvents_statusSince]
      exact noted_statusSince

theorem goesOn_applyToStream (v : VenueSync σ) (arith : DecimalArith) (ops : WindowOps ω)
    (sink : Bool) (s : VenueState σ ω) (message : IngestMessage) :
    GoesOn (stamp message) s.book.book.state
      (applyToStream v arith ops sink s message).1.book.book.state := by
  rw [applyToStream_book]
  exact goesOn_deliver message

/-- Whatever a message does, the status is as old as the state. -/
theorem Anchored.applyToStream (anchored : Anchored s) :
    Anchored (applyToStream v arith ops sink s message).1 := by
  intro since began
  rw [statusSince_applyToStream]
  split_ifs with same
  · rw [sinceOf_of_sameStatus same] at began
    exact anchored since began
  · rcases goesOn_applyToStream v arith ops sink s message with kept | now
    · exact absurd (sameStatus_of_kept kept) same
    · rw [began] at now
      rw [Option.some_inj.mp now]

/-- A book that has seen nothing has kept its status. -/
theorem statusSince_of_none
    (none : sinceOf (applyToStream v arith ops sink s message).1.book.book.state = none) :
    (AggregatorApply.applyToStream v arith ops sink s message).1.statusSince = s.statusSince := by
  rw [statusSince_applyToStream]
  rcases goesOn_applyToStream v arith ops sink s message with kept | now
  · rw [if_pos (sameStatus_of_kept kept)]
  · rw [none] at now
    cases now

end Status

/-- One print at two instants. -/
structure TradeMoved (a b : Nat) (p q : Price × Qty × Option Side × IngestTime) : Prop where
  price : q.1 = p.1
  qty : q.2.1 = p.2.1
  takerSide : q.2.2.1 = p.2.2.1
  instant : Moved a b p.2.2.2 q.2.2.2

/-- What the events of a stream have left behind. -/
structure FiguresMoved {σ : Type u} (a b : Nat) (s t : VenueState σ RollingWindows) : Prop where
  windows : WindowsMoved a b s.windows t.windows
  lastTrade : Option.Rel (TradeMoved a b) s.lastTrade t.lastTrade

/-- The states of one stream at two instants. Its counters are not compared. -/
structure Alike {σ : Type u} (a b : Nat) (s t : VenueState σ RollingWindows) : Prop where
  book : VenueBookMoved a b s.book t.book
  total : t.desyncedTotal = s.desyncedTotal
  since : Option.Rel (Moved a b) s.desyncedSince t.desyncedSince
  status : Moved a b s.statusSince t.statusSince
  figures : FiguresMoved a b s t

section Streams

variable {σ : Type u} {v : VenueSync σ} {arith : DecimalArith} {a b : Nat}
  {s t : VenueState σ RollingWindows} {now later : IngestTime} {message copied : IngestMessage}
  {sink sink' : Bool}

theorem MessageMoved.instants (same : MessageMoved a b message copied) :
    Moved a b (stamp message) (stamp copied) := by
  cases same with
  | frame frame at_ => exact at_
  | event stream event at_ => exact at_
  | sessionEnded stream at_ ending other => exact at_

theorem MessageMoved.stream (same : MessageMoved a b message copied) :
    copied.stream = message.stream := by
  cases same <;> rfl

/-- Equally old at either instant. -/
theorem ages_moved {before after : Option IngestTime} (h : Option.Rel (Moved a b) before after)
    (at_ : Moved a b now later) : after.map later.since = before.map now.since := by
  cases h with
  | none => rfl
  | some moved => exact congrArg some (at_.since moved)

theorem topOfBook_moved {book copy : Book} (h : BookMoved a b book copy)
    (at_ : Moved a b now later) : TopMoved a b (book.topOfBook now) (copy.topOfBook later) := by
  have bid : copy.levels.best .bid = book.levels.best .bid := by rw [h.levels]
  have ask : copy.levels.best .ask = book.levels.best .ask := by rw [h.levels]
  exact ⟨bid, ask, h.state, ages_moved h.updated at_⟩

theorem FiguresMoved.noteEvent (h : FiguresMoved a b s t) {e f : MarketEvent}
    (same : EventMoved a b e f) :
    FiguresMoved a b (s.noteEvent windowOps e) (t.noteEvent windowOps f) := by
  obtain ⟨kind, at_⟩ := same
  rw [VenueState.noteEvent, VenueState.noteEvent, kind]
  cases e.kind with
  | trade price qty takerSide =>
    exact ⟨h.windows.observeTrade at_ price.decimal qty.decimal, .some ⟨rfl, rfl, rfl, at_⟩⟩
  | heartbeat counter => exact ⟨h.windows, h.lastTrade⟩
  | _ => exact h

theorem FiguresMoved.noteEvents {events others : List MarketEvent}
    (same : List.Forall₂ (EventMoved a b) events others) (h : FiguresMoved a b s t) :
    FiguresMoved a b (events.foldl (VenueState.noteEvent windowOps) s)
      (others.foldl (VenueState.noteEvent windowOps) t) := by
  induction same generalizing s t with
  | nil => exact h
  | cons first _ ih => exact ih (h.noteEvent first)

theorem figures_noteTransition (before after : BookState) :
    (s.noteTransition before after now).windows = s.windows ∧
      (s.noteTransition before after now).lastTrade = s.lastTrade := by
  rw [VenueState.noteTransition]
  cases isDesynced before <;> cases isDesynced after <;> exact ⟨rfl, rfl⟩

theorem figures_noted (s : VenueState σ RollingWindows) (now : IngestTime)
    (before after : BookState) :
    (if before.sameStatus after then s else s.noteTransition before after now).windows = s.windows ∧
      (if before.sameStatus after then s else s.noteTransition before after now).lastTrade =
        s.lastTrade := by
  split
  · exact ⟨rfl, rfl⟩
  · exact figures_noteTransition before after

/-- Noting a transition leaves the figures alone. -/
theorem FiguresMoved.noted (h : FiguresMoved a b s t) (now later : IngestTime)
    (before after before' after' : BookState) :
    FiguresMoved a b
      (if before.sameStatus after then s else s.noteTransition before after now)
      (if before'.sameStatus after' then t else t.noteTransition before' after' later) := by
  obtain ⟨windows, trade⟩ := figures_noted s now before after
  obtain ⟨windows', trade'⟩ := figures_noted t later before' after'
  constructor
  · rw [windows, windows']
    exact h.windows
  · rw [trade, trade']
    exact h.lastTrade

theorem FiguresMoved.sampleWindows (h : FiguresMoved a b s t) (at_ : Moved a b now later)
    (book : BookMoved a b s.book.book t.book.book) :
    FiguresMoved a b (s.sampleWindows windowOps now) (t.sampleWindows windowOps later) :=
  ⟨h.windows.observe at_ (topOfBook_moved book at_), h.lastTrade⟩

theorem noted_book (before after : BookState) :
    (if before.sameStatus after then s else s.noteTransition before after now).book = s.book := by
  split
  · rfl
  · exact noteTransition_book

theorem FiguresMoved.settle (h : FiguresMoved a b s t) (at_ : Moved a b now later)
    (book : BookMoved a b s.book.book t.book.book) {before after before' after' : BookState}
    {outcomes others : List Outcome}
    (events : List.Forall₂ (EventMoved a b) (outcomeEvents outcomes) (outcomeEvents others)) :
    FiguresMoved a b
      (applyToStream.settle windowOps sink message s before after outcomes now).1
      (applyToStream.settle windowOps sink' copied t before' after' others later).1 := by
  have noted : FiguresMoved a b _ _ := h.noted now later before after before' after'
  refine (noted.noteEvents events).sampleWindows at_ ?_
  rw [noteEvents_book, noteEvents_book, noted_book, noted_book]
  exact book

/-- Counting a message and moving the book leaves the figures alone. -/
theorem FiguresMoved.entered (h : FiguresMoved a b s t) (counters counters' : Counters)
    (book book' : VenueBook σ) :
    FiguresMoved a b { s with counters := counters, book := book }
      { t with counters := counters', book := book' } :=
  ⟨h.windows, h.lastTrade⟩

theorem FiguresMoved.applyToStream (timeless : Timeless v) (h : FiguresMoved a b s t)
    (book : VenueBookMoved a b s.book t.book) (same : MessageMoved a b message copied) :
    FiguresMoved a b (applyToStream v arith windowOps sink s message).1
      (applyToStream v arith windowOps sink' t copied).1 := by
  obtain ⟨moved, result⟩ := book.deliver arith timeless same
  cases same with
  | sessionEnded stream at_ ending other =>
    refine FiguresMoved.sampleWindows (FiguresMoved.noted (h.entered _ _ _ _) _ _ _ _ _ _) at_ ?_
    rw [noted_book, noted_book]
    exact moved.book
  | event stream event at_ =>
    exact (h.entered _ _ _ _).settle at_ moved.book result
  | @frame frame later at_ =>
    cases first : (deliver v arith s.book (.frame frame)).1 with
    | error e =>
      cases second : (deliver v arith t.book (.frame { frame with ingestTs := later })).1 with
      | error e' =>
        simp only [AggregatorApply.applyToStream, first, second]
        exact (h.entered _ _ _ _).sampleWindows at_ moved.book
      | ok others =>
        rw [first, second] at result
        exact result.elim
    | ok outcomes =>
      cases second : (deliver v arith t.book (.frame { frame with ingestTs := later })).1 with
      | error e' =>
        rw [first, second] at result
        exact result.elim
      | ok others =>
        rw [first, second] at result
        simp only [AggregatorApply.applyToStream, first, second]
        exact (h.entered _ _ _ _).settle at_ moved.book result

/-- One outage charged alike at two instants. -/
theorem total_moved (total : t.desyncedTotal = s.desyncedTotal)
    (since : Option.Rel (Moved a b) s.desyncedSince t.desyncedSince) (at_ : Moved a b now later) :
    desyncedTotal t later = desyncedTotal s now := by
  rw [desyncedTotal, desyncedTotal]
  revert since
  generalize s.desyncedSince = before
  generalize t.desyncedSince = after
  intro since
  cases since with
  | none => exact total
  | some moved => exact congrArg₂ (· + ·) total (at_.since moved)

/-- One message keeps two streams alike. -/
theorem Alike.applyToStream (timeless : Timeless v) (h : Alike a b s t)
    (same : MessageMoved a b message copied) (first : Anchored s) (second : Anchored t) :
    Alike a b (applyToStream v arith windowOps sink s message).1
      (applyToStream v arith windowOps sink' t copied).1 := by
  have at_ := same.instants
  have book : VenueBookMoved a b
      (AggregatorApply.applyToStream v arith windowOps sink s message).1.book
      (AggregatorApply.applyToStream v arith windowOps sink' t copied).1.book := by
    rw [applyToStream_book, applyToStream_book]
    exact (h.book.deliver arith timeless same).1
  have charged : Charges (isDesynced s.book.book.state) _ _ s
    (AggregatorApply.applyToStream v arith windowOps sink s message).1 := charges_applyToStream
  have charged' : Charges (isDesynced t.book.book.state) _ _ t
    (AggregatorApply.applyToStream v arith windowOps sink' t copied).1 := charges_applyToStream
  rw [h.book.book.state.isDesynced, book.book.state.isDesynced] at charged'
  refine ⟨book, ?_, ?_, ?_, h.figures.applyToStream timeless h.book same⟩
  · rw [charged.total, charged'.total, total_moved h.total h.since at_, h.total]
  · rw [charged.since, charged'.since]
    split_ifs
    · exact h.since
    · exact .some at_
    · exact .none
  · -- The status is as old as the state, which is alike, or nothing has happened yet.
    have anchored : Anchored (AggregatorApply.applyToStream v arith windowOps sink s message).1 :=
      first.applyToStream
    have anchored' : Anchored (AggregatorApply.applyToStream v arith windowOps sink' t copied).1 :=
      second.applyToStream
    have began := book.book.state.sinceOf
    cases was : sinceOf (AggregatorApply.applyToStream v arith windowOps sink s
        message).1.book.book.state with
    | none =>
      cases is_ : sinceOf (AggregatorApply.applyToStream v arith windowOps sink' t
          copied).1.book.book.state with
      | none =>
        rw [statusSince_of_none was, statusSince_of_none is_]
        exact h.status
      | some since' =>
        rw [was, is_] at began
        cases began
    | some since =>
      cases is_ : sinceOf (AggregatorApply.applyToStream v arith windowOps sink' t
          copied).1.book.book.state with
      | none =>
        rw [was, is_] at began
        cases began
      | some since' =>
        rw [was, is_] at began
        cases began with
        | some moved =>
          rw [Moved, anchored since was, anchored' since' is_]
          exact moved

end Streams

section Touches

variable {a b : Nat} {tops copies : List (VenueId × TopOfBook)}

theorem quote_moved (policy : CrossPolicy) (touch : Touch) (venue : VenueId) {top copy : TopOfBook}
    (h : TopMoved a b top copy) :
    Touch.quote policy touch (venue, copy) = Touch.quote policy touch (venue, top) := by
  obtain ⟨bid, ask, state, age⟩ := h
  obtain ⟨bid₁, ask₁, state₁, age₁⟩ := top
  obtain ⟨bid₂, ask₂, state₂, age₂⟩ := copy
  cases bid
  cases ask
  cases age
  cases state <;> rfl

/-- Moved tops consolidate alike. -/
theorem crossView_moved (arith : TouchArith) (policy : CrossPolicy) (clock : String)
    (h : List.Forall₂ (fun p q => q.1 = p.1 ∧ TopMoved a b p.2 q.2) tops copies) :
    crossView arith copies policy clock = crossView arith tops policy clock := by
  have folded : ∀ touch : Touch, copies.foldl (Touch.quote policy) touch =
      tops.foldl (Touch.quote policy) touch := by
    induction h with
    | nil => exact fun _ => rfl
    | @cons p q _ _ first _ ih =>
      intro touch
      obtain ⟨venue, moved⟩ := first
      have same : q = (p.1, q.2) := Prod.ext venue rfl
      rw [List.foldl_cons, List.foldl_cons, same, quote_moved policy touch p.1 moved, ih]
  rw [crossView, crossView, consolidate, consolidate, folded]

end Touches

/-- Two publishers at two instants, with alike streams and one way of publishing. -/
structure Shadows {σ : Type u} (a b : Nat) (p q : Publisher σ) : Prop where
  streams : ∀ x, Option.Rel (Alike a b) (p.agg.streams.find? x) (q.agg.streams.find? x)
  anchored : ∀ x s, p.agg.streams.find? x = some s → Anchored s
  anchored' : ∀ x s, q.agg.streams.find? x = some s → Anchored s
  seq : q.seq = p.seq
  depth : q.depthLevels = p.depthLevels
  policy : q.crossPolicy = p.crossPolicy

inductive TurnMoved (a b : Nat) : Turn → Turn → Prop
  | apply {message copied : IngestMessage} (same : MessageMoved a b message copied) :
    TurnMoved a b (.apply message) (.apply copied)
  | publish (owned : Option (List StreamId)) {now later : IngestTime} (at_ : Moved a b now later) :
    TurnMoved a b (.publish owned now) (.publish owned later)

/-- Two snapshots that differ at most in the wall clock. -/
def SameShown {κ ρ : Type} (live replay : Snapshot κ ρ) : Prop :=
  { replay with wallUnixMs := live.wallUnixMs } = live

section Publishing

variable {σ : Type u} {κ ρ : Type} {v : VenueSync σ} {arith : TouchArith} {a b : Nat}
  {p q : Publisher σ} {now later : IngestTime} {x : StreamId}
  {s t : VenueState σ RollingWindows}

theorem StateMoved.status {before after : BookState} (h : StateMoved a b before after) :
    statusOf after = statusOf before := by
  cases h <;> rfl

theorem StateMoved.integrity {before after : BookState} (h : StateMoved a b before after) :
    integrityOf after = integrityOf before := by
  cases h <;> rfl

theorem StateMoved.reason {before after : BookState} (h : StateMoved a b before after) :
    desyncReasonOf after = desyncReasonOf before := by
  cases h <;> rfl

theorem lastVerified_moved {before after : BookState} (h : StateMoved a b before after)
    (at_ : Moved a b now later) :
    (lastVerifiedOf after).map (fun verified => millis (later.since verified)) =
      (lastVerifiedOf before).map (fun verified => millis (now.since verified)) := by
  cases h with
  | uninitialized => rfl
  | desynced began => rfl
  | live began hashed => cases hashed with
    | none => rfl
    | some moved => exact congrArg (fun age => some (millis age)) (at_.since moved)

theorem lastTrade_moved {trade copy : Option (Price × Qty × Option Side × IngestTime)}
    (h : Option.Rel (TradeMoved a b) trade copy) (at_ : Moved a b now later) :
    copy.map (fun trade => (⟨trade.1.decimal.toString, trade.2.1.decimal.toString, trade.2.2.1,
        millis (later.since trade.2.2.2)⟩ : TradeView)) =
      trade.map (fun trade => ⟨trade.1.decimal.toString, trade.2.1.decimal.toString, trade.2.2.1,
        millis (now.since trade.2.2.2)⟩) := by
  cases h with
  | none => rfl
  | some moved =>
    simp only [Option.map_some, moved.price, moved.qty, moved.takerSide, at_.since moved.instant]

/-- Every field of a view counts from the instant it is taken at. -/
theorem venueView_moved (h : Alike a b s t) (at_ : Moved a b now later) (depth : Nat)
    (readings : StreamId → κ × ρ) :
    venueView arith depth later readings (x, t) = venueView arith depth now readings (x, s) := by
  have top := topOfBook_moved h.book.book at_
  have spread : spread arith (t.book.book.topOfBook later) =
      spread arith (s.book.book.topOfBook now) := by
    rw [NodeSnapshots.spread, NodeSnapshots.spread, top.bid, top.ask]
  have mid : mid arith (t.book.book.topOfBook later) = mid arith (s.book.book.topOfBook now) := by
    rw [NodeSnapshots.mid, NodeSnapshots.mid, top.bid, top.ask]
  have total : desyncedTotal t later = desyncedTotal s now := total_moved h.total h.since at_
  have windows := (h.figures.windows.read at_).1
  have since := at_.since h.status
  have verified := lastVerified_moved top.state at_
  have trade := lastTrade_moved h.figures.lastTrade at_
  simp only [venueView, spread, mid, total, windows, since, verified, trade, top.bid, top.ask,
    top.age, top.state.integrity, top.state.reason, h.book.book.levels, h.book.trail,
    h.book.book.state.status]

theorem published_moved (h : Shadows a b p q) (owned : Option (List StreamId)) :
    List.Forall₂ (fun e f => e.1 = f.1 ∧ Alike a b e.2 f.2) (p.published owned)
      (q.published owned) := by
  refine List.rel_filter ?_ (OrderedMap.forall₂_of_find? h.streams)
  rintro e f ⟨same, -⟩
  exact iff_of_eq (congrArg (fun x => publishes owned x = true) same)

/-- Related lists have equal images under functions that agree on related members. -/
theorem map_moved {A : Type*} {B : Type*} {C : Type*} {R : A → B → Prop} {f : A → C} {g : B → C}
    {l : List A} {r : List B} (agree : ∀ x y, R x y → g y = f x) (h : List.Forall₂ R l r) :
    r.map g = l.map f := by
  induction h with
  | nil => rfl
  | cons first _ ih => exact congrArg₂ List.cons (agree _ _ first) ih

theorem bySymbol_moved (h : Shadows a b p q) (at_ : Moved a b now later)
    (owned : Option (List StreamId)) (readings : StreamId → κ × ρ) :
    q.bySymbol arith owned later readings = p.bySymbol arith owned now readings := by
  refine congrArg OrderedMap.grouped (map_moved ?_ (published_moved h owned))
  rintro ⟨x, s⟩ ⟨y, t⟩ ⟨rfl, alike⟩
  rw [h.depth, venueView_moved alike at_]

theorem tops_moved (h : Shadows a b p q) (at_ : Moved a b now later)
    (owned : Option (List StreamId)) (symbol : Symbol) :
    List.Forall₂ (fun top copy => copy.1 = top.1 ∧ TopMoved a b top.2 copy.2)
      (((p.tops owned now).find? symbol).getD [])
      (((q.tops owned later).find? symbol).getD []) := by
  rw [Publisher.tops, Publisher.tops, OrderedMap.getD_grouped_map, OrderedMap.getD_grouped_map,
    List.forall₂_map_left_iff, List.forall₂_map_right_iff]
  have published := published_moved h owned
  have own : List.Forall₂ (fun e f => e.1 = f.1 ∧ Alike a b e.2 f.2)
      ((p.published owned).filter (fun e => e.1.symbol = symbol))
      ((q.published owned).filter (fun e => e.1.symbol = symbol)) := by
    refine List.rel_filter ?_ published
    rintro e f ⟨same, -⟩
    exact iff_of_eq (congrArg (fun x : StreamId => decide (x.symbol = symbol) = true) same)
  refine own.imp ?_
  rintro e f ⟨same, alike⟩
  exact ⟨congrArg StreamId.venue same.symm, topOfBook_moved alike.book.book at_⟩

/-- A snapshot at either instant shows the same, but for the wall clock. -/
theorem snapshot_moved (h : Shadows a b p q) (at_ : Moved a b now later)
    (owned : Option (List StreamId)) (readings : StreamId → κ × ρ) (channel : ChannelMetrics) :
    SameShown (p.snapshot arith owned now readings channel).1
      (q.snapshot arith owned later readings channel).1 := by
  have symbols : (q.bySymbol arith owned later readings).entries.map
        (symbolView arith q.crossPolicy (q.tops owned later)) =
      (p.bySymbol arith owned now readings).entries.map
        (symbolView arith p.crossPolicy (p.tops owned now)) := by
    rw [bySymbol_moved h at_, h.policy]
    refine List.map_congr_left fun entry _ => ?_
    rw [symbolView, symbolView, crossView_moved arith _ _ (tops_moved h at_ owned entry.1)]
  rw [SameShown, Publisher.snapshot, Publisher.snapshot, symbols, h.seq]

theorem anchored_new {specs : List (VenueSpec σ)} {windows : RollingWindows} {sink : Bool}
    (found : (Aggregator.new v specs windows now sink).streams.find? x = some s) : Anchored s := by
  obtain ⟨spec, -, -, rfl⟩ := find?_new found
  intro since began
  rw [new_state] at began
  cases began

theorem shadows_start (specs : List (VenueSpec σ)) (windows : WindowSpec) (sink sink' : Bool)
    (depth : Nat) (policy : CrossPolicy) (at_ : Moved a b now later) :
    Shadows a b (start v specs windows now sink depth policy)
      (start v specs windows later sink' depth policy) := by
  refine ⟨fun x => ?_, fun _ _ found => anchored_new found, fun _ _ found => anchored_new found,
    rfl, rfl, rfl⟩
  refine OrderedMap.rel_ofList specs (fun spec => spec.stream v) (fun spec => ?_) x
  have fresh : BookMoved a b (Book.new (v.venue spec.sync) spec.symbol)
      (Book.new (v.venue spec.sync) spec.symbol) := ⟨rfl, rfl, .uninitialized, .none⟩
  refine ⟨?_, rfl, .none, at_, ⟨rfl, rfl, at_, at_, rfl⟩, .none⟩
  cases depth : spec.maxDepth with
  | none => exact ⟨rfl, rfl, rfl, fresh⟩
  | some most => exact ⟨rfl, rfl, rfl, rfl, rfl, .uninitialized, .none⟩

theorem anchored_apply {agg : Aggregator σ RollingWindows} {arith : DecimalArith}
    {message : IngestMessage} (anchored : ∀ x s, agg.streams.find? x = some s → Anchored s)
    (found : (apply v arith windowOps agg message).1.streams.find? x = some s) : Anchored s := by
  rw [apply_find] at found
  split_ifs at found
  · obtain ⟨was, own, rfl⟩ := Option.map_eq_some_iff.mp found
    exact (anchored x was own).applyToStream
  · exact anchored x s found

theorem anchored_advance {owned : Option (List StreamId)}
    (anchored : ∀ x s, p.agg.streams.find? x = some s → Anchored s)
    (found : (p.advance owned now).agg.streams.find? x = some s) : Anchored s := by
  rw [Publisher.advance, OrderedMap.find?_mapValues] at found
  obtain ⟨was, own, rfl⟩ := Option.map_eq_some_iff.mp found
  have kept := anchored x was own
  split
  · exact kept
  · exact kept

theorem rel_map {A : Type*} {B : Type*} {C : Type*} {D : Type*} {R : A → B → Prop}
    {S : C → D → Prop} {f : A → C} {g : B → D} {l : Option A} {r : Option B} (h : Option.Rel R l r)
    (image : ∀ x y, l = some x → r = some y → R x y → S (f x) (g y)) :
    Option.Rel S (l.map f) (r.map g) := by
  cases h with
  | none => exact .none
  | some related => exact .some (image _ _ rfl rfl related)

/-- One turn keeps two publishers in step. -/
theorem Shadows.step (arith : DecimalArith) (timeless : Timeless v) (h : Shadows a b p q)
    {turn other : Turn} (same : TurnMoved a b turn other) :
    Shadows a b (step v arith p turn) (step v arith q other) := by
  cases same with
  | @apply message copied same =>
    refine ⟨fun x => ?_, fun _ _ found => anchored_apply h.anchored found,
      fun _ _ found => anchored_apply h.anchored' found, h.seq, h.depth, h.policy⟩
    rw [NodeSnapshots.step, NodeSnapshots.step]
    dsimp only
    rw [apply_find, apply_find, same.stream]
    split_ifs
    · exact rel_map (h.streams x) fun s t was is_ alike =>
        alike.applyToStream timeless same (h.anchored x s was) (h.anchored' x t is_)
    · exact h.streams x
  | publish owned at_ =>
    refine ⟨fun x => ?_, fun _ _ found => anchored_advance h.anchored found,
      fun _ _ found => anchored_advance h.anchored' found, congrArg (· + 1) h.seq, h.depth,
      h.policy⟩
    rw [NodeSnapshots.step, NodeSnapshots.step, Publisher.advance, Publisher.advance]
    dsimp only
    rw [OrderedMap.find?_mapValues, OrderedMap.find?_mapValues]
    refine rel_map (h.streams x) fun s t _ _ alike => ?_
    split_ifs
    · have read := (alike.figures.windows.read at_).2
      exact ⟨alike.book, alike.total, alike.since, alike.status, ⟨read, alike.figures.lastTrade⟩⟩
    · exact alike

/-- What a run publishes. The shared figures of every snapshot are given by its number. -/
def shots (v : VenueSync σ) (arith : TouchArith) (readings : Nat → StreamId → κ × ρ)
    (channel : Nat → ChannelMetrics) : Publisher σ → List Turn → List (Snapshot κ ρ)
  | _, [] => []
  | p, turn :: turns =>
    let rest := shots v arith readings channel (step v arith.toDecimalArith p turn) turns
    match turn with
    | .apply _ => rest
    | .publish owned now => (p.snapshot arith owned now (readings p.seq) (channel p.seq)).1 :: rest

theorem shots_moved (timeless : Timeless v) {turns others : List Turn}
    {readings : Nat → StreamId → κ × ρ} {channel : Nat → ChannelMetrics}
    (same : List.Forall₂ (TurnMoved a b) turns others) (h : Shadows a b p q) :
    List.Forall₂ SameShown (shots v arith readings channel p turns)
      (shots v arith readings channel q others) := by
  induction same generalizing p q with
  | nil => exact .nil
  | @cons turn other _ _ first _ ih =>
    have rest := ih (h.step arith.toDecimalArith timeless first)
    cases first with
    | apply message => exact rest
    | publish owned at_ =>
      refine .cons ?_ rest
      rw [h.seq]
      exact snapshot_moved h at_ owned _ _

end Publishing

/-- The messages of a run, in the order of their application. -/
def messagesOf (turns : List Turn) : List IngestMessage :=
  turns.filterMap fun turn => match turn with
    | .apply message => some message
    | .publish _ _ => none

def instantOf : Turn → IngestTime
  | .apply message => stamp message
  | .publish _ now => now

/-- A turn of the replay: the message as the tape tells it, or a tick as far from the start. -/
def retoldTurn (start base : IngestTime) : Turn → Turn
  | .apply message => .apply (retold start base message)
  | .publish owned now => .publish owned (advancedBy base (now.since start))

section Replays

variable {σ : Type u} {κ ρ : Type} {v : VenueSync σ} {start base : IngestTime} {turn : Turn}
  {turns : List Turn}

/-- Offsets of at most 64 bits are kept by a tape. -/
theorem advancedBy_moved {now : IngestTime} (past : start.mono ≤ now.mono)
    (placed : now.mono ≤ start.mono + u64Max) :
    Moved start.mono base.mono now (advancedBy base (min (now.since start) u64Max)) := by
  have near : min (now.since start) u64Max = now.mono - start.mono := by
    rw [IngestTime.since]
    omega
  have later : (advancedBy base (now.mono - start.mono)).mono =
      base.mono + (now.mono - start.mono) := rfl
  rw [Moved, near, later]
  omega

theorem retold_moved {message : IngestMessage} (recordable : Recordable message)
    (past : start.mono ≤ (stamp message).mono)
    (placed : (stamp message).mono ≤ start.mono + u64Max) :
    MessageMoved start.mono base.mono message (retold start base message) := by
  cases recordable with
  | frame stream text at_ source => exact .frame _ (advancedBy_moved past placed)
  | sessionEnded stream at_ ending =>
    exact .sessionEnded stream (advancedBy_moved past placed) ending .closed

theorem retoldTurn_moved (recordable : ∀ m ∈ messagesOf [turn], Recordable m)
    (past : start.mono ≤ (instantOf turn).mono)
    (placed : (instantOf turn).mono ≤ start.mono + u64Max) :
    TurnMoved start.mono base.mono turn (retoldTurn start base turn) := by
  cases turn with
  | apply message =>
    exact .apply (retold_moved (recordable message (List.mem_singleton.mpr rfl)) past placed)
  | publish owned now =>
    refine .publish owned ?_
    have later : (advancedBy base (now.since start)).mono = base.mono + (now.mono - start.mono) :=
      rfl
    rw [instantOf] at past
    rw [Moved, later]
    omega

theorem messagesOf_retold :
    messagesOf (turns.map (retoldTurn start base)) =
      (messagesOf turns).map (retold start base) := by
  induction turns with
  | nil => rfl
  | cons turn turns ih => cases turn with
    | apply message => exact congrArg (retold start base message :: ·) ih
    | publish owned now => exact ih

/-- A run that is taped, read back and played from another base shows what it showed, but for the
wall clock. -/
theorem replay_shows (timeless : Timeless v) (arith : TouchArith)
    {parse : List Char → Option TapeLine} (specs : List (VenueSpec σ)) (windows : WindowSpec)
    (sink sink' : Bool) (depth : Nat) (policy : CrossPolicy) {begin begin' : IngestTime}
    (begun : Moved start.mono base.mono begin begin')
    (recordable : ∀ m ∈ messagesOf turns, Recordable m)
    (lossless : ∀ m ∈ messagesOf turns, ∀ record, recordOf start m = some record →
      parse (toJson record.line) = some record.line)
    (placed : ∀ turn ∈ turns, start.mono ≤ (instantOf turn).mono ∧
      (instantOf turn).mono ≤ start.mono + u64Max)
    (fallback : Symbol) (readings : Nat → StreamId → κ × ρ) (channel : Nat → ChannelMetrics) :
    ∃ tape, (TapeWriter.new start).writeAll (messagesOf turns) = .ok tape ∧
      ∃ again : List Turn,
        (readTape parse (tapeText tape.out)).map
            (List.map fun taped => taped.intoMessage base fallback) = some (messagesOf again) ∧
          List.Forall₂ SameShown
            (shots v arith readings channel
              (NodeSnapshots.start v specs windows begin sink depth policy) turns)
            (shots v arith readings channel
              (NodeSnapshots.start v specs windows begin' sink' depth policy) again) := by
  obtain ⟨records, written, from_messages, told⟩ :=
    writeAll_recordable (w := TapeWriter.new start) recordable
  have lines : ∀ l ∈ records.map TapeRecord.line, parse (toJson l) = some l := by
    intro l mem
    obtain ⟨record, on, rfl⟩ := List.mem_map.mp mem
    obtain ⟨m, inside, known⟩ := from_messages record on
    exact lossless m inside record known
  have moved : List.Forall₂ (TurnMoved start.mono base.mono) turns
      (turns.map (retoldTurn start base)) := by
    rw [List.forall₂_map_right_iff, List.forall₂_same]
    intro turn mem
    refine retoldTurn_moved (fun m own => recordable m ?_) (placed turn mem).1 (placed turn mem).2
    obtain ⟨t, on, same⟩ := List.mem_filterMap.mp own
    rw [List.mem_singleton.mp on] at same
    exact List.mem_filterMap.mpr ⟨turn, mem, same⟩
  refine ⟨_, written, turns.map (retoldTurn start base), ?_,
    shots_moved timeless moved (shadows_start specs windows sink sink' depth policy begun)⟩
  change (readTape parse (tapeText (records.map TapeRecord.line))).map _ = _
  rw [readTape_tapeText lines, messagesOf_retold, Option.map_some, List.map_map, List.map_map]
  exact congrArg some (told base fallback)

end Replays

section Sample

open EventReplay KrakenChecksums

def btcUsd : StreamId := ⟨.kraken, ⟨"BTC-USD"⟩⟩

/-- A book that is published live, and again after its session has ended. -/
def sampleTurns : List Turn :=
  [.apply (.frame ⟨btcUsd, .text sampleText, ⟨5, 5⟩, .webSocket⟩), .publish none ⟨9, 9⟩,
    .apply (.sessionEnded btcUsd ⟨20, 20⟩ .idle), .publish none ⟨30, 31⟩]

def sampleSpecs : List (VenueSpec EverySync) :=
  [⟨.market (.kraken (KrakenFeed.KrakenSync.new "BTC/USD")), btcUsd.symbol, some 10⟩]

def sampleShots (begin : IngestTime) (turns : List Turn) : List (Snapshot Nat Nat) :=
  shots (everySync historyWires) TouchArith.idle (fun seq _ => (seq, 0)) (fun _ => ⟨0, 8, 0⟩)
    (NodeSnapshots.start (everySync historyWires) sampleSpecs (.new 1000000 [1000000]) begin false 5
      ⟨7⟩) turns

theorem replay_shows_sample : ∃ tape,
    (TapeWriter.new ⟨0, 0⟩).writeAll (messagesOf sampleTurns) = .ok tape ∧
      ∃ again : List Turn,
        (readTape (parseAmong (messagesOf sampleTurns)) (tapeText tape.out)).map
            (List.map fun taped => taped.intoMessage ⟨100, 0⟩ ⟨"ETH-USD"⟩) =
          some (messagesOf again) ∧
        List.Forall₂ SameShown (sampleShots ⟨3, 3⟩ sampleTurns) (sampleShots ⟨103, 1⟩ again) := by
  have begun : Moved (IngestTime.mk 0 0).mono (IngestTime.mk 100 0).mono ⟨3, 3⟩ ⟨103, 1⟩ := rfl
  refine replay_shows (everySync_timeless historyWires) TouchArith.idle sampleSpecs _ false false 5
    ⟨7⟩ begun ?_ ?_ ?_ ⟨"ETH-USD"⟩ _ _
  · simp only [sampleTurns, messagesOf, List.filterMap_cons, List.filterMap_nil,
      List.forall_mem_cons]
    exact ⟨.frame .., .sessionEnded .., List.forall_mem_nil _⟩
  · simp only [sampleTurns, messagesOf, List.filterMap_cons, List.filterMap_nil,
      List.forall_mem_cons]
    refine ⟨?_, ?_, List.forall_mem_nil _⟩ <;> rintro record ⟨⟩ <;> decide +kernel
  · decide +kernel

end Sample

end ReplayedViews

import MarketAggregator.FakeFeed

/-!
# Replaying the events a book emitted

A book's events are its history. A replay applies them to a fresh book of the same
venue and depth. Snapshots and applied updates are all in the history, so the levels
agree after every event and a trusted book has a trusted replay. What takes trust
away without an event is not in the history: until the next snapshot the replay
believes what the run no longer did.
-/

namespace EventReplay

open AggregatorApply Clocks Decimals DepthAudit FakeFeed GuardedRuns MarketEvents OrderBook
  TrustedReplay VenueBooks VenueStreams

universe u v

/-- A view, and whether it lost its trust by something that no event since tells of. -/
structure Watched where
  view : View
  silent : Bool

section Watch

variable (hash : Levels → Option UInt32) (depth : Option Nat)

def refutes (levels : Levels) (expected : UInt32) : Bool :=
  match hash levels with
  | none => false
  | some computed => computed ≠ expected

/-- What the history keeps of an action. -/
def kept (v : View) : SyncAction → Option SyncAction
  | .ignore => none
  | .desync _ => none
  | .delta bids asks => if v.status = .live then some (.delta bids asks) else none
  | a => some a

def hush (s : Watched) : SyncAction → Bool
  | .snapshot .. => false
  | .desync _ => s.silent || s.view.status = .live
  | .verify expected => s.silent && !refutes hash s.view.levels expected
  | _ => s.silent

def watch (s : Watched) (a : SyncAction) : Watched := ⟨act hash depth s.view a, hush hash s a⟩

/-- While a loss is silent, nothing is recorded but a snapshot or a refuted hash. -/
def Voiced (s : Watched) (a : SyncAction) : Prop :=
  s.silent = true → match a with
    | .forward _ => False
    | .verify expected => refutes hash s.view.levels expected = true
    | _ => True

/-- The replay has the levels of the run, trusts whatever it trusts, and a silent loss is
exactly what it does not know of. -/
structure Trails (s : Watched) (r : View) : Prop where
  levels : r.levels = s.view.levels
  trusted : s.view.status = .live → r.status = .live
  silent : s.silent = true ↔ r.status = .live ∧ s.view.status ≠ .live

end Watch

section Trail

variable {hash : Levels → Option UInt32} {depth : Option Nat} {s : Watched} {r : View}

/-- What an action does to the replay. -/
def echoed (hash : Levels → Option UInt32) (depth : Option Nat) (v r : View) (a : SyncAction) :
    View :=
  ((kept v a).map (act hash depth r)).getD r

theorem not_silent (h : Trails s r) (live : s.view.status = .live) : s.silent = false :=
  Bool.eq_false_of_not_eq_true fun silent => (h.silent.mp silent).2 live

theorem trails_verify (h : Trails s r) (expected : UInt32) :
    Trails (watch hash depth s (.verify expected)) (act hash depth r (.verify expected)) := by
  have same : r.levels = s.view.levels := h.levels
  by_cases live : s.view.status = .live
  · have believed := h.trusted live
    have loud := not_silent h live
    have views : r = s.view := by
      rcases r with ⟨levels, status⟩
      rcases s with ⟨⟨levels', status'⟩, silent⟩
      simp_all
    rw [views]
    exact ⟨rfl, id, by simp [watch, hush, loud]⟩
  · have still : act hash depth s.view (.verify expected) = s.view := by simp [act, live]
    by_cases believed : r.status = .live
    · have silent : s.silent = true := h.silent.mpr ⟨believed, live⟩
      cases hashed : hash s.view.levels with
      | none =>
        have kept : act hash depth r (.verify expected) = r := by
          simp [act, believed, same, hashed]
        exact ⟨by rw [kept, watch, still, same], by simp [watch, still, live],
          by simp [watch, hush, silent, refutes, hashed, kept, believed, still, live]⟩
      | some computed =>
        by_cases equal : computed = expected
        · have kept : act hash depth r (.verify expected) = r := by
            simp [act, believed, same, hashed, equal]
          constructor
          · rw [kept, watch, still, same]
          · simp [watch, still, live]
          · simp [watch, hush, silent, refutes, hashed, equal, kept, believed, still, live]
        · have lost : act hash depth r (.verify expected) =
              { r with status := .down (.checksumMismatch expected computed) } := by
            simp [act, believed, same, hashed, equal]
          constructor
          · rw [lost, watch, still, same]
          · simp [watch, still, live]
          · simp [watch, hush, refutes, hashed, equal, lost]
    · have loud : s.silent = false :=
        Bool.eq_false_of_not_eq_true fun silent => believed (h.silent.mp silent).1
      have kept : act hash depth r (.verify expected) = r := by simp [act, believed]
      constructor
      · rw [kept, watch, still, same]
      · simp [watch, still, live]
      · simp [watch, hush, loud, kept, believed]

variable (hash depth) in
theorem trails_watch (h : Trails s r) (a : SyncAction) :
    Trails (watch hash depth s a) (echoed hash depth s.view r a) := by
  cases a with
  | ignore => exact h
  | forward kind => exact h
  | verify expected => exact trails_verify h expected
  | snapshot bids asks => exact ⟨rfl, id, by simp [watch, hush, echoed, kept, act]⟩
  | desync reason =>
    constructor
    · exact h.levels
    · exact (fun live => by cases live)
    · have trusted := h.trusted
      have silent := h.silent
      by_cases live : s.view.status = .live
      · simp [watch, hush, act, echoed, kept, live, trusted live]
      · simp only [watch, hush, act, echoed, kept, live]
        simp [silent, live]
  | delta bids asks =>
    by_cases live : s.view.status = .live
    · have views : r = s.view := by
        have levels := h.levels
        have believed := h.trusted live
        rcases r with ⟨levels, status⟩
        rcases s with ⟨⟨levels', status'⟩, silent⟩
        simp_all
      have loud := not_silent h live
      rw [views]
      refine ⟨by simp [watch, echoed, kept, live], ?_, ?_⟩
      · simp [watch, echoed, kept, live]
      · simp [watch, hush, loud, echoed, kept, live]
    · have still : act hash depth s.view (.delta bids asks) = s.view := by simp [act, live]
      simpa [watch, hush, echoed, kept, live, still] using h

variable (depth) in
/-- A recorded action leaves the replay knowing of the loss exactly when it is voiced. -/
theorem voiced_iff (h : Trails s r) {a e : SyncAction} (recorded : kept s.view a = some e) :
    Voiced hash s a ↔ ((act hash depth r e).status = .live →
      (act hash depth s.view a).status = .live) := by
  have after := (trails_watch hash depth h a).silent
  simp only [echoed, recorded, Option.map_some, Option.getD_some, watch] at after
  have meaning : ((act hash depth r e).status = .live →
      (act hash depth s.view a).status = .live) ↔ hush hash s a = false := by
    rw [← Bool.not_eq_true, after]
    simp
  rw [meaning]
  cases a with
  | ignore => cases recorded
  | desync reason => cases recorded
  | forward kind => cases silent : s.silent <;> simp [Voiced, hush, silent]
  | snapshot bids asks => simp [Voiced, hush]
  | verify expected =>
    cases silent : s.silent <;>
      cases refutes hash s.view.levels expected <;> simp_all [Voiced, hush]
  | delta bids asks =>
    have live : s.view.status = .live := by
      by_contra down
      simp [kept, down] at recorded
    simp [Voiced, hush, not_silent h live]

/-- An action that leaves no event is no matter for the history. -/
theorem voiced_of_dropped {a : SyncAction} (dropped : kept s.view a = none) : Voiced hash s a := by
  intro silent
  cases a with
  | forward kind => cases dropped
  | verify expected => cases dropped
  | _ => trivial

end Trail

/-- What can be done to a book from outside. -/
inductive Input where
  | feed (frame : RawFrame)
  | audit (snapshot : RestSnapshot) (now : IngestTime)
  | reset (now : IngestTime)

/-- What an input tells the book, and the sync that it leaves. -/
structure Told (σ : Type u) where
  sync : σ
  ingested : Ingested
  now : IngestTime

section Model

variable {σ : Type u} (v : VenueSync σ) (arith : DecimalArith) (stamp : MarketEvent → IngestTime)

def receive (vb : VenueBook σ) : Input → List Outcome × VenueBook σ
  | .feed frame =>
    let fed := vb.feed v arith frame
    match fed.1 with
    | .error _ => ([], fed.2)
    | .ok outcomes => (outcomes, fed.2)
  | .audit snapshot now => vb.audit arith snapshot now
  | .reset now => ([], vb.reset v now)

/-- A finding desyncs a live book. -/
def findings (vb : VenueBook σ) (snapshot : RestSnapshot) : List SyncAction :=
  if vb.book.state.isLive then
    let outcome := DepthAudit.audit arith vb.book.levels snapshot.bids snapshot.asks vb.auditPolicy
    ((vb.auditTrail.observe outcome vb.auditPolicy).1.map SyncAction.desync).toList
  else []

def told (vb : VenueBook σ) : Input → Told σ
  | .feed frame => match frame.source with
    | .webSocket => match v.ingest vb.sync frame with
      | (.error _, sync) => ⟨sync, .untimed [], frame.ingestTs⟩
      | (.ok ingested, sync) => ⟨sync, ingested, frame.ingestTs⟩
    | .restSnapshot => match frame.asStr.bind (v.parseRestSnapshot vb.sync) with
      | .error _ => ⟨vb.sync, .untimed [], frame.ingestTs⟩
      | .ok snapshot =>
        let spliced := v.applyRestSnapshot vb.sync snapshot
        ⟨spliced.2, .untimed spliced.1, frame.ingestTs⟩
    | .restAudit => match frame.asStr.bind (v.parseRestSnapshot vb.sync) with
      | .error _ => ⟨vb.sync, .untimed [], frame.ingestTs⟩
      | .ok snapshot => ⟨vb.sync, .untimed (findings arith vb snapshot), frame.ingestTs⟩
  | .audit snapshot now => ⟨vb.sync, .untimed (findings arith vb snapshot), now⟩
  | .reset now => ⟨v.reset vb.sync, .untimed [.desync .connectionLost], now⟩

/-- The events of some actions, each with the book right after it was applied. -/
def trail (hash : Levels → Option UInt32) (integrity : Integrity) (now : IngestTime)
    (name : EventKind → MarketEvent) (book : Book) : List SyncAction → List (MarketEvent × Book)
  | [] => []
  | action :: actions =>
    let applied := applyAction hash integrity now book action
    (applied.2.map (fun kind => (name kind, applied.1))).toList ++
      trail hash integrity now name applied.1 actions

def emitted (vb : VenueBook σ) (input : Input) : List (MarketEvent × Book) :=
  let t := told v arith vb input
  trail (v.checksum t.sync) (v.integrity t.sync) t.now
    (fun kind => ⟨vb.book.venue, vb.book.symbol, t.ingested.venueTs, t.now, kind⟩) vb.book
    t.ingested.actions

/-- One event of the history applied to the replay. -/
def echo (vb : VenueBook σ) (e : MarketEvent × Book) : VenueBook σ :=
  (vb.applyEvent v e.1 (stamp e.1)).2

/-- A book, the replay of its events, and whether the book lost its trust silently. -/
structure Mirror (σ : Type u) where
  original : VenueBook σ
  replayed : VenueBook σ
  silent : Bool

def Mirror.watched (m : Mirror σ) : Watched := ⟨viewOf m.original.book, m.silent⟩

def replayAll (vb : VenueBook σ) (events : List MarketEvent) : VenueBook σ :=
  events.foldl (fun vb event => (vb.applyEvent v event (stamp event)).2) vb

def Mirror.step (m : Mirror σ) (input : Input) : Mirror σ :=
  let received := receive v arith m.original input
  let t := told v arith m.original input
  { original := received.2
    replayed := replayAll v stamp m.replayed (outcomeEvents received.1)
    silent := (exec (watch (v.checksum t.sync) m.original.book.maxDepth) m.watched
      t.ingested.actions).silent }

def fresh (sync : σ) (symbol : Symbol) (depth : Option Nat) (policy : AuditPolicy) :
    VenueBook σ :=
  let vb := (VenueBook.new v sync symbol).withAuditPolicy policy
  match depth with
  | none => vb
  | some depth => vb.withMaxDepth depth

def start (sync : σ) (symbol : Symbol) (depth : Option Nat) (policy : AuditPolicy) : Mirror σ where
  original := fresh v sync symbol depth policy
  replayed := fresh v sync symbol depth policy
  silent := false

end Model

section Told

variable {σ : Type u} {v : VenueSync σ} {arith : DecimalArith} {vb : VenueBook σ}

theorem outcomeEvents_append (outcomes more : List Outcome) :
    outcomeEvents (outcomes ++ more) = outcomeEvents outcomes ++ outcomeEvents more := by
  induction outcomes with
  | nil => rfl
  | cons outcome outcomes ih => cases outcome <;> simp [outcomeEvents, ih]

theorem outcomeEvents_map (events : List MarketEvent) :
    outcomeEvents (events.map Outcome.event) = events := by
  induction events with
  | nil => rfl
  | cons event events ih => simp [outcomeEvents, ih]

@[simp] theorem outcomeEvents_changed {before after : BookState} :
    outcomeEvents (if before.sameAs after then [] else [.stateChanged before after]) = [] := by
  split <;> rfl

theorem trail_events (hash : Levels → Option UInt32) (integrity : Integrity) (now : IngestTime)
    (name : EventKind → MarketEvent) (book : Book) (actions : List SyncAction) :
    (trail hash integrity now name book actions).map Prod.fst =
      (applyActions hash integrity now book actions).2.map name := by
  induction actions generalizing book with
  | nil => rfl
  | cons a actions ih =>
    simp only [trail, applyActions, List.map_append, ih]
    cases (applyAction hash integrity now book a).2 <;> rfl

theorem applyIngested_events (vb : VenueBook σ) (ingested : Ingested) (now : IngestTime) :
    outcomeEvents (vb.applyIngested v ingested now).1 =
      (applyActions (v.checksum vb.sync) (v.integrity vb.sync) now vb.book
        ingested.actions).2.map
          (fun kind => ⟨vb.book.venue, vb.book.symbol, ingested.venueTs, now, kind⟩) := by
  simp only [VenueBook.applyIngested, outcomeEvents_append]
  have events := outcomeEvents_map ((applyActions (v.checksum vb.sync) (v.integrity vb.sync) now
    vb.book ingested.actions).2.map
      (fun kind => ⟨vb.book.venue, vb.book.symbol, ingested.venueTs, now, kind⟩))
  rw [List.map_map] at events
  exact (congrArg₂ (· ++ ·) events outcomeEvents_changed).trans (List.append_nil _)

/-- The outcome of an input is that of the actions it tells the book. -/
structure Follows (v : VenueSync σ) (vb : VenueBook σ) (t : Told σ)
    (received : List Outcome × VenueBook σ) : Prop where
  sync : received.2.sync = t.sync
  book : received.2.book = (applyActions (v.checksum t.sync) (v.integrity t.sync) t.now vb.book
    t.ingested.actions).1
  events : outcomeEvents received.1 = (applyActions (v.checksum t.sync) (v.integrity t.sync) t.now
    vb.book t.ingested.actions).2.map
      (fun kind => ⟨vb.book.venue, vb.book.symbol, t.ingested.venueTs, t.now, kind⟩)

theorem follows_applyIngested (vb : VenueBook σ) (sync : σ) (ingested : Ingested)
    (now : IngestTime) : Follows v vb ⟨sync, ingested, now⟩
      (VenueBook.applyIngested v { vb with sync := sync } ingested now) :=
  ⟨rfl, rfl, applyIngested_events { vb with sync := sync } ingested now⟩

theorem follows_audit (vb : VenueBook σ) (snapshot : RestSnapshot) (now : IngestTime) :
    Follows v vb ⟨vb.sync, .untimed (findings arith vb snapshot), now⟩
      (vb.audit arith snapshot now) := by
  simp only [VenueBook.audit, findings]
  by_cases live : vb.book.state.isLive = true
  · rw [if_pos live, if_pos live]
    cases observed : (vb.auditTrail.observe (DepthAudit.audit arith vb.book.levels snapshot.bids
      snapshot.asks vb.auditPolicy) vb.auditPolicy).1 with
    | none => exact ⟨rfl, rfl, outcomeEvents_changed⟩
    | some reason => exact ⟨rfl, rfl, outcomeEvents_changed⟩
  · rw [if_neg live, if_neg live]
    exact ⟨rfl, rfl, rfl⟩

variable (v arith) in
theorem follows_receive (vb : VenueBook σ) (input : Input) :
    Follows v vb (told v arith vb input) (receive v arith vb input) := by
  cases input with
  | reset now => exact ⟨rfl, rfl, rfl⟩
  | audit snapshot now => exact follows_audit vb snapshot now
  | feed frame =>
    simp only [receive, VenueBook.feed, told]
    cases frame.source with
    | webSocket =>
      cases read : v.ingest vb.sync frame with
      | mk result sync =>
        cases result with
        | error e => exact ⟨rfl, rfl, rfl⟩
        | ok ingested => exact follows_applyIngested vb sync ingested frame.ingestTs
    | restSnapshot =>
      cases frame.asStr.bind (v.parseRestSnapshot vb.sync) with
      | error e => exact ⟨rfl, rfl, rfl⟩
      | ok snapshot => exact follows_applyIngested vb _ _ frame.ingestTs
    | restAudit =>
      cases frame.asStr.bind (v.parseRestSnapshot vb.sync) with
      | error e => exact ⟨rfl, rfl, rfl⟩
      | ok snapshot => exact follows_audit vb snapshot frame.ingestTs

end Told

section Mirrors

variable {σ : Type u} {v : VenueSync σ} {stamp : MarketEvent → IngestTime}
  {hash : Levels → Option UInt32} {integrity : Integrity} {now : IngestTime}
  {name : EventKind → MarketEvent} {book : Book} {silent : Bool} {r : VenueBook σ}

/-- A live book has the integrity of its venue. -/
def Rated (integrity : Integrity) (b : Book) : Prop :=
  ∀ i since verified, b.state = .live i since verified → i = integrity

/-- The replay follows a book whose venue claims this integrity and hashes this way. -/
structure Mirrors (v : VenueSync σ) (hash : Levels → Option UInt32) (integrity : Integrity)
    (book : Book) (silent : Bool) (r : VenueBook σ) : Prop where
  hashes : v.checksum r.sync = hash
  claims : v.integrity r.sync = integrity
  depth : r.book.maxDepth = book.maxDepth
  trails : Trails ⟨viewOf book, silent⟩ (viewOf r.book)
  rated : Rated integrity book
  replayRated : Rated integrity r.book

theorem rated_guardCrossed {b : Book} (h : Rated integrity b) :
    Rated integrity (b.guardCrossed now).2 := by
  intro i since verified live
  rw [guardCrossed_state] at live
  split at live
  · exact h i since verified live
  · cases live

theorem rated_applyAction {b : Book} (h : Rated integrity b) (a : SyncAction) :
    Rated integrity (applyAction hash integrity now b a).1 := by
  cases a with
  | ignore => exact h
  | forward kind => exact h
  | desync reason => exact fun _ _ _ live => by cases live
  | snapshot bids asks =>
    refine rated_guardCrossed fun i since verified live => ?_
    cases live
    rfl
  | delta bids asks =>
    rw [applyAction_delta, Book.applyDelta]
    split
    · exact rated_guardCrossed h
    · exact h
  | verify expected =>
    simp only [applyAction, verify]
    split
    · split
      · exact h
      · split
        · intro i since verified live
          simp only [Book.markVerified] at live
          split at live
          · rename_i was
            cases live
            exact h _ _ _ was
          · exact h i since verified live
        · exact fun _ _ _ live => by cases live
    · exact h

variable (hash integrity now book) in
/-- The event of an action is what the history keeps of it. -/
theorem kept_viewOf {a : SyncAction} (plain : forwardsPlain a = true) :
    kept (viewOf book) a =
      (applyAction hash integrity now book a).2.map VenueBook.eventAction := by
  cases a with
  | ignore => rfl
  | desync reason => rfl
  | snapshot bids asks => rfl
  | verify expected => rfl
  | forward kind => cases kind <;> first | rfl | cases plain
  | delta bids asks =>
    cases live : book.state.isLive with
    | true =>
      have done := (applyDelta_live bids asks now live).1
      simp only [applyAction, kept, viewOf, statusOf_live.mpr live, if_true]
      rcases applied : book.applyDelta bids asks now with ⟨_ | _, after⟩
      · rw [applied] at done
        cases done
      · rfl
    | false => simp [kept, viewOf, live, applyAction, applyDelta_down live]

variable (stamp) in
theorem echo_book (h : Mirrors v hash integrity book silent r) (e : MarketEvent × Book) :
    (echo v stamp r e).book = (applyAction hash integrity (stamp e.1) r.book
      (VenueBook.eventAction e.1.kind)).1 := by
  rw [← h.hashes, ← h.claims]
  rfl

variable (stamp now) in
theorem mirrors_echo (named : ∀ kind, (name kind).kind = kind) {a : SyncAction}
    (plain : forwardsPlain a = true) (h : Mirrors v hash integrity book silent r) :
    Mirrors v hash integrity (applyAction hash integrity now book a).1
      (hush hash ⟨viewOf book, silent⟩ a)
      ((trail hash integrity now name book [a]).foldl (echo v stamp) r) := by
  have step := trails_watch hash book.maxDepth h.trails a
  rw [echoed, kept_viewOf hash integrity now book plain, watch,
    ← view_applyAction integrity now] at step
  cases recorded : (applyAction hash integrity now book a).2 with
  | none =>
    rw [recorded] at step
    have still : (trail hash integrity now name book [a]).foldl (echo v stamp) r = r := by
      simp [trail, recorded]
    rw [still]
    exact ⟨h.hashes, h.claims, by simp [h.depth], step, rated_applyAction h.rated a, h.replayRated⟩
  | some kind =>
    rw [recorded] at step
    have next : (trail hash integrity now name book [a]).foldl (echo v stamp) r =
        echo v stamp r (name kind, (applyAction hash integrity now book a).1) := by
      simp [trail, recorded]
    have moved := echo_book stamp h
      (name kind, (applyAction hash integrity now book a).1)
    rw [named] at moved
    rw [next]
    refine ⟨h.hashes, h.claims, ?_, ?_, rated_applyAction h.rated a, ?_⟩
    · simp [moved, h.depth]
    · have view : viewOf (echo v stamp r
          (name kind, (applyAction hash integrity now book a).1)).book =
            act hash book.maxDepth (viewOf r.book) (VenueBook.eventAction kind) := by
        rw [moved, view_applyAction, h.depth]
      rw [view]
      exact step
    · rw [moved]
      exact rated_applyAction h.replayRated _

/-- What the history shows of a book it is replayed for. -/
def SameLevels (v : VenueSync σ) (stamp : MarketEvent → IngestTime) (r : VenueBook σ)
    (e : MarketEvent × Book) : Prop :=
  (VenueBook.eventAction e.1.kind).isBook = true →
    (echo v stamp r e).book.levels = e.2.levels

def NoMoreTrust (v : VenueSync σ) (stamp : MarketEvent → IngestTime) (r : VenueBook σ)
    (e : MarketEvent × Book) : Prop :=
  (echo v stamp r e).book.state.isLive = true → e.2.state.isLive = true

theorem trail_cons (a : SyncAction) (actions : List SyncAction) :
    trail hash integrity now name book (a :: actions) =
      trail hash integrity now name book [a] ++
        trail hash integrity now name (applyAction hash integrity now book a).1 actions := by
  simp [trail]

variable (stamp now) in
/-- After all actions of an input the replay still follows the book. -/
theorem mirrors_trail (named : ∀ kind, (name kind).kind = kind) {actions : List SyncAction}
    (plain : ∀ a ∈ actions, forwardsPlain a = true) (h : Mirrors v hash integrity book silent r) :
    Mirrors v hash integrity (applyActions hash integrity now book actions).1
      (exec (watch hash book.maxDepth) ⟨viewOf book, silent⟩ actions).silent
      (exec (echo v stamp) r (trail hash integrity now name book actions)) := by
  induction actions generalizing book silent r with
  | nil => exact h
  | cons a actions ih =>
    have next := mirrors_echo stamp now named (plain a List.mem_cons_self) h
    have rest := ih (fun b mem => plain b (List.mem_cons_of_mem _ mem)) next
    rw [trail_cons, exec_append, exec_cons, watch, ← view_applyAction integrity now]
    rw [applyAction_maxDepth] at rest
    exact rest

theorem sameLevels_trail (named : ∀ kind, (name kind).kind = kind) {actions : List SyncAction}
    (plain : ∀ a ∈ actions, forwardsPlain a = true) (h : Mirrors v hash integrity book silent r) :
    Meets (echo v stamp) (SameLevels v stamp) r
      (trail hash integrity now name book actions) := by
  induction actions generalizing book silent r with
  | nil => trivial
  | cons a actions ih =>
    have next := mirrors_echo stamp now named (plain a List.mem_cons_self) h
    rw [trail_cons]
    refine meets_append.mpr ⟨?_, ih (fun b mem => plain b (List.mem_cons_of_mem _ mem)) next⟩
    cases recorded : (applyAction hash integrity now book a).2 with
    | none => simp [trail, recorded, Meets]
    | some kind =>
      have levels := next.trails.levels
      simp only [trail, recorded, Option.map_some, Option.toList_some, List.append_nil,
        List.foldl_cons, List.foldl_nil] at levels ⊢
      exact ⟨fun _ => levels, trivial⟩

theorem noMoreTrust_trail (named : ∀ kind, (name kind).kind = kind) {actions : List SyncAction}
    (plain : ∀ a ∈ actions, forwardsPlain a = true) (h : Mirrors v hash integrity book silent r) :
    Meets (echo v stamp) (NoMoreTrust v stamp) r
        (trail hash integrity now name book actions) ↔
      Meets (watch hash book.maxDepth) (Voiced hash) ⟨viewOf book, silent⟩ actions := by
  induction actions generalizing book silent r with
  | nil => exact Iff.rfl
  | cons a actions ih =>
    have next := mirrors_echo stamp now named (plain a List.mem_cons_self) h
    have rest := ih (fun b mem => plain b (List.mem_cons_of_mem _ mem)) next
    rw [applyAction_maxDepth, view_applyAction] at rest
    rw [trail_cons, meets_append]
    refine and_congr ?_ rest
    have history := kept_viewOf hash integrity now book (plain a List.mem_cons_self)
    cases recorded : (applyAction hash integrity now book a).2 with
    | none =>
      rw [recorded] at history
      exact iff_of_true (by simp [trail, recorded, Meets]) (voiced_of_dropped history)
    | some kind =>
      rw [recorded] at history
      rw [voiced_iff book.maxDepth h.trails history]
      have moved := echo_book stamp h
        (name kind, (applyAction hash integrity now book a).1)
      rw [named] at moved
      simp only [trail, recorded, Option.map_some, Option.toList_some, List.append_nil, Meets,
        and_true, NoMoreTrust, moved, ← statusOf_live]
      have replay : viewOf (applyAction hash integrity (stamp (name kind)) r.book
          (VenueBook.eventAction kind)).1 =
            act hash r.book.maxDepth (viewOf r.book) (VenueBook.eventAction kind) :=
        view_applyAction _ _ _ _
      have run : viewOf (applyAction hash integrity now book a).1 =
          act hash book.maxDepth (viewOf book) a := view_applyAction _ _ _ _
      rw [h.depth] at replay
      rw [← replay, ← run]
      rfl

end Mirrors

section Run

variable {σ : Type u} (v : VenueSync σ) (arith : DecimalArith) (stamp : MarketEvent → IngestTime)

/-- What the history of one input rebuilds. -/
structure Rebuilds (m : Mirror σ) (input : Input) : Prop where
  recorded : (emitted v arith m.original input).map Prod.fst =
    outcomeEvents (receive v arith m.original input).1
  levels : Meets (echo v stamp) (SameLevels v stamp) m.replayed (emitted v arith m.original input)
  live : emitted v arith m.original input ≠ [] → ∀ integrity since verified,
    (m.step v arith stamp input).original.book.state = .live integrity since verified →
      ∃ since' verified',
        (m.step v arith stamp input).replayed.book.state = .live integrity since' verified'

/-- After every event of the input the replay is live only if the book was. -/
def TrustsNoMore (m : Mirror σ) (input : Input) : Prop :=
  Meets (echo v stamp) (NoMoreTrust v stamp) m.replayed (emitted v arith m.original input)

/-- Whatever the input tells the book while a loss is silent is voiced. -/
def Honest (m : Mirror σ) (input : Input) : Prop :=
  let t := told v arith m.original input
  Meets (watch (v.checksum t.sync) m.original.book.maxDepth) (Voiced (v.checksum t.sync)) m.watched
    t.ingested.actions

variable {v : VenueSync σ} {arith : DecimalArith} {stamp : MarketEvent → IngestTime} {m : Mirror σ}

theorem findings_plain {vb : VenueBook σ} {snapshot : RestSnapshot} {a : SyncAction}
    (mem : a ∈ findings arith vb snapshot) : forwardsPlain a = true := by
  rw [findings] at mem
  split at mem
  · obtain ⟨reason, _, rfl⟩ := by simpa using mem
    rfl
  · cases mem

/-- What an input tells a steady venue's book. -/
structure ToldPlainly (v : VenueSync σ) (vb : VenueBook σ) (t : Told σ) : Prop where
  claims : v.integrity t.sync = v.integrity vb.sync
  hashes : v.checksum t.sync = v.checksum vb.sync
  plain : ∀ a ∈ t.ingested.actions, forwardsPlain a = true

variable (arith) in
theorem told_plainly (steady : Steady v) (vb : VenueBook σ) (input : Input) :
    ToldPlainly v vb (told v arith vb input) := by
  have nothing : ∀ a ∈ ([] : List SyncAction), forwardsPlain a = true := by simp
  cases input with
  | reset now =>
    exact ⟨(steady.reset _).1, (steady.reset _).2, by simp [told, Ingested.untimed, forwardsPlain]⟩
  | audit snapshot now => exact ⟨rfl, rfl, fun a mem => findings_plain mem⟩
  | feed frame =>
    simp only [told]
    cases frame.source with
    | webSocket =>
      have same := steady.ingested vb.sync frame
      cases read : v.ingest vb.sync frame with
      | mk result sync =>
        rw [read] at same
        cases result with
        | error e => exact ⟨same.1, same.2, nothing⟩
        | ok ingested => exact ⟨same.1, same.2, steady.plain vb.sync frame ingested (by rw [read])⟩
    | restSnapshot =>
      cases frame.asStr.bind (v.parseRestSnapshot vb.sync) with
      | error e => exact ⟨rfl, rfl, nothing⟩
      | ok snapshot =>
        have same := steady.spliced vb.sync snapshot
        exact ⟨same.1, same.2, steady.plainSpliced vb.sync snapshot⟩
    | restAudit =>
      cases frame.asStr.bind (v.parseRestSnapshot vb.sync) with
      | error e => exact ⟨rfl, rfl, nothing⟩
      | ok snapshot => exact ⟨rfl, rfl, fun a mem => findings_plain mem⟩

/-- The replay follows the book, by the rules of the book's venue. -/
def Mirror.Faithful (v : VenueSync σ) (m : Mirror σ) : Prop :=
  Mirrors v (v.checksum m.original.sync) (v.integrity m.original.sync) m.original.book m.silent
    m.replayed

theorem recorded_events (vb : VenueBook σ) (input : Input) :
    (emitted v arith vb input).map Prod.fst = outcomeEvents (receive v arith vb input).1 := by
  rw [(follows_receive v arith vb input).events]
  exact trail_events ..

theorem replayAll_events (r : VenueBook σ) (trail : List (MarketEvent × Book)) :
    replayAll v stamp r (trail.map Prod.fst) = exec (echo v stamp) r trail :=
  List.foldl_map ..

variable (arith stamp) in
theorem faithful_step (steady : Steady v) (h : m.Faithful v) (input : Input) :
    (m.step v arith stamp input).Faithful v := by
  have plainly := told_plainly arith steady m.original input
  have follows := follows_receive v arith m.original input
  have next := mirrors_trail stamp (told v arith m.original input).now
    (fun _ => rfl : ∀ kind, (MarketEvent.mk m.original.book.venue m.original.book.symbol
      (told v arith m.original input).ingested.venueTs (told v arith m.original input).now
      kind).kind = kind) plainly.plain h
  rw [← plainly.claims, ← plainly.hashes] at next
  rw [Mirror.Faithful, Mirror.step, follows.book, follows.sync, ← recorded_events,
    replayAll_events]
  exact next

theorem faithful_start {sync : σ} {symbol : Symbol} {depth : Option Nat} {policy : AuditPolicy} :
    (start v sync symbol depth policy).Faithful v := by
  have blank : ∀ i since verified, (fresh v sync symbol depth policy).book.state ≠
      .live i since verified := by
    intro i since verified live
    cases depth <;> cases live
  refine ⟨rfl, rfl, rfl, ⟨rfl, id, ?_⟩, fun i since verified live => (blank _ _ _ live).elim,
    fun i since verified live => (blank _ _ _ live).elim⟩
  cases depth <;> simp [start, fresh, viewOf, VenueBook.new, VenueBook.withAuditPolicy,
    VenueBook.withMaxDepth, Book.new, Book.withMaxDepth, statusOf]

theorem rebuilds_of_faithful (steady : Steady v) (h : m.Faithful v) (input : Input) :
    Rebuilds v arith stamp m input where
  recorded := recorded_events m.original input
  levels := by
    have plainly := told_plainly arith steady m.original input
    rw [emitted, plainly.claims, plainly.hashes]
    exact sameLevels_trail (fun _ => rfl) plainly.plain h
  live := by
    intro _ integrity since verified live
    have next := faithful_step arith stamp steady h input
    have trusted := next.trails.trusted (statusOf_live.mpr (by rw [live]; rfl))
    have claimed := next.rated _ _ _ live
    cases state : (m.step v arith stamp input).replayed.book.state with
    | live i since' verified' =>
      rw [claimed, ← next.replayRated _ _ _ state]
      exact ⟨since', verified', rfl⟩
    | uninitialized => simp [viewOf, state, BookState.isLive] at trusted
    | desynced since' reason => simp [viewOf, state, BookState.isLive] at trusted

theorem trustsNoMore_iff (steady : Steady v) (h : m.Faithful v) (input : Input) :
    TrustsNoMore v arith stamp m input ↔ Honest v arith m input := by
  have plainly := told_plainly arith steady m.original input
  rw [TrustsNoMore, Honest, emitted, plainly.claims, plainly.hashes]
  exact noMoreTrust_trail (fun _ => rfl) plainly.plain h

instance noMoreTrustDecidable (r : VenueBook σ) (e : MarketEvent × Book) :
    Decidable (NoMoreTrust v stamp r e) := inferInstanceAs (Decidable (_ = true → _ = true))

end Run

/-- The replay of a venue's events has the book's levels after every snapshot and update, and
is live with the book's integrity after every input that leaves the book live. -/
theorem history_rebuilds {J : Type u} {K : Type v} (w : EveryWires J K) (arith : DecimalArith)
    (stamp : MarketEvent → IngestTime) (sync : EverySync) (symbol : Symbol) (depth : Option Nat)
    (policy : AuditPolicy) (past : List Input) (input : Input) :
    Rebuilds (everySync w) arith stamp
      (exec (Mirror.step (everySync w) arith stamp)
        (start (everySync w) sync symbol depth policy) past) input := by
  have kept : ∀ m input, Mirror.Faithful (everySync w) m →
      (m.step (everySync w) arith stamp input).Faithful (everySync w) :=
    fun _ input h => faithful_step arith stamp (everySync_steady w) h input
  exact rebuilds_of_faithful (everySync_steady w) (exec_keeps kept faithful_start past) input

/-- The replay is never live where the book was not, exactly when whatever is recorded during
a silent loss of trust is a snapshot or a hash that the levels refute. -/
theorem trust_shared_iff {J : Type u} {K : Type v} (w : EveryWires J K) (arith : DecimalArith)
    (stamp : MarketEvent → IngestTime) (sync : EverySync) (symbol : Symbol) (depth : Option Nat)
    (policy : AuditPolicy) (inputs : List Input) :
    (∀ past input rest, inputs = past ++ input :: rest →
        TrustsNoMore (everySync w) arith stamp
          (exec (Mirror.step (everySync w) arith stamp)
            (start (everySync w) sync symbol depth policy) past) input) ↔
      Meets (Mirror.step (everySync w) arith stamp) (Honest (everySync w) arith)
        (start (everySync w) sync symbol depth policy) inputs := by
  have kept : ∀ m input, Mirror.Faithful (everySync w) m →
      (m.step (everySync w) arith stamp input).Faithful (everySync w) :=
    fun _ input h => faithful_step arith stamp (everySync_steady w) h input
  have same : ∀ m input, Mirror.Faithful (everySync w) m →
      (TrustsNoMore (everySync w) arith stamp m input ↔ Honest (everySync w) arith m input) :=
    fun _ input h => trustsNoMore_iff (everySync_steady w) h input
  exact meets_iff_prefixes.symm.trans (meets_iff_of_invariant kept same faithful_start inputs)

section Sample

open KrakenChecksums KrakenFeed VenueDispatch

def heartbeatText : String := "\x7b\"channel\":\"heartbeat\"\x7d"

/-- Wires that read one Kraken snapshot and a heartbeat. -/
def historyWires : EveryWires String String where
  markets :=
    { coinbase := CoinbaseFeed.tableWire [] []
      kraken := tableWire
        [(sampleText, ⟨some "book", some "snapshot", some sampleData⟩),
          (heartbeatText, ⟨some "heartbeat", none, none⟩)]
        [(sampleData, [sampleEntry])] crcAscii
      bitstamp := BitstampFeed.tableWire [] [] [] }
  fake := ⟨fun _ => .error "expected value", .plain, crcAscii⟩

def krakenFrame (text : String) : RawFrame :=
  ⟨⟨.kraken, ⟨"BTC-USD"⟩⟩, .text text, ⟨2, 2⟩, .webSocket⟩

/-- The connection is lost, and the first frame of the next one is a heartbeat. -/
def lostConnection : List Input := [.feed (krakenFrame sampleText), .reset ⟨1, 1⟩]

set_option maxRecDepth 4000 in
theorem lost_connection_still_trusted :
    ¬ ∀ (J K : Type) (w : EveryWires J K) (arith : DecimalArith)
      (stamp : MarketEvent → IngestTime) (sync : EverySync) (symbol : Symbol)
      (depth : Option Nat) (policy : AuditPolicy) (past : List Input) (input : Input),
      TrustsNoMore (everySync w) arith stamp
        (exec (Mirror.step (everySync w) arith stamp)
          (start (everySync w) sync symbol depth policy) past) input := by
  intro claim
  have trusts := claim String String historyWires .idle (fun event => event.ingestTs)
    (.market (.kraken (KrakenSync.new "BTC/USD"))) ⟨"BTC-USD"⟩ (some 10) .default lostConnection
    (.feed (krakenFrame heartbeatText))
  rw [TrustsNoMore] at trusts
  exact absurd trusts (by decide +kernel)

end Sample

end EventReplay

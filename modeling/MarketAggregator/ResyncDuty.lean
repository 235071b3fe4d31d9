import MarketAggregator.AggregatorApply
import MarketAggregator.CoinbaseCompleteness

/-!
# Who repairs a book that is in a fault

A book in a fault is repaired by a new session, and the aggregator asks for one
when a message takes a book from trusted or blank into a fault. A book that was
already desynced, for a reason that somebody else repairs, goes from that reason
into a fault without a request.
-/

namespace ResyncDuty

open AggregatorApply Clocks Decimals GuardedRuns MarketEvents OrderBook OrderedMaps TrustedReplay
  VenueBooks VenueStreams

universe u v

/-- The aggregator, and the streams asked for since the last end of their session. -/
structure Duty (σ : Type u) (ω : Type v) where
  agg : Aggregator σ ω
  asked : StreamId → Bool

section Model

variable {σ : Type u} {ω : Type v} (v : VenueSync σ) (arith : DecimalArith) (ops : WindowOps ω)

def ends (message : IngestMessage) (x : StreamId) : Bool :=
  match message with
  | .sessionEnded stream _ _ => stream = x
  | _ => false

def step (d : Duty σ ω) (message : IngestMessage) : Duty σ ω :=
  let applied := apply v arith ops d.agg message
  { agg := applied.1
    asked := fun x =>
      if ends message x then false else d.asked x || applied.2.contains (.requestResync x) }

def start (specs : List (VenueSpec σ)) (windows : ω) (now : IngestTime) (sink : Bool) :
    Duty σ ω where
  agg := Aggregator.new v specs windows now sink
  asked := fun _ => false

/-- A book in a fault has been asked for since its last session ended. -/
def NoStuck (d : Duty σ ω) : Prop :=
  ∀ x s, d.agg.streams.find? x = some s → faulty s.book.book.state = true → d.asked x = true

/-- What a message tells the book to do, and the sync that checks it. -/
def instructions (vb : VenueBook σ) : IngestMessage → List SyncAction × σ
  | .frame frame => match frame.source with
    | .webSocket => match v.ingest vb.sync frame with
      | (.ok ingested, sync) => (ingested.actions, sync)
      | (.error _, sync) => ([], sync)
    | .restSnapshot => match frame.asStr.bind (v.parseRestSnapshot vb.sync) with
      | .ok snapshot => v.applyRestSnapshot vb.sync snapshot
      | .error _ => ([], vb.sync)
    | .restAudit => ([], vb.sync)
  | .event _ event => ([VenueBook.eventAction event.kind], vb.sync)
  | .sessionEnded .. => ([.desync .connectionLost], vb.sync)

def faultyStatus : Status → Bool
  | .down reason => reason.needsFreshStream
  | _ => false

/-- Instructions that leave a book in a fault, whatever distrusted levels it starts from. -/
def endsInFault (hash : Levels → Option UInt32) (depth : Option Nat) (actions : List SyncAction) :
    Bool :=
  faultyStatus (replay hash depth ⟨Levels.empty, .down .awaitingSnapshot⟩ actions).status

/-- A desynced book that nobody asked for is not put into a fault. -/
def Heard (d : Duty σ ω) (message : IngestMessage) : Prop :=
  ∀ s, d.agg.streams.find? message.stream = some s → isDesynced s.book.book.state = true →
    d.asked message.stream = false →
    endsInFault (v.checksum (instructions v s.book message).2) s.book.book.maxDepth
      (instructions v s.book message).1 = false

end Model

section Fault

variable {hash : Levels → Option UInt32} {depth : Option Nat} {a b : View}

/-- Equal views, or distrusted ones that agree on whether the reason is a fault. -/
def Alike (a b : View) : Prop :=
  a = b ∨ ∃ r r', a.status = .down r ∧ b.status = .down r' ∧
    r.needsFreshStream = r'.needsFreshStream

theorem Alike.faulty (h : Alike a b) : faultyStatus a.status = faultyStatus b.status := by
  rcases h with rfl | ⟨r, r', ha, hb, same⟩
  · rfl
  · simp [faultyStatus, ha, hb, same]

theorem Alike.act (h : Alike a b) (action : SyncAction) :
    Alike (TrustedReplay.act hash depth a action) (TrustedReplay.act hash depth b action) := by
  rcases h with rfl | ⟨r, r', ha, hb, same⟩
  · exact .inl rfl
  · cases action with
    | snapshot bids asks => exact .inl rfl
    | desync reason => exact .inr ⟨reason, reason, rfl, rfl, rfl⟩
    | ignore => exact .inr ⟨r, r', ha, hb, same⟩
    | forward kind => exact .inr ⟨r, r', ha, hb, same⟩
    | verify expected => exact .inr ⟨r, r', by simp [TrustedReplay.act, ha],
        by simp [TrustedReplay.act, hb], same⟩
    | delta bids asks => exact .inr ⟨r, r', by simp [TrustedReplay.act, ha],
        by simp [TrustedReplay.act, hb], same⟩

theorem Alike.replay (h : Alike a b) (actions : List SyncAction) :
    Alike (TrustedReplay.replay hash depth a actions)
      (TrustedReplay.replay hash depth b actions) := by
  induction actions generalizing a b with
  | nil => exact h
  | cons action actions ih => exact ih (h.act action)

theorem faultyStatus_statusOf {state : BookState} :
    faultyStatus (statusOf state) = faulty state := by
  cases state <;> rfl

theorem isLive_of_desynced {state : BookState} (h : isDesynced state = true) :
    state.isLive = false := by
  cases state <;> first | rfl | cases h

/-- Out of a settled desync only the instructions decide whether a fault is left. -/
theorem endsInFault_iff {state : BookState} (down : isDesynced state = true)
    (settled : faulty state = false) (levels : Levels) (actions : List SyncAction) :
    faultyStatus (replay hash depth ⟨levels, statusOf state⟩ actions).status =
      endsInFault hash depth actions := by
  cases state with
  | desynced since reason =>
    refine Alike.faulty (Alike.replay (.inr ⟨reason, .awaitingSnapshot, rfl, rfl, ?_⟩) actions)
    exact settled
  | _ => cases down

end Fault

variable {σ : Type u} {ω : Type v} {v : VenueSync σ} {arith : DecimalArith} {ops : WindowOps ω}

/-- The book follows the message's instructions. An audit gives none and compares a live book. -/
theorem view_deliver (v : VenueSync σ) (arith : DecimalArith) {vb : VenueBook σ}
    (message : IngestMessage) (told : vb.book.state.isLive = false ∨
      ∀ frame, message = .frame frame → frame.source ≠ .restAudit) :
    viewOf (deliver v arith vb message).2.book =
      replay (v.checksum (instructions v vb message).2) vb.book.maxDepth (viewOf vb.book)
        (instructions v vb message).1 := by
  cases message with
  | sessionEnded stream now ending => rfl
  | event stream event => exact view_applyIngested ..
  | frame frame =>
    simp only [deliver, VenueBook.feed, instructions]
    cases source : frame.source with
    | webSocket =>
      cases read : v.ingest vb.sync frame with
      | mk result sync =>
        cases result with
        | error e => rfl
        | ok ingested => exact view_applyIngested ..
    | restSnapshot =>
      cases read : frame.asStr.bind (v.parseRestSnapshot vb.sync) with
      | error e => rfl
      | ok snapshot => exact view_applyIngested ..
    | restAudit =>
      cases read : frame.asStr.bind (v.parseRestSnapshot vb.sync) with
      | error e => rfl
      | ok snapshot =>
        rcases told with down | told
        · simp [VenueBook.audit, down]
        · exact absurd source (told frame rfl)

/-- A settled desynced book is left in a fault exactly when the instructions end in one. -/
theorem faulty_deliver (arith : DecimalArith) {vb : VenueBook σ} {message : IngestMessage}
    (down : isDesynced vb.book.state = true) (settled : faulty vb.book.state = false) :
    faulty (deliver v arith vb message).2.book.state =
      endsInFault (v.checksum (instructions v vb message).2) vb.book.maxDepth
        (instructions v vb message).1 := by
  have view := congrArg View.status (view_deliver v arith message (.inl (isLive_of_desynced down)))
  rw [← faultyStatus_statusOf, show statusOf _ = _ from view]
  exact endsInFault_iff down settled vb.book.levels _

/-- The streams asked for after one message. -/
theorem asked_step {d : Duty σ ω} {message : IngestMessage} {x : StreamId} {s : VenueState σ ω}
    (found : d.agg.streams.find? message.stream = some s) :
    (step v arith ops d message).asked x = true ↔ ends message x = false ∧
      (d.asked x = true ∨ x = message.stream ∧
        faulty (deliver v arith s.book message).2.book.state = true ∧
        isDesynced s.book.book.state = false) := by
  have effects : (apply v arith ops d.agg message).2 =
      (applyToStream v arith ops d.agg.sink s message).2 := by simp [apply, found]
  cases ended : ends message x with
  | true => simp [step, ended]
  | false =>
    simp only [step, ended, Bool.false_eq_true, if_false, Bool.or_eq_true, List.contains_iff_mem,
      effects, requestResync_mem, asksResync_iff, true_and]
    refine or_congr_right (and_congr_right ?_)
    rintro rfl
    refine and_iff_right_of_imp ?_
    rintro _ stream now ending rfl
    simp [ends, IngestMessage.stream] at ended

theorem asked_step_other {d : Duty σ ω} {message : IngestMessage} {x : StreamId}
    (other : x ≠ message.stream) (asked : d.asked x = true) :
    (step v arith ops d message).asked x = true := by
  have stays : ends message x = false := by
    cases message with
    | sessionEnded stream now ending =>
      exact decide_eq_false fun same => other same.symm
    | _ => rfl
  simp [step, stays, asked]

theorem not_ends_of_faulty {vb : VenueBook σ} {message : IngestMessage} {x : StreamId}
    (fault : faulty (deliver v arith vb message).2.book.state = true) :
    ends message x = false := by
  cases message with
  | sessionEnded stream now ending => cases fault
  | _ => rfl

/-- A message that puts a settled desync into a fault leaves it without a request. -/
theorem heard_of_noStuck {d : Duty σ ω} {message : IngestMessage} (before : NoStuck d)
    (after : NoStuck (step v arith ops d message)) : Heard v d message := by
  intro s found down unheard
  have settled : faulty s.book.book.state = false := by
    by_contra fault
    have asked := before _ s found (Bool.eq_true_of_not_eq_false fault)
    exact Bool.noConfusion (unheard.symm.trans asked)
  rw [← faulty_deliver arith down settled]
  by_contra left
  have fault := Bool.eq_true_of_not_eq_false left
  have found' : (step v arith ops d message).agg.streams.find? message.stream =
      some (applyToStream v arith ops d.agg.sink s message).1 := by
    rw [step, apply_find, if_pos rfl, found]
    rfl
  have asked := after _ _ found' (by rw [applyToStream_book]; exact fault)
  rcases ((asked_step found).mp asked).2 with asked | ⟨_, _, up⟩
  · exact Bool.noConfusion (unheard.symm.trans asked)
  · exact Bool.noConfusion (up.symm.trans down)

theorem noStuck_of_heard {d : Duty σ ω} {message : IngestMessage} (before : NoStuck d)
    (heard : Heard v d message) : NoStuck (step v arith ops d message) := by
  intro x t found' fault
  rcases find?_apply found' with ⟨other, found⟩ | ⟨rfl, s, found, book⟩
  · exact asked_step_other other (before x t found fault)
  · rw [book] at fault
    refine (asked_step found).mpr ⟨not_ends_of_faulty fault, ?_⟩
    cases down : isDesynced s.book.book.state with
    | false => exact .inr ⟨rfl, fault, rfl⟩
    | true =>
      by_contra quiet
      have unheard : d.asked message.stream = false :=
        Bool.eq_false_of_not_eq_true fun asked => quiet (.inl asked)
      have settled : faulty s.book.book.state = false :=
        Bool.eq_false_of_not_eq_true fun was => quiet (.inl (before _ s found was))
      rw [faulty_deliver arith down settled, heard s found down unheard] at fault
      cases fault

/-- Every book in a fault has been asked for in every reachable state, exactly when no
message puts a desynced book that nobody asked for into a fault. -/
theorem noStuck_iff_heard (v : VenueSync σ) (arith : DecimalArith) (ops : WindowOps ω)
    (specs : List (VenueSpec σ)) (windows : ω) (now : IngestTime) (sink : Bool)
    (messages : List IngestMessage) :
    (∀ past rest, past ++ rest = messages →
        NoStuck (exec (step v arith ops) (start v specs windows now sink) past)) ↔
      Meets (step v arith ops) (Heard v) (start v specs windows now sink) messages := by
  refine holds_iff_meets
    (fun d message before => ⟨heard_of_noStuck before, noStuck_of_heard before⟩) ?_ messages
  intro x s found fault
  obtain ⟨spec, _, _, rfl⟩ := find?_new found
  rw [new_state] at fault
  cases fault

section Sample

open CoinbaseCompleteness CoinbaseFeed

/-- Two updates of a session whose snapshot and whose number 2 never arrived. -/
def gapWire : CoinbaseWire String :=
  tableWire
    [(message "1" updateEvent, ⟨"l2_data", 1, none, [updateEvent]⟩),
      (message "3" updateEvent, ⟨"l2_data", 3, none, [updateEvent]⟩)]
    [(updateEvent, ⟨.update, "BTC-USD", [⟨.bid, "99", "2"⟩]⟩)]

def gapAfterReconnect : List IngestMessage :=
  [.sessionEnded ⟨.coinbase, ⟨"BTC-USD"⟩⟩ ⟨1, 1⟩ .closed,
    .frame (sampleFrame (message "1" updateEvent)), .frame (sampleFrame (message "3" updateEvent))]

theorem gap_after_reconnect_unheard :
    ¬ ∀ (σ : Type) (v : VenueSync σ) (arith : DecimalArith) (ops : WindowOps Unit)
      (specs : List (VenueSpec σ)) (now : IngestTime) (sink : Bool)
      (messages : List IngestMessage),
      NoStuck (exec (step v arith ops) (start v specs () now sink) messages) := by
  intro claim
  have noStuck := claim CoinbaseSync (CoinbaseSync.sync gapWire) DecimalArith.idle noWindows
    [⟨CoinbaseSync.new "BTC-USD", ⟨"BTC-USD"⟩, none⟩] ⟨0, 0⟩ false gapAfterReconnect
  have stuck : ((exec (step (CoinbaseSync.sync gapWire) DecimalArith.idle noWindows)
      (start (CoinbaseSync.sync gapWire) [⟨CoinbaseSync.new "BTC-USD", ⟨"BTC-USD"⟩, none⟩] ()
        ⟨0, 0⟩ false) gapAfterReconnect).agg.streams.find? ⟨.coinbase, ⟨"BTC-USD"⟩⟩).map
      (fun s => s.book.book.state) = some (.desynced ⟨0, 0⟩ (.sequenceGap 2 3)) := by
    decide +kernel
  obtain ⟨s, found, state⟩ := Option.map_eq_some_iff.mp stuck
  have asked := noStuck _ s found (by rw [state]; rfl)
  exact absurd asked (by decide +kernel)

end Sample

end ResyncDuty

import MarketAggregator.DropAccounting

/-!
# Which session a resync request is about

Frames wait in the channel while the session that received them closes and the next
one connects. A request that a late frame raises is remembered and ends whatever
session is reading by then. A session that opens with nothing of its stream queued
and nothing remembered is ended only for its own frames.
-/

namespace RequestSessions

open AggregatorApply Clocks Decimals GuardedRuns IngestChannel MarketEvents OrderedMaps VenueBooks
  VenueStreams

universe u v

/-- A message in the channel, and the session of its stream that sent it. -/
structure Item where
  message : IngestMessage
  session : Nat

/-- Where the ingest task stands in its loop. -/
inductive Phase where
  | connecting
  | reading
  | backingOff
  | stopped
  deriving DecidableEq, Repr

/-- The ingest task, the channel, the aggregator and the counter between them. Each request
is kept with the session whose message raised it, and `seen` of them have been acted on.
`carried` is what the session found waiting when it opened, and `acted` how many requests were
issued at each act, latest first; no step reads these two. -/
structure System (σ : Type u) (ω : Type v) where
  phase : Phase
  session : Nat
  channel : Channel Item
  agg : Aggregator σ ω
  issued : List Nat
  seen : Nat
  carried : Nat
  acted : List Nat

inductive Action where
  | connected
  | connectFailed (now : IngestTime)
  | sendFrame (frame : RawFrame)
  | endSession (now : IngestTime) (ending : SessionEnd)
  | actOnRequest (now : IngestTime)
  | reconnect
  | stop
  | sendForeign (message : IngestMessage)
  | receive

/-- A message of the stream that can raise a request. -/
def speaks (stream : StreamId) (message : IngestMessage) : Bool :=
  message.stream = stream && match message with
    | .sessionEnded .. => false
    | _ => true

section Model

variable {σ : Type u} {ω : Type v} (v : VenueSync σ) (arith : DecimalArith) (ops : WindowOps ω)
  (stream : StreamId)

namespace System

/-- The requests that the next one to act coalesces. -/
def batch (s : System σ ω) : List Nat := s.issued.drop s.seen

def push (s : System σ ω) (message : IngestMessage) : System σ ω :=
  { s with channel := (s.channel.send ⟨message, s.session⟩).2 }

def finish (s : System σ ω) (now : IngestTime) (ending : SessionEnd) : System σ ω :=
  { s.push (.sessionEnded stream now ending) with phase := .backingOff }

/-- The requests and the messages that can raise one, before the session adds its own. -/
def opened (s : System σ ω) : System σ ω :=
  { s with
    phase := .reading
    carried := s.batch.length +
      s.channel.queue.countP (fun item => speaks stream item.message) }

def apply (s : System σ ω) (item : Item) : System σ ω :=
  let applied := AggregatorApply.apply v arith ops s.agg item.message
  { s with
    agg := applied.1
    issued := s.issued ++
      (applied.2.filter (· = .requestResync stream)).map (fun _ => item.session) }

end System

/-- One step of any party; a step that its party cannot take changes nothing. -/
def step (s : System σ ω) : Action → System σ ω
  | .connected => if s.phase = .connecting then s.opened stream else s
  | .connectFailed now =>
    if s.phase = .connecting then s.finish stream now .connectFailed else s
  | .sendFrame frame =>
    if s.phase = .reading then s.push (.frame { frame with stream := stream }) else s
  | .endSession now ending =>
    if s.phase = .reading then
      if ending.shouldRetry then s.finish stream now ending else { s with phase := .stopped }
    else s
  | .actOnRequest now =>
    if s.phase = .reading ∧ s.batch ≠ [] then
      { s.finish stream now .resyncRequested with
        seen := s.issued.length
        acted := s.issued.length :: s.acted }
    else s
  | .reconnect =>
    if s.phase = .backingOff then { s with phase := .connecting, session := s.session + 1 } else s
  | .stop => { s with phase := .stopped }
  | .sendForeign message => if message.stream = stream then s else s.push message
  | .receive => match s.channel.tryRecv with
    | (none, _) => s
    | (some item, channel) => { s with channel := channel }.apply v arith ops stream item

def start (specs : List (VenueSpec σ)) (capacity : Nat) (positive : 0 < capacity) (windows : ω)
    (now : IngestTime) (sink : Bool) : System σ ω where
  phase := .connecting
  session := 0
  channel := Channel.bounded capacity positive
  agg := Aggregator.new v specs windows now sink
  issued := []
  seen := 0
  carried := 0
  acted := []

/-- A session that can be ended by a request has one that its own message raised. -/
def OwnRequest (s : System σ ω) : Prop :=
  s.phase = .reading → s.batch ≠ [] → s.session ∈ s.batch

/-- A request that can end a session was issued since the last act, raised by a message of it
or of an earlier one, and those of earlier ones are no more than what was waiting when it
opened. -/
def RequestsAccounted (s : System σ ω) : Prop :=
  s.phase = .reading →
    (∀ before ∈ s.acted, s.batch <:+ s.issued.drop before) ∧
      (∀ session ∈ s.batch, session ≤ s.session) ∧
      s.batch.countP (· ≠ s.session) ≤ s.carried

end Model

section Invariant

variable {σ : Type u} {ω : Type v} {v : VenueSync σ} {arith : DecimalArith} {ops : WindowOps ω}
  {stream : StreamId} {s : System σ ω}

/-- A message of an earlier session that can still raise a request. -/
def late (stream : StreamId) (session : Nat) (item : Item) : Bool :=
  speaks stream item.message && item.session ≠ session

structure Inv (stream : StreamId) (s : System σ ω) : Prop where
  counted : s.seen ≤ s.issued.length
  settled : ∀ before ∈ s.acted, before ≤ s.seen
  issuedPast : ∀ session ∈ s.issued, session ≤ s.session
  queuedPast : ∀ item ∈ s.channel.queue, item.session ≤ s.session
  carried : s.phase = .reading →
    s.batch.countP (· ≠ s.session) + s.channel.queue.countP (late stream s.session) ≤ s.carried

theorem mem_send {T : Type u} {c : Channel T} {item x : T} (mem : x ∈ (c.send item).2.queue) :
    x ∈ c.queue ∨ x = item := by
  cases closed : c.closed with
  | true => exact .inl (by simpa [Channel.send, closed] using mem)
  | false =>
    rcases Channel.send_queue closed item with ⟨_, _, sent⟩ | ⟨old, rest, queue, _, _, sent⟩
    · rw [sent] at mem
      simpa using mem
    · rw [sent] at mem
      rw [queue]
      rcases List.mem_append.mp mem with mem | mem
      · exact .inl (List.mem_cons_of_mem _ mem)
      · exact .inr (List.mem_singleton.mp mem)

/-- A send of the current session adds nothing that is late. -/
theorem late_send {c : Channel Item} {item : Item} {session : Nat}
    (own : late stream session item = false) :
    (c.send item).2.queue.countP (late stream session) ≤ c.queue.countP (late stream session) := by
  cases closed : c.closed with
  | true => simp [Channel.send, closed]
  | false =>
    rcases Channel.send_queue closed item with ⟨_, _, sent⟩ | ⟨old, rest, queue, _, _, sent⟩
    · simp [sent, own]
    · simp [sent, own, queue, List.countP_cons]

theorem Inv.push (inv : Inv stream s) (message : IngestMessage) : Inv stream (s.push message) where
  counted := inv.counted
  settled := inv.settled
  issuedPast := inv.issuedPast
  queuedPast := by
    intro item mem
    rcases mem_send mem with mem | rfl
    · exact inv.queuedPast item mem
    · exact Nat.le_refl _
  carried := by
    intro reading
    have own : late stream s.session ⟨message, s.session⟩ = false := by simp [late]
    exact Nat.le_trans (Nat.add_le_add_left (late_send own) _) (inv.carried reading)

/-- Outside of a session only the numbers matter. -/
theorem Inv.leave (inv : Inv stream s) {phase : Phase} (left : phase ≠ .reading) :
    Inv stream { s with phase := phase } :=
  ⟨inv.counted, inv.settled, inv.issuedPast, inv.queuedPast, fun reading => absurd reading left⟩

theorem Inv.finish (inv : Inv stream s) (now : IngestTime) (ending : SessionEnd) :
    Inv stream (s.finish stream now ending) :=
  (inv.push _).leave (by decide)

theorem Inv.opened (inv : Inv stream s) : Inv stream (s.opened stream) where
  counted := inv.counted
  settled := inv.settled
  issuedPast := inv.issuedPast
  queuedPast := inv.queuedPast
  carried := by
    intro _
    refine Nat.add_le_add List.countP_le_length (List.countP_mono_left ?_)
    intro item _ still
    exact (Bool.and_eq_true_iff.mp still).1

/-- Only a message that speaks raises a request for the stream. -/
theorem speaks_of_request {agg : Aggregator σ ω} {message : IngestMessage}
    (asked : .requestResync stream ∈ (AggregatorApply.apply v arith ops agg message).2) :
    speaks stream message = true := by
  cases found : agg.streams.find? message.stream with
  | none =>
    rw [apply_untracked found] at asked
    cases asked
  | some t =>
    simp only [AggregatorApply.apply, found] at asked
    obtain ⟨rfl, talks, _⟩ := requestResync_mem.mp asked
    cases message with
    | sessionEnded x now ending => exact absurd rfl (talks x now ending)
    | frame frame => simp [speaks]
    | event x event => simp [speaks]

variable (v arith ops stream s) in
/-- What applying an item raises for an earlier session is no more than the item itself. -/
theorem raised_le (item : Item) : (((AggregatorApply.apply v arith ops s.agg item.message).2.filter
      (· = .requestResync stream)).map (fun _ => item.session)).countP (· ≠ s.session) ≤
    if late stream s.session item then 1 else 0 := by
  split
  · refine Nat.le_trans List.countP_le_length ?_
    rw [List.length_map]
    exact AggregatorApply.requests_le_one stream
  · rename_i punctual
    refine Nat.le_of_eq (List.countP_eq_zero.mpr ?_)
    intro session mem
    obtain ⟨effect, asked, rfl⟩ := List.mem_map.mp mem
    obtain ⟨here, same⟩ := List.mem_filter.mp asked
    obtain rfl := of_decide_eq_true same
    simpa [late, speaks_of_request here] using punctual

theorem Inv.receive (inv : Inv stream s) {item : Item} {rest : List Item}
    (queue : s.channel.queue = item :: rest) :
    Inv stream ({ s with channel := { s.channel with queue := rest } }.apply v arith ops stream
      item) where
  counted := by
    have counted := inv.counted
    simp only [System.apply, List.length_append]
    omega
  settled := inv.settled
  issuedPast := by
    intro session mem
    rcases List.mem_append.mp mem with mem | mem
    · exact inv.issuedPast session mem
    · obtain ⟨_, _, rfl⟩ := List.mem_map.mp mem
      exact inv.queuedPast item (queue ▸ List.mem_cons_self)
  queuedPast := fun x mem => inv.queuedPast x (queue ▸ List.mem_cons_of_mem item mem)
  carried := by
    intro reading
    have waiting := inv.carried reading
    have raised := raised_le v arith ops stream s item
    rw [queue, List.countP_cons] at waiting
    have batch : ({ s with channel := { s.channel with queue := rest } }.apply v arith ops stream
        item).batch = s.batch ++ ((AggregatorApply.apply v arith ops s.agg item.message).2.filter
          (· = .requestResync stream)).map (fun _ => item.session) :=
      List.drop_append_of_le_length inv.counted
    rw [batch, List.countP_append]
    calc
      _ ≤ s.batch.countP (· ≠ s.session) + (if late stream s.session item then 1 else 0) +
          rest.countP (late stream s.session) :=
        Nat.add_le_add_right (Nat.add_le_add_left raised _) _
      _ ≤ s.carried := by omega

variable (v arith ops) in
theorem inv_step (s : System σ ω) (action : Action) (inv : Inv stream s) :
    Inv stream (step v arith ops stream s action) := by
  cases action with
  | connected =>
    rw [step]
    split
    · exact inv.opened
    · exact inv
  | connectFailed now =>
    rw [step]
    split
    · exact inv.finish now .connectFailed
    · exact inv
  | sendFrame frame =>
    rw [step]
    split
    · exact inv.push _
    · exact inv
  | endSession now ending =>
    rw [step]
    split
    · split
      · exact inv.finish now ending
      · exact inv.leave (by decide)
    · exact inv
  | actOnRequest now =>
    rw [step]
    split
    · have finished := inv.finish now .resyncRequested
      refine ⟨Nat.le_refl _, ?_, finished.issuedPast, finished.queuedPast,
        fun reading => Phase.noConfusion reading⟩
      intro before mem
      rcases List.mem_cons.mp mem with rfl | earlier
      · exact Nat.le_refl _
      · exact Nat.le_trans (inv.settled before earlier) inv.counted
    · exact inv
  | reconnect =>
    rw [step]
    split
    · exact ⟨inv.counted, inv.settled, fun x mem => Nat.le_succ_of_le (inv.issuedPast x mem),
        fun x mem => Nat.le_succ_of_le (inv.queuedPast x mem),
        fun reading => Phase.noConfusion reading⟩
    · exact inv
  | stop => exact inv.leave (by decide)
  | sendForeign message =>
    rw [step]
    split
    · exact inv
    · exact inv.push message
  | receive =>
    rw [step]
    cases queue : s.channel.queue with
    | nil => simpa [Channel.tryRecv, queue] using inv
    | cons item rest => simpa [Channel.tryRecv, queue] using inv.receive queue

end Invariant

/-- In every state: a request that can end the session was never acted on, comes from no later
session, and no more of them come from earlier ones than the session found waiting. -/
theorem requests_accounted {σ : Type u} {ω : Type v} (v : VenueSync σ) (arith : DecimalArith)
    (ops : WindowOps ω) (stream : StreamId) (specs : List (VenueSpec σ)) (capacity : Nat)
    (positive : 0 < capacity) (windows : ω) (now : IngestTime) (sink : Bool)
    (actions : List Action) :
    RequestsAccounted (exec (step v arith ops stream)
      (start v specs capacity positive windows now sink) actions) := by
  have begun : Inv stream (start v specs capacity positive windows now sink : System σ ω) :=
    ⟨Nat.le_refl _, by simp [start], by simp [start], by simp [start, Channel.bounded],
      fun reading => Phase.noConfusion reading⟩
  have inv := exec_keeps (inv_step v arith ops) begun actions
  intro reading
  refine ⟨?_, fun session mem => inv.issuedPast session (List.mem_of_mem_drop mem), ?_⟩
  · intro before mem
    exact List.drop_suffix_drop_left _ (inv.settled before mem)
  exact Nat.le_trans (Nat.le_add_right _ _) (inv.carried reading)

section Sample

open CoinbaseCompleteness CoinbaseFeed

/-- A snapshot, and an update whose predecessor never arrived. -/
def gapWire : CoinbaseWire String :=
  tableWire
    [(message "0" snapshotEvent, ⟨"l2_data", 0, none, [snapshotEvent]⟩),
      (message "2" updateEvent, ⟨"l2_data", 2, none, [updateEvent]⟩)]
    [(snapshotEvent, ⟨.snapshot, "BTC-USD", [⟨.bid, "100", "1"⟩]⟩),
      (updateEvent, ⟨.update, "BTC-USD", [⟨.bid, "99", "2"⟩]⟩)]

/-- Both frames are still queued when the next session is up. -/
def lateGap : List Action :=
  [.connected, .sendFrame (sampleFrame (message "0" snapshotEvent)),
    .sendFrame (sampleFrame (message "2" updateEvent)), .endSession ⟨1, 1⟩ .closed, .reconnect,
    .connected, .receive, .receive]

/-- The late gap ends the session, and the next one runs into a gap of its own. -/
def secondGap : List Action :=
  lateGap ++ [.actOnRequest ⟨2, 2⟩, .reconnect, .connected, .receive, .receive,
    .sendFrame (sampleFrame (message "0" snapshotEvent)),
    .sendFrame (sampleFrame (message "2" updateEvent)), .receive, .receive]

abbrev afterSecondGap : System CoinbaseSync Unit :=
  exec (step (CoinbaseSync.sync gapWire) DecimalArith.idle noWindows ⟨.coinbase, ⟨"BTC-USD"⟩⟩)
    (start (CoinbaseSync.sync gapWire) [⟨CoinbaseSync.new "BTC-USD", ⟨"BTC-USD"⟩, none⟩] 4
      (by decide) () ⟨0, 0⟩ false) secondGap

/-- Of the two requests issued, the session is about to act on the second. -/
theorem requests_accounted_second_gap :
    afterSecondGap.acted = [1] ∧ afterSecondGap.issued = [0, 2] ∧ afterSecondGap.batch = [2] ∧
      RequestsAccounted afterSecondGap :=
  ⟨by decide +kernel, by decide +kernel, by decide +kernel,
    requests_accounted (CoinbaseSync.sync gapWire) DecimalArith.idle noWindows
      ⟨.coinbase, ⟨"BTC-USD"⟩⟩ [⟨CoinbaseSync.new "BTC-USD", ⟨"BTC-USD"⟩, none⟩] 4 (by decide) ()
      ⟨0, 0⟩ false secondGap⟩

theorem late_gap_ends_next_session :
    ¬ ∀ (σ : Type) (v : VenueSync σ) (arith : DecimalArith) (ops : WindowOps Unit)
      (stream : StreamId) (specs : List (VenueSpec σ)) (capacity : Nat) (positive : 0 < capacity)
      (now : IngestTime) (sink : Bool) (actions : List Action),
      OwnRequest (exec (step v arith ops stream) (start v specs capacity positive () now sink)
        actions) := by
  intro claim
  have own := claim CoinbaseSync (CoinbaseSync.sync gapWire) DecimalArith.idle noWindows
    ⟨.coinbase, ⟨"BTC-USD"⟩⟩ [⟨CoinbaseSync.new "BTC-USD", ⟨"BTC-USD"⟩, none⟩] 4 (by decide)
    ⟨0, 0⟩ false lateGap
  exact absurd (own (by decide +kernel) (by decide +kernel)) (by decide +kernel)

end Sample

end RequestSessions

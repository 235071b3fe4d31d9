import MarketAggregator.IngestChannel
import MarketAggregator.VenueDispatch

/-!
# Who repairs a lost snapshot

The ingest task of one stream puts one snapshot a session into a channel that it
shares with the tasks of other streams and that drops its oldest item. A book that
is not trusted should have somebody at work on it: a session that still owes its
snapshot, a reconnect that is due, or a request that the task has not acted on.
A run is followed until the task is told to stop.
-/

namespace SnapshotRepair

open AggregatorApply Clocks Decimals GuardedRuns IngestChannel MarketEvents OrderBook OrderedMaps
  ResyncDuty TrustedReplay VenueBooks VenueDispatch VenueStreams

universe u v

/-- A message in the channel, and the session whose snapshot it is, if it is one. -/
structure Item where
  message : IngestMessage
  snapshotOf : Option Nat

/-- Where the ingest task stands in its loop. -/
inductive Phase where
  | connecting
  | reading (snapshotSent : Bool)
  | backingOff
  deriving DecidableEq, Repr

/-- The ingest task, the channel, the aggregator and the resync signal of the stream. -/
structure System (σ : Type u) (ω : Type v) where
  phase : Phase
  session : Nat
  channel : Channel Item
  agg : Aggregator σ ω
  requests : Nat
  seen : Nat

inductive Action where
  | connected
  | connectFailed (now : IngestTime)
  | sendFrame (frame : RawFrame)
  | sendSnapshot (frame : RawFrame)
  | endSession (now : IngestTime) (ending : SessionEnd)
  | actOnRequest (now : IngestTime)
  | reconnect
  | sendForeign (message : IngestMessage)
  | receive

section Model

variable {σ : Type u} {ω : Type v} (v : VenueSync σ) (arith : DecimalArith) (ops : WindowOps ω)
  (stream : StreamId)

namespace System

/-- A resync request that the ingest task has not acted on. -/
def pending (s : System σ ω) : Prop := s.seen < s.requests

instance (s : System σ ω) : Decidable s.pending := inferInstanceAs (Decidable (_ < _))

def push (s : System σ ω) (item : Item) : System σ ω :=
  { s with channel := (s.channel.send item).2 }

/-- The session is over: say so in the channel and wait to reconnect. -/
def finish (s : System σ ω) (now : IngestTime) (ending : SessionEnd) : System σ ω :=
  { s.push ⟨.sessionEnded stream now ending, none⟩ with phase := .backingOff }

def apply (s : System σ ω) (message : IngestMessage) : System σ ω :=
  let applied := AggregatorApply.apply v arith ops s.agg message
  { s with
    agg := applied.1
    requests := s.requests + (applied.2.filter (· = .requestResync stream)).length }

end System

/-- One step of any party; a step that its party cannot take changes nothing. -/
def step (s : System σ ω) : Action → System σ ω
  | .connected =>
    if s.phase = .connecting then { s with phase := .reading false } else s
  | .connectFailed now =>
    if s.phase = .connecting then s.finish stream now .connectFailed else s
  | .sendFrame frame => match s.phase with
    | .reading _ => s.push ⟨.frame { frame with stream := stream }, none⟩
    | _ => s
  | .sendSnapshot frame =>
    if s.phase = .reading false then
      { s.push ⟨.frame { frame with stream := stream }, some s.session⟩ with
        phase := .reading true }
    else s
  | .endSession now ending => match s.phase with
    | .reading _ => if ending.shouldRetry then s.finish stream now ending else s
    | _ => s
  | .actOnRequest now => match s.phase with
    | .reading _ =>
      if s.pending then { s.finish stream now .resyncRequested with seen := s.requests } else s
    | _ => s
  | .reconnect =>
    if s.phase = .backingOff then { s with phase := .connecting, session := s.session + 1 } else s
  | .sendForeign message =>
    if message.stream = stream then s else s.push ⟨message, none⟩
  | .receive => match s.channel.tryRecv with
    | (none, _) => s
    | (some item, channel) => { s with channel := channel }.apply v arith ops stream item.message

def start (specs : List (VenueSpec σ)) (capacity : Nat) (positive : 0 < capacity) (windows : ω)
    (now : IngestTime) (sink : Bool) : System σ ω where
  phase := .connecting
  session := 0
  channel := Channel.bounded capacity positive
  agg := Aggregator.new v specs windows now sink
  requests := 0
  seen := 0

/-- Somebody repairs the book when nothing of its stream is queued and it is not trusted. -/
def Repaired (s : System σ ω) : Prop :=
  ∀ t, s.agg.streams.find? stream = some t → t.book.book.state.isLive = false →
    (∀ item ∈ s.channel.queue, item.message.stream ≠ stream) →
    s.phase = .connecting ∨ s.phase = .reading false ∨ s.phase = .backingOff ∨ s.pending

/-- A snapshot takes: it leaves the book trusted, or a blank book in a fault. -/
def Takes (vb : VenueBook σ) (message : IngestMessage) : Prop :=
  let told := instructions v vb message
  let left := (replay (v.checksum told.2) vb.book.maxDepth (viewOf vb.book) told.1).status
  left = .live ∨ faultyStatus left = true ∧ vb.book.state = .uninitialized

instance (vb : VenueBook σ) (message : IngestMessage) : Decidable (Takes v vb message) :=
  inferInstanceAs (Decidable (_ ∨ _ ∧ _))

/-- The book of the stream is trusted, or its repair has been asked for. -/
def Covered (s : System σ ω) : Prop :=
  ∀ t, s.agg.streams.find? stream = some t → t.book.book.state.isLive = true ∨ s.pending

/-- The current session's snapshot is not dropped from the channel, and takes when it is
received, unless the book is covered without it. -/
def SnapshotSafe (s : System σ ω) (action : Action) : Prop :=
  s.phase = .reading true → ∀ item rest, s.channel.queue = item :: rest →
    item.snapshotOf = some s.session → match action with
    | .sendFrame _ => s.channel.capacity ≤ s.channel.queue.length → Covered stream s
    | .sendForeign message => message.stream ≠ stream →
      s.channel.capacity ≤ s.channel.queue.length → Covered stream s
    | .receive => Covered stream s ∨ ∀ t, s.agg.streams.find? stream = some t →
      Takes v t.book item.message
    | _ => True

instance (s : System σ ω) : Decidable (Covered stream s) :=
  decidable_of_iff (∀ t ∈ s.agg.streams.find? stream,
    t.book.book.state.isLive = true ∨ s.pending) Iff.rfl

theorem forall_first {T : Type u} {queue : List T} {P : T → Prop} :
    (∀ item ∈ queue.head?, P item) ↔ ∀ item rest, queue = item :: rest → P item := by
  cases queue with
  | nil => simp
  | cons first rest => simp

instance (s : System σ ω) : ∀ action, Decidable (SnapshotSafe v stream s action)
  | .sendFrame _ => decidable_of_iff (s.phase = .reading true → ∀ item ∈ s.channel.queue.head?,
      item.snapshotOf = some s.session → s.channel.capacity ≤ s.channel.queue.length →
      Covered stream s) (imp_congr_right fun _ => forall_first)
  | .sendForeign message => decidable_of_iff (s.phase = .reading true →
      ∀ item ∈ s.channel.queue.head?, item.snapshotOf = some s.session →
      message.stream ≠ stream → s.channel.capacity ≤ s.channel.queue.length →
      Covered stream s) (imp_congr_right fun _ => forall_first)
  | .receive => decidable_of_iff (s.phase = .reading true → ∀ item ∈ s.channel.queue.head?,
      item.snapshotOf = some s.session → Covered stream s ∨
      ∀ t ∈ s.agg.streams.find? stream, Takes v t.book item.message)
      (imp_congr_right fun _ => forall_first)
  | .connected | .connectFailed _ | .sendSnapshot _ | .endSession _ _ | .actOnRequest _
  | .reconnect => .isTrue fun _ _ _ _ _ => trivial

end Model

variable {σ : Type u} {ω : Type v} {v : VenueSync σ} {awaits : σ → Prop} {arith : DecimalArith}
  {ops : WindowOps ω} {stream : StreamId} {s : System σ ω}

/-- An item of another stream, or a frame. -/
def Ordinary (stream : StreamId) (item : Item) : Prop :=
  item.message.stream = stream → ∃ frame, item.message = .frame frame

/-- The current session's snapshot is on its way, or the book is covered without it. -/
def SnapshotKept (stream : StreamId) (s : System σ ω) : Prop :=
  (∃ before snapshot after, s.channel.queue = before ++ snapshot :: after ∧
      snapshot.snapshotOf = some s.session ∧ snapshot.message.stream = stream ∧
      ∀ item ∈ snapshot :: after, Ordinary stream item) ∨
    (∀ item ∈ s.channel.queue, Ordinary stream item) ∧ Covered stream s

structure Sound (awaits : σ → Prop) (stream : StreamId) (s : System σ ω) : Prop where
  opened : s.channel.closed = false
  counted : s.seen ≤ s.requests
  raw : ∀ item ∈ s.channel.queue, item.message.stream = stream →
    ∀ x event, item.message ≠ .event x event
  waiting : ∀ t, s.agg.streams.find? stream = some t → Waiting awaits t.book

structure Inv (awaits : σ → Prop) (stream : StreamId) (s : System σ ω) : Prop where
  sound : Sound awaits stream s
  kept : s.phase = .reading true → SnapshotKept stream s

theorem Inv.repaired (inv : Inv awaits stream s) : Repaired stream s := by
  intro t found down unqueued
  cases phase : s.phase with
  | connecting => exact .inl rfl
  | backingOff => exact .inr (.inr (.inl rfl))
  | reading sent =>
    cases sent with
    | false => exact .inr (.inl rfl)
    | true =>
      rcases inv.kept phase with ⟨before, snapshot, after, queue, _, own, _⟩ | ⟨_, covered⟩
      · exact absurd own (unqueued snapshot (by simp [queue]))
      · refine .inr (.inr (.inr ?_))
        exact (covered t found).resolve_left fun live => Bool.noConfusion (down.symm.trans live)

section Sends

theorem frame_raw (frame : RawFrame) (x : StreamId) (event : MarketEvent) :
    IngestMessage.frame frame ≠ .event x event := IngestMessage.noConfusion

theorem sessionEnded_raw (y : StreamId) (now : IngestTime) (ending : SessionEnd) (x : StreamId)
    (event : MarketEvent) : IngestMessage.sessionEnded y now ending ≠ .event x event :=
  IngestMessage.noConfusion

/-- A push puts the item last and drops the first one at most. -/
theorem push_queue (opened : s.channel.closed = false) (item : Item) :
    (s.push item).channel.queue = s.channel.queue ++ [item] ∨
      ∃ old rest, s.channel.queue = old :: rest ∧
        s.channel.capacity ≤ s.channel.queue.length ∧
        (s.push item).channel.queue = rest ++ [item] := by
  rcases Channel.send_queue opened item with ⟨_, _, sent⟩ | ⟨old, rest, queue, full, _, sent⟩
  · exact .inl (congrArg Channel.queue sent)
  · exact .inr ⟨old, rest, queue, full, congrArg Channel.queue sent⟩

theorem push_mem (opened : s.channel.closed = false) {item x : Item}
    (mem : x ∈ (s.push item).channel.queue) : x ∈ s.channel.queue ∨ x = item := by
  rcases push_queue opened item with queue | ⟨old, rest, was, _, queue⟩
  · rw [queue] at mem
    simpa using mem
  · rw [queue] at mem
    rw [was]
    rcases List.mem_append.mp mem with mem | mem
    · exact .inl (List.mem_cons_of_mem _ mem)
    · exact .inr (List.mem_singleton.mp mem)

theorem push_closed (opened : s.channel.closed = false) (item : Item) :
    (s.push item).channel.closed = false := by
  rcases Channel.send_queue opened item with ⟨_, _, sent⟩ | ⟨old, rest, _, _, _, sent⟩
  · exact (congrArg Channel.closed sent).trans opened
  · exact (congrArg Channel.closed sent).trans opened

theorem Sound.push (sound : Sound awaits stream s) {item : Item}
    (raw : item.message.stream = stream → ∀ x event, item.message ≠ .event x event) :
    Sound awaits stream (s.push item) where
  opened := push_closed sound.opened item
  counted := sound.counted
  raw := by
    intro x mem
    rcases push_mem sound.opened mem with mem | rfl
    · exact sound.raw x mem
    · exact raw
  waiting := sound.waiting

/-- A push keeps the snapshot on its way, or drops it when the book is covered. -/
theorem kept_push (sound : Sound awaits stream s) {item : Item} (ordinary : Ordinary stream item)
    (safe : ∀ old rest, s.channel.queue = old :: rest → old.snapshotOf = some s.session →
      s.channel.capacity ≤ s.channel.queue.length → Covered stream s)
    (kept : SnapshotKept stream s) : SnapshotKept stream (s.push item) := by
  have last : ∀ {items : List Item}, (∀ x ∈ items, Ordinary stream x) →
      ∀ x ∈ items ++ [item], Ordinary stream x := by
    intro items all x mem
    rcases List.mem_append.mp mem with mem | mem
    · exact all x mem
    · exact List.mem_singleton.mp mem ▸ ordinary
  rcases kept with ⟨before, snapshot, after, queue, current, own, all⟩ | ⟨all, covered⟩
  · rcases push_queue sound.opened item with pushed | ⟨old, rest, was, full, pushed⟩
    · exact .inl ⟨before, snapshot, after ++ [item], by simp [pushed, queue], current, own,
        last all⟩
    · cases before with
      | nil =>
        obtain ⟨rfl, rfl⟩ := List.cons.inj (was.symm.trans queue)
        refine .inr ⟨?_, safe _ _ was current full⟩
        rw [pushed]
        exact last fun x mem => all x (List.mem_cons_of_mem _ mem)
      | cons first before =>
        obtain ⟨rfl, rfl⟩ := List.cons.inj (was.symm.trans queue)
        exact .inl ⟨before, snapshot, after ++ [item], by simp [pushed], current, own, last all⟩
  · refine .inr ⟨fun x mem => ?_, covered⟩
    rcases push_mem sound.opened mem with mem | rfl
    · exact all x mem
    · exact ordinary

end Sends

section Receives

theorem requests_le (message : IngestMessage) :
    s.requests ≤ (s.apply v arith ops stream message).requests := Nat.le_add_right ..

theorem pending_apply (message : IngestMessage) (h : s.pending) :
    (s.apply v arith ops stream message).pending :=
  Nat.lt_of_lt_of_le h (requests_le message)

/-- A book that goes from trusted or blank into a fault is asked for. -/
theorem pending_of_fault (counted : s.seen ≤ s.requests) {frame : RawFrame} {t : VenueState σ ω}
    (own : frame.stream = stream) (found : s.agg.streams.find? stream = some t)
    (up : isDesynced t.book.book.state = false)
    (fault : faulty (t.book.feed v arith frame).2.book.state = true) :
    (s.apply v arith ops stream (.frame frame)).pending := by
  subst own
  have asked : .requestResync frame.stream ∈
      (AggregatorApply.apply v arith ops s.agg (.frame frame)).2 := by
    simp only [AggregatorApply.apply, IngestMessage.stream, found]
    exact requestResync_mem.mpr ⟨rfl, by simp, asksResync_iff.mpr ⟨fault, up⟩⟩
  have some_request : 0 < ((AggregatorApply.apply v arith ops s.agg (.frame frame)).2.filter
      (· = .requestResync frame.stream)).length :=
    List.length_pos_of_mem (List.mem_filter.mpr ⟨asked, by simp⟩)
  exact Nat.lt_of_le_of_lt counted (Nat.lt_add_of_pos_right some_request)

theorem Sound.dequeue (sound : Sound awaits stream s) {item : Item} {rest : List Item}
    (queue : s.channel.queue = item :: rest) :
    Sound awaits stream { s with channel := { s.channel with queue := rest } } where
  opened := sound.opened
  counted := sound.counted
  raw := by
    intro x mem
    exact sound.raw x (queue ▸ List.mem_cons_of_mem item mem)
  waiting := sound.waiting

theorem Sound.apply (loud : Loud v awaits) (sound : Sound awaits stream s)
    {message : IngestMessage}
    (raw : message.stream = stream → ∀ x event, message ≠ .event x event) :
    Sound awaits stream (s.apply v arith ops stream message) where
  opened := sound.opened
  counted := Nat.le_trans sound.counted (requests_le message)
  raw := sound.raw
  waiting := by
    intro t found
    rcases find?_apply found with ⟨_, was⟩ | ⟨same, prior, was, book⟩
    · exact sound.waiting t was
    · rw [book]
      cases message with
      | frame frame => exact waiting_feed loud (sound.waiting prior was)
      | event x event => exact absurd rfl (raw same.symm x event)
      | sessionEnded x now ending => exact fun _ => rfl

theorem isDesynced_of_live {state : BookState} (live : state.isLive = true) :
    isDesynced state = false := by
  cases state <;> first | rfl | cases live

/-- One frame of a trusted book: it stays trusted, or its repair is asked for. -/
theorem covered_live (loud : Loud v awaits) (sound : Sound awaits stream s) {frame : RawFrame}
    {t : VenueState σ ω} (own : frame.stream = stream)
    (found : s.agg.streams.find? stream = some t) (live : t.book.book.state.isLive = true) :
    (t.book.feed v arith frame).2.book.state.isLive = true ∨
      (s.apply v arith ops stream (.frame frame)).pending :=
  (answered_feed loud (sound.waiting t found) live).imp id
    (pending_of_fault sound.counted own found (isDesynced_of_live live))

/-- A snapshot that takes covers the book. -/
theorem covered_takes (sound : Sound awaits stream s) {frame : RawFrame} {t : VenueState σ ω}
    (own : frame.stream = stream) (found : s.agg.streams.find? stream = some t)
    (down : t.book.book.state.isLive = false) (takes : Takes v t.book (.frame frame)) :
    (t.book.feed v arith frame).2.book.state.isLive = true ∨
      (s.apply v arith ops stream (.frame frame)).pending := by
  have status : statusOf (t.book.feed v arith frame).2.book.state = _ :=
    congrArg View.status (view_deliver v arith (.frame frame) (.inl down))
  rcases takes with trusted | ⟨fault, blank⟩
  · exact .inl (statusOf_live.mp (status.trans trusted))
  · refine .inr (pending_of_fault sound.counted own found (by rw [blank]; rfl) ?_)
    rw [← faultyStatus_statusOf, status]
    exact fault

/-- Receiving a frame of the stream covers the book if it was covered or the frame takes. -/
theorem covered_frame (loud : Loud v awaits) (sound : Sound awaits stream s) {frame : RawFrame}
    (own : frame.stream = stream)
    (safe : Covered stream s ∨ ∀ t, s.agg.streams.find? stream = some t →
      Takes v t.book (.frame frame)) :
    Covered stream (s.apply v arith ops stream (.frame frame)) := by
  intro t found
  rcases find?_apply found with ⟨other, _⟩ | ⟨_, prior, was, book⟩
  · exact absurd own.symm other
  · rw [book]
    cases live : prior.book.book.state.isLive with
    | true => exact covered_live loud sound own was live
    | false =>
      rcases safe with covered | takes
      · rcases covered prior was with up | pending
        · exact Bool.noConfusion (live.symm.trans up)
        · exact .inr (pending_apply _ pending)
      · exact covered_takes sound own was live (takes prior was)

theorem covered_foreign {message : IngestMessage} (other : message.stream ≠ stream)
    (covered : Covered stream s) : Covered stream (s.apply v arith ops stream message) := by
  intro t found
  rcases find?_apply found with ⟨_, was⟩ | ⟨same, _⟩
  · exact (covered t was).imp id (pending_apply message)
  · exact absurd same.symm other

/-- A receive keeps the snapshot on its way, or takes it. -/
theorem kept_receive (loud : Loud v awaits) (sound : Sound awaits stream s) {item : Item}
    {rest : List Item} (queue : s.channel.queue = item :: rest)
    (safe : item.snapshotOf = some s.session → Covered stream s ∨
      ∀ t, s.agg.streams.find? stream = some t → Takes v t.book item.message)
    (kept : SnapshotKept stream s) :
    SnapshotKept stream
      ({ s with channel := { s.channel with queue := rest } }.apply v arith ops stream
        item.message) := by
  have ordinary_covered : Ordinary stream item → (Covered stream s ∨ item.message.stream = stream ∧
      ∀ t, s.agg.streams.find? stream = some t → Takes v t.book item.message) →
      Covered stream (s.apply v arith ops stream item.message) := by
    intro ordinary safe
    by_cases own : item.message.stream = stream
    · obtain ⟨frame, raw⟩ := ordinary own
      rw [raw] at own safe ⊢
      exact covered_frame loud sound own (safe.imp id And.right)
    · exact covered_foreign own (safe.resolve_right fun h => own h.1)
  rcases kept with ⟨before, snapshot, after, split, current, own, all⟩ | ⟨all, covered⟩
  · cases before with
    | nil =>
      obtain ⟨rfl, rfl⟩ := List.cons.inj (queue.symm.trans split)
      refine .inr ⟨fun x mem => all x (List.mem_cons_of_mem _ mem), ?_⟩
      exact ordinary_covered (all _ List.mem_cons_self) ((safe current).imp id fun h => ⟨own, h⟩)
    | cons first before =>
      obtain ⟨rfl, rfl⟩ := List.cons.inj (queue.symm.trans split)
      exact .inl ⟨before, snapshot, after, rfl, current, own, all⟩
  · refine .inr ⟨fun x mem => all x (queue ▸ List.mem_cons_of_mem _ mem), ?_⟩
    exact ordinary_covered (all item (queue ▸ List.mem_cons_self)) (.inl covered)

end Receives

section Steps

variable (v arith ops stream)

/-- Everything a step can do. -/
inductive Moves (s : System σ ω) : Action → System σ ω → Prop
  | idle (action : Action) : Moves s action s
  | connects : Moves s .connected { s with phase := .reading false }
  | finishes (action : Action) (now : IngestTime) (ending : SessionEnd) (seen : Nat)
      (counted : seen = s.seen ∨ seen = s.requests) :
      Moves s action { s.finish stream now ending with seen := seen }
  | reconnects : Moves s .reconnect { s with phase := .connecting, session := s.session + 1 }
  | sendsFrame (frame : RawFrame) :
      Moves s (.sendFrame frame) (s.push ⟨.frame { frame with stream := stream }, none⟩)
  | sendsSnapshot (frame : RawFrame) :
      Moves s (.sendSnapshot frame)
        { s.push ⟨.frame { frame with stream := stream }, some s.session⟩ with
          phase := .reading true }
  | sendsForeign (message : IngestMessage) (other : message.stream ≠ stream) :
      Moves s (.sendForeign message) (s.push ⟨message, none⟩)
  | receives (item : Item) (rest : List Item) (queue : s.channel.queue = item :: rest) :
      Moves s .receive
        ({ s with channel := { s.channel with queue := rest } }.apply v arith ops stream
          item.message)

theorem step_moves (s : System σ ω) (action : Action) :
    Moves v arith ops stream s action (step v arith ops stream s action) := by
  cases action with
  | connected =>
    rw [step]
    split
    · exact .connects
    · exact .idle _
  | connectFailed now =>
    rw [step]
    split
    · exact .finishes _ now .connectFailed s.seen (.inl rfl)
    · exact .idle _
  | sendFrame frame =>
    rw [step]
    split
    · exact .sendsFrame frame
    · exact .idle _
  | sendSnapshot frame =>
    rw [step]
    split
    · exact .sendsSnapshot frame
    · exact .idle _
  | endSession now ending =>
    rw [step]
    split
    · split
      · exact .finishes _ now ending s.seen (.inl rfl)
      · exact .idle _
    · exact .idle _
  | actOnRequest now =>
    rw [step]
    split
    · split
      · exact .finishes _ now .resyncRequested s.requests (.inr rfl)
      · exact .idle _
    · exact .idle _
  | reconnect =>
    rw [step]
    split
    · exact .reconnects
    · exact .idle _
  | sendForeign message =>
    rw [step]
    split
    · exact .idle _
    · rename_i other
      exact .sendsForeign message other
  | receive =>
    cases queue : s.channel.queue with
    | nil =>
      simp only [step, Channel.tryRecv, queue]
      exact .idle _
    | cons item rest =>
      simp only [step, Channel.tryRecv, queue]
      exact .receives item rest queue

end Steps

/-- What one step keeps: the soundness of the parts, whatever the step. -/
theorem sound_step (loud : Loud v awaits) (sound : Sound awaits stream s) (action : Action) :
    Sound awaits stream (step v arith ops stream s action) := by
  generalize moved : step v arith ops stream s action = after
  have move := moved ▸ step_moves v arith ops stream s action
  cases move with
  | idle => exact sound
  | connects => exact ⟨sound.opened, sound.counted, sound.raw, sound.waiting⟩
  | reconnects => exact ⟨sound.opened, sound.counted, sound.raw, sound.waiting⟩
  | finishes _ now ending seen counted =>
    have pushed : Sound awaits stream (s.push ⟨.sessionEnded stream now ending, none⟩) :=
      sound.push fun _ => sessionEnded_raw stream now ending
    refine ⟨pushed.opened, ?_, pushed.raw, pushed.waiting⟩
    rcases counted with rfl | rfl
    · exact sound.counted
    · exact Nat.le_refl _
  | sendsFrame frame => exact sound.push fun _ => frame_raw _
  | sendsSnapshot frame =>
    have pushed : Sound awaits stream
        (s.push ⟨.frame { frame with stream := stream }, some s.session⟩) :=
      sound.push fun _ => frame_raw _
    exact ⟨pushed.opened, pushed.counted, pushed.raw, pushed.waiting⟩
  | sendsForeign message other => exact sound.push fun own => absurd own other
  | receives item rest queue =>
    exact (sound.dequeue queue).apply loud (sound.raw item (queue ▸ List.mem_cons_self))

/-- A snapshot that was just sent is the last item. -/
theorem kept_sent (sound : Sound awaits stream s) {item : Item} (phase : Phase)
    (current : item.snapshotOf = some s.session) (own : item.message.stream = stream)
    (ordinary : Ordinary stream item) :
    SnapshotKept stream { s.push item with phase := phase } := by
  have last : ∀ x ∈ [item], Ordinary stream x := by simpa using ordinary
  rcases push_queue sound.opened item with queue | ⟨old, rest, _, _, queue⟩
  · exact .inl ⟨s.channel.queue, item, [], queue, current, own, last⟩
  · exact .inl ⟨rest, item, [], queue, current, own, last⟩

/-- What one safe step keeps: a snapshot that was sent arrives, or is not needed. -/
theorem kept_step (loud : Loud v awaits) (inv : Inv awaits stream s) (action : Action)
    (safe : SnapshotSafe v stream s action)
    (reading : (step v arith ops stream s action).phase = .reading true) :
    SnapshotKept stream (step v arith ops stream s action) := by
  generalize moved : step v arith ops stream s action = after at reading ⊢
  have move := moved ▸ step_moves v arith ops stream s action
  cases move with
  | idle => exact inv.kept reading
  | connects => cases reading
  | reconnects => cases reading
  | finishes => cases reading
  | sendsFrame frame =>
    exact kept_push inv.sound (fun _ => ⟨_, rfl⟩) (safe reading) (inv.kept reading)
  | sendsSnapshot frame => exact kept_sent inv.sound (.reading true) rfl rfl fun _ => ⟨_, rfl⟩
  | sendsForeign message other =>
    exact kept_push inv.sound (fun same => absurd same other)
      (fun old rest queue tag full => safe reading old rest queue tag other full)
      (inv.kept reading)
  | receives item rest queue =>
    exact kept_receive loud inv.sound queue (safe reading item rest queue) (inv.kept reading)

theorem inv_step (loud : Loud v awaits) (s : System σ ω) (action : Action)
    (inv : Inv awaits stream s) (safe : SnapshotSafe v stream s action) :
    Inv awaits stream (step v arith ops stream s action) :=
  ⟨sound_step loud inv.sound action, kept_step loud inv action safe⟩

theorem inv_start (awaits : σ → Prop) (specs : List (VenueSpec σ)) (capacity : Nat)
    (positive : 0 < capacity) (windows : ω) (now : IngestTime) (sink : Bool) :
    Inv awaits stream (start v specs capacity positive windows now sink) := by
  refine ⟨⟨rfl, Nat.le_refl 0, fun _ mem => absurd mem List.not_mem_nil, fun t found => ?_⟩,
    fun reading => Phase.noConfusion reading⟩
  obtain ⟨spec, _, _, rfl⟩ := find?_new found
  intro _
  rw [new_state]
  rfl

/-- In every state of a run that keeps its snapshots, somebody repairs the book. -/
theorem book_repaired {J : Type u} {K : Type v} (w : Wires J K) (arith : DecimalArith)
    (ops : WindowOps ω) (stream : StreamId) (specs : List (VenueSpec AnySync)) (capacity : Nat)
    (positive : 0 < capacity) (windows : ω) (now : IngestTime) (sink : Bool)
    (actions : List Action)
    (safe : Meets (step (anySync w) arith ops stream) (SnapshotSafe (anySync w) stream)
      (start (anySync w) specs capacity positive windows now sink) actions) :
    Repaired stream (exec (step (anySync w) arith ops stream)
      (start (anySync w) specs capacity positive windows now sink) actions) :=
  (exec_invariant (inv_step (anySync_loud w))
    (inv_start awaits specs capacity positive windows now sink) safe).repaired

section Sample

open KrakenChecksums KrakenFeed

def updateData : String :=
  "[\x7b\"symbol\":\"BTC/USD\",\"bids\":[\x7b\"price\":99,\"qty\":2\x7d],\"asks\":[],\"checksum\":2492247126\x7d]"

def updateText : String :=
  "\x7b\"channel\":\"book\",\"type\":\"update\",\"data\":" ++ updateData ++ "\x7d"

def updateEntry : BookText where
  symbol := "BTC/USD"
  bids := [⟨"99", "2"⟩]
  asks := []
  checksum := some 2492247126
  timestamp := none

def wrongData : String :=
  "[\x7b\"symbol\":\"BTC/USD\",\"bids\":[\x7b\"price\":99,\"qty\":2\x7d],\"asks\":[],\"checksum\":1\x7d]"

def wrongText : String :=
  "\x7b\"channel\":\"book\",\"type\":\"update\",\"data\":" ++ wrongData ++ "\x7d"

/-- Wires that read one Kraken snapshot, one update and one with a wrong checksum. -/
def krakenWires : Wires String String where
  coinbase := CoinbaseFeed.tableWire [] []
  kraken := tableWire
    [(sampleText, ⟨some "book", some "snapshot", some sampleData⟩),
      (updateText, ⟨some "book", some "update", some updateData⟩),
      (wrongText, ⟨some "book", some "update", some wrongData⟩)]
    [(sampleData, [sampleEntry]), (updateData, [updateEntry]),
      (wrongData, [{ updateEntry with checksum := some 1 }])] crcAscii
  bitstamp := BitstampFeed.tableWire [] [] []

def krakenStream : StreamId := ⟨.kraken, ⟨"BTC-USD"⟩⟩

def krakenFrame (text : String) : RawFrame := ⟨krakenStream, .text text, ⟨0, 0⟩, .webSocket⟩

def krakenSpecs : List (VenueSpec AnySync) :=
  [⟨.kraken (KrakenSync.new "BTC/USD"), ⟨"BTC-USD"⟩, some 10⟩]

def sampleStep : System AnySync Unit → Action → System AnySync Unit :=
  step (anySync krakenWires) DecimalArith.idle noWindows krakenStream

def sampleStart (capacity : Nat) (positive : 0 < capacity) : System AnySync Unit :=
  start (anySync krakenWires) krakenSpecs capacity positive () ⟨0, 0⟩ false

def bookState (s : System AnySync Unit) : Option BookState :=
  (s.agg.streams.find? krakenStream).map (fun t => t.book.book.state)

/-- Capacity one: a wrong checksum raises a request, and then an update drops the snapshot of
the next session. -/
def droppedLater : List Action :=
  [.connected, .sendSnapshot (krakenFrame sampleText), .receive,
    .sendFrame (krakenFrame wrongText), .receive, .endSession ⟨1, 1⟩ .closed, .reconnect,
    .connected, .sendSnapshot (krakenFrame sampleText), .sendFrame (krakenFrame updateText),
    .receive]

/-- Nothing is queued and the book is not live, but the request is still there. -/
theorem book_repaired_dropped_later :
    Repaired krakenStream (exec sampleStep (sampleStart 1 (by decide)) droppedLater) ∧
      (exec sampleStep (sampleStart 1 (by decide)) droppedLater).phase = .reading true ∧
      (exec sampleStep (sampleStart 1 (by decide)) droppedLater).channel.queue.length = 0 ∧
      (bookState (exec sampleStep (sampleStart 1 (by decide)) droppedLater)).map BookState.isLive =
        some false :=
  ⟨book_repaired krakenWires .idle noWindows krakenStream krakenSpecs 1 (by decide) () ⟨0, 0⟩ false
    droppedLater (by decide +kernel), by decide +kernel, by decide +kernel, by decide +kernel⟩

/-- Capacity one: the update drops the snapshot, and the blank book refuses the update. -/
def crowdedOut : List Action :=
  [.connected, .sendSnapshot (krakenFrame sampleText), .sendFrame (krakenFrame updateText),
    .receive]

theorem crowded_out_snapshot_unrepaired :
    ¬ ∀ (J K : Type) (w : Wires J K) (arith : DecimalArith) (ops : WindowOps Unit)
      (stream : StreamId) (specs : List (VenueSpec AnySync)) (capacity : Nat)
      (positive : 0 < capacity) (now : IngestTime) (sink : Bool) (actions : List Action),
      Repaired stream (exec (step (anySync w) arith ops stream)
        (start (anySync w) specs capacity positive () now sink) actions) := by
  intro claim
  have repaired := claim String String krakenWires .idle noWindows krakenStream krakenSpecs 1
    (by decide) ⟨0, 0⟩ false crowdedOut
  have blank : bookState (exec sampleStep (sampleStart 1 (by decide)) crowdedOut) =
      some .uninitialized := by decide +kernel
  have drained : (exec sampleStep (sampleStart 1 (by decide)) crowdedOut).channel.queue.isEmpty =
      true := by decide +kernel
  obtain ⟨t, found, state⟩ := Option.map_eq_some_iff.mp blank
  have unqueued : ∀ item ∈ (exec sampleStep (sampleStart 1 (by decide)) crowdedOut).channel.queue,
      item.message.stream ≠ krakenStream := by
    rw [List.isEmpty_iff.mp drained]
    exact fun _ mem => absurd mem List.not_mem_nil
  have due := repaired t found (by rw [state]; rfl) unqueued
  exact absurd due (by decide +kernel)

end Sample

end SnapshotRepair

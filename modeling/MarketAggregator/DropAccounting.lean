import MarketAggregator.AggregatorApply
import MarketAggregator.CoinbaseCompleteness
import MarketAggregator.IngestChannel

/-!
# What becomes of every message

A ledger keeps what the channel accepted, handed out and evicted. Every accepted
item is received, queued or evicted, in the order it was sent. The counters that an
operator reads are kept elsewhere: the aggregator counts what it applies, and the
task whose send evicts counts one drop, whoever sent the message that is gone.
-/

namespace DropAccounting

open AggregatorApply Clocks Decimals GuardedRuns IngestChannel MarketEvents OrderedMaps
  VenueBooks VenueStreams

universe u v

/-- A channel with the whole history of its items. -/
structure Ledger (T : Type u) where
  channel : Channel T
  accepted : List T
  received : List T
  evicted : List T

inductive ChannelOp (T : Type u) where
  | send (item : T)
  | receive
  | close

namespace Ledger

variable {T : Type u}

def bounded (capacity : Nat) (positive : 0 < capacity) : Ledger T where
  channel := Channel.bounded capacity positive
  accepted := []
  received := []
  evicted := []

def send (l : Ledger T) (item : T) : Ledger T :=
  match l.channel.send item with
  | (.sent, channel) => { l with channel := channel, accepted := l.accepted ++ [item] }
  | (.droppedOldest old, channel) =>
    { l with
      channel := channel
      accepted := l.accepted ++ [item]
      evicted := l.evicted ++ [old] }
  | (.closed _, channel) => { l with channel := channel }

def receive (l : Ledger T) : Ledger T :=
  match l.channel.tryRecv with
  | (some item, channel) => { l with channel := channel, received := l.received ++ [item] }
  | (none, channel) => { l with channel := channel }

def close (l : Ledger T) : Ledger T := { l with channel := { l.channel with closed := true } }

def step (l : Ledger T) : ChannelOp T → Ledger T
  | .send item => l.send item
  | .receive => l.receive
  | .close => l.close

structure Conserved (capacity : Nat) (l : Ledger T) : Prop where
  fixed : l.channel.capacity = capacity
  bounded : l.channel.queue.length ≤ capacity
  ordered : (l.received ++ l.channel.queue).Sublist l.accepted
  partitioned : l.accepted.Perm (l.received ++ l.channel.queue ++ l.evicted)
  counted : l.channel.dropped = l.evicted.length

/-- A send puts its item last; it evicts nothing, or the item queued first. -/
structure OldestFirst (l : Ledger T) (item : T) : Prop where
  newest : (l.send item).channel.queue.getLast? = some item
  oldest : (l.send item).evicted = l.evicted ∨ ∃ old rest, l.channel.queue = old :: rest ∧
    (l.send item).evicted = l.evicted ++ [old] ∧ (l.send item).channel.queue = rest ++ [item]

/-- What a send does: it is refused, queued, or queued in the place of the oldest item. -/
theorem send_cases (l : Ledger T) (item : T) :
    (l.channel.closed = true ∧ l.send item = l) ∨
      (l.channel.closed = false ∧ l.channel.queue.length < l.channel.capacity ∧ l.send item =
        { l with
          channel := { l.channel with queue := l.channel.queue ++ [item] }
          accepted := l.accepted ++ [item] }) ∨
      ∃ old rest, l.channel.closed = false ∧ l.channel.queue = old :: rest ∧
        l.channel.capacity ≤ l.channel.queue.length ∧ l.send item =
          { l with
            channel := { l.channel with
              queue := rest ++ [item]
              dropped := l.channel.dropped + 1 }
            accepted := l.accepted ++ [item]
            evicted := l.evicted ++ [old] } := by
  cases closed : l.channel.closed with
  | true => exact .inl ⟨rfl, by simp [send, Channel.send, closed]⟩
  | false =>
    have result : l.channel.send item = ((l.channel.send item).1, (l.channel.send item).2) := rfl
    rcases Channel.send_queue closed item with
      ⟨room, outcome, sent⟩ | ⟨old, rest, queue, full, outcome, sent⟩
    · rw [outcome, sent] at result
      exact .inr (.inl ⟨rfl, room, by simp [send, result]⟩)
    · rw [outcome, sent] at result
      exact .inr (.inr ⟨old, rest, rfl, queue, full, by simp [send, result]⟩)

theorem receive_cases (l : Ledger T) :
    (l.channel.queue = [] ∧ l.receive = l) ∨
      ∃ item rest, l.channel.queue = item :: rest ∧ l.receive =
        { l with
          channel := { l.channel with queue := rest }
          received := l.received ++ [item] } := by
  cases queue : l.channel.queue with
  | nil => exact .inl ⟨rfl, by simp [receive, Channel.tryRecv, queue]⟩
  | cons item rest => exact .inr ⟨item, rest, rfl, by simp [receive, Channel.tryRecv, queue]⟩

variable {capacity : Nat} {l : Ledger T}

theorem conserved_send (h : Conserved capacity l) (item : T) :
    Conserved capacity (l.send item) := by
  rcases l.send_cases item with ⟨_, sent⟩ | ⟨_, room, sent⟩ | ⟨old, rest, _, queue, _, sent⟩
  · rw [sent]
    exact h
  · rw [sent]
    have fits : l.channel.queue.length < capacity := h.fixed ▸ room
    refine ⟨h.fixed, ?_, ?_, ?_, h.counted⟩
    · simpa using Nat.succ_le_of_lt fits
    · simpa using h.ordered.append (List.Sublist.refl [item])
    · refine (h.partitioned.append_right [item]).trans ?_
      simpa using (List.perm_append_singleton item l.evicted).append_left
        (l.received ++ l.channel.queue)
  · rw [sent]
    have bounded := h.bounded
    have ordered := h.ordered
    have partitioned := h.partitioned
    rw [queue] at bounded ordered partitioned
    refine ⟨h.fixed, by simpa using bounded, ?_, ?_, by simp [h.counted]⟩
    · have kept : (l.received ++ rest).Sublist l.accepted :=
        ((List.sublist_cons_self old rest).append_left l.received).trans ordered
      simpa using kept.append (List.Sublist.refl [item])
    · refine (partitioned.append_right [item]).trans ?_
      have out : (l.received ++ old :: rest ++ l.evicted ++ [item]).Perm
          (old :: (l.received ++ rest ++ (l.evicted ++ [item]))) := by
        simp
      refine out.trans ((List.perm_append_comm.append_left _).cons old |>.trans ?_)
      simpa using (List.perm_append_singleton old (l.received ++ rest ++ item :: l.evicted)).symm

theorem conserved_receive (h : Conserved capacity l) : Conserved capacity l.receive := by
  rcases l.receive_cases with ⟨_, taken⟩ | ⟨item, rest, queue, taken⟩
  · rw [taken]
    exact h
  · rw [taken]
    have bounded := h.bounded
    have ordered := h.ordered
    have partitioned := h.partitioned
    rw [queue] at bounded ordered partitioned
    exact ⟨h.fixed, Nat.le_of_succ_le bounded, by simpa using ordered, by simpa using partitioned,
      h.counted⟩

theorem conserved_step (l : Ledger T) (op : ChannelOp T) (h : Conserved capacity l) :
    Conserved capacity (l.step op) := by
  cases op with
  | send item => exact conserved_send h item
  | receive => exact conserved_receive h
  | close => exact ⟨h.fixed, h.bounded, h.ordered, h.partitioned, h.counted⟩

theorem oldestFirst (l : Ledger T) (item : T) (opened : l.channel.closed = false) :
    OldestFirst l item := by
  rcases l.send_cases item with ⟨closed, _⟩ | ⟨_, _, sent⟩ | ⟨old, rest, _, queue, _, sent⟩
  · exact Bool.noConfusion (opened.symm.trans closed)
  · exact ⟨by simp [sent], .inl (by rw [sent])⟩
  · exact ⟨by simp [sent], .inr ⟨old, rest, queue, by rw [sent], by rw [sent]⟩⟩

end Ledger

/-- The channel keeps the newest items in order and accounts for every other one. -/
theorem queue_conserved {T : Type u} (capacity : Nat) (positive : 0 < capacity)
    (ops : List (ChannelOp T)) :
    (exec Ledger.step (Ledger.bounded capacity positive) ops).Conserved capacity ∧
      ((exec Ledger.step (Ledger.bounded capacity positive) ops).channel.closed = false →
        ∀ item, (exec Ledger.step (Ledger.bounded capacity positive) ops).OldestFirst item) := by
  have start : (Ledger.bounded capacity positive : Ledger T).Conserved capacity :=
    ⟨rfl, Nat.zero_le _, List.Sublist.refl _, List.Perm.refl _, rfl⟩
  constructor
  · exact exec_keeps Ledger.conserved_step start ops
  · intro opened item
    exact Ledger.oldestFirst _ item opened

/-- Two places: the first of three items is evicted, the second received. -/
def crowdedRun : List (ChannelOp Nat) :=
  [.send 1, .send 2, .send 3, .receive, .send 4]

theorem queue_conserved_crowded :
    (exec Ledger.step (Ledger.bounded 2 (by decide)) crowdedRun).Conserved 2 ∧
      ∀ item, (exec Ledger.step (Ledger.bounded 2 (by decide)) crowdedRun).OldestFirst item := by
  have conserved := queue_conserved 2 (by decide) crowdedRun
  exact ⟨conserved.1, conserved.2 (by decide)⟩

/-- The ledger of the shared channel, its reader, and the drop counter of each stream. -/
structure Pipeline (σ : Type u) (ω : Type v) where
  ledger : Ledger IngestMessage
  agg : Aggregator σ ω
  dropped : StreamId → Nat

inductive Action where
  | publish (message : IngestMessage)
  | release (stream : StreamId) (now : IngestTime)
  | apply
  | close

section Charges

variable {σ : Type u} {ω : Type v} (v : VenueSync σ) (arith : DecimalArith) (ops : WindowOps ω)

namespace Pipeline

def new (specs : List (VenueSpec σ)) (windows : ω) (now : IngestTime) (sink : Bool)
    (capacity : Nat) (positive : 0 < capacity) : Pipeline σ ω where
  ledger := Ledger.bounded capacity positive
  agg := Aggregator.new v specs windows now sink
  dropped := fun _ => 0

def recordDrop (s : Pipeline σ ω) (stream : StreamId) : Pipeline σ ω :=
  { s with dropped := fun x => if x = stream then s.dropped x + 1 else s.dropped x }

/-- The task of the message's stream sends it, and counts on its own counters. -/
def publish (s : Pipeline σ ω) (message : IngestMessage) : Pipeline σ ω :=
  let sent := { s with ledger := s.ledger.send message }
  match (s.ledger.channel.send message).1 with
  | .sent => sent
  | .droppedOldest _ => sent.recordDrop message.stream
  | .closed _ => sent

/-- The supervisor sends the boundary itself and looks at no outcome. -/
def release (s : Pipeline σ ω) (stream : StreamId) (now : IngestTime) : Pipeline σ ω :=
  { s with ledger := s.ledger.send (.sessionEnded stream now .errored) }

def applyNext (s : Pipeline σ ω) : Pipeline σ ω :=
  match s.ledger.channel.tryRecv.1 with
  | none => s
  | some message =>
    { s with
      ledger := s.ledger.receive
      agg := (apply v arith ops s.agg message).1 }

def step (s : Pipeline σ ω) : Action → Pipeline σ ω
  | .publish message => s.publish message
  | .release stream now => s.release stream now
  | .apply => s.applyNext v arith ops
  | .close => { s with ledger := s.ledger.close }

def tracked (s : Pipeline σ ω) (x : StreamId) : Bool := (s.agg.streams.find? x).isSome

def applied (s : Pipeline σ ω) (x : StreamId) : Nat :=
  ((s.agg.streams.find? x).map (fun t => t.counters.applied)).getD 0

end Pipeline

def countOf (x : StreamId) (messages : List IngestMessage) : Nat :=
  messages.countP (fun message => message.stream = x)

/-- What an operator reads adds up: every accepted message is applied, dropped or queued. -/
def Balanced (s : Pipeline σ ω) : Prop :=
  ∀ x, s.tracked x → countOf x s.ledger.accepted =
    s.applied x + s.dropped x + countOf x s.ledger.channel.queue

/-- The message that a send in this state evicts. -/
def victim (s : Pipeline σ ω) : Option IngestMessage :=
  if s.ledger.channel.closed then none
  else if s.ledger.channel.capacity ≤ s.ledger.channel.queue.length then
    s.ledger.channel.queue.head?
  else none

/-- The counter that a send charges, if any, is that of the stream that loses a message. -/
def ChargesOwner (s : Pipeline σ ω) : Action → Prop
  | .publish message => ∀ old ∈ victim s, old.stream = message.stream ∨
      s.tracked old.stream = false ∧ s.tracked message.stream = false
  | .release .. => ∀ old ∈ victim s, s.tracked old.stream = false
  | .apply => True
  | .close => True

end Charges

section Balance

variable {σ : Type u} {ω : Type v} {v : VenueSync σ} {arith : DecimalArith} {ops : WindowOps ω}
  {s : Pipeline σ ω} {x : StreamId}

@[simp] theorem countOf_nil : countOf x [] = 0 := rfl

@[simp] theorem countOf_cons {message : IngestMessage} {messages : List IngestMessage} :
    countOf x (message :: messages) =
      countOf x messages + if message.stream = x then 1 else 0 := by
  simp [countOf, List.countP_cons]

@[simp] theorem countOf_append {messages more : List IngestMessage} :
    countOf x (messages ++ more) = countOf x messages + countOf x more := by
  simp [countOf]

/-- A send changes what is queued by its own message and by the one it evicts. -/
theorem countOf_send (message : IngestMessage) :
    countOf x (s.ledger.send message).accepted + countOf x s.ledger.channel.queue =
      countOf x s.ledger.accepted + countOf x (s.ledger.send message).channel.queue +
        countOf x (victim s).toList := by
  rcases s.ledger.send_cases message with
    ⟨closed, sent⟩ | ⟨opened, room, sent⟩ | ⟨old, rest, opened, queue, full, sent⟩
  · have kept : victim s = none := by simp [victim, closed]
    simp [sent, kept]
  · have kept : victim s = none := by simp [victim, opened, Nat.not_le.mpr room]
    simp only [sent, kept, countOf_append, Option.toList_none, countOf_nil]
    omega
  · have gone : victim s = some old := by
      rw [victim, if_neg (by simp [opened]), if_pos full, queue, List.head?_cons]
    simp only [sent, gone, queue, countOf_append, countOf_cons, Option.toList_some, countOf_nil]
    omega

/-- A publish that evicts charges the stream that sends. -/
theorem publish_eq (s : Pipeline σ ω) (message : IngestMessage) : s.publish message =
    { s with
      ledger := s.ledger.send message
      dropped := fun x =>
        s.dropped x + if (victim s).isSome ∧ message.stream = x then 1 else 0 } := by
  cases closed : s.ledger.channel.closed with
  | true => simp [Pipeline.publish, Channel.send, victim, closed]
  | false =>
    rcases Channel.send_queue closed message with
      ⟨room, outcome, _⟩ | ⟨old, rest, queue, full, outcome, _⟩
    · have kept : victim s = none := by simp [victim, closed, Nat.not_le.mpr room]
      simp [Pipeline.publish, outcome, kept]
    · have gone : victim s = some old := by
        rw [victim, if_neg (by simp [closed]), if_pos full, queue, List.head?_cons]
      have charged : (fun x => if x = message.stream then s.dropped x + 1 else s.dropped x) =
          fun x => s.dropped x + if (victim s).isSome ∧ message.stream = x then 1 else 0 := by
        funext x
        by_cases own : message.stream = x
        · simp [gone, own]
        · simp [gone, own, Ne.symm own]
      simp only [Pipeline.publish, outcome, Pipeline.recordDrop, charged]

theorem applyNext_cases (v : VenueSync σ) (arith : DecimalArith) (ops : WindowOps ω)
    (s : Pipeline σ ω) : s.applyNext v arith ops = s ∨
      ∃ message rest, s.ledger.channel.queue = message :: rest ∧ s.applyNext v arith ops =
        { s with
          ledger := { s.ledger with
            channel := { s.ledger.channel with queue := rest }
            received := s.ledger.received ++ [message] }
          agg := (apply v arith ops s.agg message).1 } := by
  rcases s.ledger.receive_cases with ⟨queue, _⟩ | ⟨message, rest, queue, taken⟩
  · exact .inl (by simp [Pipeline.applyNext, Channel.tryRecv, queue])
  · refine .inr ⟨message, rest, queue, ?_⟩
    have next : s.ledger.channel.tryRecv.1 = some message := by simp [Channel.tryRecv, queue]
    simp only [Pipeline.applyNext, next, taken]

theorem tracked_step (s : Pipeline σ ω) (a : Action) (x : StreamId) :
    (s.step v arith ops a).tracked x = s.tracked x := by
  cases a with
  | publish message =>
    rw [Pipeline.step, publish_eq, Pipeline.tracked, Pipeline.tracked]
  | release stream now => rfl
  | close => rfl
  | apply =>
    rcases applyNext_cases v arith ops s with same | ⟨message, rest, _, next⟩
    · rw [Pipeline.step, same]
    · rw [Pipeline.step, next, Pipeline.tracked, apply_find, Pipeline.tracked]
      split <;> simp

variable (v arith ops) in
theorem applied_apply {agg : Aggregator σ ω} (message : IngestMessage)
    (found : (agg.streams.find? x).isSome) :
    (((apply v arith ops agg message).1.streams.find? x).map (fun t => t.counters.applied)).getD 0 =
      ((agg.streams.find? x).map (fun t => t.counters.applied)).getD 0 +
        if message.stream = x then 1 else 0 := by
  obtain ⟨t, here⟩ := Option.isSome_iff_exists.mp found
  rw [apply_find, here]
  by_cases own : x = message.stream
  · simp [own, applyToStream_applied]
  · simp [own, Ne.symm own]

/-- A send that charges each stream some drops keeps the balance when these are its losses. -/
theorem balanced_send (h : Balanced s) (message : IngestMessage) (charge : StreamId → Nat) :
    Balanced { s with
      ledger := s.ledger.send message
      dropped := fun x => s.dropped x + charge x } ↔
    ∀ x, s.tracked x → countOf x (victim s).toList = charge x := by
  refine forall_congr' fun x => forall_congr' fun known => ?_
  have before := h x known
  have moved := countOf_send (s := s) (x := x) message
  simp only [Pipeline.applied] at before ⊢
  constructor <;> intro equal <;> omega

theorem balanced_publish (h : Balanced s) (message : IngestMessage) :
    Balanced (s.publish message) ↔ ChargesOwner s (.publish message) := by
  rw [publish_eq, balanced_send h message
    (fun x => if (victim s).isSome ∧ message.stream = x then 1 else 0)]
  cases gone : victim s with
  | none => simp [ChargesOwner, gone]
  | some old =>
    constructor
    · intro equal other mem
      obtain rfl : old = other := Option.some.inj (gone.symm.trans mem)
      by_cases same : old.stream = message.stream
      · exact .inl same
      · refine .inr ⟨Bool.eq_false_iff.mpr ?_, Bool.eq_false_iff.mpr ?_⟩
        · intro known
          have lost := equal _ known
          simp [Ne.symm same] at lost
        · intro known
          have charged := equal _ known
          simp [same] at charged
    · intro owner x known
      rcases owner old gone with same | ⟨lost, sender⟩
      · simp [same]
      · have other : old.stream ≠ x := fun mine => by
          rw [mine, known] at lost
          cases lost
        have foreign : message.stream ≠ x := fun own => by
          rw [own, known] at sender
          cases sender
        simp [other, foreign]

theorem balanced_release (h : Balanced s) (stream : StreamId) (now : IngestTime) :
    Balanced (s.release stream now) ↔ ChargesOwner s (.release stream now) := by
  refine (balanced_send h (.sessionEnded stream now .errored) (fun _ => 0)).trans ?_
  cases gone : victim s with
  | none => simp [ChargesOwner, gone]
  | some old =>
    constructor
    · intro equal other mem
      obtain rfl : old = other := Option.some.inj (gone.symm.trans mem)
      refine Bool.eq_false_iff.mpr fun known => ?_
      have lost := equal _ known
      simp at lost
    · intro owner x known
      have other : old.stream ≠ x := fun mine => by
        have lost := owner old gone
        rw [mine, known] at lost
        cases lost
      simp [other]

theorem balanced_apply (h : Balanced s) : Balanced (s.applyNext v arith ops) := by
  rcases applyNext_cases v arith ops s with same | ⟨message, rest, queue, next⟩
  · rw [same]
    exact h
  · intro x known
    have watched : s.tracked x := (tracked_step s .apply x).symm.trans known
    have before := h x watched
    have counted := applied_apply v arith ops message watched
    rw [queue, countOf_cons] at before
    simp only [next, Pipeline.applied] at before counted ⊢
    omega

theorem balanced_step (s : Pipeline σ ω) (a : Action) (h : Balanced s) :
    Balanced (s.step v arith ops a) ↔ ChargesOwner s a := by
  cases a with
  | publish message => exact balanced_publish h message
  | release stream now => exact balanced_release h stream now
  | apply => exact iff_of_true (balanced_apply h) trivial
  | close => exact iff_of_true h trivial

theorem balanced_new {specs : List (VenueSpec σ)} {windows : ω} {now : IngestTime} {sink : Bool}
    {capacity : Nat} {positive : 0 < capacity} :
    Balanced (Pipeline.new v specs windows now sink capacity positive) := by
  intro x known
  obtain ⟨t, found⟩ := Option.isSome_iff_exists.mp known
  have made : (Aggregator.new v specs windows now sink).streams.find? x = some t := found
  obtain ⟨spec, _, _, rfl⟩ := find?_new made
  have fresh : (Pipeline.new v specs windows now sink capacity positive).applied x = 0 := by
    rw [Pipeline.applied, found]
    rfl
  rw [fresh]
  rfl

/-- The counters add up in every state exactly when every send charges the stream that loses. -/
theorem drops_charged_iff (v : VenueSync σ) (arith : DecimalArith) (ops : WindowOps ω)
    (specs : List (VenueSpec σ)) (windows : ω) (now : IngestTime) (sink : Bool) (capacity : Nat)
    (positive : 0 < capacity) (acts : List Action) :
    (∀ past rest, past ++ rest = acts → Balanced
      (exec (Pipeline.step v arith ops)
        (Pipeline.new v specs windows now sink capacity positive) past)) ↔
    Meets (Pipeline.step v arith ops) ChargesOwner
      (Pipeline.new v specs windows now sink capacity positive) acts :=
  holds_iff_meets balanced_step balanced_new acts

end Balance

section Sample

open CoinbaseCompleteness CoinbaseFeed

def twoStreams : List (VenueSpec CoinbaseSync) :=
  [⟨CoinbaseSync.new "BTC-USD", ⟨"BTC-USD"⟩, none⟩, ⟨CoinbaseSync.new "ETH-USD", ⟨"ETH-USD"⟩, none⟩]

/-- One frame, and before it is read the end of its own stream's session. -/
def evictedByOwner : List Action :=
  [.publish (.frame (sampleFrame "{}")),
    .publish (.sessionEnded ⟨.coinbase, ⟨"BTC-USD"⟩⟩ ⟨1, 1⟩ .closed), .apply]

theorem drops_charged_owner :
    Balanced (exec (Pipeline.step (CoinbaseSync.sync (tableWire [] [])) DecimalArith.idle noWindows)
      (Pipeline.new (CoinbaseSync.sync (tableWire [] [])) twoStreams () ⟨0, 0⟩ false 1 (by decide))
      evictedByOwner) := by
  refine (drops_charged_iff (CoinbaseSync.sync (tableWire [] [])) DecimalArith.idle noWindows
    twoStreams () ⟨0, 0⟩ false 1 (by decide) evictedByOwner).mpr
    ⟨?_, ?_, trivial, trivial⟩ evictedByOwner [] (List.append_nil _)
  · rintro old ⟨⟩
  · rintro old ⟨⟩
    exact .inl rfl

/-- One frame, and before it is read the end of the other stream's session. -/
def evictedByOther : List Action :=
  [.publish (.frame (sampleFrame "{}")),
    .publish (.sessionEnded ⟨.coinbase, ⟨"ETH-USD"⟩⟩ ⟨1, 1⟩ .closed)]

theorem evicted_by_other_unbalanced :
    ¬ ∀ (σ : Type) (v : VenueSync σ) (arith : DecimalArith) (ops : WindowOps Unit)
      (specs : List (VenueSpec σ)) (now : IngestTime) (sink : Bool) (capacity : Nat)
      (positive : 0 < capacity) (acts : List Action),
      Balanced (exec (Pipeline.step v arith ops)
        (Pipeline.new v specs () now sink capacity positive) acts) := by
  intro claim
  have balanced := claim CoinbaseSync (CoinbaseSync.sync (tableWire [] [])) DecimalArith.idle
    noWindows twoStreams ⟨0, 0⟩ false 1 (by decide) evictedByOther ⟨.coinbase, ⟨"BTC-USD"⟩⟩
  exact absurd (balanced (by decide +kernel)) (by decide +kernel)

end Sample

end DropAccounting

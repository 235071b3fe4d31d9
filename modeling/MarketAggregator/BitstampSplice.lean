import MarketAggregator.BitstampFeed
import MarketAggregator.GuardedRuns
import MarketAggregator.TrustedReplay

/-!
# Joining updates onto a REST book

What a book over a REST snapshot is meant to hold is the snapshot and the newer
updates delivered since. The first snapshot also takes the newer updates that came
before it, so its place among them does not matter. A later snapshot starts again
from its own levels.
-/

namespace BitstampSplice

open BitstampFeed BitstampSync Clocks Decimals GuardedRuns MarketEvents OrderBook TrustedReplay
  VenueBooks VenueStreams WireLevels

universe u

/-- A frame that reads as an update of the channel. -/
structure DiffFrame {J : Type u} (w : BitstampWire J) (channel : String) where
  frame : RawFrame
  diff : PendingDiff
  source : frame.source = .webSocket
  reads : ∃ data, w.envelope frame.payload = .ok ⟨"data", channel, data⟩ ∧
    readDiff w data = .ok diff

/-- A frame that reads as a REST book. -/
structure SnapshotFrame {J : Type u} (w : BitstampWire J) where
  frame : RawFrame
  snapshot : RestSnapshot
  source : frame.source = .restSnapshot
  reads : frame.asStr.bind (parseRestSnapshot w) = .ok snapshot

inductive Delivery {J : Type u} (w : BitstampWire J) (channel : String) where
  | diff (d : DiffFrame w channel)
  | snapshot (s : SnapshotFrame w)

section Model

variable {J : Type u} {w : BitstampWire J} {channel : String}

def Delivery.frame : Delivery w channel → RawFrame
  | .diff d => d.frame
  | .snapshot s => s.frame

variable (w) in
def step (arith : DecimalArith) (vb : VenueBook BitstampSync) (delivery : Delivery w channel) :
    VenueBook BitstampSync :=
  (vb.feed (sync w) arith delivery.frame).2

def diffsOf (deliveries : List (Delivery w channel)) : List PendingDiff :=
  deliveries.filterMap fun
    | .diff d => some d.diff
    | .snapshot _ => none

/-- Strictly increasing microtimestamps, over all updates delivered. -/
def Increasing (deliveries : List (Delivery w channel)) : Prop :=
  (diffsOf deliveries).Pairwise (fun a b => a.micros < b.micros)

end Model

/-- What the deliveries amount to: a snapshot and the updates counted with it. -/
inductive Joined where
  | waiting (diffs : List PendingDiff)
  | anchored (snapshot : RestSnapshot) (diffs : List PendingDiff)

namespace Joined

def diffs : Joined → List PendingDiff
  | waiting diffs => diffs
  | anchored _ diffs => diffs

variable {J : Type u} {w : BitstampWire J} {channel : String}

def next : Joined → Delivery w channel → Joined
  | waiting diffs, .diff d => waiting (diffs ++ [d.diff])
  | waiting diffs, .snapshot s => anchored s.snapshot diffs
  | anchored snapshot diffs, .diff d => anchored snapshot (diffs ++ [d.diff])
  | anchored _ _, .snapshot s => anchored s.snapshot []

end Joined

/-- The updates that a snapshot does not cover. -/
def newer (asOf : Nat) (diffs : List PendingDiff) : List PendingDiff :=
  diffs.filter (fun d => asOf < d.micros)

/-- The snapshot and the newer updates, in order, put to a book of the given depth. -/
def joinedView (depth : Option Nat) (snapshot : RestSnapshot) (diffs : List PendingDiff) : View :=
  replay (fun _ => none) depth ⟨Levels.empty, .blank⟩
    (.snapshot snapshot.bids snapshot.asks ::
      (newer snapshot.asOf diffs).map PendingDiff.delta)

/-- The code's book and mode against what the deliveries amount to. -/
def Follows (book : VenueBook BitstampSync) : Joined → Prop
  | .waiting diffs => book.sync.mode = .awaitingSnapshot diffs ∧ book.book.state.isLive = false
  | .anchored snapshot diffs =>
    book.sync.mode = .live (lastMicros snapshot.asOf (newer snapshot.asOf diffs)) snapshot.asOf ∧
      viewOf book.book = joinedView book.book.maxDepth snapshot diffs

section Step

variable {J : Type u} {w : BitstampWire J} {arith : DecimalArith} {vb : VenueBook BitstampSync}
  {channel : String}

/-- An update frame is its own update put to the sync. -/
theorem step_diff (arith : DecimalArith) (vb : VenueBook BitstampSync) (d : DiffFrame w channel)
    (own : vb.sync.channel = channel) :
    (step w arith vb (.diff d)).sync = (vb.sync.ingestDiff d.diff).2 ∧
      (step w arith vb (.diff d)).book.maxDepth = vb.book.maxDepth ∧
      viewOf (step w arith vb (.diff d)).book =
        replay (fun _ => none) vb.book.maxDepth (viewOf vb.book)
          (vb.sync.ingestDiff d.diff).1 := by
  obtain ⟨data, envelope, read⟩ := d.reads
  have ingested : vb.sync.ingest w d.frame =
      (.ok ⟨(vb.sync.ingestDiff d.diff).1, some (systemTimeFromMicros d.diff.micros)⟩,
        (vb.sync.ingestDiff d.diff).2) := by
    simp [BitstampSync.ingest, envelope, own, read]
  have source := d.source
  simp [step, Delivery.frame, VenueBook.feed, source, sync, ingested, VenueBook.applyIngested,
    view_applyActions]

theorem step_snapshot (arith : DecimalArith) (vb : VenueBook BitstampSync) (channel : String)
    (s : SnapshotFrame w) :
    (step w arith vb (.snapshot s : Delivery w channel)).sync =
        (vb.sync.applyRestSnapshot s.snapshot).2 ∧
      (step w arith vb (.snapshot s : Delivery w channel)).book.maxDepth = vb.book.maxDepth ∧
      viewOf (step w arith vb (.snapshot s : Delivery w channel)).book =
        replay (fun _ => none) vb.book.maxDepth (viewOf vb.book)
          (vb.sync.applyRestSnapshot s.snapshot).1 := by
  have source := s.source
  have read := s.reads
  simp [step, Delivery.frame, VenueBook.feed, source, sync, read, VenueBook.applyRestSnapshot,
    VenueBook.applyIngested, Ingested.untimed, view_applyActions]

theorem step_channels (delivery : Delivery w channel) (own : vb.sync.channel = channel) :
    (step w arith vb delivery).sync =
      { vb.sync with mode := (step w arith vb delivery).sync.mode } := by
  cases delivery with
  | diff d =>
    rw [(step_diff arith vb d own).1]
    exact ingestDiff_channels
  | snapshot s =>
    rw [(step_snapshot arith vb channel s).1]
    exact applyRestSnapshot_channels

theorem step_depth (delivery : Delivery w channel) (own : vb.sync.channel = channel) :
    (step w arith vb delivery).book.maxDepth = vb.book.maxDepth := by
  cases delivery with
  | diff d => exact (step_diff arith vb d own).2.1
  | snapshot s => exact (step_snapshot arith vb channel s).2.1

theorem lastMicros_lt {asOf micros : Nat} {diffs : List PendingDiff} (above : asOf < micros)
    (before : ∀ d ∈ diffs, d.micros < micros) :
    lastMicros asOf (newer asOf diffs) < micros := by
  rw [lastMicros]
  cases last : (newer asOf diffs).getLast? with
  | none => exact above
  | some d => exact before d (List.mem_of_mem_filter (List.mem_of_getLast? last))

theorem follows_waiting_diff {diffs : List PendingDiff} (d : DiffFrame w channel)
    (own : vb.sync.channel = channel) (follows : Follows vb (.waiting diffs)) :
    Follows (step w arith vb (.diff d)) (.waiting (diffs ++ [d.diff])) := by
  obtain ⟨mode, down⟩ := follows
  obtain ⟨noted, _, view⟩ := step_diff arith vb d own
  refine ⟨by simp [noted, ingestDiff, mode], ?_⟩
  by_contra live
  have status := congrArg View.status view
  rw [show (viewOf (step w arith vb (.diff d)).book).status = .live from
    statusOf_live.mpr (Bool.eq_true_of_not_eq_false live)] at status
  cases diffs with
  | nil => simp [ingestDiff, mode, act] at status
  | cons first rest =>
    have was : (viewOf vb.book).status = .live := by simpa [ingestDiff, mode, act] using status.symm
    exact Bool.noConfusion (down.symm.trans (statusOf_live.mp was))

/-- The first snapshot takes the newer updates that were kept. -/
theorem follows_waiting_snapshot {diffs : List PendingDiff} (s : SnapshotFrame w)
    (increasing : diffs.Pairwise (fun a b => a.micros < b.micros))
    (follows : Follows vb (.waiting diffs)) :
    Follows (step w arith vb (.snapshot s : Delivery w channel)) (.anchored s.snapshot diffs) := by
  obtain ⟨mode, _⟩ := follows
  obtain ⟨noted, depth, view⟩ := step_snapshot arith vb channel s
  have sorted : (newer s.snapshot.asOf diffs).insertionSort (fun a b => a.micros ≤ b.micros) =
      newer s.snapshot.asOf diffs :=
    List.Pairwise.insertionSort_eq ((increasing.filter _).imp Nat.le_of_lt)
  have spliced : splice s.snapshot.asOf (newer s.snapshot.asOf diffs) = _ :=
    splice_increasing (fun d mem => by simpa using List.of_mem_filter mem) (increasing.filter _)
  have applied : vb.sync.applyRestSnapshot s.snapshot =
      (.snapshot s.snapshot.bids s.snapshot.asks ::
          (newer s.snapshot.asOf diffs).map PendingDiff.delta,
        { vb.sync with
          mode := .live (lastMicros s.snapshot.asOf (newer s.snapshot.asOf diffs))
            s.snapshot.asOf }) := by
    simp only [applyRestSnapshot, mode]
    rw [show diffs.filter _ = newer s.snapshot.asOf diffs from rfl, sorted, spliced]
  refine ⟨by rw [noted, applied], ?_⟩
  rw [view, depth, applied]
  rfl

theorem follows_anchored_diff {snapshot : RestSnapshot} {diffs : List PendingDiff}
    (d : DiffFrame w channel) (own : vb.sync.channel = channel)
    (before : ∀ e ∈ diffs, e.micros < d.diff.micros)
    (follows : Follows vb (.anchored snapshot diffs)) :
    Follows (step w arith vb (.diff d)) (.anchored snapshot (diffs ++ [d.diff])) := by
  obtain ⟨mode, was⟩ := follows
  obtain ⟨noted, depth, view⟩ := step_diff arith vb d own
  by_cases covered : d.diff.micros ≤ snapshot.asOf
  · have same : newer snapshot.asOf (diffs ++ [d.diff]) = newer snapshot.asOf diffs := by
      simp [newer, covered]
    have ignored : vb.sync.ingestDiff d.diff = ([.ignore], vb.sync) := by
      simp [ingestDiff, mode, covered]
    refine ⟨by rw [noted, ignored, same, mode], ?_⟩
    rw [view, depth, ignored, was]
    simp [joinedView, same, act]
  · have fresh : newer snapshot.asOf (diffs ++ [d.diff]) =
        newer snapshot.asOf diffs ++ [d.diff] := by
      simp [newer, Nat.lt_of_not_le covered]
    have taken : vb.sync.ingestDiff d.diff =
        ([d.diff.delta], { vb.sync with mode := .live d.diff.micros snapshot.asOf }) := by
      simp [ingestDiff, mode, covered, PendingDiff.delta,
        checkOrder_lt (lastMicros_lt (Nat.lt_of_not_le covered) before)]
    refine ⟨by simp [noted, taken, fresh, lastMicros], ?_⟩
    rw [view, depth, taken, was]
    simp [joinedView, fresh]

/-- A live book starts again from a later snapshot. -/
theorem follows_anchored_snapshot {snapshot : RestSnapshot} {diffs : List PendingDiff}
    (s : SnapshotFrame w) (follows : Follows vb (.anchored snapshot diffs)) :
    Follows (step w arith vb (.snapshot s : Delivery w channel)) (.anchored s.snapshot []) := by
  obtain ⟨mode, _⟩ := follows
  obtain ⟨noted, depth, view⟩ := step_snapshot arith vb channel s
  have applied : vb.sync.applyRestSnapshot s.snapshot =
      ([.snapshot s.snapshot.bids s.snapshot.asks],
        { vb.sync with mode := .live s.snapshot.asOf s.snapshot.asOf }) := by
    simp [applyRestSnapshot, mode, splice]
  refine ⟨by rw [noted, applied]; rfl, ?_⟩
  rw [view, depth, applied]
  rfl

end Step

section Runs

variable {J : Type u} {w : BitstampWire J} {arith : DecimalArith} {vb : VenueBook BitstampSync}
  {channel : String}

/-- Nothing delivered yet: a new book, or one that was just reset. -/
structure Opened (vb : VenueBook BitstampSync) : Prop where
  mode : vb.sync.mode = .awaitingSnapshot []
  down : vb.book.state.isLive = false

def joined (deliveries : List (Delivery w channel)) : Joined :=
  exec Joined.next (.waiting []) deliveries

@[simp] theorem joined_append {deliveries : List (Delivery w channel)}
    {delivery : Delivery w channel} :
    joined (deliveries ++ [delivery]) = (joined deliveries).next delivery := by
  simp [joined]

/-- The updates counted are some of those delivered, in order. -/
theorem joined_sublist (deliveries : List (Delivery w channel)) :
    (joined deliveries).diffs.Sublist (diffsOf deliveries) := by
  induction deliveries using List.reverseRecOn with
  | nil => exact List.Sublist.slnil
  | append_singleton past delivery ih =>
    rw [joined_append, diffsOf, List.filterMap_append]
    cases delivery with
    | diff d => cases h : joined past <;> simpa [h, Joined.next, Joined.diffs, diffsOf] using ih
    | snapshot s =>
      cases h : joined past with
      | waiting diffs => simpa [h, Joined.next, Joined.diffs, diffsOf] using ih
      | anchored snapshot diffs => exact List.nil_sublist _

theorem follows_next (own : vb.sync.channel = channel) {past : List (Delivery w channel)}
    {delivery : Delivery w channel} (increasing : Increasing (past ++ [delivery]))
    (follows : Follows vb (joined past)) :
    Follows (step w arith vb delivery) (joined (past ++ [delivery])) := by
  rw [joined_append]
  rw [Increasing] at increasing
  rw [diffsOf, List.filterMap_append] at increasing
  obtain ⟨earlier, _, between⟩ := List.pairwise_append.mp increasing
  have counted := joined_sublist past
  cases delivery with
  | diff d =>
    have before : ∀ e ∈ (joined past).diffs, e.micros < d.diff.micros := fun e mem =>
      between e (counted.mem mem) d.diff (by simp)
    cases h : joined past with
    | waiting diffs => exact follows_waiting_diff d own (h ▸ follows)
    | anchored snapshot diffs =>
      rw [h] at before follows
      exact follows_anchored_diff d own before follows
  | snapshot s =>
    cases h : joined past with
    | waiting diffs =>
      rw [h] at counted follows
      exact follows_waiting_snapshot s (earlier.sublist counted) follows
    | anchored snapshot diffs => exact follows_anchored_snapshot s (h ▸ follows)

/-- Over every run the book is what the deliveries amount to. -/
theorem follows_run (arith : DecimalArith) (opened : Opened vb) (own : vb.sync.channel = channel)
    (deliveries : List (Delivery w channel)) (increasing : Increasing deliveries) :
    Follows (exec (step w arith) vb deliveries) (joined deliveries) ∧
      (exec (step w arith) vb deliveries).book.maxDepth = vb.book.maxDepth ∧
      (exec (step w arith) vb deliveries).sync =
        { vb.sync with mode := (exec (step w arith) vb deliveries).sync.mode } := by
  induction deliveries using List.reverseRecOn with
  | nil => exact ⟨⟨opened.mode, opened.down⟩, rfl, rfl⟩
  | append_singleton past delivery ih =>
    have earlier : Increasing past := by
      rw [Increasing] at increasing ⊢
      rw [diffsOf, List.filterMap_append] at increasing
      exact (List.pairwise_append.mp increasing).1
    obtain ⟨follows, depth, channels⟩ := ih earlier
    have still : (exec (step w arith) vb past).sync.channel = channel := by
      rw [channels]
      exact own
    rw [exec_append, exec_cons, exec_nil]
    refine ⟨follows_next still increasing follows, (step_depth delivery still).trans depth, ?_⟩
    rw [step_channels delivery still, channels]

theorem next_waiting (diffs : List PendingDiff) (more : List (DiffFrame w channel)) :
    exec Joined.next (.waiting diffs) (more.map Delivery.diff) =
      .waiting (diffs ++ more.map DiffFrame.diff) := by
  induction more generalizing diffs with
  | nil => simp
  | cons d more ih => simpa [Joined.next] using ih (diffs ++ [d.diff])

theorem next_anchored (snapshot : RestSnapshot) (diffs : List PendingDiff)
    (more : List (DiffFrame w channel)) :
    exec Joined.next (.anchored snapshot diffs) (more.map Delivery.diff) =
      .anchored snapshot (diffs ++ more.map DiffFrame.diff) := by
  induction more generalizing diffs with
  | nil => simp
  | cons d more ih => simpa [Joined.next] using ih (diffs ++ [d.diff])

@[simp] theorem diffsOf_diffs (more : List (DiffFrame w channel)) :
    diffsOf (more.map Delivery.diff) = more.map DiffFrame.diff := by
  induction more with
  | nil => rfl
  | cons d more ih =>
    rw [List.map_cons, List.map_cons, ← ih]
    rfl

@[simp] theorem diffsOf_append {deliveries more : List (Delivery w channel)} :
    diffsOf (deliveries ++ more) = diffsOf deliveries ++ diffsOf more := List.filterMap_append

@[simp] theorem diffsOf_snapshot {s : SnapshotFrame w} {more : List (Delivery w channel)} :
    diffsOf (.snapshot s :: more) = diffsOf more := rfl

/-- Wherever the REST book lands among the updates, the same book and order come out. -/
theorem splice_position_irrelevant (w : BitstampWire J) (arith : DecimalArith)
    (vb : VenueBook BitstampSync) (now : IngestTime) (s : SnapshotFrame w)
    (before after : List (DiffFrame w vb.sync.channel))
    (increasing : (before ++ after).Pairwise (fun a b => a.diff.micros < b.diff.micros)) :
    let joinedBook := exec (step w arith) (vb.reset (sync w) now)
      (before.map Delivery.diff ++ .snapshot s :: after.map Delivery.diff)
    let diffs := (before ++ after).map DiffFrame.diff
    viewOf joinedBook.book = joinedView vb.book.maxDepth s.snapshot diffs ∧
      joinedBook.sync = { vb.sync with
        mode := .live (lastMicros s.snapshot.asOf (newer s.snapshot.asOf diffs))
          s.snapshot.asOf } := by
  intro joinedBook diffs
  have opened : Opened (vb.reset (sync w) now) := ⟨rfl, rfl⟩
  have own : (vb.reset (sync w) now).sync.channel = vb.sync.channel := rfl
  have ordered : Increasing
      (before.map Delivery.diff ++ .snapshot s :: after.map Delivery.diff) := by
    rw [Increasing]
    rw [diffsOf_append, diffsOf_snapshot, diffsOf_diffs, diffsOf_diffs, ← List.map_append]
    exact List.pairwise_map.mpr increasing
  have amounts : joined (before.map Delivery.diff ++ .snapshot s :: after.map Delivery.diff) =
      .anchored s.snapshot diffs := by
    rw [joined]
    rw [exec_append, next_waiting, exec_cons, Joined.next, next_anchored, List.nil_append,
      ← List.map_append]
  obtain ⟨follows, depth, channels⟩ := follows_run arith opened own _ ordered
  rw [amounts] at follows
  obtain ⟨mode, view⟩ := follows
  refine ⟨by rw [view, depth]; rfl, ?_⟩
  rw [channels, mode]
  rfl

end Runs

section Sample

def diffText (micros : String) : String :=
  "\x7b\"event\":\"data\",\"channel\":\"diff_order_book_btcusd\",\"data\":\x7b\"microtimestamp\":\"" ++
    micros ++ "\",\"bids\":[[\"99\",\"2\"]],\"asks\":[]\x7d\x7d"

def restText : String :=
  "\x7b\"microtimestamp\":\"5\",\"bids\":[[\"100\",\"1\"]],\"asks\":[]\x7d"

def sampleWire : BitstampWire String :=
  tableWire [(diffText "3", ⟨"data", "diff_order_book_btcusd", "3"⟩),
      (diffText "10", ⟨"data", "diff_order_book_btcusd", "10"⟩)]
    [("3", ⟨"3", [("99", "2")], []⟩), ("10", ⟨"10", [("99", "2")], []⟩)]
    [(restText, ⟨"5", [("100", "1")], []⟩)]

def sampleFrame (text : String) (source : FrameSource) : RawFrame :=
  ⟨⟨.bitstamp, ⟨"BTC-USD"⟩⟩, .text text, ⟨0, 0⟩, source⟩

def sampleBook : VenueBook BitstampSync :=
  VenueBook.new (sync sampleWire) (BitstampSync.new "btcusd") ⟨"BTC-USD"⟩

def thirdMicro : DiffFrame sampleWire sampleBook.sync.channel where
  frame := sampleFrame (diffText "3") .webSocket
  diff := ⟨3, [Level.whole 99 2], []⟩
  source := rfl
  reads := ⟨"3", by decide +kernel, by decide +kernel⟩

def tenthMicro : DiffFrame sampleWire sampleBook.sync.channel where
  frame := sampleFrame (diffText "10") .webSocket
  diff := ⟨10, [Level.whole 99 2], []⟩
  source := rfl
  reads := ⟨"10", by decide +kernel, by decide +kernel⟩

def fifthMicroBook : SnapshotFrame sampleWire where
  frame := sampleFrame restText .restSnapshot
  snapshot := ⟨[Level.whole 100 1], [], 5⟩
  source := rfl
  reads := by decide +kernel

theorem splice_position_irrelevant_between :
    let joinedBook := exec (step sampleWire DecimalArith.idle)
      (sampleBook.reset (sync sampleWire) ⟨1, 1⟩)
      [.diff thirdMicro, .snapshot fifthMicroBook, .diff tenthMicro]
    viewOf joinedBook.book =
        joinedView none fifthMicroBook.snapshot [thirdMicro.diff, tenthMicro.diff] ∧
      joinedBook.sync = { sampleBook.sync with mode := .live 10 5 } :=
  splice_position_irrelevant sampleWire .idle sampleBook ⟨1, 1⟩ fifthMicroBook [thirdMicro]
    [tenthMicro] (by simp [thirdMicro, tenthMicro])

end Sample

section Anchors

variable {J : Type u} {w : BitstampWire J} {channel : String}

def hasSnapshot (deliveries : List (Delivery w channel)) : Bool :=
  deliveries.any fun
    | .diff _ => false
    | .snapshot _ => true

/-- The updates before a snapshot that are kept for it: all of them if it is the first. -/
def keptFor (prior : List (Delivery w channel)) : List PendingDiff :=
  if hasSnapshot prior then [] else diffsOf prior

/-- The last snapshot, the updates kept for it and the updates after it. -/
theorem joined_shape (deliveries : List (Delivery w channel)) :
    (hasSnapshot deliveries = false ∧ joined deliveries = .waiting (diffsOf deliveries)) ∨
      hasSnapshot deliveries = true ∧ ∃ prior s, ∃ after : List (DiffFrame w channel),
        deliveries = prior ++ .snapshot s :: after.map Delivery.diff ∧
        joined deliveries = .anchored s.snapshot (keptFor prior ++ after.map DiffFrame.diff) := by
  induction deliveries using List.reverseRecOn with
  | nil => exact .inl ⟨rfl, rfl⟩
  | append_singleton past delivery ih =>
    rw [joined_append]
    rcases ih with ⟨none_yet, waiting⟩ | ⟨some_yet, prior, s, after, split, anchored⟩
    · rw [waiting]
      cases delivery with
      | diff d =>
        left
        simpa [hasSnapshot, Joined.next, diffsOf] using none_yet
      | snapshot s =>
        right
        refine ⟨by simp [hasSnapshot], past, s, [], rfl, ?_⟩
        simp [keptFor, none_yet, Joined.next]
    · rw [anchored]
      right
      cases delivery with
      | diff d =>
        refine ⟨by simp_all [hasSnapshot], prior, s, after ++ [d], by simp [split], ?_⟩
        simp [Joined.next]
      | snapshot t =>
        refine ⟨by simp [hasSnapshot], past, t, [], rfl, ?_⟩
        simp [keptFor, some_yet, Joined.next]

def diffSides (d : PendingDiff) : Sides := (d.bids, d.asks)

theorem joinedView_live {depth : Option Nat} {snapshot : RestSnapshot} {diffs : List PendingDiff}
    (live : (joinedView depth snapshot diffs).status = .live) :
    (joinedView depth snapshot diffs).levels =
      rebuild depth (snapshot.bids, snapshot.asks)
        ((newer snapshot.asOf diffs).map diffSides) := by
  have book : ∀ a ∈ SyncAction.snapshot snapshot.bids snapshot.asks ::
      (newer snapshot.asOf diffs).map PendingDiff.delta, a.isBook = true := by
    intro a mem
    rcases List.mem_cons.mp mem with rfl | mem
    · rfl
    · obtain ⟨d, _, rfl⟩ := List.mem_map.mp mem
      rfl
  have described := @describes_replay _ _ ⟨Levels.empty, .blank⟩ [] _ book nofun live
  refine described.unique ⟨[], (snapshot.bids, snapshot.asks), _, ?_, rfl⟩
  simp [deltas, diffSides, PendingDiff.delta]

/-- A live book is its last snapshot with the newer updates kept for it and delivered after. -/
theorem live_book_joined (w : BitstampWire J) (arith : DecimalArith) (vb : VenueBook BitstampSync)
    (opened : Opened vb) (deliveries : List (Delivery w vb.sync.channel))
    (increasing : Increasing deliveries)
    (live : (exec (step w arith) vb deliveries).book.state.isLive = true) :
    ∃ prior s, ∃ after : List (DiffFrame w vb.sync.channel),
      deliveries = prior ++ .snapshot s :: after.map Delivery.diff ∧
      (exec (step w arith) vb deliveries).book.levels =
        rebuild vb.book.maxDepth (s.snapshot.bids, s.snapshot.asks)
          ((newer s.snapshot.asOf (keptFor prior ++ after.map DiffFrame.diff)).map
            diffSides) := by
  obtain ⟨follows, depth, _⟩ := follows_run arith opened rfl deliveries increasing
  rcases joined_shape deliveries with ⟨_, waiting⟩ | ⟨_, prior, s, after, split, anchored⟩
  · rw [waiting] at follows
    exact Bool.noConfusion (follows.2.symm.trans live)
  · rw [anchored] at follows
    have view := follows.2
    rw [depth] at view
    refine ⟨prior, s, after, split, ?_⟩
    have levels := congrArg View.levels view
    rw [joinedView_live (view ▸ statusOf_live.mpr live)] at levels
    exact levels

/-- The venue's books: each snapshot is one base book with every update up to its marker. -/
def Truthful (deliveries : List (Delivery w channel)) : Prop :=
  ∃ base : Levels, ∀ s, .snapshot s ∈ deliveries →
    Levels.snapshot s.snapshot.bids s.snapshot.asks = rebuildFrom none base
      (((diffsOf deliveries).filter (fun d => d.micros ≤ s.snapshot.asOf)).map diffSides)

/-- The same REST book twice, with a newer update between. -/
def refetched : List (Delivery sampleWire sampleBook.sync.channel) :=
  [.snapshot fifthMicroBook, .diff tenthMicro, .snapshot fifthMicroBook]

theorem live_book_joined_refetched :
    ∃ prior s, ∃ after : List (DiffFrame sampleWire sampleBook.sync.channel),
      refetched = prior ++ .snapshot s :: after.map Delivery.diff ∧
      (exec (step sampleWire DecimalArith.idle) sampleBook refetched).book.levels =
        rebuild none (s.snapshot.bids, s.snapshot.asks)
          ((newer s.snapshot.asOf (keptFor prior ++ after.map DiffFrame.diff)).map diffSides) :=
  live_book_joined sampleWire DecimalArith.idle sampleBook ⟨rfl, rfl⟩ refetched
    (by simp [Increasing, diffsOf, refetched]) (by decide +kernel)

theorem refetched_book_loses_update :
    ¬ ∀ (J : Type) (w : BitstampWire J) (arith : DecimalArith) (vb : VenueBook BitstampSync)
      (deliveries : List (Delivery w vb.sync.channel)), Opened vb → Increasing deliveries →
      Truthful deliveries → (exec (step w arith) vb deliveries).book.state.isLive = true →
      ∃ prior s, ∃ after : List (DiffFrame w vb.sync.channel),
        deliveries = prior ++ .snapshot s :: after.map Delivery.diff ∧
        (exec (step w arith) vb deliveries).book.levels =
          rebuild vb.book.maxDepth (s.snapshot.bids, s.snapshot.asks)
            ((newer s.snapshot.asOf (diffsOf deliveries)).map diffSides) := by
  intro claim
  have fetched : ∀ s : SnapshotFrame sampleWire, .snapshot s ∈ refetched → s = fifthMicroBook := by
    intro s mem
    simpa [refetched] using mem
  have truthful : Truthful refetched := by
    refine ⟨Levels.snapshot [Level.whole 100 1] [], fun s mem => ?_⟩
    rw [fetched s mem]
    rfl
  obtain ⟨prior, s, after, split, levels⟩ := claim String sampleWire DecimalArith.idle sampleBook
    refetched ⟨rfl, rfl⟩ (by simp [Increasing, diffsOf, refetched]) truthful (by decide +kernel)
  have same : s = fifthMicroBook := fetched s (split ▸ by simp)
  rw [same] at levels
  exact absurd levels (by decide +kernel)

end Anchors

end BitstampSplice

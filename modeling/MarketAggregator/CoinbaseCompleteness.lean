import MarketAggregator.CoinbaseFeed
import MarketAggregator.GuardedRuns
import MarketAggregator.TrustedReplay
import Mathlib.Data.List.Chain

/-!
# What a live Coinbase book contains

A live book should be the last snapshot and every update carried by the frames
since, with contiguous sequence numbers. The number of a book message is noted
before its events are parsed, so a message that fails to parse in sequence leaves
no gap for the next one to show.
-/

namespace CoinbaseCompleteness

open Clocks CoinbaseFeed CoinbaseSync Decimals GuardedRuns OrderBook TrustedReplay VenueBooks
  VenueStreams WireLevels

universe u

inductive Input where
  | frame (frame : RawFrame)
  | reset (now : IngestTime)

section Run

variable {J : Type u} (w : CoinbaseWire J) (arith : DecimalArith)

def step (vb : VenueBook CoinbaseSync) : Input → VenueBook CoinbaseSync
  | .frame frame => (vb.feed (sync w) arith { frame with source := .webSocket }).2
  | .reset now => vb.reset (sync w) now

def fresh (productId : String) (symbol : Symbol) (depth : Option Nat) : VenueBook CoinbaseSync :=
  let vb := VenueBook.new (sync w) (CoinbaseSync.new productId) symbol
  { vb with book := { vb.book with maxDepth := depth } }

def sequenceOf (frame : RawFrame) : Option UInt64 :=
  (w.envelope frame.payload).toOption.map Envelope.sequenceNum

/-- The book events of the product in one frame. A frame without an envelope has none. -/
def frameEvents (productId : String) (frame : RawFrame) : Except VenueError (List SyncAction) :=
  match w.envelope frame.payload with
  | .error _ => .ok []
  | .ok env =>
    if env.channel = "l2_data" then (CoinbaseSync.new productId).bookEvents w env.events else .ok []

/-- The book events of several frames, if every book message among them parses. -/
def carriedBy (productId : String) : List RawFrame → Except VenueError (List SyncAction)
  | [] => .ok []
  | frame :: frames => do
    let events ← frameEvents w productId frame
    let more ← carriedBy productId frames
    return events ++ more

/-- A live book is what the frames since its last snapshot carried, without a gap. -/
def Complete (productId : String) (vb : VenueBook CoinbaseSync) (past : List Input) : Prop :=
  vb.book.state.isLive = true → ∃ before since carried, past = before ++ since.map Input.frame ∧
    (since.filterMap (sequenceOf w)).IsChain (fun a b => b = a + 1) ∧
    carriedBy w productId since = .ok carried ∧
    Describes vb.book.maxDepth carried vb.book.levels

/-- A book message received in sequence while the book is live has only readable events. -/
def Parses (vb : VenueBook CoinbaseSync) : Input → Prop
  | .frame frame => vb.book.state.isLive = true → ∀ env, w.envelope frame.payload = .ok env →
    (∀ expected ∈ vb.sync.expectedSeq, env.sequenceNum = expected) → env.channel = "l2_data" →
    ∃ actions, vb.sync.bookEvents w env.events = .ok actions
  | .reset _ => True

end Run

variable {J : Type u} {w : CoinbaseWire J} {arith : DecimalArith} {vb : VenueBook CoinbaseSync}
  {frame : RawFrame} {env : Envelope J} {productId : String}

theorem frame_unreadable {e : String} (h : w.envelope frame.payload = .error e) :
    step w arith vb (.frame frame) = vb := by
  simp [step, VenueBook.feed, sync, ingest, h]

theorem frame_gap {reason : DesyncReason} (h : w.envelope frame.payload = .ok env)
    (gap : (vb.sync.checkSeq env.sequenceNum).1 = some reason) :
    (step w arith vb (.frame frame)).book.state.isLive = false := by
  simp [step, VenueBook.feed, sync, ingest, h, gap, VenueBook.applyIngested, applyActions,
    applyAction, BookState.isLive]

theorem frame_gap_sync {reason : DesyncReason} (h : w.envelope frame.payload = .ok env)
    (gap : (vb.sync.checkSeq env.sequenceNum).1 = some reason) :
    (step w arith vb (.frame frame)).sync = (vb.sync.checkSeq env.sequenceNum).2 ∧
      (step w arith vb (.frame frame)).book.maxDepth = vb.book.maxDepth := by
  simp [step, VenueBook.feed, sync, ingest, h, gap, VenueBook.applyIngested]

theorem frame_error {e : VenueError} (h : w.envelope frame.payload = .ok env)
    (accepted : (vb.sync.checkSeq env.sequenceNum).1 = none)
    (failed : (vb.sync.checkSeq env.sequenceNum).2.channelActions w env = .error e) :
    step w arith vb (.frame frame) =
      { vb with sync := (vb.sync.checkSeq env.sequenceNum).2 } := by
  simp [step, VenueBook.feed, sync, ingest, h, accepted, failed, Except.map]

theorem frame_actions {actions : List SyncAction} (h : w.envelope frame.payload = .ok env)
    (accepted : (vb.sync.checkSeq env.sequenceNum).1 = none)
    (parsed : (vb.sync.checkSeq env.sequenceNum).2.channelActions w env = .ok actions) :
    (step w arith vb (.frame frame)).sync = (vb.sync.checkSeq env.sequenceNum).2 ∧
      (step w arith vb (.frame frame)).book.maxDepth = vb.book.maxDepth ∧
      viewOf (step w arith vb (.frame frame)).book =
        replay (fun _ => none) vb.book.maxDepth (viewOf vb.book) actions := by
  simp [step, VenueBook.feed, sync, ingest, h, accepted, parsed, Except.map,
    VenueBook.applyIngested, view_applyActions]

theorem carriedBy_append {frames more : List RawFrame} {a b : List SyncAction}
    (ha : carriedBy w productId frames = .ok a) (hb : carriedBy w productId more = .ok b) :
    carriedBy w productId (frames ++ more) = .ok (a ++ b) := by
  induction frames generalizing a with
  | nil =>
    cases ha
    exact hb
  | cons frame frames ih =>
    obtain ⟨events, first, ha⟩ := bind_ok.mp ha
    obtain ⟨rest, others, he⟩ := bind_ok.mp ha
    cases he
    refine bind_ok.mpr ⟨events, first, bind_ok.mpr ⟨rest ++ b, ih others, ?_⟩⟩
    rw [List.append_assoc]
    rfl

theorem carriedBy_single {frame : RawFrame} {events : List SyncAction}
    (h : frameEvents w productId frame = .ok events) :
    carriedBy w productId [frame] = .ok events := by
  simp [carriedBy, h, bind, Except.bind, pure, Except.pure]

theorem carriedBy_mem {frames : List RawFrame} {carried : List SyncAction}
    (h : carriedBy w productId frames = .ok carried) {frame : RawFrame} (mem : frame ∈ frames) :
    ∃ events, frameEvents w productId frame = .ok events := by
  induction frames generalizing carried with
  | nil => cases mem
  | cons first frames ih =>
    obtain ⟨events, parsed, h⟩ := bind_ok.mp h
    obtain ⟨rest, others, _⟩ := bind_ok.mp h
    rcases List.mem_cons.mp mem with rfl | mem
    · exact ⟨events, parsed⟩
    · exact ih others mem

/-- The window of frames that a live book rests on, up to the number expected next. -/
structure Window (w : CoinbaseWire J) (productId : String) (vb : VenueBook CoinbaseSync)
    (past before : List Input) (since : List RawFrame) (carried : List SyncAction) : Prop where
  split : past = before ++ since.map Input.frame
  contiguous : (since.filterMap (sequenceOf w)).IsChain (fun a b => b = a + 1)
  next : ∃ last ∈ (since.filterMap (sequenceOf w)).getLast?, vb.sync.expectedSeq = some (last + 1)
  parsed : carriedBy w productId since = .ok carried
  levels : Describes vb.book.maxDepth carried vb.book.levels

structure Tracked (w : CoinbaseWire J) (productId : String) (past : List Input)
    (vb : VenueBook CoinbaseSync) : Prop where
  product : vb.sync.productId = productId
  window : vb.book.state.isLive = true →
    ∃ before since carried, Window w productId vb past before since carried

theorem Window.extend {past before : List Input} {since : List RawFrame}
    {carried events : List SyncAction} (win : Window w productId vb past before since carried)
    (read : w.envelope frame.payload = .ok env)
    (accepted : (vb.sync.checkSeq env.sequenceNum).1 = none)
    (parsed : frameEvents w productId frame = .ok events) {next : VenueBook CoinbaseSync}
    (noted : next.sync = (vb.sync.checkSeq env.sequenceNum).2)
    (levels : Describes next.book.maxDepth (carried ++ events) next.book.levels) :
    Window w productId next (past ++ [.frame frame]) before (since ++ [frame])
      (carried ++ events) := by
  have number : sequenceOf w frame = some env.sequenceNum := by
    simp [sequenceOf, read, Except.toOption]
  obtain ⟨last, isLast, expected⟩ := win.next
  have follows : env.sequenceNum = last + 1 := checkSeq_none.mp accepted _ expected
  refine ⟨by simp [win.split], ?_, ⟨env.sequenceNum, by simp [number], by simp [noted]⟩,
    carriedBy_append win.parsed (carriedBy_single parsed), levels⟩
  simp only [List.filterMap_append, List.filterMap_cons, number, List.filterMap_nil]
  refine List.isChain_append.mpr ⟨win.contiguous, List.isChain_singleton _, ?_⟩
  intro a mem b hb
  obtain rfl := Option.some.inj (isLast.symm.trans mem)
  obtain rfl : env.sequenceNum = b := by simpa using hb
  exact follows

/-- What a frame in sequence carries is what it does to the view. -/
theorem frame_carries {next : VenueBook CoinbaseSync}
    (hn : next = step w arith vb (.frame frame)) (product : vb.sync.productId = productId)
    (read : w.envelope frame.payload = .ok env)
    (accepted : (vb.sync.checkSeq env.sequenceNum).1 = none)
    (parses : env.channel = "l2_data" → ∃ actions, vb.sync.bookEvents w env.events = .ok actions) :
    ∃ events, frameEvents w productId frame = .ok events ∧ (∀ a ∈ events, a.isBook = true) ∧
      next.sync = (vb.sync.checkSeq env.sequenceNum).2 ∧
      next.book.maxDepth = vb.book.maxDepth ∧
      viewOf next.book = replay (fun _ => none) vb.book.maxDepth (viewOf vb.book) events := by
  subst hn
  by_cases book : env.channel = "l2_data"
  · obtain ⟨actions, parsed⟩ := parses book
    have own : (CoinbaseSync.new productId).bookEvents w env.events = .ok actions :=
      (bookEvents_congr product.symm env.events).trans parsed
    have channel : (vb.sync.checkSeq env.sequenceNum).2.channelActions w env = .ok actions := by
      rw [channelActions]
      rw [if_pos book]
      exact (bookEvents_congr checkSeq_product env.events).trans parsed
    refine ⟨actions, ?_, bookEvents_book env.events parsed, frame_actions read accepted channel⟩
    simp [frameEvents, read, book, own]
  · refine ⟨[], by simp [frameEvents, read, book], by simp, ?_⟩
    cases channel : (vb.sync.checkSeq env.sequenceNum).2.channelActions w env with
    | error e =>
      rw [frame_error read accepted channel]
      exact ⟨rfl, rfl, rfl⟩
    | ok actions =>
      obtain ⟨noted, depth, view⟩ := @frame_actions J w arith vb _ _ _ read accepted channel
      rw [replay_passive (channelActions_passive book channel)] at view
      exact ⟨noted, depth, view⟩

/-- The window of a frame by itself. -/
theorem Window.begin {past : List Input} {events : List SyncAction}
    (read : w.envelope frame.payload = .ok env)
    (parsed : frameEvents w productId frame = .ok events) {next : VenueBook CoinbaseSync}
    (noted : next.sync = (vb.sync.checkSeq env.sequenceNum).2)
    (levels : Describes next.book.maxDepth events next.book.levels) :
    Window w productId next (past ++ [.frame frame]) past [frame] events := by
  have number : sequenceOf w frame = some env.sequenceNum := by
    simp [sequenceOf, read, Except.toOption]
  exact ⟨rfl, by simp [number], ⟨env.sequenceNum, by simp [number], by simp [noted]⟩,
    carriedBy_single parsed, levels⟩

theorem Window.skip {past before : List Input} {since : List RawFrame}
    {carried : List SyncAction} (win : Window w productId vb past before since carried)
    {e : String} (read : w.envelope frame.payload = .error e) :
    Window w productId vb (past ++ [.frame frame]) before (since ++ [frame]) carried := by
  have silent : sequenceOf w frame = none := by simp [sequenceOf, read, Except.toOption]
  have nothing : frameEvents w productId frame = .ok [] := by simp [frameEvents, read]
  refine ⟨by simp [win.split], ?_, ?_, ?_, win.levels⟩
  · simpa [silent] using win.contiguous
  · simpa [silent] using win.next
  · simpa using carriedBy_append win.parsed (carriedBy_single nothing)

/-- A book message that fails to parse in sequence moves the number and nothing else. -/
theorem frame_failed {e : VenueError} (read : w.envelope frame.payload = .ok env)
    (accepted : (vb.sync.checkSeq env.sequenceNum).1 = none) (book : env.channel = "l2_data")
    (failed : vb.sync.bookEvents w env.events = .error e) :
    step w arith vb (.frame frame) =
      { vb with sync := (vb.sync.checkSeq env.sequenceNum).2 } := by
  refine frame_error read accepted (e := e) ?_
  rw [channelActions]
  rw [if_pos book]
  exact (bookEvents_congr checkSeq_product env.events).trans failed

theorem tracked_accepted {past : List Input} (tracked : Tracked w productId past vb)
    (read : w.envelope frame.payload = .ok env)
    (accepted : (vb.sync.checkSeq env.sequenceNum).1 = none)
    (parses : env.channel = "l2_data" → ∃ actions, vb.sync.bookEvents w env.events = .ok actions) :
    Tracked w productId (past ++ [.frame frame]) (step w arith vb (.frame frame)) := by
  obtain ⟨events, own, book, noted, depth, view⟩ :=
    @frame_carries J w arith _ _ _ _ _ rfl tracked.product read accepted parses
  refine ⟨by rw [noted, checkSeq_product, tracked.product], fun still => ?_⟩
  have replayed : (replay (fun _ => none) vb.book.maxDepth (viewOf vb.book) events).status =
      .live := view ▸ statusOf_live.mpr still
  have levels := congrArg View.levels view
  rw [← depth] at levels replayed
  by_cases live : vb.book.state.isLive = true
  · obtain ⟨before, since, carried, win⟩ := tracked.window live
    refine ⟨before, since ++ [frame], carried ++ events, win.extend read accepted own noted ?_⟩
    rw [show (step w arith vb (.frame frame)).book.levels = _ from levels]
    exact describes_replay book (fun _ => depth ▸ win.levels) replayed
  · refine ⟨past, [frame], events, Window.begin read own noted ?_⟩
    rw [show (step w arith vb (.frame frame)).book.levels = _ from levels]
    exact @describes_replay _ _ _ [] events book
      (fun h => absurd (statusOf_live.mp h) live) replayed

theorem tracked_step (past : List Input) (vb : VenueBook CoinbaseSync) (input : Input)
    (tracked : Tracked w productId past vb) (parses : Parses w vb input) :
    Tracked w productId (past ++ [input]) (step w arith vb input) := by
  cases input with
  | reset now => exact ⟨tracked.product, nofun⟩
  | frame frame =>
    cases read : w.envelope frame.payload with
    | error e =>
      rw [frame_unreadable read]
      refine ⟨tracked.product, fun live => ?_⟩
      obtain ⟨before, since, carried, win⟩ := tracked.window live
      exact ⟨before, since ++ [frame], carried, win.skip read⟩
    | ok env =>
      cases accepted : (vb.sync.checkSeq env.sequenceNum).1 with
      | some reason =>
        refine ⟨?_, fun live => absurd (live.symm.trans (frame_gap read accepted)) nofun⟩
        rw [(frame_gap_sync read accepted).1, checkSeq_product, tracked.product]
      | none =>
        by_cases book : env.channel = "l2_data"
        · cases parsed : vb.sync.bookEvents w env.events with
          | ok actions => exact tracked_accepted tracked read accepted fun _ => ⟨actions, parsed⟩
          | error e =>
            rw [frame_failed read accepted book parsed]
            refine ⟨by simp [tracked.product], fun live => ?_⟩
            obtain ⟨actions, ok⟩ := parses live env read (checkSeq_none.mp accepted) book
            cases parsed.symm.trans ok
        · exact tracked_accepted tracked read accepted fun h => absurd h book

theorem tracked_fresh {symbol : Symbol} {depth : Option Nat} :
    Tracked w productId [] (fresh w productId symbol depth) := ⟨rfl, nofun⟩

theorem Tracked.complete {past : List Input} (tracked : Tracked w productId past vb) :
    Complete w productId vb past := by
  intro live
  obtain ⟨before, since, carried, win⟩ := tracked.window live
  exact ⟨before, since, carried, win.split, win.contiguous, win.parsed, win.levels⟩

/-- An unreadable book message in sequence is missing from the book that stays live. -/
theorem incomplete_after_failure (past : List Input) {e : VenueError}
    (product : vb.sync.productId = productId) (live : vb.book.state.isLive = true)
    (read : w.envelope frame.payload = .ok env)
    (accepted : (vb.sync.checkSeq env.sequenceNum).1 = none) (book : env.channel = "l2_data")
    (failed : vb.sync.bookEvents w env.events = .error e) :
    ¬ Complete w productId (step w arith vb (.frame frame)) (past ++ [.frame frame]) := by
  rw [frame_failed read accepted book failed]
  intro complete
  obtain ⟨before, since, carried, split, _, parsed, described⟩ := complete live
  rcases List.eq_nil_or_concat since with rfl | ⟨rest, last, rfl⟩
  · cases parsed
    obtain ⟨earlier, _, _, empty, _⟩ := described
    simp at empty
  · have same : past = before ++ rest.map Input.frame ∧ frame = last := by
      have joined : past ++ [Input.frame frame] =
          (before ++ rest.map Input.frame) ++ [Input.frame last] := by
        simpa [List.concat_eq_append] using split
      obtain ⟨hp, hl⟩ := List.append_inj' joined rfl
      exact ⟨hp, by simpa using hl⟩
    obtain ⟨_, rfl⟩ := same
    obtain ⟨events, own⟩ := carriedBy_mem parsed (by simp : frame ∈ rest.concat frame)
    simp only [frameEvents, read, book, if_true] at own
    cases failed.symm.trans ((bookEvents_congr product env.events).trans own)

theorem step_product (input : Input) :
    (step w arith vb input).sync.productId = vb.sync.productId := by
  cases input with
  | reset now => rfl
  | frame frame =>
    cases read : w.envelope frame.payload with
    | error e => rw [frame_unreadable read]
    | ok env =>
      cases accepted : (vb.sync.checkSeq env.sequenceNum).1 with
      | some reason => rw [(frame_gap_sync read accepted).1, checkSeq_product]
      | none =>
        cases channel : (vb.sync.checkSeq env.sequenceNum).2.channelActions w env with
        | error e => simp [frame_error read accepted channel]
        | ok actions =>
          rw [(@frame_actions J w arith vb _ _ _ read accepted channel).1, checkSeq_product]

theorem exec_product (vb : VenueBook CoinbaseSync) (past : List Input) :
    (exec (step w arith) vb past).sync.productId = vb.sync.productId := by
  induction past generalizing vb with
  | nil => rfl
  | cons input past ih => rw [exec_cons, ih, step_product]

/-- Live means complete along a run exactly when no in-sequence book message fails to parse. -/
theorem complete_iff_parses (w : CoinbaseWire J) (arith : DecimalArith) (productId : String)
    (symbol : Symbol) (depth : Option Nat) (ins : List Input) :
    (∀ past rest, past ++ rest = ins →
        Complete w productId (exec (step w arith) (fresh w productId symbol depth) past) past) ↔
      Meets (step w arith) (Parses w) (fresh w productId symbol depth) ins := by
  have product : ∀ past,
      (exec (step w arith) (fresh w productId symbol depth) past).sync.productId = productId :=
    exec_product (fresh w productId symbol depth)
  constructor
  · intro complete
    refine meets_iff_prefixes.mpr ?_
    intro past input rest split
    cases input with
    | reset now => trivial
    | frame frame =>
      intro live env read expected book
      have accepted := checkSeq_none.mpr expected
      cases parsed : CoinbaseSync.bookEvents w _ env.events with
      | ok actions => exact ⟨actions, rfl⟩
      | error e =>
        have next := complete (past ++ [.frame frame]) rest (by simp [split])
        rw [exec_append, exec_cons, exec_nil] at next
        exact False.elim
          (incomplete_after_failure past (product past) live read accepted book parsed next)
  · rintro parses past rest rfl
    exact (exec_history tracked_step tracked_fresh (meets_append.mp parses).1).complete

section Sample

def snapshotEvent : String :=
  "\x7b\"type\":\"snapshot\",\"product_id\":\"BTC-USD\",\"updates\":[\x7b\"side\":\"bid\",\"price_level\":\"100\",\"new_quantity\":\"1\"\x7d]\x7d"

def updateEvent : String :=
  "\x7b\"type\":\"update\",\"product_id\":\"BTC-USD\",\"updates\":[\x7b\"side\":\"bid\",\"price_level\":\"99\",\"new_quantity\":\"2\"\x7d]\x7d"

/-- An event of a type that the venue did not send before. -/
def statusEvent : String :=
  "\x7b\"type\":\"status\",\"product_id\":\"BTC-USD\",\"updates\":[]\x7d"

def message (number : String) (events : String) : String :=
  "\x7b\"channel\":\"l2_data\",\"sequence_num\":" ++ number ++ ",\"events\":[" ++ events ++ "]\x7d"

def sampleWire : CoinbaseWire String :=
  tableWire
    [(message "0" snapshotEvent, ⟨"l2_data", 0, none, [snapshotEvent]⟩),
      (message "1" (updateEvent ++ "," ++ statusEvent),
        ⟨"l2_data", 1, none, [updateEvent, statusEvent]⟩)]
    [(snapshotEvent, ⟨.snapshot, "BTC-USD", [⟨.bid, "100", "1"⟩]⟩),
      (updateEvent, ⟨.update, "BTC-USD", [⟨.bid, "99", "2"⟩]⟩)]

def sampleFrame (text : String) : RawFrame :=
  ⟨⟨.coinbase, ⟨"BTC-USD"⟩⟩, .text text, ⟨0, 0⟩, .webSocket⟩

def firstInput : Input := .frame (sampleFrame (message "0" snapshotEvent))

def secondFrame : RawFrame := sampleFrame (message "1" (updateEvent ++ "," ++ statusEvent))

theorem unreadable_event_is_lost :
    ¬ ∀ (J : Type) (w : CoinbaseWire J) (arith : DecimalArith) (productId : String)
      (symbol : Symbol) (depth : Option Nat) (past : List Input),
      Complete w productId (exec (step w arith) (fresh w productId symbol depth) past) past := by
  intro claim
  have complete := claim String sampleWire DecimalArith.idle "BTC-USD" ⟨"BTC-USD"⟩ none
    [firstInput, .frame secondFrame]
  have read : sampleWire.envelope secondFrame.payload =
      .ok ⟨"l2_data", 1, none, [updateEvent, statusEvent]⟩ := by decide +kernel
  have failed : CoinbaseSync.bookEvents sampleWire (CoinbaseSync.new "BTC-USD")
      [updateEvent, statusEvent] = .error (.malformed "unknown variant") := by decide +kernel
  have product : (step sampleWire DecimalArith.idle
      (fresh sampleWire "BTC-USD" ⟨"BTC-USD"⟩ none) firstInput).sync.productId = "BTC-USD" :=
    step_product firstInput
  exact incomplete_after_failure [firstInput] product (by decide +kernel) read (by decide +kernel)
    rfl ((bookEvents_congr product _).trans failed) complete

end Sample

end CoinbaseCompleteness

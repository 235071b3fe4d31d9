import MarketAggregator.FakeFeed

/-!
# Raw frames on a tape

A tape holds the bytes of frames and the boundaries of sessions, with offsets from its start
in place of instants. A replay tells the same messages at other instants and gives every
boundary one cause. A book that is told either ends up with the same levels and the same
trust, because no venue reads an instant.
-/

namespace TapeFiles

open AggregatorApply Clocks Decimals DepthAudit FakeFeed MarketEvents OrderBook TrustedReplay
  VenueBooks VenueDispatch VenueStreams

universe u v

inductive TapeError where
  | nonUtf8Payload
  | notRawBytes
  deriving DecidableEq, Repr

def TapeError.message : TapeError → String
  | .nonUtf8Payload =>
    "frame payload was not valid UTF-8; the tape format is text-only, see module docs"
  | .notRawBytes =>
    "a raw-frame tape records bytes a venue sent; a normalised event has none. " ++
      "Normalised history is the Parquet layer's job — see ma-persist"

inductive RecordKind where
  | frame
  | sessionEnded
  deriving DecidableEq, Repr

structure TapeRecord where
  venue : VenueId
  symbol : Option Symbol
  elapsedNanos : Nat
  recordedWallUnixNanos : Nat
  payload : String
  source : FrameSource
  kind : RecordKind
  deriving DecidableEq

/-- A record as a line keeps it: the common source and kind are left out. -/
structure TapeLine where
  venue : VenueId
  symbol : Option Symbol
  elapsedNanos : Nat
  recordedWallUnixNanos : Nat
  payload : String
  source : Option FrameSource
  kind : Option RecordKind
  deriving DecidableEq

def TapeRecord.line (r : TapeRecord) : TapeLine where
  venue := r.venue
  symbol := r.symbol
  elapsedNanos := r.elapsedNanos
  recordedWallUnixNanos := r.recordedWallUnixNanos
  payload := r.payload
  source := if r.source = .webSocket then none else some r.source
  kind := if r.kind = .frame then none else some r.kind

def TapeLine.record (l : TapeLine) : TapeRecord where
  venue := l.venue
  symbol := l.symbol
  elapsedNanos := l.elapsedNanos
  recordedWallUnixNanos := l.recordedWallUnixNanos
  payload := l.payload
  source := l.source.getD .webSocket
  kind := l.kind.getD .frame

theorem record_line (r : TapeRecord) : r.line.record = r := by
  obtain ⟨venue, symbol, elapsed, wall, payload, source, kind⟩ := r
  cases source <;> cases kind <;> rfl

/-- Nanoseconds, clamped to 64 bits. -/
def nanos (d : Nat) : Nat := min d u64Max

def wallNanos (wall : Int) : Nat := if wall < 0 then 0 else nanos wall.toNat

def advancedBy (base : IngestTime) (d : Nat) : IngestTime := ⟨base.mono + d, base.wall + d⟩

structure TapeWriter where
  out : List TapeLine
  start : IngestTime

namespace TapeWriter

def new (start : IngestTime) : TapeWriter := ⟨[], start⟩

def writeRecord (w : TapeWriter) (record : TapeRecord) : TapeWriter :=
  { w with out := w.out ++ [record.line] }

def writeFrame (w : TapeWriter) (frame : RawFrame) : Except TapeError TapeWriter :=
  match frame.asStr with
  | .error _ => .error .nonUtf8Payload
  | .ok payload => .ok (w.writeRecord
    { venue := frame.stream.venue
      symbol := some frame.stream.symbol
      elapsedNanos := nanos (frame.ingestTs.since w.start)
      recordedWallUnixNanos := wallNanos frame.ingestTs.wall
      payload := payload
      source := frame.source
      kind := .frame })

def writeMessage (w : TapeWriter) : IngestMessage → Except TapeError TapeWriter
  | .frame frame => w.writeFrame frame
  | .event _ _ => .error .notRawBytes
  | .sessionEnded stream now _ => .ok (w.writeRecord
    { venue := stream.venue
      symbol := some stream.symbol
      elapsedNanos := nanos (now.since w.start)
      recordedWallUnixNanos := wallNanos now.wall
      payload := ""
      source := .webSocket
      kind := .sessionEnded })

/-- A recording stops at the first message that is refused. -/
def writeAll (w : TapeWriter) (messages : List IngestMessage) : Except TapeError TapeWriter :=
  messages.foldlM writeMessage w

end TapeWriter

/-- A record read off a tape, before it is placed in a run. -/
structure TapedFrame where
  venue : VenueId
  symbol : Option Symbol
  payload : String
  elapsed : Nat
  source : FrameSource
  sessionEnded : Bool
  deriving DecidableEq

def nextFrame (line : TapeLine) : TapedFrame :=
  let record := line.record
  { venue := record.venue
    symbol := record.symbol
    payload := record.payload
    elapsed := record.elapsedNanos
    source := record.source
    sessionEnded := record.kind = .sessionEnded }

def TapedFrame.intoMessage (taped : TapedFrame) (base : IngestTime) (fallback : Symbol) :
    IngestMessage :=
  let now := advancedBy base taped.elapsed
  let stream : StreamId := ⟨taped.venue, taped.symbol.getD fallback⟩
  -- A tape says that a stream restarted, and not why.
  if taped.sessionEnded then .sessionEnded stream now .closed
  else .frame ⟨stream, .text taped.payload, now, taped.source⟩

/-- The messages that a faithful replay sends, none of which is lost. -/
def replayed (lines : List TapeLine) (base : IngestTime) (fallback : Symbol) :
    List IngestMessage :=
  lines.map (fun line => (nextFrame line).intoMessage base fallback)

/-- The same frame or boundary at another instant, for another cause. -/
inductive Retold : IngestMessage → IngestMessage → Prop
  | frame (frame : RawFrame) (now : IngestTime) :
    Retold (.frame frame) (.frame { frame with ingestTs := now })
  | sessionEnded (stream : StreamId) (now later : IngestTime) (ending other : SessionEnd) :
    Retold (.sessionEnded stream now ending) (.sessionEnded stream later other)

section Writing

variable {w next : TapeWriter} {message : IngestMessage}

theorem Retold.stream {m r : IngestMessage} (h : Retold m r) : r.stream = m.stream := by
  cases h <;> rfl

/-- One message is one line, which tells it again. -/
theorem writeMessage_ok (h : w.writeMessage message = .ok next) :
    ∃ line, next.out = w.out ++ [line] ∧
      ∀ base fallback, Retold message ((nextFrame line).intoMessage base fallback) := by
  cases message with
  | event stream event => cases h
  | sessionEnded stream now ending =>
    cases h
    refine ⟨_, rfl, ?_⟩
    intro base fallback
    rw [nextFrame, record_line]
    exact .sessionEnded ..
  | frame frame =>
    rw [TapeWriter.writeMessage, TapeWriter.writeFrame] at h
    split at h
    · cases h
    · rename_i payload read
      cases h
      refine ⟨_, rfl, ?_⟩
      intro base fallback
      have text : frame.payload = .text payload := by
        rw [RawFrame.asStr] at read
        split at read
        · rename_i s given
          cases read
          exact given
        · cases read
      rw [nextFrame, record_line]
      obtain ⟨stream, _, ingestTs, source⟩ := frame
      cases text
      exact .frame ..

theorem writeAll_ok {messages : List IngestMessage} (h : w.writeAll messages = .ok next) :
    ∃ lines, next.out = w.out ++ lines ∧
      ∀ base fallback, List.Forall₂ Retold messages (replayed lines base fallback) := by
  induction messages generalizing w with
  | nil =>
    cases h
    exact ⟨[], (List.append_nil _).symm, fun _ _ => .nil⟩
  | cons message messages ih =>
    rw [TapeWriter.writeAll, List.foldlM_cons] at h
    cases written : w.writeMessage message with
    | error e =>
      rw [written] at h
      cases h
    | ok first =>
      rw [written] at h
      obtain ⟨line, out, told⟩ := writeMessage_ok written
      obtain ⟨lines, rest, tell⟩ := ih h
      refine ⟨line :: lines, ?_, ?_⟩
      · rw [rest, out, List.append_assoc]
        rfl
      · intro base fallback
        exact .cons (told base fallback) (tell base fallback)

end Writing

/-- A sync that reads no instants. -/
def Timeless {σ : Type u} (v : VenueSync σ) : Prop :=
  ∀ s frame now, v.ingest s { frame with ingestTs := now } = v.ingest s frame

theorem everySync_timeless {J : Type u} {K : Type v} (w : EveryWires J K) :
    Timeless (everySync w) := by
  intro s frame now
  cases s with
  | fake s => rfl
  | market s => cases s <;> rfl

/-- Two books that differ in instants only. -/
structure SameShape {σ : Type u} (vb vc : VenueBook σ) : Prop where
  sync : vb.sync = vc.sync
  policy : vb.auditPolicy = vc.auditPolicy
  trail : vb.auditTrail = vc.auditTrail
  depth : vb.book.maxDepth = vc.book.maxDepth
  view : viewOf vb.book = viewOf vc.book

section Shapes

variable {σ : Type u} {v : VenueSync σ} {arith : DecimalArith} {vb vc : VenueBook σ}
  {now later : IngestTime}

theorem SameShape.applyIngested (h : SameShape vb vc) (ingested : Ingested) :
    SameShape (vb.applyIngested v ingested now).2 (vc.applyIngested v ingested later).2 := by
  constructor
  · exact h.sync
  · exact h.policy
  · exact h.trail
  · exact (applyActions_maxDepth ..).trans (h.depth.trans (applyActions_maxDepth ..).symm)
  · rw [view_applyIngested, view_applyIngested, h.sync, h.depth, h.view]

theorem SameShape.withSync (h : SameShape vb vc) (sync : σ) :
    SameShape { vb with sync := sync } { vc with sync := sync } :=
  ⟨rfl, h.policy, h.trail, h.depth, h.view⟩

theorem SameShape.levels (h : SameShape vb vc) : vb.book.levels = vc.book.levels :=
  congrArg View.levels h.view

theorem SameShape.isLive (h : SameShape vb vc) :
    vb.book.state.isLive = vc.book.state.isLive := by
  have status : statusOf vb.book.state = statusOf vc.book.state := congrArg View.status h.view
  apply Bool.eq_iff_iff.mpr
  constructor
  · intro live
    exact statusOf_live.mp (status.symm.trans (statusOf_live.mpr live))
  · intro live
    exact statusOf_live.mp (status.trans (statusOf_live.mpr live))

theorem SameShape.markDesynced (h : SameShape vb vc) (reason : DesyncReason) (trail : AuditTrail)
    (now later : IngestTime) :
    SameShape { vb with auditTrail := trail, book := vb.book.markDesynced reason now }
      { vc with auditTrail := trail, book := vc.book.markDesynced reason later } := by
  constructor
  · exact h.sync
  · exact h.policy
  · rfl
  · exact h.depth
  · exact congrArg (fun l => (⟨l, .down reason⟩ : View)) h.levels

theorem SameShape.audit (h : SameShape vb vc) (snapshot : RestSnapshot) :
    SameShape (vb.audit arith snapshot now).2 (vc.audit arith snapshot later).2 := by
  rw [VenueBook.audit, VenueBook.audit, h.isLive, h.levels, h.policy, h.trail]
  by_cases live : vc.book.state.isLive = true
  · rw [if_pos live, if_pos live]
    dsimp only
    generalize vc.auditTrail.observe _ _ = observed
    obtain ⟨reason, trail⟩ := observed
    cases reason with
    | some reason =>
      have marked := h.markDesynced reason trail now later
      rw [h.policy] at marked
      exact marked
    | none => exact ⟨h.sync, rfl, rfl, h.depth, h.view⟩
  · rw [if_neg live, if_neg live]
    exact h

theorem SameShape.feed (timeless : Timeless v) (h : SameShape vb vc) (frame : RawFrame) :
    SameShape (vb.feed v arith frame).2
      (vc.feed v arith { frame with ingestTs := later }).2 := by
  obtain ⟨stream, payload, now, source⟩ := frame
  have read : (RawFrame.mk stream payload later source).asStr =
      (RawFrame.mk stream payload now source).asStr := rfl
  rw [VenueBook.feed, VenueBook.feed, read, ← h.sync]
  cases source with
  | webSocket =>
    have same := timeless vb.sync ⟨stream, payload, now, .webSocket⟩ later
    dsimp only at same ⊢
    rw [same]
    split
    · exact h.withSync _
    · exact (h.withSync _).applyIngested _
  | restSnapshot =>
    dsimp only
    split
    · exact h
    · rw [VenueBook.applyRestSnapshot, VenueBook.applyRestSnapshot, ← h.sync]
      exact (h.withSync _).applyIngested _
  | restAudit =>
    dsimp only
    split
    · exact h
    · exact h.audit _

/-- Messages told again take books of one shape to books of one shape. -/
theorem SameShape.deliver (timeless : Timeless v) (h : SameShape vb vc) {m r : IngestMessage}
    (retold : Retold m r) : SameShape (deliver v arith vb m).2 (deliver v arith vc r).2 := by
  cases retold with
  | frame frame now => exact h.feed timeless frame
  | sessionEnded stream now later ending other =>
    constructor
    · exact congrArg v.reset h.sync
    · exact h.policy
    · exact congrArg AuditTrail.reset h.trail
    · exact h.depth
    · have levels : vb.book.levels = vc.book.levels := congrArg View.levels h.view
      rw [viewOf, viewOf]
      exact congrArg (fun l => (⟨l, .down .connectionLost⟩ : View)) levels

end Shapes

end TapeFiles

import MarketAggregator.KrakenChecksums
import MarketAggregator.TapeText

/-!
# Scripted streams and what a network makes of them

A script builds a well-formed stream beside a shadow book, which is the book the venue
has. A tape is the frames of a script, and a network loses, repeats and reorders them.
What a book makes of a tape is compared with the shadow: an intact tape gives it under
every discipline, a counted tape never gives anything else, and a tape that is only
ordered hides whatever was lost.
-/

namespace FakeScripts

open Clocks Decimals FakeFeed MarketEvents OrderBook TapeFiles TapeText TrustedReplay VenueBooks
  VenueStreams

/-- The gap between two frames of a script. -/
def frameInterval : Nat := 10 * nanosPerMilli

def jsonArray (items : List (List Char)) : List Char := '[' :: commaSeparated items ++ [']']

def jsonPairs (pairs : Pairs) : List Char :=
  jsonArray (pairs.map fun pair => jsonArray [jsonString pair.1, jsonString pair.2])

def messageFields : FakeMsg → List (List Char)
  | .snapshot seq bids asks =>
    [jsonField "type" (jsonString "snapshot"), jsonField "seq" (Nat.toDigits 10 seq.toNat),
      jsonField "bids" (jsonPairs bids), jsonField "asks" (jsonPairs asks)]
  | .delta seq bids asks =>
    [jsonField "type" (jsonString "delta"), jsonField "seq" (Nat.toDigits 10 seq.toNat),
      jsonField "bids" (jsonPairs bids), jsonField "asks" (jsonPairs asks)]
  | .checksum seq value =>
    [jsonField "type" (jsonString "checksum"), jsonField "seq" (Nat.toDigits 10 seq.toNat),
      jsonField "value" (Nat.toDigits 10 value.toNat)]

/-- The JSON text of a message. -/
def payloadOf (message : FakeMsg) : Payload :=
  .text (String.ofList
    (Char.ofNat 123 :: commaSeparated (messageFields message) ++ [Char.ofNat 125]))

structure Script where
  frames : List RawFrame
  seq : UInt64
  shadow : Book
  clock : IngestTime
  symbol : Symbol

structure Tape where
  frames : List RawFrame
  symbol : Symbol

/-- One call of the builder. -/
inductive Call where
  | snapshot (bids asks : Pairs)
  | delta (bids asks : Pairs)
  | checkpoint

section Build

variable (w : FakeWire)

/-- Both sides of a message, if all their texts are numbers. -/
def readSides (bids asks : Pairs) : Option Sides :=
  match toLevels w bids, toLevels w asks with
  | .ok bids, .ok asks => some (bids, asks)
  | _, _ => none

namespace Script

def forSymbol (symbol : Symbol) (start : IngestTime) : Script where
  frames := []
  seq := 0
  shadow := Book.new .fake symbol
  clock := start
  symbol := symbol

def push (s : Script) (message : FakeMsg) : Script :=
  { s with
    frames := s.frames ++ [⟨⟨.fake, s.symbol⟩, payloadOf message, s.clock, .webSocket⟩]
    clock := advancedBy s.clock frameInterval }

def snapshot (s : Script) (bids asks : Pairs) : Script :=
  let s := { s with seq := s.seq + 1 }
  let s := match readSides w bids asks with
    | some sides =>
      { s with shadow := (s.shadow.applySnapshot sides.1 sides.2 .verified s.clock).2 }
    | none => s
  s.push (.snapshot s.seq bids asks)

def delta (s : Script) (bids asks : Pairs) : Script :=
  let s := { s with seq := s.seq + 1 }
  let s := match readSides w bids asks with
    | some sides => { s with shadow := (s.shadow.applyDelta sides.1 sides.2 s.clock).2 }
    | none => s
  s.push (.delta s.seq bids asks)

/-- A hash of the book as it should be at this point. -/
def checkpoint (s : Script) : Script :=
  let s := { s with seq := s.seq + 1 }
  s.push (.checksum s.seq (fakeChecksum w s.shadow.levels))

def build (s : Script) : Tape := ⟨s.frames, s.symbol⟩

def call (s : Script) : Call → Script
  | .snapshot bids asks => s.snapshot w bids asks
  | .delta bids asks => s.delta w bids asks
  | .checkpoint => s.checkpoint w

end Script

/-- A script after some calls. -/
def scripted (s : Script) (calls : List Call) : Script := calls.foldl (Script.call w) s

namespace Tape

def dropAt (t : Tape) (index : Nat) : Tape := { t with frames := t.frames.eraseIdx index }

def swap (t : Tape) (a b : Nat) : Tape :=
  match t.frames[a]?, t.frames[b]? with
  | some first, some second => { t with frames := (t.frames.set a second).set b first }
  | _, _ => t

end Tape

variable (arith : DecimalArith)

def feedAll (vb : VenueBook FakeSync) (frames : List RawFrame) : VenueBook FakeSync :=
  frames.foldl (fun vb frame => (vb.feed (FakeSync.sync w) arith frame).2) vb

def run (tape : Tape) (integrity : Integrity) : VenueBook FakeSync :=
  feedAll w arith (VenueBook.new (FakeSync.sync w) (FakeSync.new integrity) tape.symbol) tape.frames

end Build

/-- The message a call is sent as. -/
def Script.message (w : FakeWire) (s : Script) : Call → FakeMsg
  | .snapshot bids asks => .snapshot (s.seq + 1) bids asks
  | .delta bids asks => .delta (s.seq + 1) bids asks
  | .checkpoint => .checksum (s.seq + 1) (fakeChecksum w s.shadow.levels)

def Script.frame (w : FakeWire) (s : Script) (c : Call) : RawFrame :=
  ⟨⟨.fake, s.symbol⟩, payloadOf (s.message w c), s.clock, .webSocket⟩

/-- The frames that calls add to a script. -/
def framesFrom (w : FakeWire) (s : Script) : List Call → List RawFrame
  | [] => []
  | c :: calls => s.frame w c :: framesFrom w (s.call w c) calls

/-- The venue reads back every message that the calls are sent as. -/
def Legible (w : FakeWire) (s : Script) : List Call → Prop
  | [] => True
  | c :: calls => w.message (payloadOf (s.message w c)) = .ok (s.message w c) ∧
    Legible w (s.call w c) calls

/-- What a call does to a view of the book. -/
def shown (w : FakeWire) (v : View) : Call → View
  | .snapshot bids asks => match readSides w bids asks with
    | some sides => judged (Levels.snapshot sides.1 sides.2)
    | none => v
  | .delta bids asks => match readSides w bids asks with
    | some sides => if v.status = .live then judged (v.levels.delta sides.1 sides.2) else v
    | none => v
  | .checkpoint => v

section Scripts

variable {w : FakeWire} {s : Script} {c : Call} {calls : List Call}

theorem call_frames : (s.call w c).frames = s.frames ++ [s.frame w c] := by
  cases c with
  | checkpoint => rfl
  | snapshot bids asks =>
    simp only [Script.call, Script.snapshot, Script.frame, Script.message]
    cases readSides w bids asks <;> rfl
  | delta bids asks =>
    simp only [Script.call, Script.delta, Script.frame, Script.message]
    cases readSides w bids asks <;> rfl

theorem call_seq : (s.call w c).seq = s.seq + 1 := by
  cases c with
  | checkpoint => rfl
  | snapshot bids asks =>
    simp only [Script.call, Script.snapshot, Script.push]
    cases readSides w bids asks <;> rfl
  | delta bids asks =>
    simp only [Script.call, Script.delta, Script.push]
    cases readSides w bids asks <;> rfl

theorem scripted_frames :
    (scripted w s calls).frames = s.frames ++ framesFrom w s calls := by
  induction calls generalizing s with
  | nil => simp [scripted, framesFrom]
  | cons c calls ih =>
    have rest := ih (s := s.call w c)
    rw [call_frames] at rest
    simpa [scripted, framesFrom] using rest

theorem framesFrom_append (more : List Call) : framesFrom w s (calls ++ more) =
    framesFrom w s calls ++ framesFrom w (scripted w s calls) more := by
  induction calls generalizing s with
  | nil => rfl
  | cons c calls ih => simp [framesFrom, scripted, ih]

theorem framesFrom_length : (framesFrom w s calls).length = calls.length := by
  induction calls generalizing s with
  | nil => rfl
  | cons c calls ih => exact congrArg (· + 1) ih

/-- The number of a message is how many were written before it, as long as they fit. -/
theorem scripted_seq (few : s.seq.toNat + calls.length < 2 ^ 64) :
    (scripted w s calls).seq.toNat = s.seq.toNat + calls.length := by
  induction calls generalizing s with
  | nil => rfl
  | cons c calls ih =>
    have next : (s.call w c).seq.toNat = s.seq.toNat + 1 := by
      rw [call_seq, UInt64.toNat_add]
      simp only [List.length_cons] at few
      simp
      omega
    have rest := ih (s := s.call w c) (by simp only [List.length_cons] at few; omega)
    simp only [List.length_cons]
    exact rest.trans (by omega)

/-- The shadow of a script is unlimited, like the book of the scripted venue. -/
theorem call_maxDepth (open_ended : s.shadow.maxDepth = none) :
    (s.call w c).shadow.maxDepth = none := by
  cases c with
  | checkpoint => exact open_ended
  | snapshot bids asks =>
    simp only [Script.call, Script.snapshot, Script.push]
    cases readSides w bids asks with
    | none => exact open_ended
    | some sides => exact applySnapshot_maxDepth.trans open_ended
  | delta bids asks =>
    simp only [Script.call, Script.delta, Script.push]
    cases readSides w bids asks with
    | none => exact open_ended
    | some sides => exact applyDelta_maxDepth.trans open_ended

/-- The shadow moves as the call says. -/
theorem call_shadow (open_ended : s.shadow.maxDepth = none) :
    viewOf (s.call w c).shadow = shown w (viewOf s.shadow) c := by
  cases c with
  | checkpoint => rfl
  | snapshot bids asks =>
    simp only [Script.call, Script.snapshot, Script.push, shown]
    cases readSides w bids asks with
    | none => rfl
    | some sides =>
      have moved : viewOf (applyAction (fun _ => none) .verified s.clock s.shadow
          (.snapshot sides.1 sides.2)).1 = _ := view_applyAction ..
      rw [open_ended] at moved
      exact moved
  | delta bids asks =>
    simp only [Script.call, Script.delta, Script.push, shown]
    cases readSides w bids asks with
    | none => rfl
    | some sides =>
      have moved : viewOf (applyAction (fun _ => none) .verified s.clock s.shadow
          (.delta sides.1 sides.2)).1 = _ := view_applyAction ..
      rw [open_ended, applyAction_delta] at moved
      exact moved

theorem scripted_shadow (open_ended : s.shadow.maxDepth = none) :
    viewOf (scripted w s calls).shadow = calls.foldl (shown w) (viewOf s.shadow) := by
  induction calls generalizing s with
  | nil => rfl
  | cons c calls ih =>
    rw [List.foldl_cons, ← call_shadow open_ended]
    exact ih (call_maxDepth open_ended)

end Scripts

section Feeds

variable {w : FakeWire} {arith : DecimalArith} {s : Script} {c : Call}
  {vb : VenueBook FakeSync}

def actionsOf : Except VenueError Ingested → List SyncAction
  | .ok ingested => ingested.actions
  | .error _ => []

theorem feed_websocket (w : FakeWire) (arith : DecimalArith) (vb : VenueBook FakeSync)
    {frame : RawFrame} (socket : frame.source = .webSocket) :
    (vb.feed (FakeSync.sync w) arith frame).2.sync = (vb.sync.ingest w frame).2 ∧
      (vb.feed (FakeSync.sync w) arith frame).2.book.maxDepth = vb.book.maxDepth ∧
      viewOf (vb.feed (FakeSync.sync w) arith frame).2.book =
        replay ((FakeSync.sync w).checksum (vb.sync.ingest w frame).2) vb.book.maxDepth
          (viewOf vb.book) (actionsOf (vb.sync.ingest w frame).1) := by
  rw [VenueBook.feed, socket]
  have reads : (FakeSync.sync w).ingest vb.sync frame = vb.sync.ingest w frame := rfl
  dsimp only
  rw [reads]
  cases vb.sync.ingest w frame with
  | mk result sync =>
    cases result with
    | error e => exact ⟨rfl, rfl, rfl⟩
    | ok ingested => exact ⟨rfl, applyActions_maxDepth .., view_applyActions ..⟩

/-- What a message that is not out of order does to a view. -/
def accepts (w : FakeWire) (integrity : Integrity) (s : Script) (v : View) : Call → View
  | .checkpoint => match integrity with
    | .verified => act (fun levels => some (fakeChecksum w levels)) none v
      (.verify (fakeChecksum w s.shadow.levels))
    | _ => v
  | c => shown w v c

/-- What the next message does to a view: only a snapshot is not checked for its number. -/
def receives (w : FakeWire) (sync : FakeSync) (s : Script) (v : View) (c : Call) : View :=
  match c with
  | .snapshot bids asks => shown w v (.snapshot bids asks)
  | c => match (sync.checkSeq (s.seq + 1)).1 with
    | some reason => { v with status := .down reason }
    | none => accepts w sync.integrity s v c

theorem actions_accepted (sync : FakeSync) (bids asks : Pairs) (seq : UInt64) :
    actionsOf (sync.accepted w (.snapshot seq bids asks)) =
        ((readSides w bids asks).map (fun sides => .snapshot sides.1 sides.2)).toList ∧
      actionsOf (sync.accepted w (.delta seq bids asks)) =
        ((readSides w bids asks).map (fun sides => .delta sides.1 sides.2)).toList := by
  simp only [FakeSync.accepted, readSides]
  cases toLevels w bids with
  | error e => exact ⟨rfl, rfl⟩
  | ok bids => cases toLevels w asks with
    | error e => exact ⟨rfl, rfl⟩
    | ok asks => exact ⟨rfl, rfl⟩

theorem checkSeq_noted (sync : FakeSync) (seq : UInt64) :
    (sync.checkSeq seq).2 = { sync with expectedSeq := some (seq + 1) } := by
  rw [FakeSync.checkSeq]
  split
  · split <;> rfl
  · split <;> rfl
  · rfl

/-- The sync notes the number of every message and tells the book what it accepts. -/
theorem feed_call (arith : DecimalArith)
    (legible : w.message (payloadOf (s.message w c)) = .ok (s.message w c))
    (open_ended : vb.book.maxDepth = none) :
    (vb.feed (FakeSync.sync w) arith (s.frame w c)).2.sync =
        { vb.sync with expectedSeq := some (s.seq + 1 + 1) } ∧
      (vb.feed (FakeSync.sync w) arith (s.frame w c)).2.book.maxDepth = none ∧
      viewOf (vb.feed (FakeSync.sync w) arith (s.frame w c)).2.book =
        receives w vb.sync s (viewOf vb.book) c := by
  obtain ⟨sync, depth, view⟩ := feed_websocket w arith vb (rfl : (s.frame w c).source = _)
  rw [sync, depth, view, open_ended]
  have reads : w.message (s.frame w c).payload = .ok (s.message w c) := legible
  have own : (s.frame w c).stream.venue = .fake := rfl
  rw [FakeSync.ingest, if_neg (not_not.mpr own), reads]
  cases c with
  | snapshot bids asks =>
    refine ⟨rfl, rfl, ?_⟩
    have actions := (actions_accepted (w := w) { vb.sync with expectedSeq := some (s.seq + 1 + 1) }
      bids asks (s.seq + 1)).1
    simp only [Script.message, actions, receives, shown]
    cases readSides w bids asks <;> rfl
  | delta bids asks =>
    simp only [Script.message, FakeMsg.seq, receives]
    rw [checkSeq_noted]
    cases (vb.sync.checkSeq (s.seq + 1)).1 with
    | some reason => exact ⟨rfl, trivial, rfl⟩
    | none =>
      refine ⟨rfl, trivial, ?_⟩
      have actions := (actions_accepted (w := w)
        { vb.sync with expectedSeq := some (s.seq + 1 + 1) } bids asks (s.seq + 1)).2
      simp only [actions, accepts, shown]
      cases readSides w bids asks <;> rfl
  | checkpoint =>
    simp only [Script.message, FakeMsg.seq, receives]
    rw [checkSeq_noted]
    cases (vb.sync.checkSeq (s.seq + 1)).1 with
    | some reason => exact ⟨rfl, trivial, rfl⟩
    | none =>
      refine ⟨rfl, trivial, ?_⟩
      simp only [accepts, FakeSync.accepted, FakeSync.sync]
      cases vb.sync.integrity <;> rfl

@[simp] theorem feedAll_cons {frame : RawFrame} {frames : List RawFrame} :
    feedAll w arith vb (frame :: frames) =
      feedAll w arith (vb.feed (FakeSync.sync w) arith frame).2 frames := rfl

@[simp] theorem feedAll_append {frames more : List RawFrame} :
    feedAll w arith vb (frames ++ more) = feedAll w arith (feedAll w arith vb frames) more :=
  List.foldl_append

theorem checkSeq_next {sync : FakeSync} {seq : UInt64}
    (next : sync.expectedSeq = none ∨ sync.expectedSeq = some seq) :
    (sync.checkSeq seq).1 = none := by
  rw [FakeSync.checkSeq]
  rcases next with unset | expected
  · rw [unset]
    cases sync.integrity <;> rfl
  · rw [expected]
    cases sync.integrity <;> simp

/-- A hash of the levels that the book has is one it passes. -/
theorem accepts_shown {integrity : Integrity} {v : View} (same : v.levels = s.shadow.levels) :
    accepts w integrity s v c = shown w v c := by
  cases c with
  | snapshot bids asks => rfl
  | delta bids asks => rfl
  | checkpoint =>
    cases integrity with
    | orderOnly => rfl
    | gapDetectable => rfl
    | verified => simp [accepts, shown, act, same]

/-- Every message but a snapshot is checked for its number. -/
theorem receives_checked (w : FakeWire) (sync : FakeSync) (s : Script) (v : View)
    (unread : ∀ bids asks, c ≠ .snapshot bids asks) :
    (∃ reason, (sync.checkSeq (s.seq + 1)).1 = some reason ∧
        receives w sync s v c = { v with status := .down reason }) ∨
      ((sync.checkSeq (s.seq + 1)).1 = none ∧
        receives w sync s v c = accepts w sync.integrity s v c) := by
  cases c with
  | snapshot bids asks => exact absurd rfl (unread bids asks)
  | delta bids asks =>
    simp only [receives]
    cases (sync.checkSeq (s.seq + 1)).1 with
    | none => exact .inr ⟨rfl, rfl⟩
    | some reason => exact .inl ⟨reason, rfl, rfl⟩
  | checkpoint =>
    simp only [receives]
    cases (sync.checkSeq (s.seq + 1)).1 with
    | none => exact .inr ⟨rfl, rfl⟩
    | some reason => exact .inl ⟨reason, rfl, rfl⟩

/-- A venue that publishes no hash is not checked against one. -/
theorem accepts_counted {v : View} : accepts w .gapDetectable s v c = shown w v c := by
  cases c <;> rfl

theorem receives_next {sync : FakeSync} {v : View}
    (next : sync.expectedSeq = none ∨ sync.expectedSeq = some (s.seq + 1)) :
    receives w sync s v c = accepts w sync.integrity s v c := by
  cases c with
  | snapshot bids asks => rfl
  | delta bids asks => simp only [receives, checkSeq_next next]
  | checkpoint => simp only [receives, checkSeq_next next]

end Feeds

section Tapes

variable {w : FakeWire} {arith : DecimalArith} {s : Script}
  {vb : VenueBook FakeSync} {calls : List Call}

theorem feedAll_intact (legible : Legible w s calls)
    (open_ended : s.shadow.maxDepth = none) (unlimited : vb.book.maxDepth = none)
    (next : vb.sync.expectedSeq = none ∨ vb.sync.expectedSeq = some (s.seq + 1))
    (same : viewOf vb.book = viewOf s.shadow) :
    viewOf (feedAll w arith vb (framesFrom w s calls)).book =
      viewOf (scripted w s calls).shadow := by
  induction calls generalizing s vb with
  | nil => exact same
  | cons c calls ih =>
    obtain ⟨sync, depth, view⟩ := feed_call arith legible.1 unlimited
    have levels : (viewOf vb.book).levels = s.shadow.levels := congrArg View.levels same
    rw [receives_next next, accepts_shown levels, same, ← call_shadow open_ended]
      at view
    refine ih legible.2 (call_maxDepth open_ended) depth (.inr ?_) view
    rw [sync, call_seq]

def sampleSymbol : Symbol := ⟨"BTC-USD"⟩

def sampleSnapshot : Call := .snapshot [("100", "1")] [("101", "1")]

def sampleCalls : List Call :=
  [sampleSnapshot, .delta [("100", "2")] [], .delta [] [("101", "3")]]

/-- Reads the messages that the sample calls are sent as, and the hash of the first book. -/
def sampleWire : FakeWire where
  message payload :=
    (([.snapshot 1 [("100", "1")] [("101", "1")], .delta 2 [("100", "2")] [],
      .delta 3 [] [("101", "3")], .checksum 2 4260527993] : List FakeMsg).find?
        (fun message => payloadOf message = payload)).elim (.error "unknown") .ok
  decimals := DecimalText.plain
  crc32 := KrakenChecksums.crcAscii

theorem legible_sample : Legible sampleWire (.forSymbol sampleSymbol ⟨0, 0⟩) sampleCalls :=
  ⟨by decide +kernel, by decide +kernel, by decide +kernel, trivial⟩

/-- A tape that arrives whole gives the book that the venue has, under every discipline. -/
theorem intact_tape (w : FakeWire) (arith : DecimalArith) (symbol : Symbol) (start : IngestTime)
    (calls : List Call) (legible : Legible w (.forSymbol symbol start) calls)
    (integrity : Integrity) :
    viewOf (run w arith (scripted w (.forSymbol symbol start) calls).build integrity).book =
      viewOf (scripted w (.forSymbol symbol start) calls).shadow := by
  rw [run, Script.build]
  dsimp only
  rw [scripted_frames]
  exact feedAll_intact legible rfl rfl (.inl rfl) rfl

theorem intact_tape_sample :
    viewOf (run sampleWire .idle
        (scripted sampleWire (.forSymbol sampleSymbol ⟨0, 0⟩) sampleCalls).build .verified).book =
      viewOf (scripted sampleWire (.forSymbol sampleSymbol ⟨0, 0⟩) sampleCalls).shadow :=
  intact_tape sampleWire .idle sampleSymbol ⟨0, 0⟩ sampleCalls legible_sample .verified

/-- The messages that arrive: one mark for each, and none once the marks run out. -/
def surviving {A : Type} : List Bool → List A → List A
  | true :: marks, a :: l => a :: surviving marks l
  | false :: marks, _ :: l => surviving marks l
  | _, _ => []

theorem checkSeq_later {sync : FakeSync} {seq : UInt64} (order : sync.integrity = .orderOnly)
    (later : ∀ e, sync.expectedSeq = some e → e.toNat ≤ seq.toNat) :
    (sync.checkSeq seq).1 = none := by
  rw [FakeSync.checkSeq, order]
  cases expected : sync.expectedSeq with
  | none => rfl
  | some e =>
    have late := later e expected
    have notEarlier : ¬ seq < e := by
      rw [UInt64.lt_iff_toNat_lt]
      omega
    simp [notEarlier]

theorem receives_later {sync : FakeSync} {v : View} {c : Call} (order : sync.integrity = .orderOnly)
    (later : ∀ e, sync.expectedSeq = some e → e.toNat ≤ (s.seq + 1).toNat) :
    receives w sync s v c = shown w v c := by
  cases c with
  | snapshot bids asks => rfl
  | delta bids asks => simp only [receives, checkSeq_later order later, accepts]
  | checkpoint => simp only [receives, checkSeq_later order later, accepts, order, shown]

theorem toNat_next {n : UInt64} (small : n.toNat + 1 < 2 ^ 64) : (n + 1).toNat = n.toNat + 1 := by
  rw [UInt64.toNat_add]
  simp
  omega

theorem feedAll_thinned (legible : Legible w s calls)
    (unlimited : vb.book.maxDepth = none) (order : vb.sync.integrity = .orderOnly)
    (few : s.seq.toNat + calls.length < 2 ^ 64)
    (later : ∀ e, vb.sync.expectedSeq = some e → e.toNat ≤ s.seq.toNat + 1) (marks : List Bool) :
    viewOf (feedAll w arith vb (surviving marks (framesFrom w s calls))).book =
      (surviving marks calls).foldl (shown w) (viewOf vb.book) := by
  induction calls generalizing s vb marks with
  | nil => cases marks with
    | nil => rfl
    | cons mark marks => cases mark <;> rfl
  | cons c calls ih =>
    simp only [List.length_cons] at few
    have number : (s.seq + 1).toNat = s.seq.toNat + 1 := toNat_next (by omega)
    have next : (s.call w c).seq.toNat = s.seq.toNat + 1 := by rw [call_seq, number]
    cases marks with
    | nil => rfl
    | cons mark marks => cases mark with
      | false =>
        refine ih legible.2 unlimited order (by omega) ?_ marks
        intro e expected
        have bound := later e expected
        omega
      | true =>
        obtain ⟨sync, depth, view⟩ := feed_call arith legible.1 unlimited
        rw [receives_later order fun e expected => number ▸ later e expected] at view
        simp only [framesFrom, surviving, feedAll_cons, List.foldl_cons, ← view]
        refine ih legible.2 depth (by rw [sync]; exact order) (by omega) ?_ marks
        intro e expected
        rw [sync] at expected
        obtain rfl := Option.some.inj expected
        rw [next]
        by_cases room : s.seq.toNat + 2 < 2 ^ 64
        · rw [toNat_next (by omega), number]
        · have small := (s.seq + 1 + 1).toNat_lt
          omega

/-- A venue whose messages are only ordered hides every loss: whatever is lost, the book is
the one of a venue that never sent it. -/
theorem losses_unnoticed (w : FakeWire) (arith : DecimalArith) (symbol : Symbol)
    (start : IngestTime) (calls : List Call) (few : calls.length < 2 ^ 64)
    (legible : Legible w (.forSymbol symbol start) calls) (marks : List Bool) :
    viewOf (run w arith
        ⟨surviving marks (scripted w (.forSymbol symbol start) calls).frames, symbol⟩
        .orderOnly).book =
      viewOf (scripted w (.forSymbol symbol start) (surviving marks calls)).shadow := by
  rw [run, scripted_frames, scripted_shadow rfl]
  refine feedAll_thinned legible rfl rfl (by simpa [Script.forSymbol] using few) ?_ marks
  intro e expected
  cases expected

theorem losses_unnoticed_sample :
    viewOf (run sampleWire .idle ⟨surviving [true, false, true]
        (scripted sampleWire (.forSymbol sampleSymbol ⟨0, 0⟩) sampleCalls).frames, sampleSymbol⟩
        .orderOnly).book =
      viewOf (scripted sampleWire (.forSymbol sampleSymbol ⟨0, 0⟩)
        (surviving [true, false, true] sampleCalls)).shadow :=
  losses_unnoticed sampleWire .idle sampleSymbol ⟨0, 0⟩ sampleCalls (by decide) legible_sample
    [true, false, true]

theorem mem_framesFrom {frame : RawFrame} (mem : frame ∈ framesFrom w s calls) :
    ∃ before c after, calls = before ++ c :: after ∧
      frame = (scripted w s before).frame w c := by
  induction calls generalizing s with
  | nil => cases mem
  | cons first calls ih =>
    rcases List.mem_cons.mp mem with rfl | mem
    · exact ⟨[], first, calls, rfl, rfl⟩
    · obtain ⟨before, c, after, rfl, rfl⟩ := ih mem
      exact ⟨first :: before, c, after, rfl, rfl⟩

theorem scripted_snoc {c : Call} :
    scripted w s (calls ++ [c]) = (scripted w s calls).call w c := by
  simp [scripted]

theorem legible_append {more : List Call} : Legible w s (calls ++ more) ↔
    Legible w s calls ∧ Legible w (scripted w s calls) more := by
  induction calls generalizing s with
  | nil => simp [Legible, scripted]
  | cons c calls ih => simp [Legible, scripted, ih, and_assoc]

theorem legible_at (legible : Legible w s calls) {before after : List Call} {c : Call}
    (split : calls = before ++ c :: after) :
    w.message (payloadOf ((scripted w s before).message w c)) =
      .ok ((scripted w s before).message w c) := by
  rw [split] at legible
  exact (legible_append.mp legible).2.1

theorem scripted_maxDepth (open_ended : s.shadow.maxDepth = none) :
    (scripted w s calls).shadow.maxDepth = none := by
  induction calls generalizing s with
  | nil => exact open_ended
  | cons c calls ih => exact ih (call_maxDepth open_ended)

/-- The book is the venue's book after some of the calls, and expects the message after them. -/
def Current (w : FakeWire) (s : Script) (past : List Call)
    (vb : VenueBook FakeSync) : Prop :=
  vb.sync.expectedSeq = some ((scripted w s past).seq + 1) ∧
    viewOf vb.book = viewOf (scripted w s past).shadow

/-- A counting book, current whenever it is live. -/
structure Counting (w : FakeWire) (s : Script) (calls : List Call)
    (vb : VenueBook FakeSync) : Prop where
  unlimited : vb.book.maxDepth = none
  counts : vb.sync.integrity = .gapDetectable
  current : vb.book.state.isLive = true → ∃ past, past <+: calls ∧ Current w s past vb

/-- Messages are told apart by their numbers. -/
theorem past_of_seq (few : s.seq.toNat + calls.length < 2 ^ 64) {past before : List Call}
    (told : past <+: calls) (read : before <+: calls)
    (same : (scripted w s past).seq = (scripted w s before).seq) : past = before := by
  have short := told.length_le
  have short' := read.length_le
  have numbers := congrArg UInt64.toNat same
  rw [scripted_seq (by omega), scripted_seq (by omega)] at numbers
  exact (List.prefix_of_prefix_length_le told read (by omega)).eq_of_length (by omega)

theorem checkSeq_expected {sync : FakeSync} {seq e : UInt64}
    (counts : sync.integrity = .gapDetectable) (expected : sync.expectedSeq = some e)
    (passed : (sync.checkSeq seq).1 = none) : e = seq := by
  rw [FakeSync.checkSeq, counts, expected] at passed
  by_contra other
  simp [Ne.symm other] at passed

/-- Only a snapshot makes a view live that was not. -/
theorem shown_live {v : View} {c : Call} (unread : ∀ bids asks, c ≠ .snapshot bids asks)
    (live : (shown w v c).status = .live) : v.status = .live := by
  cases c with
  | snapshot bids asks => exact absurd rfl (unread bids asks)
  | checkpoint => exact live
  | delta bids asks =>
    by_contra down
    revert live
    simp only [shown]
    cases readSides w bids asks <;> simp [down]

/-- Whatever arrives, a book that is live right after a message is the venue's book there. -/
theorem feed_counting (legible : Legible w s calls)
    (open_ended : s.shadow.maxDepth = none) (few : s.seq.toNat + calls.length < 2 ^ 64)
    (readable : ∀ bids asks, .snapshot bids asks ∈ calls → (readSides w bids asks).isSome = true)
    (counting : Counting w s calls vb) {before after : List Call} {c : Call}
    (split : calls = before ++ c :: after)
    (live : (vb.feed (FakeSync.sync w) arith
      ((scripted w s before).frame w c)).2.book.state.isLive = true) :
    Current w s (before ++ [c])
      (vb.feed (FakeSync.sync w) arith ((scripted w s before).frame w c)).2 := by
  have read := legible_at legible split
  obtain ⟨sync, -, view⟩ := feed_call arith read counting.unlimited
  have noted : (vb.feed (FakeSync.sync w) arith
      ((scripted w s before).frame w c)).2.sync.expectedSeq =
        some ((scripted w s (before ++ [c])).seq + 1) := by
    rw [sync, scripted_snoc, call_seq]
  refine ⟨noted, ?_⟩
  have status : (receives w vb.sync (scripted w s before) (viewOf vb.book) c).status =
      .live := view ▸ statusOf_live.mpr live
  rw [view, scripted_snoc, call_shadow (scripted_maxDepth open_ended)]
  by_cases opening : ∃ bids asks, c = .snapshot bids asks
  · obtain ⟨bids, asks, rfl⟩ := opening
    obtain ⟨sides, both⟩ := Option.isSome_iff_exists.mp (readable bids asks (by simp [split]))
    simp [receives, shown, both]
  · have unread : ∀ bids asks, c ≠ .snapshot bids asks :=
      fun bids asks same => opening ⟨bids, asks, same⟩
    rcases receives_checked w vb.sync (scripted w s before) (viewOf vb.book) unread with
      ⟨reason, _, down⟩ | ⟨passed, heard⟩
    · rw [down] at status
      cases status
    · rw [counting.counts, accepts_counted] at heard
      rw [heard] at status ⊢
      have was : vb.book.state.isLive = true := statusOf_live.mp (shown_live unread status)
      obtain ⟨past, told, expected, same⟩ := counting.current was
      have next := checkSeq_expected counting.counts expected passed
      have equal : past = before := past_of_seq (w := w) (s := s) few told
        ⟨c :: after, split.symm⟩ (by simpa using next)
      rw [same, equal]

theorem counting_feedAll (legible : Legible w s calls)
    (open_ended : s.shadow.maxDepth = none) (few : s.seq.toNat + calls.length < 2 ^ 64)
    (readable : ∀ bids asks, .snapshot bids asks ∈ calls → (readSides w bids asks).isSome = true)
    (counting : Counting w s calls vb) {frames : List RawFrame}
    (taken : ∀ frame ∈ frames, frame ∈ framesFrom w s calls) :
    Counting w s calls (feedAll w arith vb frames) := by
  induction frames generalizing vb with
  | nil => exact counting
  | cons frame frames ih =>
    obtain ⟨own, others⟩ := List.forall_mem_cons.mp taken
    obtain ⟨before, c, after, split, rfl⟩ := mem_framesFrom own
    have read := legible_at legible split
    obtain ⟨sync, depth, -⟩ := feed_call arith read counting.unlimited
    refine ih ⟨depth, ?_, ?_⟩ others
    · rw [sync]
      exact counting.counts
    · intro live
      exact ⟨before ++ [c], ⟨after, by simp [split]⟩,
        feed_counting legible open_ended few readable counting split live⟩

/-- Whatever a network loses, repeats and reorders: a book of a counting venue that is live
after a message is the book the venue had after sending it. -/
theorem counted_live_current (w : FakeWire) (arith : DecimalArith) (symbol : Symbol)
    (start : IngestTime) (calls : List Call) (few : calls.length < 2 ^ 64)
    (legible : Legible w (.forSymbol symbol start) calls)
    (readable : ∀ bids asks, .snapshot bids asks ∈ calls → (readSides w bids asks).isSome = true)
    (frames : List RawFrame)
    (taken : ∀ frame ∈ frames, frame ∈ (scripted w (.forSymbol symbol start) calls).frames)
    (before after : List Call) (c : Call) (split : calls = before ++ c :: after)
    (live : (run w arith ⟨frames ++
      [(scripted w (.forSymbol symbol start) before).frame w c], symbol⟩
        .gapDetectable).book.state.isLive = true) :
    viewOf (run w arith ⟨frames ++
        [(scripted w (.forSymbol symbol start) before).frame w c], symbol⟩
          .gapDetectable).book =
      viewOf (scripted w (.forSymbol symbol start) (before ++ [c])).shadow := by
  rw [scripted_frames] at taken
  rw [run, feedAll_append] at live ⊢
  have fits : (Script.forSymbol symbol start).seq.toNat + calls.length < 2 ^ 64 := by
    simpa [Script.forSymbol] using few
  have counting : Counting w (.forSymbol symbol start) calls
      (feedAll w arith (VenueBook.new (FakeSync.sync w) (FakeSync.new .gapDetectable) symbol)
        frames) :=
    counting_feedAll legible rfl fits readable
      ⟨rfl, rfl, fun live => by cases live⟩ taken
  exact (feed_counting legible rfl fits readable counting split live).2

/-- The first update arrives a second time, behind the other. -/
def sampleDamage : List RawFrame :=
  let frames := (scripted sampleWire (.forSymbol sampleSymbol ⟨0, 0⟩) sampleCalls).frames
  frames ++ (frames.drop 1).take 1

theorem counted_live_current_sample :
    viewOf (run sampleWire .idle ⟨sampleDamage ++
        [(scripted sampleWire (.forSymbol sampleSymbol ⟨0, 0⟩) []).frame sampleWire
          sampleSnapshot], sampleSymbol⟩ .gapDetectable).book =
      viewOf (scripted sampleWire (.forSymbol sampleSymbol ⟨0, 0⟩) [sampleSnapshot]).shadow := by
  refine counted_live_current sampleWire .idle sampleSymbol ⟨0, 0⟩ sampleCalls (by decide)
    legible_sample ?_ sampleDamage ?_ [] _ _ rfl (by decide +kernel)
  · intro bids asks mem
    obtain ⟨rfl, rfl⟩ : bids = [("100", "1")] ∧ asks = [("101", "1")] := by
      simpa [sampleCalls, sampleSnapshot] using mem
    decide +kernel
  · intro frame mem
    rcases List.mem_append.mp mem with own | again
    · exact own
    · exact List.mem_of_mem_drop (List.mem_of_mem_take again)

theorem feedAll_sync (arith : DecimalArith) (legible : Legible w s calls)
    (unlimited : vb.book.maxDepth = none) (some_call : calls ≠ []) :
    (feedAll w arith vb (framesFrom w s calls)).sync =
        { vb.sync with expectedSeq := some ((scripted w s calls).seq + 1) } ∧
      (feedAll w arith vb (framesFrom w s calls)).book.maxDepth = none := by
  induction calls generalizing s vb with
  | nil => exact absurd rfl some_call
  | cons c calls ih =>
    obtain ⟨sync, depth, -⟩ := feed_call arith legible.1 unlimited
    cases calls with
    | nil =>
      refine ⟨?_, depth⟩
      have seq : (scripted w s [c]).seq = s.seq + 1 := call_seq
      rw [seq]
      exact sync
    | cons next calls =>
      obtain ⟨later, limit⟩ := ih (s := s.call w c) legible.2 depth (List.cons_ne_nil _ _)
      refine ⟨?_, limit⟩
      rw [framesFrom, feedAll_cons, later, sync]
      rfl

/-- A counting book that is down stays as it is until a snapshot. -/
theorem feedAll_down (arith : DecimalArith) (legible : Legible w s calls)
    (unlimited : vb.book.maxDepth = none) (counts : vb.sync.integrity = .gapDetectable)
    (expected : vb.sync.expectedSeq = some (s.seq + 1))
    (down : (viewOf vb.book).status ≠ .live)
    (unread : ∀ bids asks, .snapshot bids asks ∉ calls) :
    viewOf (feedAll w arith vb (framesFrom w s calls)).book = viewOf vb.book := by
  induction calls generalizing s vb with
  | nil => rfl
  | cons c calls ih =>
    obtain ⟨sync, depth, view⟩ := feed_call arith legible.1 unlimited
    have kept : shown w (viewOf vb.book) c = viewOf vb.book := by
      cases c with
      | snapshot bids asks => exact absurd List.mem_cons_self (unread bids asks)
      | checkpoint => rfl
      | delta bids asks =>
        simp only [shown, down, if_false]
        cases readSides w bids asks <;> rfl
    rw [receives_next (.inr expected), counts, accepts_counted, kept] at view
    have later := ih (s := s.call w c) legible.2 depth (by rw [sync]; exact counts)
      (by rw [sync, call_seq]) (by rw [view]; exact down)
      (fun bids asks mem => unread bids asks (List.mem_cons_of_mem _ mem))
    rw [framesFrom, feedAll_cons, later, view]

/-- A counting venue notices every lost message at the next one, names it, and stays
distrusted until a snapshot. -/
theorem lost_message_noticed (w : FakeWire) (arith : DecimalArith) (symbol : Symbol)
    (start : IngestTime) (before middle : List Call) (c : Call)
    (legible : Legible w (.forSymbol symbol start) (before ++ c :: middle))
    (begun : before ≠ []) (later : middle ≠ [])
    (unread : ∀ bids asks, .snapshot bids asks ∉ middle) :
    (viewOf (run w arith ((scripted w (.forSymbol symbol start)
        (before ++ c :: middle)).build.dropAt before.length) .gapDetectable).book).status =
      .down (.sequenceGap (scripted w (.forSymbol symbol start) (before ++ [c])).seq
        ((scripted w (.forSymbol symbol start) (before ++ [c])).seq + 1)) := by
  generalize hs : Script.forSymbol symbol start = s at legible ⊢
  obtain ⟨told, -, rest⟩ := legible_append.mp legible
  have frames : (framesFrom w s (before ++ c :: middle)).eraseIdx before.length =
      framesFrom w s before ++ framesFrom w ((scripted w s before).call w c) middle := by
    have size : (framesFrom w s before).length = before.length := framesFrom_length
    rw [framesFrom_append, ← size, List.eraseIdx_append_of_length_le (Nat.le_refl _),
      Nat.sub_self]
    rfl
  have tape : ((scripted w s (before ++ c :: middle)).build.dropAt before.length).frames =
      (framesFrom w s (before ++ c :: middle)).eraseIdx before.length := by
    rw [Script.build, Tape.dropAt, scripted_frames, ← hs]
    rfl
  rw [run, tape, frames, feedAll_append, scripted_snoc]
  generalize fresh : VenueBook.new (FakeSync.sync w) (FakeSync.new .gapDetectable) _ = vb
  have unlimited : vb.book.maxDepth = none := by rw [← fresh]; rfl
  obtain ⟨sync, depth⟩ := feedAll_sync arith told unlimited begun
  generalize feedAll w arith vb (framesFrom w s before) = opened at sync depth ⊢
  have counts : opened.sync.integrity = .gapDetectable := by rw [sync, ← fresh]; rfl
  have expected : opened.sync.expectedSeq = some ((scripted w s before).call w c).seq := by
    rw [sync, call_seq]
  generalize (scripted w s before).call w c = past at expected rest ⊢
  cases middle with
  | nil => exact absurd rfl later
  | cons next middle =>
    obtain ⟨noted, limit, view⟩ := feed_call arith rest.1 depth
    have missed : (opened.sync.checkSeq (past.seq + 1)).1 =
        some (.sequenceGap past.seq (past.seq + 1)) := by
      rw [FakeSync.checkSeq, counts, expected]
      simp
    rcases receives_checked w opened.sync past (viewOf opened.book)
      (fun bids asks same => unread bids asks (same ▸ List.mem_cons_self)) with
      ⟨reason, gap, down⟩ | ⟨passed, -⟩
    · obtain rfl := Option.some.inj (gap.symm.trans missed)
      rw [down] at view
      have stays := feedAll_down arith rest.2 limit (by rw [noted]; exact counts)
        (by rw [noted, call_seq]) (by rw [view]; intro live; cases live)
        (fun bids asks mem => unread bids asks (List.mem_cons_of_mem _ mem))
      rw [framesFrom, feedAll_cons, stays, view]
    · cases passed.symm.trans missed

theorem lost_message_noticed_sample :
    (viewOf (run sampleWire .idle ((scripted sampleWire (.forSymbol sampleSymbol ⟨0, 0⟩)
        sampleCalls).build.dropAt 1) .gapDetectable).book).status =
      .down (.sequenceGap 2 3) :=
  lost_message_noticed sampleWire .idle sampleSymbol ⟨0, 0⟩
    [sampleSnapshot] [.delta [] [("101", "3")]] (.delta [("100", "2")] [])
    legible_sample (List.cons_ne_nil _ _) (List.cons_ne_nil _ _) (by simp)

theorem feed_kept (w : FakeWire) (arith : DecimalArith) (vb : VenueBook FakeSync)
    (frame : RawFrame) :
    (vb.feed (FakeSync.sync w) arith frame).2.sync.integrity = vb.sync.integrity ∧
      (vb.feed (FakeSync.sync w) arith frame).2.book.maxDepth = vb.book.maxDepth := by
  rcases VenueBook.feed_cases (FakeSync.sync w) arith vb frame with
    ⟨e, sync, read, fed⟩ | ⟨ingested, sync, read, -, fed⟩ | ⟨e, fed⟩ | ⟨snapshot, -, fed⟩ |
      ⟨snapshot, -, fed⟩
  · have claims := (fake_ingest w vb.sync frame).1
    rw [show vb.sync.ingest w frame = _ from read] at claims
    rw [fed]
    exact ⟨claims, rfl⟩
  · have claims := (fake_ingest w vb.sync frame).1
    rw [show vb.sync.ingest w frame = _ from read] at claims
    rw [fed]
    exact ⟨claims, applyActions_maxDepth ..⟩
  · rw [fed]
    exact ⟨rfl, rfl⟩
  · rw [fed]
    exact ⟨rfl, applyActions_maxDepth ..⟩
  · rw [fed]
    obtain ⟨sync, kept | ⟨reason, -, marked⟩⟩ :=
      VenueBook.audit_book arith vb snapshot frame.ingestTs
    · exact ⟨congrArg FakeSync.integrity sync, congrArg Book.maxDepth kept⟩
    · exact ⟨congrArg FakeSync.integrity sync, by rw [marked]; rfl⟩

/-- A view that passes a hash has the levels that were hashed. -/
theorem act_verify_live {hash : Levels → UInt32} {v : View} {expected : UInt32}
    (live : (act (fun levels => some (hash levels)) none v (.verify expected)).status = .live) :
    hash v.levels = expected ∧
      act (fun levels => some (hash levels)) none v (.verify expected) = v := by
  by_cases trusted : v.status = .live
  · by_cases same : hash v.levels = expected
    · simp [act, same]
    · simp [act, trusted, same] at live
  · simp [act, trusted] at live

/-- Under no discipline does a frame change what the sync claims or the depth it keeps. -/
theorem feedAll_kept (w : FakeWire) (arith : DecimalArith) (vb : VenueBook FakeSync)
    (frames : List RawFrame) :
    (feedAll w arith vb frames).sync.integrity = vb.sync.integrity ∧
      (feedAll w arith vb frames).book.maxDepth = vb.book.maxDepth := by
  induction frames generalizing vb with
  | nil => exact ⟨rfl, rfl⟩
  | cons frame frames ih =>
    obtain ⟨claims, limit⟩ := ih (vb.feed (FakeSync.sync w) arith frame).2
    obtain ⟨claim, depth⟩ := feed_kept w arith vb frame
    exact ⟨claims.trans claim, limit.trans depth⟩

/-- Whatever arrived before: a hashed book that is live right after a checkpoint hashes as the
venue's book does there. -/
theorem checkpoint_believed (w : FakeWire) (arith : DecimalArith) (symbol : Symbol)
    (start : IngestTime) (calls : List Call)
    (legible : Legible w (.forSymbol symbol start) (calls ++ [.checkpoint]))
    (frames : List RawFrame)
    (live : (run w arith ⟨frames ++ [(scripted w (.forSymbol symbol start) calls).frame w
      .checkpoint], symbol⟩ .verified).book.state.isLive = true) :
    fakeChecksum w (run w arith ⟨frames ++ [(scripted w (.forSymbol symbol start) calls).frame w
        .checkpoint], symbol⟩ .verified).book.levels =
      fakeChecksum w (scripted w (.forSymbol symbol start) calls).shadow.levels := by
  rw [run, feedAll_append] at live ⊢
  obtain ⟨claims, limit⟩ := feedAll_kept w arith
    (VenueBook.new (FakeSync.sync w) (FakeSync.new .verified) symbol) frames
  generalize feedAll w arith (VenueBook.new _ _ _) frames = vb at claims limit live ⊢
  obtain ⟨-, -, view⟩ := feed_call arith (legible_at legible rfl) limit
  have hashed : vb.sync.integrity = .verified := claims
  have unchecked : (vb.sync.checkSeq ((scripted w (.forSymbol symbol start) calls).seq + 1)).1 =
      none := by rw [FakeSync.checkSeq, hashed]
  simp only [receives, unchecked, accepts, hashed] at view
  have status : (viewOf (vb.feed (FakeSync.sync w) arith
      ((scripted w (.forSymbol symbol start) calls).frame w .checkpoint)).2.book).status = .live :=
    statusOf_live.mpr live
  rw [view] at status
  obtain ⟨same, kept⟩ := act_verify_live status
  rw [kept] at view
  have levels : (vb.feed (FakeSync.sync w) arith
      ((scripted w (.forSymbol symbol start) calls).frame w .checkpoint)).2.book.levels =
        vb.book.levels := congrArg View.levels view
  exact (congrArg (fakeChecksum w) levels).trans same

theorem checkpoint_believed_sample :
    fakeChecksum sampleWire (run sampleWire .idle
        ⟨(scripted sampleWire (.forSymbol sampleSymbol ⟨0, 0⟩) [sampleSnapshot]).frames ++
          [(scripted sampleWire (.forSymbol sampleSymbol ⟨0, 0⟩) [sampleSnapshot]).frame sampleWire
            .checkpoint], sampleSymbol⟩ .verified).book.levels =
      fakeChecksum sampleWire
        (scripted sampleWire (.forSymbol sampleSymbol ⟨0, 0⟩) [sampleSnapshot]).shadow.levels :=
  checkpoint_believed sampleWire .idle sampleSymbol ⟨0, 0⟩ [sampleSnapshot]
    ⟨by decide +kernel, by decide +kernel, trivial⟩ _ (by decide +kernel)

end Tapes

end FakeScripts

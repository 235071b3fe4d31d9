import MarketAggregator.DepthAudit

/-!
# A venue's sync state machine and the book it maintains

A venue turns one raw frame into actions for the book and keeps whatever state its
wire discipline needs. Applying the actions is the same for every venue and every
entry point, and reports each applied event and any change of the book's state.
-/

namespace VenueBooks

open Clocks Decimals DepthAudit MarketEvents OrderBook VenueStreams

universe u

/-- Bytes off a socket: text, or bytes that are not valid UTF-8. -/
inductive Payload where
  | text (s : String)
  | binary (bytes : List UInt8)
  deriving DecidableEq, Repr

inductive FrameSource where
  | webSocket
  | restSnapshot
  | restAudit
  deriving DecidableEq, Repr

structure RawFrame where
  stream : StreamId
  payload : Payload
  ingestTs : IngestTime
  source : FrameSource
  deriving DecidableEq

inductive VenueError where
  | notUtf8
  | malformed (message : String)
  | wrongVenue (expected got : VenueId)
  | noRestSnapshot (venue : VenueId)
  deriving DecidableEq, Repr

def VenueError.message : VenueError → String
  | .notUtf8 => "frame was not valid UTF-8"
  | .malformed message => "could not parse frame: " ++ message
  | .wrongVenue expected got =>
    "frame was for " ++ got.asStr ++ ", but this is a " ++ expected.asStr ++ " sync"
  | .noRestSnapshot venue =>
    venue.asStr ++ " recovers by resubscribing and has no REST snapshot to parse"

def RawFrame.asStr (frame : RawFrame) : Except VenueError String :=
  match frame.payload with
  | .text s => .ok s
  | .binary _ => .error .notUtf8

inductive SyncAction where
  | ignore
  | snapshot (bids asks : List Level)
  | delta (bids asks : List Level)
  | verify (checksum : UInt32)
  | forward (kind : EventKind)
  | desync (reason : DesyncReason)
  deriving DecidableEq

/-- Snapshots and updates, which carry levels. -/
def SyncAction.isBook : SyncAction → Bool
  | .snapshot .. => true
  | .delta .. => true
  | _ => false

/-- Actions that never touch a book. -/
def SyncAction.isPassive : SyncAction → Bool
  | .ignore => true
  | .forward _ => true
  | _ => false

/-- What one frame turned into, with the venue's own timestamp if it sent one. -/
structure Ingested where
  actions : List SyncAction
  venueTs : Option Int
  deriving DecidableEq

def Ingested.untimed (actions : List SyncAction) : Ingested := ⟨actions, none⟩

def Ingested.ignored : Ingested := .untimed [.ignore]

inductive RecoveryStrategy where
  | resubscribe
  | restSnapshot
  deriving DecidableEq, Repr

structure RestSnapshot where
  bids : List Level
  asks : List Level
  asOf : Nat
  deriving DecidableEq

/-- A venue's wire protocol over its own sync state. The hash reads only the levels. -/
structure VenueSync (σ : Type u) where
  venue : σ → VenueId
  integrity : σ → Integrity
  recovery : σ → RecoveryStrategy
  ingest : σ → RawFrame → Except VenueError Ingested × σ
  checksum : σ → Levels → Option UInt32
  reset : σ → σ
  parseRestSnapshot : σ → String → Except VenueError RestSnapshot
  applyRestSnapshot : σ → RestSnapshot → List SyncAction × σ

inductive Outcome where
  | stateChanged (before after : BookState)
  | event (event : MarketEvent)
  deriving DecidableEq

structure VenueBook (σ : Type u) where
  sync : σ
  book : Book
  auditPolicy : AuditPolicy
  auditTrail : AuditTrail
  deriving DecidableEq

/-- Check a live book against the venue's hash of it; any other book is left alone. -/
def verify (hash : Levels → Option UInt32) (book : Book) (expected : UInt32)
    (now : IngestTime) : Book :=
  if book.state.isLive then
    match hash book.levels with
    | none => book
    | some computed =>
      if computed = expected then book.markVerified now
      else book.markDesynced (.checksumMismatch expected computed) now
  else book

/-- The book after one action, and the event it is recorded as. -/
def applyAction (hash : Levels → Option UInt32) (integrity : Integrity) (now : IngestTime)
    (book : Book) : SyncAction → Book × Option EventKind
  | .ignore => (book, none)
  | .desync reason => (book.markDesynced reason now, none)
  | .verify checksum => (verify hash book checksum now, some (.checksum checksum))
  | .snapshot bids asks =>
    ((book.applySnapshot bids asks integrity now).2, some (.snapshot bids asks))
  | .delta bids asks => match book.applyDelta bids asks now with
    | (.error _, book) => (book, none)
    | (.ok (), book) => (book, some (.delta bids asks))
  | .forward kind => (book, some kind)

@[simp] theorem applyAction_delta {hash : Levels → Option UInt32} {integrity : Integrity}
    {now : IngestTime} {book : Book} {bids asks : List Level} :
    (applyAction hash integrity now book (.delta bids asks)).1 =
      (book.applyDelta bids asks now).2 := by
  dsimp only [applyAction]
  rcases book.applyDelta bids asks now with ⟨_ | _, _⟩ <;> rfl

def applyActions (hash : Levels → Option UInt32) (integrity : Integrity) (now : IngestTime)
    (book : Book) : List SyncAction → Book × List EventKind
  | [] => (book, [])
  | action :: actions =>
    let applied := applyAction hash integrity now book action
    let rest := applyActions hash integrity now applied.1 actions
    (rest.1, applied.2.toList ++ rest.2)

@[simp] theorem applyActions_nil {hash : Levels → Option UInt32} {integrity : Integrity}
    {now : IngestTime} {book : Book} : (applyActions hash integrity now book []).1 = book := rfl

@[simp] theorem applyActions_cons {hash : Levels → Option UInt32} {integrity : Integrity}
    {now : IngestTime} {book : Book} {action : SyncAction} {actions : List SyncAction} :
    (applyActions hash integrity now book (action :: actions)).1 =
      (applyActions hash integrity now (applyAction hash integrity now book action).1
        actions).1 := rfl

theorem applyActions_passive {hash : Levels → Option UInt32} {integrity : Integrity}
    {now : IngestTime} {book : Book} {actions : List SyncAction}
    (passive : ∀ a ∈ actions, a.isPassive = true) :
    (applyActions hash integrity now book actions).1 = book := by
  induction actions with
  | nil => rfl
  | cons action actions ih =>
    have rest := ih fun a mem => passive a (List.mem_cons_of_mem _ mem)
    have still := passive action List.mem_cons_self
    cases action with
    | ignore => exact rest
    | forward kind => exact rest
    | _ => cases still

namespace VenueBook

variable {σ : Type u} (v : VenueSync σ) (arith : DecimalArith)

def new (sync : σ) (symbol : Symbol) : VenueBook σ where
  sync := sync
  book := Book.new (v.venue sync) symbol
  auditPolicy := .default
  auditTrail := .fresh

def withMaxDepth (vb : VenueBook σ) (depth : Nat) : VenueBook σ :=
  { vb with book := vb.book.withMaxDepth depth }

def withAuditPolicy (vb : VenueBook σ) (policy : AuditPolicy) : VenueBook σ :=
  { vb with auditPolicy := policy }

def stream (vb : VenueBook σ) : StreamId := ⟨vb.book.venue, vb.book.symbol⟩

/-- After a reconnect: forget the stream position and distrust the book. -/
def reset (vb : VenueBook σ) (now : IngestTime) : VenueBook σ :=
  { vb with
    sync := v.reset vb.sync
    auditTrail := vb.auditTrail.reset
    book := vb.book.markDesynced .connectionLost now }

def applyIngested (vb : VenueBook σ) (ingested : Ingested) (now : IngestTime) :
    List Outcome × VenueBook σ :=
  let applied := applyActions (v.checksum vb.sync) (v.integrity vb.sync) now vb.book
    ingested.actions
  let events := applied.2.map (fun kind =>
    Outcome.event ⟨vb.book.venue, vb.book.symbol, ingested.venueTs, now, kind⟩)
  let changed := if vb.book.state.sameAs applied.1.state then []
    else [.stateChanged vb.book.state applied.1.state]
  (events ++ changed, { vb with book := applied.1 })

/-- A book that is not live is not audited. -/
def audit (vb : VenueBook σ) (snapshot : RestSnapshot) (now : IngestTime) :
    List Outcome × VenueBook σ :=
  if vb.book.state.isLive then
    let outcome := DepthAudit.audit arith vb.book.levels snapshot.bids snapshot.asks vb.auditPolicy
    let observed := vb.auditTrail.observe outcome vb.auditPolicy
    let book := match observed.1 with
      | some reason => vb.book.markDesynced reason now
      | none => vb.book
    let changed := if vb.book.state.sameAs book.state then []
      else [.stateChanged vb.book.state book.state]
    (changed, { vb with auditTrail := observed.2, book := book })
  else ([], vb)

def applyRestSnapshot (vb : VenueBook σ) (snapshot : RestSnapshot) (now : IngestTime) :
    List Outcome × VenueBook σ :=
  let spliced := v.applyRestSnapshot vb.sync snapshot
  applyIngested v { vb with sync := spliced.2 } (.untimed spliced.1) now

/-- One frame, dispatched on its source. An error keeps what the sync has noted. -/
def feed (vb : VenueBook σ) (frame : RawFrame) : Except VenueError (List Outcome) × VenueBook σ :=
  match frame.source with
  | .webSocket =>
    let read := v.ingest vb.sync frame
    match read.1 with
    | .error e => (.error e, { vb with sync := read.2 })
    | .ok ingested =>
      let applied := applyIngested v { vb with sync := read.2 } ingested frame.ingestTs
      (.ok applied.1, applied.2)
  | .restSnapshot =>
    match frame.asStr.bind (v.parseRestSnapshot vb.sync) with
    | .error e => (.error e, vb)
    | .ok snapshot =>
      let applied := applyRestSnapshot v vb snapshot frame.ingestTs
      (.ok applied.1, applied.2)
  | .restAudit =>
    match frame.asStr.bind (v.parseRestSnapshot vb.sync) with
    | .error e => (.error e, vb)
    | .ok snapshot =>
      let audited := audit arith vb snapshot frame.ingestTs
      (.ok audited.1, audited.2)

def eventAction : EventKind → SyncAction
  | .snapshot bids asks => .snapshot bids asks
  | .delta bids asks => .delta bids asks
  | .checksum value => .verify value
  | kind => .forward kind

/-- An already normalised event, without the wire parser. -/
def applyEvent (vb : VenueBook σ) (event : MarketEvent) (now : IngestTime) :
    List Outcome × VenueBook σ :=
  applyIngested v vb ⟨[eventAction event.kind], event.venueTs⟩ now

/-- What one frame can do: it is refused, told to the book, spliced or compared. -/
theorem feed_cases (vb : VenueBook σ) (frame : RawFrame) :
    (∃ e sync, v.ingest vb.sync frame = (.error e, sync) ∧
        vb.feed v arith frame = (.error e, { vb with sync := sync })) ∨
      (∃ ingested sync, v.ingest vb.sync frame = (.ok ingested, sync) ∧
        (vb.feed v arith frame).1.isOk = true ∧ (vb.feed v arith frame).2 =
          (applyIngested v { vb with sync := sync } ingested frame.ingestTs).2) ∨
      (∃ e, vb.feed v arith frame = (.error e, vb)) ∨
      (∃ snapshot, (vb.feed v arith frame).1.isOk = true ∧ (vb.feed v arith frame).2 =
        (applyRestSnapshot v vb snapshot frame.ingestTs).2) ∨
      ∃ snapshot, (vb.feed v arith frame).1.isOk = true ∧
        (vb.feed v arith frame).2 = (vb.audit arith snapshot frame.ingestTs).2 := by
  rw [feed]
  cases frame.source with
  | webSocket =>
    cases read : v.ingest vb.sync frame with
    | mk result sync =>
      cases result with
      | error e => exact .inl ⟨e, sync, rfl, rfl⟩
      | ok ingested => exact .inr (.inl ⟨ingested, sync, rfl, rfl, rfl⟩)
  | restSnapshot =>
    cases frame.asStr.bind (v.parseRestSnapshot vb.sync) with
    | error e => exact .inr (.inr (.inl ⟨e, rfl⟩))
    | ok snapshot => exact .inr (.inr (.inr (.inl ⟨snapshot, rfl, rfl⟩)))
  | restAudit =>
    cases frame.asStr.bind (v.parseRestSnapshot vb.sync) with
    | error e => exact .inr (.inr (.inl ⟨e, rfl⟩))
    | ok snapshot => exact .inr (.inr (.inr (.inr ⟨snapshot, rfl, rfl⟩)))

/-- An audit leaves the book alone or desyncs it for a fault. -/
theorem audit_book (vb : VenueBook σ) (snapshot : RestSnapshot) (now : IngestTime) :
    (vb.audit arith snapshot now).2.sync = vb.sync ∧
      ((vb.audit arith snapshot now).2.book = vb.book ∨
        ∃ reason, reason.needsFreshStream = true ∧
          (vb.audit arith snapshot now).2.book = vb.book.markDesynced reason now) := by
  rw [VenueBook.audit]
  split
  · dsimp only
    split
    · rename_i reason observed
      obtain ⟨price, consecutive, rfl⟩ := AuditTrail.observe_reason observed
      exact ⟨rfl, .inr ⟨_, rfl, rfl⟩⟩
    · exact ⟨rfl, .inl rfl⟩
  · exact ⟨rfl, .inl rfl⟩

end VenueBook

end VenueBooks

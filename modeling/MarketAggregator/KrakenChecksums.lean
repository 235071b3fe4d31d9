import MarketAggregator.GuardedRuns
import MarketAggregator.KrakenFeed

/-!
# What a live Kraken book hashes to

Every book entry is followed by its hash, so a book that is live after an entry
hashes to what the entry said. Nothing else changes the levels and leaves the book
live.
-/

namespace KrakenChecksums

open Clocks Decimals DepthAudit GuardedRuns KrakenFeed KrakenSync MarketEvents OrderBook VenueBooks
  VenueStreams WireLevels

inductive Input where
  | frame (frame : RawFrame)
  | audit (snapshot : RestSnapshot) (now : IngestTime)
  | reset (now : IngestTime)

section Run

variable (w : KrakenWire) (arith : DecimalArith)

def step (vb : VenueBook KrakenSync) : Input → VenueBook KrakenSync
  | .frame frame => (vb.feed (sync w) arith frame).2
  | .audit snapshot now => (vb.audit arith snapshot now).2
  | .reset now => vb.reset (sync w) now

def fresh (pair : String) (symbol : Symbol) (depth : Option Nat) (policy : AuditPolicy) :
    VenueBook KrakenSync :=
  let vb := (VenueBook.new (sync w) (KrakenSync.new pair) symbol).withAuditPolicy policy
  match depth with
  | none => vb
  | some depth => vb.withMaxDepth depth

/-- The own pair's entries of a book frame. -/
def ownEntries (pair : String) (frame : RawFrame) : List BookData :=
  match w.envelope frame.payload with
  | .error _ => []
  | .ok env =>
    if env.channel = some "book" then
      match readData w.bookData "book" env.data with
      | .error _ => []
      | .ok entries => entries.filter (·.symbol = pair)
    else []

/-- The hash that an accepted book frame ends with, and when the frame came in. -/
def claimed (pair : String) : Input → Option (UInt32 × IngestTime)
  | .frame frame =>
    if frame.source = .webSocket ∧ ((KrakenSync.new pair).ingest w frame).isOk then
      (ownEntries w pair frame).getLast?.bind (fun entry =>
        entry.checksum.map (fun checksum => (checksum, frame.ingestTs)))
    else none
  | _ => none

/-- The last hash among the inputs. -/
def lastClaim (pair : String) (inputs : List Input) : Option (UInt32 × IngestTime) :=
  (inputs.filterMap (claimed w pair)).getLast?

def Checksummed (pair : String) : Input → Prop
  | .frame frame => ∀ entry ∈ ownEntries w pair frame, entry.checksum ≠ none
  | _ => True

/-- The levels hash to the last claim, and its frame verified them. -/
def Matches (claim : Option (UInt32 × IngestTime)) (book : Book) : Prop :=
  ∃ hash now since, claim = some (hash, now) ∧ checksum w book.levels = hash ∧
    book.state = .live .verified since (some now)

end Run

variable {w : KrakenWire} {arith : DecimalArith} {vb : VenueBook KrakenSync} {pair : String}
  {frame : RawFrame}

/-- A live book carries the strength of a verifying venue. -/
def Sealed (b : Book) : Prop :=
  b.state.isLive = true → ∃ since verified, b.state = .live .verified since verified

theorem sealed_book (hash : Levels → Option UInt32) (now : IngestTime) {b : Book}
    (before : Sealed b) {a : SyncAction} (book : a.isBook = true) :
    Sealed (applyAction hash .verified now b a).1 := by
  cases a with
  | snapshot bids asks =>
    intro live
    simp only [applyAction, applySnapshot_state] at live ⊢
    split at live
    · exact ⟨now, none, rfl⟩
    · cases live
  | delta bids asks =>
    rw [applyAction_delta]
    cases was : b.state.isLive with
    | false => simpa [applyDelta_down was] using before
    | true =>
      obtain ⟨_, _, state⟩ := applyDelta_live bids asks now was
      intro live
      rw [state] at live ⊢
      split at live
      · exact before was
      · cases live
  | _ => cases book

/-- A book entry and its hash: a book that is live after them hashes to it. -/
theorem live_after_verify (now : IngestTime) {b : Book} (before : Sealed b) (expected : UInt32)
    (live : (verify (fun l => some (checksum w l)) b expected now).state.isLive = true) :
    checksum w (verify (fun l => some (checksum w l)) b expected now).levels = expected ∧
      ∃ since, (verify (fun l => some (checksum w l)) b expected now).state =
        .live .verified since (some now) := by
  rw [verify] at live ⊢
  cases was : b.state.isLive with
  | false => simp [was] at live
  | true =>
    obtain ⟨since, verified, state⟩ := before was
    simp only [was, if_true] at live ⊢
    by_cases same : checksum w b.levels = expected
    · simp [same, Book.markVerified, state]
    · simp only [same, if_false] at live
      cases live

theorem sealed_verified {b : Book} {expected : UInt32} {now : IngestTime}
    (verified : b.state.isLive = true → checksum w b.levels = expected ∧
      ∃ since, b.state = .live .verified since (some now)) : Sealed b := by
  intro live
  obtain ⟨_, since, state⟩ := verified live
  exact ⟨since, some now, state⟩

/-- The entries of one frame: the book is untouched, or it hashes to the last one when live. -/
theorem live_after_entries (now : IngestTime) {kind : String} {entries : List BookData}
    {venueTs : Option Int} {ingested : Ingested} {b : Book} (before : Sealed b)
    (read : (KrakenSync.new pair).bookActions w kind venueTs entries = .ok ingested)
    (hashed : ∀ entry ∈ entries.filter (·.symbol = pair), entry.checksum ≠ none) :
    (entries.filter (·.symbol = pair) = [] ∧ ingested.actions = []) ∨
      ∃ last hash, (entries.filter (·.symbol = pair)).getLast? = some last ∧
        last.checksum = some hash ∧
        ((applyActions (fun l => some (checksum w l)) .verified now b
            ingested.actions).1.state.isLive = true →
          Matches w (some (hash, now))
            (applyActions (fun l => some (checksum w l)) .verified now b ingested.actions).1) := by
  induction entries generalizing b venueTs ingested with
  | nil =>
    cases read
    exact .inl ⟨rfl, rfl⟩
  | cons entry entries ih =>
    rw [KrakenSync.bookActions] at read
    split at read
    · rename_i unlike
      have other : entry.symbol ≠ pair := unlike
      rw [List.filter_cons_of_neg (by simpa using other)] at hashed ⊢
      exact ih before read hashed
    · rename_i alike
      have own : entry.symbol = pair := Decidable.not_not.mp alike
      obtain ⟨bids, _, read⟩ := bind_ok.mp read
      obtain ⟨asks, _, read⟩ := bind_ok.mp read
      obtain ⟨action, typed, read⟩ := bind_ok.mp read
      obtain ⟨rest, others, made⟩ := bind_ok.mp read
      cases made
      rw [List.filter_cons_of_pos (by simpa using own)] at hashed ⊢
      obtain ⟨expected, given⟩ := Option.ne_none_iff_exists'.mp (hashed entry List.mem_cons_self)
      have verified := live_after_verify (w := w) now
        (sealed_book (fun l => some (checksum w l)) now before
          (bookAction_book typed)) expected
      simp only [given, Option.map_some, Option.toList_some]
      right
      rcases ih (sealed_verified verified) others
          (fun e mem => hashed e (List.mem_cons_of_mem _ mem)) with
        ⟨none_left, nothing⟩ | ⟨last, hash, isLast, ends, holds⟩
      · refine ⟨entry, expected, by simp [none_left], given, fun live => ?_⟩
        rw [nothing] at live ⊢
        obtain ⟨same, since, state⟩ := verified live
        exact ⟨expected, now, since, rfl, same, state⟩
      · exact ⟨last, hash, by simp [List.getLast?_cons, isLast], ends, holds⟩

/-- What an accepted frame holds: entries of the book, or nothing for the book. -/
theorem ingest_entries {ingested : Ingested}
    (read : (KrakenSync.new pair).ingest w frame = .ok ingested) :
    (ownEntries w pair frame = [] ∧ ∀ a ∈ ingested.actions, a.isPassive = true) ∨
      ∃ kind entries, ownEntries w pair frame = entries.filter (·.symbol = pair) ∧
        (KrakenSync.new pair).bookActions w kind none entries = .ok ingested := by
  cases envelope : w.envelope frame.payload with
  | error e => simp [KrakenSync.ingest, envelope] at read
  | ok env =>
    have made : (KrakenSync.new pair).channelIngested w env = .ok ingested := by
      simpa only [KrakenSync.ingest, envelope] using read
    clear read
    simp only [ownEntries, envelope]
    rw [KrakenSync.channelIngested] at made
    split at made
    · rename_i channel
      cases made
      exact .inl ⟨by simp [channel],
        by simp [Ingested.ignored, Ingested.untimed, SyncAction.isPassive]⟩
    · rename_i channel
      split at made
      · cases made
      · obtain ⟨entries, data, read⟩ := bind_ok.mp made
        exact .inr ⟨_, entries, by simp [channel, data], read⟩
    · rename_i channel
      refine .inl ⟨by simp [channel], ?_⟩
      split at made
      · cases made
      · cases made
        simp [Ingested.ignored, Ingested.untimed, SyncAction.isPassive]
      · obtain ⟨entries, _, read⟩ := bind_ok.mp made
        exact tradeActions_passive entries read
    · rename_i channel
      cases made
      exact .inl ⟨by simp [channel], by simp [Ingested.untimed, SyncAction.isPassive]⟩
    · rename_i name notBook _ _ channel
      cases made
      exact .inl ⟨by simpa [channel] using fun same => (notBook same).elim,
        by simp [Ingested.ignored, Ingested.untimed, SyncAction.isPassive]⟩

structure Tracked (w : KrakenWire) (pair : String) (past : List Input)
    (vb : VenueBook KrakenSync) : Prop where
  own : vb.sync = KrakenSync.new pair
  claim : vb.book.state.isLive = true → Matches w (lastClaim w pair past) vb.book

theorem Tracked.sealed {past : List Input} (tracked : Tracked w pair past vb) :
    Sealed vb.book := by
  intro live
  obtain ⟨_, now, since, _, _, state⟩ := tracked.claim live
  exact ⟨since, some now, state⟩

@[simp] theorem lastClaim_append {past : List Input} {input : Input} :
    lastClaim w pair (past ++ [input]) = (claimed w pair input).or (lastClaim w pair past) := by
  simp only [lastClaim]
  rw [List.filterMap_append, List.getLast?_append]
  cases claim : claimed w pair input <;> simp [claim]

theorem tracked_accepted {past : List Input} {ingested : Ingested}
    (tracked : Tracked w pair past vb) (source : frame.source = .webSocket)
    (hashed : Checksummed w pair (.frame frame))
    (read : (KrakenSync.new pair).ingest w frame = .ok ingested) :
    Tracked w pair (past ++ [.frame frame]) (step w arith vb (.frame frame)) := by
  have next : step w arith vb (.frame frame) = { vb with
      book := (applyActions (fun l => some (checksum w l)) .verified frame.ingestTs vb.book
        ingested.actions).1 } := by
    simp [step, VenueBook.feed, source, sync, tracked.own, read, VenueBook.applyIngested]
  refine ⟨by rw [next]; exact tracked.own, ?_⟩
  rw [next, lastClaim_append]
  rcases ingest_entries read with ⟨nothing, passive⟩ | ⟨kind, entries, own, made⟩
  · rw [applyActions_passive passive]
    simpa [claimed, nothing] using tracked.claim
  · rw [Checksummed, own] at hashed
    rcases live_after_entries frame.ingestTs tracked.sealed made hashed with
      ⟨nothing, idle⟩ | ⟨last, hash, isLast, ends, holds⟩
    · rw [idle]
      simpa [claimed, own, nothing] using tracked.claim
    · simpa [claimed, source, read, Except.isOk, Except.toBool, own, isLast, ends] using holds

theorem Tracked.kept {past : List Input} (tracked : Tracked w pair past vb) {input : Input}
    (silent : claimed w pair input = none) : Tracked w pair (past ++ [input]) vb := by
  refine ⟨tracked.own, ?_⟩
  simpa [silent] using tracked.claim

theorem claimed_rest (rest : frame.source ≠ .webSocket) :
    claimed w pair (.frame frame) = none := by
  simp [claimed, rest]

theorem feed_rest (rest : frame.source ≠ .webSocket) : (vb.feed (sync w) arith frame).2 = vb := by
  rw [VenueBook.feed]
  cases source : frame.source with
  | webSocket => exact absurd source rest
  | restSnapshot => cases frame.asStr <;> simp [sync, Except.bind]
  | restAudit => cases frame.asStr <;> simp [sync, Except.bind]

theorem feed_malformed {e : VenueError} (source : frame.source = .webSocket)
    (read : vb.sync.ingest w frame = .error e) : (vb.feed (sync w) arith frame).2 = vb := by
  simp [VenueBook.feed, source, sync, read]

/-- A frame that is refused changes nothing. -/
theorem refused_unchanged {e : VenueError} (refused : (vb.feed (sync w) arith frame).1 = .error e) :
    (vb.feed (sync w) arith frame).2 = vb := by
  by_cases source : frame.source = .webSocket
  · cases read : vb.sync.ingest w frame with
    | error e => exact feed_malformed source read
    | ok ingested => simp [VenueBook.feed, source, sync, read] at refused
  · exact feed_rest source

theorem tracked_step (past : List Input) (vb : VenueBook KrakenSync) (input : Input)
    (tracked : Tracked w pair past vb) (hashed : Checksummed w pair input) :
    Tracked w pair (past ++ [input]) (step w arith vb input) := by
  cases input with
  | reset now => exact ⟨tracked.own, nofun⟩
  | audit snapshot now =>
    obtain ⟨same, kept | ⟨reason, _, distrusted⟩⟩ := VenueBook.audit_book arith vb snapshot now
    · refine ⟨same.trans tracked.own, ?_⟩
      rw [step, kept]
      exact (tracked.kept rfl).claim
    · refine ⟨same.trans tracked.own, fun live => ?_⟩
      rw [step, distrusted] at live
      cases live
  | frame frame =>
    by_cases source : frame.source = .webSocket
    · cases read : (KrakenSync.new pair).ingest w frame with
      | ok ingested => exact tracked_accepted tracked source hashed read
      | error e =>
        rw [step, feed_malformed source (by rw [tracked.own, read])]
        exact tracked.kept (by simp [claimed, read, Except.isOk, Except.toBool])
    · rw [step, feed_rest source]
      exact tracked.kept (claimed_rest source)

theorem tracked_fresh {symbol : Symbol} {depth : Option Nat} {policy : AuditPolicy} :
    Tracked w pair [] (fresh w pair symbol depth policy) := by
  cases depth <;> exact ⟨rfl, nofun⟩

/-- A live book hashes to the last accepted claim, and a refused frame changes nothing. -/
theorem live_book_matches_claim (w : KrakenWire) (arith : DecimalArith) (pair : String)
    (symbol : Symbol) (depth : Option Nat) (policy : AuditPolicy) (inputs : List Input)
    (hashed : ∀ input ∈ inputs, Checksummed w pair input) :
    ((exec (step w arith) (fresh w pair symbol depth policy) inputs).book.state.isLive = true →
      Matches w (lastClaim w pair inputs)
        (exec (step w arith) (fresh w pair symbol depth policy) inputs).book) ∧
    ∀ frame e, ((exec (step w arith) (fresh w pair symbol depth policy) inputs).feed
        (sync w) arith frame).1 = .error e →
      (step w arith (exec (step w arith) (fresh w pair symbol depth policy) inputs)
          (.frame frame)).book =
        (exec (step w arith) (fresh w pair symbol depth policy) inputs).book :=
  ⟨(exec_history tracked_step tracked_fresh (meets_of_forall hashed)).claim,
    fun _ _ refused => congrArg VenueBook.book (refused_unchanged refused)⟩

section Sample

/-- The reflected CRC-32 of one more byte. -/
def crcByte (crc : UInt32) (c : Char) : UInt32 :=
  (List.range 8).foldl
    (fun crc _ => if crc &&& 1 = 1 then (crc >>> 1) ^^^ 0xEDB88320 else crc >>> 1)
    (crc ^^^ UInt32.ofNat c.toNat)

def crcAscii (s : String) : UInt32 := s.toList.foldl crcByte 0xFFFFFFFF ^^^ 0xFFFFFFFF

def sampleEntry : BookText where
  symbol := "BTC/USD"
  bids := [⟨"100", "1"⟩]
  asks := [⟨"101", "1"⟩]
  checksum := some 891625595
  timestamp := none

def sampleData : String :=
  "[\x7b\"symbol\":\"BTC/USD\",\"bids\":[\x7b\"price\":100,\"qty\":1\x7d],\"asks\":[\x7b\"price\":101,\"qty\":1\x7d],\"checksum\":891625595\x7d]"

def sampleText : String :=
  "\x7b\"channel\":\"book\",\"type\":\"snapshot\",\"data\":" ++ sampleData ++ "\x7d"

def sampleWire : KrakenWire :=
  tableWire [(sampleText, ⟨some "book", some "snapshot", some sampleData⟩)]
    [(sampleData, [sampleEntry])] crcAscii

def sampleInputs : List Input :=
  [.frame ⟨⟨.kraken, ⟨"BTC-USD"⟩⟩, .text sampleText, ⟨7, 7⟩, .webSocket⟩]

def sampleFresh : VenueBook KrakenSync :=
  fresh sampleWire "BTC/USD" ⟨"BTC-USD"⟩ (some 10) .default

theorem live_book_matches_claim_snapshot :
    Matches sampleWire (some (891625595, ⟨7, 7⟩))
      (exec (step sampleWire DecimalArith.idle) sampleFresh sampleInputs).book := by
  have hashed : ∀ input ∈ sampleInputs, Checksummed sampleWire "BTC/USD" input := by
    intro input mem
    obtain rfl := List.mem_singleton.mp mem
    change ∀ entry ∈ ownEntries sampleWire "BTC/USD"
      ⟨⟨.kraken, ⟨"BTC-USD"⟩⟩, .text sampleText, ⟨7, 7⟩, .webSocket⟩, entry.checksum ≠ none
    decide +kernel
  have claim : lastClaim sampleWire "BTC/USD" sampleInputs = some (891625595, ⟨7, 7⟩) := by
    decide +kernel
  rw [← claim]
  exact (live_book_matches_claim sampleWire .idle "BTC/USD" ⟨"BTC-USD"⟩ (some 10) .default
    sampleInputs hashed).1 (by decide +kernel)

end Sample

end KrakenChecksums

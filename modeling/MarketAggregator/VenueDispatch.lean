import MarketAggregator.BitstampFeed
import MarketAggregator.CoinbaseFeed
import MarketAggregator.KrakenChecksums
import MarketAggregator.ResyncDuty

/-!
# The three venues behind one interface

A book holds any venue's sync. What the venues share is how they distrust: a sync
that is past its snapshot desyncs a book only for reasons that a new session
repairs, and a sync that still awaits a snapshot never makes a book trusted.
-/

namespace VenueDispatch

open AggregatorApply BitstampFeed Clocks CoinbaseFeed Decimals KrakenFeed MarketEvents OrderBook
  ResyncDuty TrustedReplay VenueBooks VenueStreams WireLevels

universe u v

inductive AnySync where
  | coinbase (s : CoinbaseSync)
  | kraken (s : KrakenSync)
  | bitstamp (s : BitstampSync)
  deriving DecidableEq

/-- The readers of all venues. -/
structure Wires (J : Type u) (K : Type v) where
  coinbase : CoinbaseWire J
  kraken : KrakenWire
  bitstamp : BitstampWire K

section Dispatch

variable {J : Type u} {K : Type v} (w : Wires J K)

def anySync : VenueSync AnySync where
  venue
    | .coinbase s => (CoinbaseSync.sync w.coinbase).venue s
    | .kraken s => (KrakenSync.sync w.kraken).venue s
    | .bitstamp s => (BitstampSync.sync w.bitstamp).venue s
  integrity
    | .coinbase s => (CoinbaseSync.sync w.coinbase).integrity s
    | .kraken s => (KrakenSync.sync w.kraken).integrity s
    | .bitstamp s => (BitstampSync.sync w.bitstamp).integrity s
  recovery
    | .coinbase s => (CoinbaseSync.sync w.coinbase).recovery s
    | .kraken s => (KrakenSync.sync w.kraken).recovery s
    | .bitstamp s => (BitstampSync.sync w.bitstamp).recovery s
  ingest
    | .coinbase s, frame => ((CoinbaseSync.sync w.coinbase).ingest s frame).map id .coinbase
    | .kraken s, frame => ((KrakenSync.sync w.kraken).ingest s frame).map id .kraken
    | .bitstamp s, frame => ((BitstampSync.sync w.bitstamp).ingest s frame).map id .bitstamp
  checksum
    | .coinbase s => (CoinbaseSync.sync w.coinbase).checksum s
    | .kraken s => (KrakenSync.sync w.kraken).checksum s
    | .bitstamp s => (BitstampSync.sync w.bitstamp).checksum s
  reset
    | .coinbase s => .coinbase ((CoinbaseSync.sync w.coinbase).reset s)
    | .kraken s => .kraken ((KrakenSync.sync w.kraken).reset s)
    | .bitstamp s => .bitstamp ((BitstampSync.sync w.bitstamp).reset s)
  parseRestSnapshot
    | .coinbase s => (CoinbaseSync.sync w.coinbase).parseRestSnapshot s
    | .kraken s => (KrakenSync.sync w.kraken).parseRestSnapshot s
    | .bitstamp s => (BitstampSync.sync w.bitstamp).parseRestSnapshot s
  applyRestSnapshot
    | .coinbase s, snapshot =>
      ((CoinbaseSync.sync w.coinbase).applyRestSnapshot s snapshot).map id .coinbase
    | .kraken s, snapshot =>
      ((KrakenSync.sync w.kraken).applyRestSnapshot s snapshot).map id .kraken
    | .bitstamp s, snapshot =>
      ((BitstampSync.sync w.bitstamp).applyRestSnapshot s snapshot).map id .bitstamp

end Dispatch

/-- An action that distrusts a book only for a fault. -/
def isLoud : SyncAction → Bool
  | .desync reason => reason.needsFreshStream
  | _ => true

theorem isLoud_of_book {a : SyncAction} (h : a.isBook = true) : isLoud a = true := by
  cases a <;> first | rfl | cases h

theorem isLoud_of_passive {a : SyncAction} (h : a.isPassive = true) : isLoud a = true := by
  cases a <;> first | rfl | cases h

/-- How a sync may distrust a book, by whether it still awaits a snapshot. -/
structure Loud {σ : Type u} (v : VenueSync σ) (awaits : σ → Prop) : Prop where
  loud : ∀ s frame ingested, ¬ awaits s → (v.ingest s frame).1 = .ok ingested →
    ∀ a ∈ ingested.actions, isLoud a = true
  settled : ∀ s frame, ¬ awaits s → ¬ awaits (v.ingest s frame).2
  waits : ∀ s frame ingested, awaits s → (v.ingest s frame).1 = .ok ingested →
    ∀ bids asks, .snapshot bids asks ∉ ingested.actions
  spliced : ∀ s snapshot, ¬ awaits (v.applyRestSnapshot s snapshot).2 ∧
    ∀ a ∈ (v.applyRestSnapshot s snapshot).1, isLoud a = true

section Replay

variable {hash : Levels → Option UInt32} {depth : Option Nat} {b : View}

/-- Believed, or distrusted for a fault. -/
def Answered (status : Status) : Prop := status = .live ∨ faultyStatus status = true

theorem judged_answered (levels : Levels) : Answered (judged levels).status := by
  rw [judged, Levels.crossed]
  split
  · exact .inl rfl
  · rename_i reason crossed
    split at crossed
    · split at crossed
      · cases crossed
      · cases crossed
        exact .inr rfl
    · cases crossed

theorem act_answered {a : SyncAction} (loud : isLoud a = true) (before : Answered b.status) :
    Answered (act hash depth b a).status := by
  cases a with
  | ignore => exact before
  | forward kind => exact before
  | desync reason => exact .inr loud
  | snapshot bids asks => exact judged_answered _
  | delta bids asks =>
    by_cases live : b.status = .live
    · simpa [act, live] using judged_answered _
    · simpa [act, live] using before
  | verify expected =>
    by_cases live : b.status = .live
    · cases hashed : hash b.levels with
      | none => simp [act, live, hashed, Answered]
      | some computed =>
        by_cases same : computed = expected
        · simp [act, live, hashed, same, Answered]
        · right
          simp [act, live, hashed, same, faultyStatus, DesyncReason.needsFreshStream]
    · simpa [act, live] using before

theorem replay_answered (hash : Levels → Option UInt32) (depth : Option Nat)
    {actions : List SyncAction} (loud : ∀ a ∈ actions, isLoud a = true)
    (before : Answered b.status) :
    Answered (replay hash depth b actions).status := by
  induction actions generalizing b with
  | nil => exact before
  | cons a actions ih =>
    exact ih (fun c mem => loud c (List.mem_cons_of_mem _ mem))
      (act_answered (loud a List.mem_cons_self) before)

/-- Without a snapshot a book that is not believed stays so. -/
theorem replay_down (hash : Levels → Option UInt32) (depth : Option Nat)
    {actions : List SyncAction} (none_given : ∀ bids asks, .snapshot bids asks ∉ actions)
    (down : b.status ≠ .live) :
    (replay hash depth b actions).status ≠ .live := by
  induction actions generalizing b with
  | nil => exact down
  | cons a actions ih =>
    refine ih (fun bids asks mem => none_given bids asks (List.mem_cons_of_mem _ mem)) ?_
    intro live
    rcases act_live live with ⟨bids, asks, rfl, _⟩ | ⟨was, _⟩ | ⟨was, _⟩
    · exact none_given bids asks List.mem_cons_self
    · exact down was
    · exact down was

end Replay

section Deliver

variable {σ : Type u} {v : VenueSync σ} {awaits : σ → Prop} {arith : DecimalArith}
  {vb : VenueBook σ} {frame : RawFrame}

/-- A book whose sync awaits a snapshot is not believed. -/
def Waiting (awaits : σ → Prop) (vb : VenueBook σ) : Prop :=
  awaits vb.sync → vb.book.state.isLive = false

theorem waiting_ingested {ingested : Ingested} {now : IngestTime}
    (none_given : ∀ bids asks, .snapshot bids asks ∉ ingested.actions)
    (down : vb.book.state.isLive = false) :
    (vb.applyIngested v ingested now).2.book.state.isLive = false := by
  have was : (viewOf vb.book).status ≠ .live := fun live =>
    Bool.noConfusion (down.symm.trans (statusOf_live.mp live))
  have still := replay_down (v.checksum vb.sync) vb.book.maxDepth none_given was
  rw [← view_applyIngested vb ingested now] at still
  exact Bool.eq_false_of_not_eq_true fun live => still (statusOf_live.mpr live)

/-- A frame keeps a book that awaits a snapshot from being believed. -/
theorem waiting_feed (loud : Loud v awaits) (waiting : Waiting awaits vb) :
    Waiting awaits (vb.feed v arith frame).2 := by
  have still : ∀ {result sync}, v.ingest vb.sync frame = (result, sync) → awaits sync →
      awaits vb.sync := by
    intro result sync read after
    by_contra past
    exact loud.settled vb.sync frame past (by rw [read]; exact after)
  rcases VenueBook.feed_cases v arith vb frame with
    ⟨e, sync, read, fed⟩ | ⟨ingested, sync, read, _, fed⟩ | ⟨e, fed⟩ | ⟨snapshot, _, fed⟩ |
    ⟨snapshot, _, fed⟩
  · rw [fed]
    exact fun after => waiting (still read after)
  · rw [fed]
    intro after
    have was := still read after
    exact waiting_ingested (loud.waits vb.sync frame ingested was (by rw [read])) (waiting was)
  · rw [fed]
    exact waiting
  · rw [fed]
    exact fun after => absurd after (loud.spliced vb.sync snapshot).1
  · rw [fed]
    obtain ⟨same, kept | ⟨reason, _, distrusted⟩⟩ :=
      VenueBook.audit_book arith vb snapshot frame.ingestTs
    · rw [Waiting, same, kept]
      exact waiting
    · rw [Waiting, distrusted]
      exact fun _ => rfl

theorem answered_state {state : BookState} (h : Answered (statusOf state)) :
    state.isLive = true ∨ faulty state = true :=
  h.imp statusOf_live.mp fun fault => faultyStatus_statusOf ▸ fault

theorem answered_ingested {ingested : Ingested} {now : IngestTime}
    (loud : ∀ a ∈ ingested.actions, isLoud a = true) (live : vb.book.state.isLive = true) :
    (vb.applyIngested v ingested now).2.book.state.isLive = true ∨
      faulty (vb.applyIngested v ingested now).2.book.state = true := by
  have before : Answered (viewOf vb.book).status := .inl (statusOf_live.mpr live)
  have after := replay_answered (v.checksum vb.sync) vb.book.maxDepth loud before
  rw [← view_applyIngested vb ingested now] at after
  exact answered_state after

/-- A frame leaves a trusted book trusted or in a fault. -/
theorem answered_feed (loud : Loud v awaits) (waiting : Waiting awaits vb)
    (live : vb.book.state.isLive = true) :
    (vb.feed v arith frame).2.book.state.isLive = true ∨
      faulty (vb.feed v arith frame).2.book.state = true := by
  have past : ¬ awaits vb.sync := fun still => Bool.noConfusion ((waiting still).symm.trans live)
  rcases VenueBook.feed_cases v arith vb frame with
    ⟨e, sync, _, fed⟩ | ⟨ingested, sync, read, _, fed⟩ | ⟨e, fed⟩ | ⟨snapshot, _, fed⟩ |
    ⟨snapshot, _, fed⟩
  · exact .inl (fed ▸ live)
  · rw [fed]
    exact answered_ingested (loud.loud vb.sync frame ingested past (by rw [read])) live
  · exact .inl (fed ▸ live)
  · rw [fed]
    exact answered_ingested (loud.spliced vb.sync snapshot).2 live
  · rw [fed]
    obtain ⟨_, kept | ⟨reason, fault, distrusted⟩⟩ :=
      VenueBook.audit_book arith vb snapshot frame.ingestTs
    · exact .inl (kept ▸ live)
    · exact .inr (distrusted ▸ fault)

end Deliver

section Venues

variable {J : Type u}

theorem coinbase_loud {w : CoinbaseWire J} {s : CoinbaseSync} {frame : RawFrame}
    {ingested : Ingested} (h : (s.ingest w frame).1 = .ok ingested) :
    ∀ a ∈ ingested.actions, isLoud a = true := by
  rw [CoinbaseSync.ingest] at h
  split at h
  · cases h
  · rename_i env _
    dsimp only at h
    split at h
    · rename_i reason gap
      obtain ⟨expected, rfl⟩ := checkSeq_gap gap
      cases h
      intro a mem
      obtain rfl := List.mem_singleton.mp mem
      rfl
    · obtain ⟨actions, channel, rfl⟩ := map_ok.mp h
      by_cases book : env.channel = "l2_data"
      · rw [CoinbaseSync.channelActions] at channel
        rw [if_pos book] at channel
        exact fun a mem => isLoud_of_book (bookEvents_book env.events channel a mem)
      · exact fun a mem => isLoud_of_passive (channelActions_passive book channel a mem)

theorem entries_loud {w : KrakenWire} {s : KrakenSync} {kind : String} (entries : List BookData)
    {venueTs : Option Int} {ingested : Ingested}
    (h : s.bookActions w kind venueTs entries = .ok ingested) :
    ∀ a ∈ ingested.actions, isLoud a = true := by
  induction entries generalizing venueTs ingested with
  | nil =>
    cases h
    simp
  | cons entry entries ih =>
    rw [KrakenSync.bookActions] at h
    split at h
    · exact ih h
    · obtain ⟨bids, _, h⟩ := bind_ok.mp h
      obtain ⟨asks, _, h⟩ := bind_ok.mp h
      obtain ⟨action, typed, h⟩ := bind_ok.mp h
      obtain ⟨rest, others, made⟩ := bind_ok.mp h
      cases made
      intro a mem
      rcases List.mem_cons.mp mem with rfl | mem
      · exact isLoud_of_book (bookAction_book typed)
      · rcases List.mem_append.mp mem with mem | mem
        · obtain ⟨checksum, _, rfl⟩ := List.mem_map.mp (Option.toList_map ▸ mem)
          rfl
        · exact ih others a mem

theorem kraken_loud {w : KrakenWire} {s : KrakenSync} {frame : RawFrame}
    {ingested : Ingested} (h : s.ingest w frame = .ok ingested) :
    ∀ a ∈ ingested.actions, isLoud a = true := by
  have own : (KrakenSync.new s.symbol).ingest w frame = .ok ingested := h
  rcases KrakenChecksums.ingest_entries own with
    ⟨_, passive⟩ | ⟨kind, entries, _, made⟩
  · exact fun a mem => isLoud_of_passive (passive a mem)
  · exact entries_loud entries made

theorem splice_loud (asOf : Nat) (diffs : List PendingDiff) :
    ∀ a ∈ (splice asOf diffs).1, isLoud a = true := by
  induction diffs generalizing asOf with
  | nil => simp [splice]
  | cons diff diffs ih =>
    intro a mem
    rcases List.mem_cons.mp mem with rfl | mem
    · by_cases h : diff.micros ≤ asOf <;>
        simp [checkOrder, h, isLoud, DesyncReason.needsFreshStream]
    · exact ih _ a mem

/-- One update at a sync that is past its snapshot. -/
theorem ingestDiff_loud {s : BitstampSync} {diff : PendingDiff} {last spliced : Nat}
    (mode : s.mode = .live last spliced) :
    (∀ a ∈ (s.ingestDiff diff).1, isLoud a = true) ∧
      ∃ last', (s.ingestDiff diff).2.mode = .live last' spliced := by
  rw [BitstampSync.ingestDiff]
  rw [mode]
  by_cases covered : diff.micros ≤ spliced
  · simp [covered, isLoud, mode]
  · by_cases order : diff.micros ≤ last <;>
      simp [covered, checkOrder, order, isLoud, DesyncReason.needsFreshStream]

theorem ingestDiff_waits {s : BitstampSync} {diff : PendingDiff} {pending : List PendingDiff}
    (mode : s.mode = .awaitingSnapshot pending) :
    ∀ bids asks, .snapshot bids asks ∉ (s.ingestDiff diff).1 := by
  intro bids asks
  rw [BitstampSync.ingestDiff]
  rw [mode]
  by_cases first : pending = [] <;> simp [first]

/-- A Bitstamp frame is an update of the pair, or nothing for the book. -/
theorem bitstamp_ingest (w : BitstampWire J) (s : BitstampSync) (frame : RawFrame) :
    (∃ diff, (s.ingest w frame).2 = (s.ingestDiff diff).2 ∧
        ∃ venueTs, (s.ingest w frame).1 = .ok ⟨(s.ingestDiff diff).1, venueTs⟩) ∨
      (s.ingest w frame).2 = s ∧ ∀ ingested, (s.ingest w frame).1 = .ok ingested →
        ∀ a ∈ ingested.actions, a.isPassive = true := by
  rw [BitstampSync.ingest]
  split
  · exact .inr ⟨rfl, fun _ made => by cases made⟩
  · rename_i env _
    dsimp only
    split
    · split
      · exact .inr ⟨rfl, fun _ made => by cases made⟩
      · refine .inr ⟨rfl, fun ingested made => ?_⟩
        dsimp only at made
        rw [readTrade] at made
        split at made
        · cases made
        · obtain ⟨micros, _, made⟩ := bind_ok.mp made
          obtain ⟨level, _, made⟩ := bind_ok.mp made
          cases made
          simp [SyncAction.isPassive]
    · split
      · refine .inr ⟨rfl, fun ingested made => ?_⟩
        cases made
        simp [Ingested.ignored, Ingested.untimed, SyncAction.isPassive]
      · split
        · exact .inr ⟨rfl, fun _ made => by cases made⟩
        · split
          · exact .inr ⟨rfl, fun _ made => by cases made⟩
          · rename_i diff _
            exact .inl ⟨diff, rfl, _, rfl⟩

end Venues

/-- Only Bitstamp awaits a snapshot that does not come over the websocket. -/
def awaits : AnySync → Prop
  | .bitstamp s => ∃ pending, s.mode = .awaitingSnapshot pending
  | _ => False

theorem not_awaits_bitstamp {s : BitstampSync} :
    ¬ awaits (.bitstamp s) ↔ ∃ last spliced, s.mode = .live last spliced := by
  cases mode : s.mode <;> simp [awaits, mode]

theorem anySync_loud {J : Type u} {K : Type v} (w : Wires J K) : Loud (anySync w) awaits where
  loud := by
    intro s frame ingested past made
    cases s with
    | coinbase s => exact coinbase_loud made
    | kraken s => exact kraken_loud made
    | bitstamp s =>
      have made : (s.ingest w.bitstamp frame).1 = .ok ingested := made
      rcases bitstamp_ingest w.bitstamp s frame with ⟨diff, _, venueTs, update⟩ | ⟨_, passive⟩
      · obtain ⟨last, spliced, mode⟩ := not_awaits_bitstamp.mp past
        cases update.symm.trans made
        exact (ingestDiff_loud mode).1
      · exact fun a mem => isLoud_of_passive (passive ingested made a mem)
  settled := by
    intro s frame past
    cases s with
    | coinbase s => exact id
    | kraken s => exact id
    | bitstamp s =>
      obtain ⟨last, spliced, mode⟩ := not_awaits_bitstamp.mp past
      refine not_awaits_bitstamp.mpr ?_
      rcases bitstamp_ingest w.bitstamp s frame with ⟨diff, noted, _⟩ | ⟨still, _⟩
      · obtain ⟨last', mode'⟩ := (@ingestDiff_loud s diff last spliced mode).2
        exact ⟨last', spliced, (congrArg BitstampSync.mode noted).trans mode'⟩
      · exact ⟨last, spliced, (congrArg BitstampSync.mode still).trans mode⟩
  waits := by
    intro s frame ingested waiting made bids asks
    cases s with
    | coinbase s => cases waiting
    | kraken s => cases waiting
    | bitstamp s =>
      obtain ⟨pending, mode⟩ := waiting
      have made : (s.ingest w.bitstamp frame).1 = .ok ingested := made
      rcases bitstamp_ingest w.bitstamp s frame with ⟨diff, _, venueTs, update⟩ | ⟨_, passive⟩
      · cases update.symm.trans made
        exact ingestDiff_waits mode bids asks
      · exact fun mem => Bool.noConfusion (passive ingested made _ mem)
  spliced := by
    intro s snapshot
    cases s with
    | coinbase s => exact ⟨id, fun _ mem => by cases mem⟩
    | kraken s => exact ⟨id, fun _ mem => by cases mem⟩
    | bitstamp s =>
      refine ⟨not_awaits_bitstamp.mpr ⟨_, _, rfl⟩, fun a mem => ?_⟩
      rcases List.mem_cons.mp mem with rfl | mem
      · rfl
      · exact splice_loud _ _ a mem

end VenueDispatch

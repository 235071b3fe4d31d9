import MarketAggregator.AuditComparison
import MarketAggregator.EventReplay
import MarketAggregator.KrakenChecksums

/-!
# The digits that a Kraken book hashes

A level is stored under its price as first written. Later messages replace the quantity and keep
the stored price, so the hash is over the digits last sent only while every message that sets a
level which is held writes its price alike. What was sent is told from the texts of the numbers,
which the decimal library keeps within its 96 bits and 28 places.
-/

namespace KrakenDigits

open AuditComparison Clocks DecimalLiterals Decimals DepthAudit EventReplay GuardedRuns KrakenFeed
  KrakenSync MarketEvents OrderBook OrderedMaps VenueBooks VenueStreams WireLevels

section Sides

def enterLevel (m : PriceMap) (l : Level) : PriceMap :=
  if l.qty.isDelete then m else m.insert l.price l.qty

def applyLevel (m : PriceMap) (l : Level) : PriceMap :=
  if l.qty.isDelete then m.remove l.price else m.insert l.price l.qty

/-- The level sets a price. -/
def setsPrice (u : Int) (l : Level) : Bool := !l.qty.isDelete && l.price.decimal.units = u

/-- The last level that sets a price. -/
def lastSet (past : List Level) (u : Int) : Option Level := past.reverse.find? (setsPrice u)

/-- Every stored entry has the digits of the level that set it last. -/
def Verbatim (past : List Level) (m : PriceMap) : Prop :=
  ∀ e ∈ m.entries, ∃ l, lastSet past e.1.decimal.units = some l ∧
    levelDigits l = levelDigits ⟨e.1, e.2⟩

/-- A level that sets a stored price writes it with the stored digits. -/
def Alike (m : PriceMap) (l : Level) : Prop :=
  l.qty.isDelete = false → ∀ e ∈ m.entries, Price.cmp l.price e.1 = .eq →
    pushDigits e.1.decimal.toString = pushDigits l.price.decimal.toString

instance (m : PriceMap) (l : Level) : Decidable (Alike m l) :=
  inferInstanceAs (Decidable (_ → ∀ e ∈ m.entries, _ → _))

variable {past : List Level} {m : PriceMap} {l : Level} {u : Int}

theorem lastSet_append : lastSet (past ++ [l]) u =
    if l.qty.isDelete = false ∧ l.price.decimal.units = u then some l else lastSet past u := by
  rw [lastSet, List.reverse_append, List.reverse_singleton, List.singleton_append, List.find?_cons]
  rw [setsPrice]
  cases l.qty.isDelete with
  | true => simp [lastSet]
  | false =>
    by_cases here : l.price.decimal.units = u
    · simp [here]
    · simp [here, lastSet]

theorem verbatim_insert (h : Verbatim past m) (alike : Alike m l) (kept : l.qty.isDelete = false) :
    Verbatim (past ++ [l]) (m.insert l.price l.qty) := by
  intro e mem
  rw [lastSet_append]
  rcases OrderedMap.mem_insertEntry_cases m.sorted mem with rfl | ⟨s, stored, same, rfl⟩ |
    ⟨stored, other⟩
  · exact ⟨l, if_pos ⟨kept, rfl⟩, rfl⟩
  · refine ⟨l, if_pos ⟨kept, Price.cmp_eq.mp same⟩, ?_⟩
    rw [levelDigits, levelDigits, alike kept s stored same]
  · rw [if_neg fun here => other (Price.cmp_eq.mpr here.2)]
    exact h e stored

theorem verbatim_enterLevel (h : Verbatim past m) (alike : Alike m l) :
    Verbatim (past ++ [l]) (enterLevel m l) := by
  rw [enterLevel]
  cases deletes : l.qty.isDelete with
  | true =>
    intro e mem
    rw [lastSet_append, if_neg (by simp [deletes])]
    exact h e mem
  | false => exact verbatim_insert h alike deletes

theorem verbatim_applyLevel (h : Verbatim past m) (alike : Alike m l) :
    Verbatim (past ++ [l]) (applyLevel m l) := by
  rw [applyLevel]
  cases deletes : l.qty.isDelete with
  | true =>
    intro e mem
    rw [lastSet_append, if_neg (by simp [deletes])]
    exact h e (OrderedMap.mem_remove mem)
  | false => exact verbatim_insert h alike deletes

theorem verbatim_enterLevels {listed : List Level} (h : Verbatim past m)
    (alike : Meets enterLevel Alike m listed) :
    Verbatim (past ++ listed) (enterLevels m listed) := by
  induction listed generalizing past m with
  | nil => rwa [List.append_nil]
  | cons l rest ih =>
    have next := ih (verbatim_enterLevel h alike.1) alike.2
    rwa [List.append_assoc] at next

theorem verbatim_applyLevels {listed : List Level} (h : Verbatim past m)
    (alike : Meets applyLevel Alike m listed) :
    Verbatim (past ++ listed) (applyLevels m listed) := by
  induction listed generalizing past m with
  | nil => rwa [List.append_nil]
  | cons l rest ih =>
    have next := ih (verbatim_applyLevel h alike.1) alike.2
    rwa [List.append_assoc] at next

end Sides

section Books

/-- What sets a side since its last snapshot. -/
def recent (side : Side) (past : List Level) : SyncAction → List Level
  | .snapshot bids asks => sideOf bids asks side
  | .delta bids asks => past ++ sideOf bids asks side
  | _ => past

/-- The levels of a side that the messages listed since the last snapshot, in order. -/
def listedOn (side : Side) (history : List SyncAction) : List Level :=
  history.foldl (recent side) []

/-- A message writes every price that it sets on a held level as the level is stored. -/
def SpelledAlike (b : Book) : SyncAction → Prop
  | .snapshot bids asks => Meets enterLevel Alike OrderedMap.empty bids ∧
      Meets enterLevel Alike OrderedMap.empty asks
  | .delta bids asks => b.state.isLive = true → Meets applyLevel Alike b.levels.bids bids ∧
      Meets applyLevel Alike b.levels.asks asks
  | _ => True

/-- Both sides of a live book are as they were last written. -/
def Transcribed (history : List SyncAction) (b : Book) : Prop :=
  b.state.isLive = true → Verbatim (listedOn .bid history) b.levels.bids ∧
    Verbatim (listedOn .ask history) b.levels.asks

instance (b : Book) (a : SyncAction) : Decidable (SpelledAlike b a) :=
  match a with
  | .snapshot bids asks => inferInstanceAs (Decidable (Meets _ _ _ bids ∧ Meets _ _ _ asks))
  | .delta bids asks => inferInstanceAs (Decidable (_ → Meets _ _ _ bids ∧ Meets _ _ _ asks))
  | .ignore => .isTrue trivial
  | .verify _ => .isTrue trivial
  | .forward _ => .isTrue trivial
  | .desync _ => .isTrue trivial

variable {hash : Levels → Option UInt32} {integrity : Integrity} {now : IngestTime} {b : Book}
  {history : List SyncAction} {a : SyncAction}

theorem listedOn_append (side : Side) :
    listedOn side (history ++ [a]) = recent side (listedOn side history) a := by
  rw [listedOn, List.foldl_append]
  rfl

theorem verbatim_prune {bids asks : List Level} {levels : Levels} {depth : Option Nat}
    (h : Verbatim bids levels.bids ∧ Verbatim asks levels.asks) :
    Verbatim bids (levels.prune depth).bids ∧ Verbatim asks (levels.prune depth).asks := by
  cases depth with
  | none => exact h
  | some depth =>
    constructor
    · intro e mem
      exact h.1 e (OrderedMap.mem_keepLast mem)
    · intro e mem
      exact h.2 e (OrderedMap.mem_keepFirst mem)

theorem verify_levels (hash : Levels → Option UInt32) (expected : UInt32) (now : IngestTime)
    (b : Book) : (verify hash b expected now).levels = b.levels := by
  rw [verify]
  split
  · split
    · rfl
    · split
      · exact markVerified_levels
      · rfl
  · rfl

theorem live_of_verify {expected : UInt32}
    (live : (verify hash b expected now).state.isLive = true) : b.state.isLive = true := by
  rw [verify] at live
  split at live
  · rename_i was
    exact was
  · exact live

theorem live_of_delta {bids asks : List Level}
    (live : (b.applyDelta bids asks now).2.state.isLive = true) : b.state.isLive = true := by
  by_contra down
  rw [applyDelta_down (Bool.eq_false_of_not_eq_true down)] at live
  exact down live

theorem transcribed_action (h : Transcribed history b) (alike : SpelledAlike b a) :
    Transcribed (history ++ [a]) (applyAction hash integrity now b a).1 := by
  intro live
  rw [listedOn_append, listedOn_append]
  cases a with
  | ignore => exact h live
  | forward kind => exact h live
  | desync reason => cases live
  | verify expected =>
    have held := h (live_of_verify live)
    rw [← verify_levels hash expected now b] at held
    exact held
  | snapshot bids asks =>
    have blank : Verbatim [] OrderedMap.empty := nofun
    have levels : (b.applySnapshot bids asks integrity now).2.levels =
        (Levels.snapshot bids asks).prune b.maxDepth := applySnapshot_levels
    have entered : Verbatim bids (Levels.snapshot bids asks).bids ∧
        Verbatim asks (Levels.snapshot bids asks).asks :=
      ⟨verbatim_enterLevels blank alike.1, verbatim_enterLevels blank alike.2⟩
    have held : Verbatim bids ((Levels.snapshot bids asks).prune b.maxDepth).bids ∧
        Verbatim asks ((Levels.snapshot bids asks).prune b.maxDepth).asks := verbatim_prune entered
    rw [← levels] at held
    exact held
  | delta bids asks =>
    rw [applyAction_delta] at live ⊢
    have was := live_of_delta live
    obtain ⟨held, holds⟩ := h was
    obtain ⟨spelled, spells⟩ := alike was
    rw [(applyDelta_live bids asks now was).2.1]
    exact verbatim_prune ⟨verbatim_applyLevels held spelled, verbatim_applyLevels holds spells⟩

/-- The actions of one input, each met by the book that the ones before it leave. -/
theorem transcribed_actions {actions : List SyncAction} (h : Transcribed history b)
    (alike : Meets (fun b a => (applyAction hash integrity now b a).1) SpelledAlike b actions) :
    Transcribed (history ++ actions) (applyActions hash integrity now b actions).1 := by
  induction actions generalizing history b with
  | nil => rwa [List.append_nil]
  | cons a rest ih =>
    have next := ih (transcribed_action h alike.1) alike.2
    rwa [List.append_assoc] at next

end Books

section Texts

variable (w : KrakenWire)

/-- A book message of the own pair, in the texts of its numbers. -/
structure Message where
  snapshot : Bool
  bids : List LevelText
  asks : List LevelText
  deriving DecidableEq

def Message.sideOf (m : Message) : Side → List LevelText
  | .bid => m.bids
  | .ask => m.asks

/-- The messages that a frame carries. -/
def carried (s : KrakenSync) (payload : Payload) : List Message :=
  match w.envelope payload with
  | .error _ => []
  | .ok env =>
    if env.channel = some "book" then match env.kind, env.data with
      | some kind, some data => match w.bookText data with
        | .error _ => []
        | .ok entries => (entries.filter (fun e => e.symbol = s.symbol)).map
            (fun e => ⟨decide (kind = "snapshot"), e.bids, e.asks⟩)
      | _, _ => []
    else []

/-- The messages of an input. A frame that is refused sets nothing. -/
def messagesOf (s : KrakenSync) : Input → List Message
  | .feed frame => match frame.source with
    | .webSocket => match s.ingest w frame with
      | .ok _ => carried w s frame.payload
      | .error _ => []
    | _ => []
  | _ => []

/-- What sets a side since its last snapshot. -/
def recentTexts (side : Side) (past : List LevelText) (m : Message) : List LevelText :=
  if m.snapshot then m.sideOf side else past ++ m.sideOf side

def textsOn (side : Side) (messages : List Message) : List LevelText :=
  messages.foldl (recentTexts side) []

/-- The level that a text is read as. -/
def levelOf (raw : LevelText) : Option Level :=
  match w.decimal raw.price, w.decimal raw.qty with
  | .ok price, .ok qty => match Qty.fromDecimal qty with
    | .ok qty => some ⟨⟨price⟩, qty⟩
    | .error _ => none
  | _, _ => none

/-- The last text that sets a price. -/
def lastWritten (past : List LevelText) (u : Int) : Option LevelText :=
  past.reverse.find? (fun raw => (levelOf w raw).any (setsPrice u))

/-- The digits of a level exactly as written, without their points and leading zeros. -/
def textDigits (raw : LevelText) : List Char := pushDigits raw.price ++ pushDigits raw.qty

/-- A level that sets a price has plain numbers that fit a decimal. -/
def Plain (raw : LevelText) : Prop :=
  (levelOf w raw).any (fun l => !l.qty.isDelete) = true →
    (literal raw.price).isSome = true ∧ (literal raw.qty).isSome = true

instance (raw : LevelText) : Decidable (Plain w raw) := inferInstanceAs (Decidable (_ → _ ∧ _))

/-- The decimal library keeps the digits and the places of a plain number. -/
def KeepsDigits : Prop := ∀ text d, literal text = some d → w.decimal text = .ok d

variable {w} {raw : LevelText} {l : Level} {raws : List LevelText} {levels : List Level} {u : Int}

theorem levelOf_decimals (read : levelOf w raw = some l) :
    w.decimal raw.price = .ok l.price.decimal ∧ w.decimal raw.qty = .ok l.qty.decimal := by
  rw [levelOf] at read
  split at read
  · rename_i price qty priced sized
    split at read
    · rename_i q accepted
      obtain rfl := Option.some.inj read
      refine ⟨priced, sized.trans (congrArg _ ?_)⟩
      rw [Qty.fromDecimal] at accepted
      split at accepted
      · cases accepted
      · obtain rfl := Except.ok.inj accepted
        rfl
    · cases read
  · cases read

theorem textDigits_eq (keeps : KeepsDigits w) (plain : Plain w raw) (read : levelOf w raw = some l)
    (kept : l.qty.isDelete = false) : levelDigits l = textDigits raw := by
  obtain ⟨price, qty⟩ := plain (by simp [read, kept])
  obtain ⟨p, priced⟩ := Option.isSome_iff_exists.mp price
  obtain ⟨q, sized⟩ := Option.isSome_iff_exists.mp qty
  obtain ⟨readPrice, readQty⟩ := levelOf_decimals read
  have samePrice := Except.ok.inj (readPrice.symm.trans (keeps _ _ priced))
  have sameQty := Except.ok.inj (readQty.symm.trans (keeps _ _ sized))
  rw [levelDigits, textDigits, samePrice, sameQty, literal_toString priced, literal_toString sized]

/-- The levels are the texts as they were read. -/
def ReadAs (w : KrakenWire) (raws : List LevelText) (levels : List Level) : Prop :=
  raws.map (levelOf w) = levels.map some

theorem lastWritten_read (read : ReadAs w raws levels) :
    (lastWritten w raws u).map (levelOf w) = (lastSet levels u).map some := by
  have found := congrArg (fun l => l.reverse.find? (fun o => o.any (setsPrice u))) read
  simpa [← List.map_reverse, List.find?_map, lastWritten, lastSet, Function.comp_def] using found

theorem exactDecimal_ok {data text : String} {d : Decimal}
    (h : w.exactDecimal data text = .ok d) : w.decimal text = .ok d := by
  rw [KrakenWire.exactDecimal] at h
  split at h
  · rename_i e read
    exact read.trans h
  · cases h

theorem readAs_toLevels {data : String} {wires : List WireLevel}
    (typed : raws.mapM (w.wireLevel data) = .ok wires) (read : toLevels wires = .ok levels) :
    ReadAs w raws levels := by
  induction raws generalizing wires levels with
  | nil =>
    cases typed
    cases read
    rfl
  | cons raw raws ih =>
    rw [List.mapM_cons] at typed
    obtain ⟨wire, first, typed⟩ := bind_ok.mp typed
    obtain ⟨rest, others, typed⟩ := bind_ok.mp typed
    obtain rfl := Except.ok.inj typed
    obtain ⟨price, priced, first⟩ := bind_ok.mp first
    obtain ⟨qty, sized, first⟩ := bind_ok.mp first
    obtain rfl := Except.ok.inj first
    rw [toLevels] at read
    obtain ⟨q, accepted, read⟩ := bind_ok.mp read
    obtain ⟨tail, more, read⟩ := bind_ok.mp read
    obtain rfl := Except.ok.inj read
    have own : levelOf w raw = some ⟨⟨price⟩, q⟩ := by
      rw [levelOf, exactDecimal_ok priced, exactDecimal_ok sized]
      dsimp only
      rw [qtyOf] at accepted
      split at accepted
      · cases accepted
      · rename_i qty' same
        obtain rfl := Except.ok.inj accepted
        rw [same]
    rw [ReadAs, List.map_cons, List.map_cons, own]
    exact congrArg _ (ih others more)

variable {s : KrakenSync} {data kind : String} {side : Side}

/-- One message sets a side to what its texts are read as. -/
theorem readAs_message {bidTexts askTexts : List LevelText} {bids asks : List Level}
    {action : SyncAction} (acted : bookAction kind bids asks = .ok action)
    (readBids : ReadAs w bidTexts bids) (readAsks : ReadAs w askTexts asks)
    (before : ReadAs w raws levels) :
    ReadAs w (recentTexts side raws ⟨decide (kind = "snapshot"), bidTexts, askTexts⟩)
      (recent side levels action) := by
  have own : ReadAs w ((⟨decide (kind = "snapshot"), bidTexts, askTexts⟩ : Message).sideOf side)
      (sideOf bids asks side) := by
    cases side with
    | bid => exact readBids
    | ask => exact readAsks
  simp only [bookAction] at acted
  split at acted
  · obtain rfl := Except.ok.inj acted
    exact own
  · obtain rfl := Except.ok.inj acted
    have appended := congrArg₂ (· ++ ·) before own
    simpa [ReadAs, recentTexts, recent] using appended
  · cases acted

/-- The actions of the own entries set a side to what their texts are read as. -/
theorem readAs_bookActions (entries : List BookText) {typed : List BookData}
    {venueTs : Option Int} {ingested : Ingested}
    (read : entries.mapM (w.bookEntry data) = .ok typed)
    (told : s.bookActions w kind venueTs typed = .ok ingested) (before : ReadAs w raws levels) :
    ReadAs w (((entries.filter (fun e => e.symbol = s.symbol)).map
        (fun e => (⟨decide (kind = "snapshot"), e.bids, e.asks⟩ : Message))).foldl
          (recentTexts side) raws)
      (ingested.actions.foldl (recent side) levels) := by
  induction entries generalizing typed venueTs ingested raws levels with
  | nil =>
    cases read
    cases told
    exact before
  | cons entry entries ih =>
    rw [List.mapM_cons] at read
    obtain ⟨first, own, read⟩ := bind_ok.mp read
    obtain ⟨rest, others, read⟩ := bind_ok.mp read
    obtain rfl := Except.ok.inj read
    obtain ⟨bids, bidTexts, own⟩ := bind_ok.mp own
    obtain ⟨asks, askTexts, own⟩ := bind_ok.mp own
    obtain rfl := Except.ok.inj own
    rw [KrakenSync.bookActions] at told
    by_cases foreign : entry.symbol = s.symbol
    · rw [if_neg (by simpa using foreign)] at told
      obtain ⟨bidLevels, readBids, told⟩ := bind_ok.mp told
      obtain ⟨askLevels, readAsks, told⟩ := bind_ok.mp told
      obtain ⟨action, acted, told⟩ := bind_ok.mp told
      obtain ⟨later, more, told⟩ := bind_ok.mp told
      obtain rfl := Except.ok.inj told
      rw [List.filter_cons_of_pos (by simpa using foreign), List.map_cons, List.foldl_cons,
        List.cons_append, List.foldl_cons, List.foldl_append]
      have passed : ∀ levels, (entry.checksum.map SyncAction.verify).toList.foldl (recent side)
          levels = levels := by
        intro levels
        cases entry.checksum <;> rfl
      rw [passed]
      exact ih others more (readAs_message acted (readAs_toLevels bidTexts readBids)
        (readAs_toLevels askTexts readAsks) before)
    · rw [if_pos foreign] at told
      rw [List.filter_cons_of_neg (by simpa using foreign)]
      exact ih others told before

theorem recent_quiet {actions : List SyncAction} (quiet : ∀ a ∈ actions, a.isBook = false) :
    actions.foldl (recent side) levels = levels := by
  induction actions with
  | nil => rfl
  | cons a actions ih =>
    have first := quiet a List.mem_cons_self
    have same : recent side levels a = levels := by
      cases a <;> first | rfl | cases first
    rw [List.foldl_cons, same]
    exact ih fun b mem => quiet b (List.mem_cons_of_mem _ mem)

theorem quiet_of_passive {a : SyncAction} (passive : a.isPassive = true) : a.isBook = false := by
  cases a <;> first | rfl | cases passive

/-- Frames of other channels carry no message and set nothing. -/
theorem channel_quiet {env : Envelope} {ingested : Ingested}
    (told : s.channelIngested w env = .ok ingested) (other : env.channel ≠ some "book") :
    ∀ a ∈ ingested.actions, a.isBook = false := by
  have ignored : ∀ a ∈ Ingested.ignored.actions, a.isBook = false := by decide
  rw [KrakenSync.channelIngested] at told
  split at told
  · obtain rfl := Except.ok.inj told
    exact ignored
  · rename_i channel
    exact absurd channel other
  · split at told
    · cases told
    · obtain rfl := Except.ok.inj told
      exact ignored
    · obtain ⟨entries, _, told⟩ := bind_ok.mp told
      exact fun a mem => quiet_of_passive (tradeActions_passive entries told a mem)
  · obtain rfl := Except.ok.inj told
    exact fun a mem => List.mem_singleton.mp mem ▸ rfl
  · obtain rfl := Except.ok.inj told
    exact ignored

/-- A frame that is taken sets a side to what its texts are read as. -/
theorem readAs_carried {payload : Payload} {env : Envelope} {ingested : Ingested}
    (opened : w.envelope payload = .ok env) (told : s.channelIngested w env = .ok ingested)
    (before : ReadAs w raws levels) :
    ReadAs w ((carried w s payload).foldl (recentTexts side) raws)
      (ingested.actions.foldl (recent side) levels) := by
  rw [carried, opened]
  by_cases book : env.channel = some "book"
  · simp only [if_pos book]
    rw [KrakenSync.channelIngested, book] at told
    cases kind : env.kind with
    | none =>
      rw [kind] at told
      cases told
    | some kind =>
      rw [kind] at told
      obtain ⟨typed, read, told⟩ := bind_ok.mp told
      cases data : env.data with
      | none =>
        rw [data] at read
        cases read
      | some data =>
        rw [data, readData] at read
        dsimp only at read ⊢
        split at read
        · cases read
        · rename_i entries made
          obtain rfl := Except.ok.inj read
          obtain ⟨texts, parsed, made⟩ := bind_ok.mp made
          rw [parsed]
          exact readAs_bookActions texts made told before
  · simp only [if_neg book]
    rw [recent_quiet (channel_quiet told book)]
    exact before

/-- What an input sets is what its messages are read as. -/
theorem readAs_input (arith : DecimalArith) (vb : VenueBook KrakenSync) (input : Input)
    (before : ReadAs w raws levels) :
    ReadAs w ((messagesOf w vb.sync input).foldl (recentTexts side) raws)
      ((told (sync w) arith vb input).ingested.actions.foldl (recent side) levels) := by
  have found (snapshot : RestSnapshot) : (findings arith vb snapshot).foldl (recent side) levels =
      levels := by
    refine recent_quiet fun a mem => ?_
    rw [findings] at mem
    split at mem
    · obtain ⟨reason, -, rfl⟩ := List.mem_map.mp (Option.toList_map .. ▸ mem)
      rfl
    · cases mem
  cases input with
  | reset now => exact before
  | audit snapshot now => exact (found snapshot).symm ▸ before
  | feed frame =>
    simp only [messagesOf, told]
    cases frame.source with
    | webSocket =>
      simp only [KrakenSync.sync]
      cases taken : vb.sync.ingest w frame with
      | error e => exact before
      | ok ingested =>
        dsimp only
        rw [KrakenSync.ingest] at taken
        split at taken
        · cases taken
        · rename_i env opened
          exact readAs_carried opened taken before
    | restSnapshot =>
      cases read : frame.asStr with
      | error e => exact before
      | ok text => exact before
    | restAudit =>
      cases read : frame.asStr with
      | error e => exact before
      | ok text => exact before

theorem mem_recentTexts {messages : List Message}
    (mem : raw ∈ messages.foldl (recentTexts side) raws) :
    raw ∈ raws ∨ ∃ m ∈ messages, raw ∈ m.bids ++ m.asks := by
  induction messages generalizing raws with
  | nil => exact .inl mem
  | cons m messages ih =>
    have own : raw ∈ m.sideOf side → raw ∈ m.bids ++ m.asks := by
      cases side with
      | bid => exact fun here => List.mem_append_left _ here
      | ask => exact fun here => List.mem_append_right _ here
    rcases ih mem with now | ⟨later, listed, here⟩
    · rw [recentTexts] at now
      split at now
      · exact .inr ⟨m, List.mem_cons_self, own now⟩
      · rcases List.mem_append.mp now with past | here
        · exact .inl past
        · exact .inr ⟨m, List.mem_cons_self, own here⟩
    · exact .inr ⟨later, List.mem_cons_of_mem _ listed, here⟩

/-- The last level that set a price has the digits of the last text that did. -/
theorem lastSet_digits (keeps : KeepsDigits w) (plain : ∀ raw ∈ raws, Plain w raw)
    (read : ReadAs w raws levels) (set : lastSet levels u = some l) :
    ∃ raw, lastWritten w raws u = some raw ∧ levelDigits l = textDigits raw := by
  have same := lastWritten_read (u := u) read
  rw [set, Option.map_some] at same
  obtain ⟨raw, written, own⟩ := Option.map_eq_some_iff.mp same
  have mem := List.mem_reverse.mp (List.mem_of_find?_eq_some written)
  have sets := List.find?_some set
  rw [setsPrice, Bool.and_eq_true, Bool.not_eq_true'] at sets
  exact ⟨raw, written, textDigits_eq keeps (plain raw mem) own sets.1⟩

end Texts

section Run

variable (w : KrakenWire) (arith : DecimalArith)

/-- A book, all that its frames have told it, and the messages that they carried. -/
structure Transcript where
  vb : VenueBook KrakenSync
  history : List SyncAction
  messages : List Message

def Transcript.step (t : Transcript) (input : Input) : Transcript where
  vb := (receive (sync w) arith t.vb input).2
  history := t.history ++ (told (sync w) arith t.vb input).ingested.actions
  messages := t.messages ++ messagesOf w t.vb.sync input

/-- The levels that an input sets have plain numbers, and every price that it sets on a held
level has the digits under which the level is stored. -/
structure InputAlike (t : Transcript) (input : Input) : Prop where
  plain : ∀ m ∈ messagesOf w t.vb.sync input, ∀ raw ∈ m.bids ++ m.asks, Plain w raw
  alike : Meets (fun b a => (applyAction (fun levels => some (checksum w levels)) .verified
      (told (sync w) arith t.vb input).now b a).1) SpelledAlike t.vb.book
    (told (sync w) arith t.vb input).ingested.actions

instance (t : Transcript) (input : Input) : Decidable (InputAlike w arith t input) :=
  decidable_of_iff ((∀ m ∈ messagesOf w t.vb.sync input, ∀ raw ∈ m.bids ++ m.asks, Plain w raw) ∧
      Meets (fun b a => (applyAction (fun levels => some (checksum w levels)) .verified
          (told (sync w) arith t.vb input).now b a).1) SpelledAlike t.vb.book
        (told (sync w) arith t.vb input).ingested.actions)
    ⟨fun h => ⟨h.1, h.2⟩, fun h => ⟨h.plain, h.alike⟩⟩

/-- The text that is hashed. -/
def hashedText (levels : Levels) : List Char :=
  (levels.topLevels .ask 10).flatMap levelDigits ++
    (levels.topLevels .bid 10).flatMap levelDigits

/-- The digits of the last text that set the price of a level. -/
def writtenDigits (side : Side) (messages : List Message) (l : Level) : List Char :=
  ((lastWritten w (textsOn side messages) l.price.decimal.units).map textDigits).getD []

/-- The ten lowest asks and the ten highest bids as they were last written. -/
def writtenText (messages : List Message) (levels : Levels) : List Char :=
  (levels.topLevels .ask 10).flatMap (writtenDigits w .ask messages) ++
    (levels.topLevels .bid 10).flatMap (writtenDigits w .bid messages)

variable {w arith} {t : Transcript} {input : Input}

/-- The levels that were set are the texts as they were read, and plain. -/
structure Told (w : KrakenWire) (t : Transcript) : Prop where
  held : Transcribed t.history t.vb.book
  read : ∀ side, ReadAs w (textsOn side t.messages) (listedOn side t.history)
  plain : ∀ side, ∀ raw ∈ textsOn side t.messages, Plain w raw

theorem told_step (told : Told w t) (alike : InputAlike w arith t input) :
    Told w (t.step w arith input) := by
  refine ⟨?_, fun side => ?_, fun side raw mem => ?_⟩
  · have book := (follows_receive (sync w) arith t.vb input).book
    rw [Transcript.step, book]
    exact transcribed_actions told.held alike.alike
  · have more : ReadAs w ((messagesOf w t.vb.sync input).foldl (recentTexts side)
        (textsOn side t.messages)) (List.foldl (recent side) (listedOn side t.history) _) :=
      readAs_input arith t.vb input (told.read side)
    rw [textsOn, listedOn, ← List.foldl_append, ← List.foldl_append] at more
    exact more
  · rw [Transcript.step, textsOn, List.foldl_append] at mem
    rcases mem_recentTexts mem with past | ⟨m, carried, here⟩
    · exact told.plain side raw past
    · exact alike.plain m carried raw here

theorem written_of_held {side : Side} {m : PriceMap} {e : Price × Qty} (keeps : KeepsDigits w)
    (told : Told w t) (verbatim : Verbatim (listedOn side t.history) m) (mem : e ∈ m.entries) :
    levelDigits ⟨e.1, e.2⟩ = writtenDigits w side t.messages ⟨e.1, e.2⟩ := by
  obtain ⟨l, set, digits⟩ := verbatim e mem
  obtain ⟨raw, written, same⟩ := lastSet_digits keeps (told.plain side) (told.read side) set
  rw [← digits, same, writtenDigits, written]
  rfl

theorem hashed_as_written (keeps : KeepsDigits w) (told : Told w t)
    (live : t.vb.book.state.isLive = true) :
    hashedText t.vb.book.levels = writtenText w t.messages t.vb.book.levels := by
  obtain ⟨bids, asks⟩ := told.held live
  rw [hashedText, writtenText]
  congr 1
  · refine List.flatMap_congr fun l mem => ?_
    obtain ⟨e, held, rfl⟩ := List.mem_map.mp (List.mem_of_mem_take mem)
    exact written_of_held keeps told asks held
  · refine List.flatMap_congr fun l mem => ?_
    obtain ⟨e, held, rfl⟩ := List.mem_map.mp (List.mem_of_mem_take mem)
    exact written_of_held keeps told bids (List.mem_reverse.mp held)

/-- In a run whose messages write plain numbers, and every price that they set on a held level
with the digits it is stored under, a live book hashes the digits of the texts last written. -/
theorem digits_as_written (w : KrakenWire) (arith : DecimalArith) (pair : String)
    (symbol : Symbol) (depth : Option Nat) (policy : AuditPolicy) (inputs : List Input)
    (keeps : KeepsDigits w)
    (alike : Meets (Transcript.step w arith) (InputAlike w arith)
      ⟨fresh (sync w) (KrakenSync.new pair) symbol depth policy, [], []⟩ inputs) :
    let t := exec (Transcript.step w arith)
      ⟨fresh (sync w) (KrakenSync.new pair) symbol depth policy, [], []⟩ inputs
    t.vb.book.state.isLive = true →
      checksum w t.vb.book.levels = w.crc32 (String.ofList (hashedText t.vb.book.levels)) ∧
        hashedText t.vb.book.levels = writtenText w t.messages t.vb.book.levels := by
  intro t live
  have start : Told w ⟨fresh (sync w) (KrakenSync.new pair) symbol depth policy, [], []⟩ := by
    refine ⟨fun live => ?_, fun side => rfl, fun side raw mem => by cases mem⟩
    cases depth <;> cases live
  exact ⟨rfl, hashed_as_written keeps (exec_invariant (fun _ _ told alike =>
    told_step told alike) start alike) live⟩

end Run

section Sample

def bookText (kind data : String) : String :=
  "\x7b\"channel\":\"book\",\"type\":\"" ++ kind ++ "\",\"data\":" ++ data ++ "\x7d"

def bidData (price qty : String) : String :=
  "[\x7b\"symbol\":\"BTC/USD\",\"bids\":[\x7b\"price\":" ++ price ++ ",\"qty\":" ++ qty ++
    "\x7d],\"asks\":[]\x7d]"

def bidEntry (price qty : String) : BookText := ⟨"BTC/USD", [⟨price, qty⟩], [], none, none⟩

/-- Messages of one bid. -/
def sampleBids : List (String × String × String) :=
  [("snapshot", "100.50", "1"), ("update", "100.50", "0.20"), ("snapshot", "100", "1"),
    ("update", "100.0", "2")]

def digitWire : KrakenWire :=
  tableWire
    (sampleBids.map fun m => (bookText m.1 (bidData m.2.1 m.2.2),
      ⟨some "book", some m.1, some (bidData m.2.1 m.2.2)⟩))
    (sampleBids.map fun m => (bidData m.2.1 m.2.2, [bidEntry m.2.1 m.2.2]))
    KrakenChecksums.crcAscii

theorem digitWire_keeps : KeepsDigits digitWire := by
  intro text d h
  simp only [digitWire, tableWire, h]

def bookFrame (kind price qty : String) : Input :=
  .feed ⟨⟨.kraken, ⟨"BTC-USD"⟩⟩, .text (bookText kind (bidData price qty)), ⟨7, 7⟩, .webSocket⟩

def transcriptOf (inputs : List Input) : Transcript :=
  exec (Transcript.step digitWire .idle)
    ⟨fresh (sync digitWire) (KrakenSync.new "BTC/USD") ⟨"BTC-USD"⟩ (some 10) .default, [], []⟩ inputs

def sameDigits : List Input :=
  [bookFrame "snapshot" "100.50" "1", bookFrame "update" "100.50" "0.20"]

def moreDigits : List Input :=
  [bookFrame "snapshot" "100" "1", bookFrame "update" "100.0" "2"]

theorem digits_as_written_twice :
    checksum digitWire (transcriptOf sameDigits).vb.book.levels =
        digitWire.crc32 (String.ofList (hashedText (transcriptOf sameDigits).vb.book.levels)) ∧
      hashedText (transcriptOf sameDigits).vb.book.levels =
        writtenText digitWire (transcriptOf sameDigits).messages
          (transcriptOf sameDigits).vb.book.levels :=
  digits_as_written digitWire .idle "BTC/USD" ⟨"BTC-USD"⟩ (some 10) .default sameDigits
    digitWire_keeps (by decide +kernel) (by decide +kernel)

/-- The price is hashed as it was first written. -/
theorem padded_price_not_hashed :
    (transcriptOf moreDigits).vb.book.state.isLive = true ∧
      hashedText (transcriptOf moreDigits).vb.book.levels = "1002".toList ∧
      writtenText digitWire (transcriptOf moreDigits).messages
        (transcriptOf moreDigits).vb.book.levels = "10002".toList := by
  decide +kernel

end Sample

end KrakenDigits

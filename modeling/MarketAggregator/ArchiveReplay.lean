import MarketAggregator.ArchiveMerge
import MarketAggregator.TapeFiles

/-!
# Replaying an archive

Each event that is read is sent with an offset, at which a new reading of the clock is made.
With one prefix the offset is the recorded one, with several it is taken from the wall clock
and counts from the first event. Neither is compared with the offset before it.
-/

namespace ArchiveReplay

open AggregatorApply ArchiveKeys ArchiveMerge ArchiveReader ArchiveRows Clocks Decimals HeadMerges
  MarketEvents OrderedMaps TapeFiles VenueStreams

inductive SendOutcome where
  | sent
  | droppedOldest
  | closed

/-- Only the pacing in real time counts the messages that push out others. -/
inductive Pacing where
  | faithful
  | realtime
  deriving DecidableEq

structure ArchiveStats where
  eventsSent : Nat
  dropped : Nat

structure Sent where
  offset : Nat
  stream : StreamId
  event : MarketEvent

def Sent.message (s : Sent) : IngestMessage := .event s.stream s.event

structure Replay where
  sent : List Sent
  outcome : Except ReadError ArchiveStats

/-- An event as it is sent at an offset. -/
def sentAt (base : IngestTime) (offset : Nat) (stored : StoredEvent) : Sent where
  offset := offset
  stream := stored.stream
  event := ⟨stored.stream.venue, stored.stream.symbol, stored.venueTs, advancedBy base offset,
    stored.kind⟩

/-- The offset of an event from the start. A wall reading before the start has the offset 0. -/
def offsetOf (fromWall : Bool) (start : Int) (stored : StoredEvent) : Nat :=
  if fromWall then (stored.ingestWall - start).toNat else stored.elapsed

section Loop

variable (source : Key → Except ReadError (List StoredEvent)) (fromWall : Bool) (base : IngestTime)
  (pacing : Pacing) (tx : Nat → SendOutcome)

/-- Send events until none is left, a file cannot be read or the channel is closed, in a number
of steps. -/
def replayLoop : Nat → List Cursor → Option Int → ArchiveStats → Option Replay
  | 0, _, _, _ => none
  | fuel + 1, cursors, origin, stats =>
    match nextEvent source cursors with
    | .error e => some ⟨[], .error e⟩
    | .ok (none, _) => some ⟨[], .ok stats⟩
    | .ok (some stored, rest) =>
      let start := origin.getD stored.ingestWall
      let message := sentAt base (offsetOf fromWall start stored) stored
      let counted := { stats with eventsSent := stats.eventsSent + 1 }
      let later := replayLoop fuel rest (if fromWall then some start else origin)
      match tx stats.eventsSent with
      | .closed => some ⟨[], .ok counted⟩
      | .sent => (later counted).map fun r => ⟨message :: r.sent, r.outcome⟩
      | .droppedOldest =>
        (later (if pacing = .realtime then { counted with dropped := stats.dropped + 1 }
          else counted)).map fun r => ⟨message :: r.sent, r.outcome⟩

end Loop

def replayArchiveMany {B : Type} (parquet : Parquet B) (text : DecimalText) (objects : Objects B)
    (prefixes : List Key) (base : IngestTime) (pacing : Pacing) (tx : Nat → SendOutcome)
    (fuel : Nat) : Option Replay :=
  replayLoop (contents objects parquet text) (decide (1 < prefixes.length)) base pacing tx fuel
    (openMany objects prefixes) none ⟨0, 0⟩

/-- Neither the offsets nor the rebuilt readings of the clocks step back. -/
def NeverBack (sent : List Sent) : Prop :=
  sent.Pairwise (fun a b => a.offset ≤ b.offset ∧
    a.event.ingestTs.mono ≤ b.event.ingestTs.mono ∧ a.event.ingestTs.wall ≤ b.event.ingestTs.wall)

section Telling

variable {source : Key → Except ReadError (List StoredEvent)} {fromWall : Bool} {base : IngestTime}
  {pacing : Pacing} {tx : Nat → SendOutcome} {fuel more : Nat} {cursors : List Cursor}
  {origin : Option Int} {stats : ArchiveStats} {out : List StoredEvent} {r : Replay}

variable (fromWall base) in
/-- Events as they are sent while the channel is open. -/
def told (origin : Option Int) : List StoredEvent → List Sent
  | [] => []
  | e :: out =>
    sentAt base (offsetOf fromWall (origin.getD e.ingestWall) e) e ::
      told (if fromWall then some (origin.getD e.ingestWall) else origin) out

/-- Whatever the channel does, a beginning of the events is sent. -/
theorem replayLoop_start (run : collect source fuel cursors = some (.ok out))
    (sent : replayLoop source fromWall base pacing tx more cursors origin stats = some r) :
    r.sent <+: told fromWall base origin out := by
  induction fuel generalizing more cursors origin stats out r with
  | zero => cases run
  | succ fuel ih =>
    cases more with
    | zero => cases sent
    | succ more =>
      rw [collect] at run
      rw [replayLoop] at sent
      cases step : nextEvent source cursors with
      | error e =>
        rw [step] at run
        cases run
      | ok taken =>
        obtain ⟨event, ds⟩ := taken
        rw [step] at run sent
        cases event with
        | none =>
          cases sent
          exact List.nil_prefix
        | some e =>
          obtain ⟨later, read, joined⟩ := Option.map_eq_some_iff.mp run
          cases later with
          | error wrong => cases joined
          | ok rest =>
            obtain rfl := Except.ok.inj joined
            cases reply : tx stats.eventsSent with
            | closed =>
              simp only [reply] at sent
              cases sent
              exact List.nil_prefix
            | sent =>
              simp only [reply] at sent
              obtain ⟨next, ran, rfl⟩ := Option.map_eq_some_iff.mp sent
              exact List.cons_prefix_cons.mpr ⟨rfl, ih read ran⟩
            | droppedOldest =>
              simp only [reply] at sent
              obtain ⟨next, ran, rfl⟩ := Option.map_eq_some_iff.mp sent
              exact List.cons_prefix_cons.mpr ⟨rfl, ih read ran⟩

/-- All events are sent while the channel takes them. -/
theorem replayLoop_all (run : collect source fuel cursors = some (.ok out)) :
    ∃ r, replayLoop source fromWall base pacing (fun _ => .sent) fuel cursors origin stats =
      some r ∧ r.sent = told fromWall base origin out := by
  induction fuel generalizing cursors origin stats out with
  | zero => cases run
  | succ fuel ih =>
    rw [collect] at run
    rw [replayLoop]
    cases step : nextEvent source cursors with
    | error e =>
      rw [step] at run
      cases run
    | ok taken =>
      obtain ⟨event, ds⟩ := taken
      rw [step] at run
      cases event with
      | none =>
        obtain rfl := Except.ok.inj (Option.some.inj run)
        exact ⟨_, rfl, rfl⟩
      | some e =>
        obtain ⟨later, read, joined⟩ := Option.map_eq_some_iff.mp run
        cases later with
        | error wrong => cases joined
        | ok rest =>
          obtain rfl := Except.ok.inj joined
          obtain ⟨next, ran, same⟩ := @ih ds
            (if fromWall then some (origin.getD e.ingestWall) else origin)
            { stats with eventsSent := stats.eventsSent + 1 } rest read
          refine ⟨⟨sentAt base (offsetOf fromWall (origin.getD e.ingestWall) e) e :: next.sent,
            next.outcome⟩, ?_, ?_⟩
          · simp only [ran]
            rfl
          · rw [told, ← same]

/-- The start of a replay is its first event. -/
theorem told_some (start : Int) :
    told fromWall base (some start) out =
      out.map (fun e => sentAt base (offsetOf fromWall start e) e) := by
  induction out with
  | nil => rfl
  | cons e out ih =>
    rw [told, List.map_cons, Option.getD_some, ite_self, ih]

theorem told_recorded : told false base origin out =
    out.map (fun e => sentAt base e.elapsed e) := by
  induction out generalizing origin with
  | nil => rfl
  | cons e out ih =>
    rw [told, List.map_cons, ih]
    rfl

theorem told_wall {e : StoredEvent} : told true base none (e :: out) =
    (e :: out).map (fun x => sentAt base (offsetOf true e.ingestWall x) x) := by
  rw [told, List.map_cons, if_pos rfl, told_some]
  rfl

/-- The rebuilt readings follow the offsets. -/
theorem neverBack_map (offset : StoredEvent → Nat) :
    NeverBack (out.map (fun e => sentAt base (offset e) e)) ↔
      out.Pairwise (fun a b => offset a ≤ offset b) := by
  rw [NeverBack, List.pairwise_map]
  have follows : ∀ a b : Nat, a ≤ b ∧ (advancedBy base a).mono ≤ (advancedBy base b).mono ∧
      (advancedBy base a).wall ≤ (advancedBy base b).wall ↔ a ≤ b := by
    intro a b
    refine ⟨fun h => h.1, fun order => ⟨order, ?_, ?_⟩⟩
    · exact Nat.add_le_add_left order base.mono
    · change base.wall + (a : Int) ≤ base.wall + b
      omega
  exact List.Pairwise.iff fun {a b} => follows (offset a) (offset b)

end Telling

/-- The events of a partition up to one of them. -/
def UpTo (a c : Entry) : Prop := c.partition = a.partition ∧ (c = a ∨ c.Before a)

/-- No wall reading up to one event is later than all readings up to the other, each in its
own partition. -/
def PeakLE (all : List Entry) (a b : Entry) : Prop :=
  ∀ c ∈ all, UpTo a c → ∃ d ∈ all, UpTo b d ∧ c.wall ≤ d.wall

/-- One event of an archive is read before another. -/
def Ahead (all : List Entry) (a b : Entry) : Prop :=
  a.partition = b.partition ∧ a.Before b ∨
    a.partition ≠ b.partition ∧ PeakLE all a b ∧
      (PeakLE all b a → Key.cmp a.partition b.partition = .lt)

/-- An event is the first of its partition. -/
def Opens (all : List Entry) (e : Entry) : Prop :=
  e ∈ all ∧ ∀ b ∈ all, b.partition = e.partition → ¬ b.Before e

/-- Within a partition the wall clock steps back only where it has not yet passed the earliest
of the first readings of all partitions. -/
def SteadyWalls (all : List Entry) : Prop :=
  ∀ o, Opens all o → (∀ f, Opens all f → o.wall ≤ f.wall) →
    ∀ a ∈ all, ∀ b ∈ all, a.partition = b.partition → a.Before b → a.wall ≤ max o.wall b.wall

/-- The recorded offsets agree with the order in which events are read. -/
def SteadyOffsets (all : List Entry) : Prop :=
  ∀ a ∈ all, ∀ b ∈ all, Ahead all a b → a.event.elapsed ≤ b.event.elapsed

def Steady (several : Bool) (all : List Entry) : Prop :=
  if several then SteadyWalls all else SteadyOffsets all

section Order

variable {source : Key → Except ReadError (List StoredEvent)} {keys : List Key}
  {all merged : List Entry} {lane : List Entry} {a b c o : Entry} {j : Nat} {p q : Int}

theorem before_asymm (before : a.Before b) : ¬ b.Before a := by
  rintro (after | ⟨same, after⟩)
  · rcases before with before | ⟨same, -⟩
    · rw [Std.OrientedCmp.gt_of_lt before] at after
      cases after
    · rw [same] at after
      exact absurd after (by simp [Std.ReflCmp.compare_self])
  · rcases before with before | ⟨-, before⟩
    · rw [same] at before
      exact absurd before (by simp [Std.ReflCmp.compare_self])
    · exact Nat.lt_asymm before after

theorem ahead_asymm (ahead : Ahead all a b) : ¬ Ahead all b a := by
  rcases ahead with ⟨same, before⟩ | ⟨different, high, tie⟩
  · rintro (⟨-, after⟩ | ⟨different, -⟩)
    · exact before_asymm before after
    · exact different same.symm
  · rintro (⟨same, -⟩ | ⟨-, high', tie'⟩)
    · exact different same.symm
    · have less := tie high'
      rw [Std.OrientedCmp.gt_of_lt (tie' high)] at less
      cases less

theorem mem_lane (at_j : (lanes source keys)[j]? = some lane) (mem : a ∈ lane)
    (stored : c ∈ archive source keys.dedup) (same : c.partition = a.partition) : c ∈ lane := by
  obtain ⟨lane', on, holds⟩ := List.mem_flatten.mp (lanes_perm.mem_iff.mpr stored)
  obtain ⟨k, at_k⟩ := List.mem_iff_getElem?.mp on
  have here : k = j := by
    rw [← lane_home at_k c holds, ← lane_home at_j a mem, home, home, same]
  subst here
  rw [at_j] at at_k
  obtain rfl := Option.some.inj at_k
  exact holds

/-- An event's peak in its lane is the latest wall reading of its partition up to it. -/
theorem peak_upTo (at_j : (lanes source keys)[j]? = some lane)
    (mem : (p, a) ∈ peaks Entry.wall lane) :
    (∀ c ∈ archive source keys.dedup, UpTo a c → c.wall ≤ p) ∧
      ∃ c ∈ archive source keys.dedup, UpTo a c ∧ c.wall = p := by
  obtain ⟨ordered, q, -, own⟩ := lane_partition at_j
  obtain ⟨before, after, rfl, below, top, on, same⟩ := peaks_spec mem
  have inside : ∀ c ∈ before ++ [a], c ∈ before ++ a :: after := by
    intro c holds
    rw [List.append_cons]
    exact List.mem_append_left after holds
  constructor
  · intro c stored upTo
    have holds := mem_lane at_j (inside a (List.mem_append_right before List.mem_cons_self)) stored
      upTo.1
    refine below c ?_
    rw [List.append_cons] at holds
    rcases List.mem_append.mp holds with early | late
    · exact early
    · rw [List.append_cons] at ordered
      have behind := (List.pairwise_append.mp ordered).2.2 a
        (List.mem_append_right before List.mem_cons_self) c late
      rcases upTo.2 with rfl | ahead
      · exact absurd behind (before_irrefl c)
      · exact absurd ahead (before_asymm behind)
  · refine ⟨top, ?_, ⟨?_, ?_⟩, same⟩
    · exact lanes_perm.mem_iff.mp (List.mem_flatten.mpr
        ⟨_, List.mem_of_getElem? at_j, inside top on⟩)
    · exact (own top (inside top on)).trans (own a (inside a
        (List.mem_append_right before List.mem_cons_self))).symm
    · rcases List.mem_append.mp on with early | here
      · exact .inr ((List.pairwise_append.mp ordered).2.2 top early a List.mem_cons_self)
      · exact .inl (List.mem_singleton.mp here)

/-- The events of an archive come out in their order. -/
theorem merged_ahead (h : Merged Entry.wall (lanes source keys) merged) :
    merged.Pairwise (Ahead (archive source keys.dedup)) := by
  have correct := merged_correct h
  have labelled : ((lanes source keys).map (peaks Entry.wall)).map (List.map Prod.snd) =
      lanes source keys := by
    rw [List.map_map]
    refine (List.map_congr_left fun lane _ => ?_).trans (List.map_id _)
    exact peaks_snd
  have plain := h
  rw [← labelled] at plain
  obtain ⟨labels, places, rfl⟩ := plain.lift
  have ranked : labels.Pairwise (fun x y =>
      toLex (x.1, home keys x.2) ≤ toLex (y.1, home keys y.2)) := by
    refine places.ranked fun j l at_j => ?_
    rw [List.getElem?_map] at at_j
    obtain ⟨lane, own, rfl⟩ := Option.map_eq_some_iff.mp at_j
    exact lane_peaks (lane_home own)
  have spec : ∀ x ∈ labels, (∀ c ∈ archive source keys.dedup, UpTo x.2 c → c.wall ≤ x.1) ∧
      ∃ c ∈ archive source keys.dedup, UpTo x.2 c ∧ c.wall = x.1 := by
    intro x mem
    obtain ⟨l, on, holds⟩ := List.mem_flatten.mp (places.interleaved.perm.mem_iff.mp mem)
    obtain ⟨lane, there, rfl⟩ := List.mem_map.mp on
    obtain ⟨j, at_j⟩ := List.mem_iff_getElem?.mp there
    exact peak_upTo at_j holds
  have peak_le : ∀ x ∈ labels, ∀ y ∈ labels,
      PeakLE (archive source keys.dedup) x.2 y.2 ↔ x.1 ≤ y.1 := by
    intro x mem y mem'
    obtain ⟨below, top, stored, upTo, same⟩ := spec x mem
    obtain ⟨below', top', stored', upTo', same'⟩ := spec y mem'
    constructor
    · intro high
      obtain ⟨d, there, late, order⟩ := high top stored upTo
      rw [← same]
      exact order.trans (below' d there late)
    · intro high c there early
      refine ⟨top', stored', upTo', ?_⟩
      rw [same']
      exact (below c there early).trans high
  have inside : ∀ x ∈ labels, x.2 ∈ archive source keys.dedup := fun x mem =>
    correct.once.mem_iff.mp (List.mem_map_of_mem mem)
  have inOrder := List.pairwise_map.mp correct.inOrder
  refine List.pairwise_map.mpr ((List.Pairwise.and_mem.mp (ranked.and inOrder)).imp ?_)
  rintro x y ⟨mem, mem', rank, within⟩
  by_cases same : x.2.partition = y.2.partition
  · exact .inl ⟨same, within same⟩
  · have order := Prod.Lex.toLex_le_toLex.mp rank
    refine .inr ⟨same, (peak_le x mem y mem').mpr ?_, fun high => ?_⟩
    · rcases order with less | ⟨equal, -⟩
      · exact less.le
      · exact equal.le
    · have back := (peak_le y mem' x mem).mp high
      rcases order with less | ⟨-, homes⟩
      · exact absurd less (not_lt.mpr back)
      · have sorted := home_le (inside x mem) (inside y mem') homes
        cases names : Key.cmp x.2.partition y.2.partition with
        | lt => rfl
        | eq => exact absurd (Std.LawfulEqCmp.eq_of_compare names) same
        | gt =>
          rw [names] at sorted
          cases sorted

end Order

section Steadiness

variable {B : Type} {parquet : Parquet B} {text : DecimalText} {objects : Objects B}
  {prefixes : List Key} {all merged rest : List Entry} {a b o : Entry}

/-- The first event read opens its partition, and no other partition opens earlier. -/
theorem opens_first (perm : (o :: rest).Perm all) (order : (o :: rest).Pairwise (Ahead all)) :
    Opens all o ∧ ∀ f, Opens all f → o.wall ≤ f.wall := by
  obtain ⟨first, -⟩ := List.pairwise_cons.mp order
  have stored : o ∈ all := perm.mem_iff.mp List.mem_cons_self
  constructor
  · refine ⟨stored, fun b mem same before => ?_⟩
    rcases List.mem_cons.mp (perm.mem_iff.mpr mem) with rfl | later
    · exact before_irrefl b before
    · exact ahead_asymm (first b later) (.inl ⟨same, before⟩)
  · rintro f ⟨mem, none_before⟩
    rcases List.mem_cons.mp (perm.mem_iff.mpr mem) with rfl | later
    · exact le_rfl
    · rcases first f later with ⟨same, before⟩ | ⟨-, high, -⟩
      · exact absurd before (none_before o stored same)
      · obtain ⟨d, there, ⟨own, upTo⟩, order⟩ := high o stored ⟨rfl, .inl rfl⟩
        rcases upTo with rfl | before
        · exact order
        · exact absurd before (none_before d there own)

/-- With several prefixes, offsets step back only where a partition's clock does. -/
theorem wall_offsets (perm : (o :: rest).Perm all) (order : (o :: rest).Pairwise (Ahead all)) :
    (∀ a ∈ all, ∀ b ∈ all, Ahead all a b →
      offsetOf true o.wall a.event ≤ offsetOf true o.wall b.event) ↔ SteadyWalls all := by
  have clamped : ∀ a b : Entry, offsetOf true o.wall a.event ≤ offsetOf true o.wall b.event ↔
      a.wall ≤ max o.wall b.wall := by
    intro a b
    change (a.wall - o.wall).toNat ≤ (b.wall - o.wall).toNat ↔ _
    omega
  obtain ⟨opens, least⟩ := opens_first perm order
  constructor
  · intro pairs f opens' least' a mem b mem' same before
    have equal : f.wall = o.wall := le_antisymm (least' o opens) (least f opens')
    rw [equal]
    exact (clamped a b).mp (pairs a mem b mem' (.inl ⟨same, before⟩))
  · intro steady a mem b mem' ahead
    rw [clamped]
    rcases ahead with ⟨same, before⟩ | ⟨-, high, -⟩
    · exact steady o opens least a mem b mem' same before
    · obtain ⟨d, there, ⟨own, upTo⟩, early⟩ := high a mem ⟨rfl, .inl rfl⟩
      rcases upTo with rfl | before
      · exact early.trans (le_max_right _ _)
      · exact early.trans (steady o opens least d there b mem' own before)

theorem told_steady (fromWall : Bool) (base : IngestTime) (perm : merged.Perm all)
    (order : merged.Pairwise (Ahead all)) :
    NeverBack (told fromWall base none (merged.map Entry.event)) ↔ Steady fromWall all := by
  have pairs : ∀ offset : StoredEvent → Nat,
      NeverBack ((merged.map Entry.event).map (fun e => sentAt base (offset e) e)) ↔
        ∀ a ∈ all, ∀ b ∈ all, Ahead all a b → offset a.event ≤ offset b.event := by
    intro offset
    rw [neverBack_map, List.pairwise_map, pairwise_iff_of_order order fun _ _ => ahead_asymm]
    simp only [perm.mem_iff]
  cases fromWall with
  | false =>
    rw [told_recorded, pairs]
    exact Iff.rfl
  | true =>
    cases merged with
    | nil =>
      obtain rfl := List.nil_perm.mp perm
      exact iff_of_true .nil nofun
    | cons o rest =>
      have start : told true base none ((o :: rest).map Entry.event) = _ := told_wall
      rw [start, ← List.map_cons, pairs]
      exact wall_offsets perm order

/-- In a replay of readable files time never steps back, if and only if the archive is steady. -/
theorem replay_steady
    (readable : ∀ key ∈ listed objects prefixes, Readable (contents objects parquet text) key) :
    (∀ base pacing tx fuel r,
      replayArchiveMany parquet text objects prefixes base pacing tx fuel = some r →
        NeverBack r.sent) ↔
      Steady (decide (1 < prefixes.length))
        (archive (contents objects parquet text) (listed objects prefixes)) := by
  obtain ⟨out, reads⟩ := reads_all readable
  obtain ⟨merged, rfl, places⟩ := readsMany_merged reads readable
  have perm := (merged_correct places).once
  have order := merged_ahead places
  obtain ⟨fuel, run⟩ := reads
  constructor
  · intro never
    obtain ⟨r, replayed, whole⟩ : ∃ r, replayArchiveMany parquet text objects prefixes ⟨0, 0⟩
        .faithful (fun _ => .sent) fuel = some r ∧ r.sent = told (decide (1 < prefixes.length))
          ⟨0, 0⟩ none (merged.map Entry.event) := replayLoop_all run
    have back := never ⟨0, 0⟩ .faithful (fun _ => .sent) fuel r replayed
    rw [whole] at back
    exact (told_steady _ ⟨0, 0⟩ perm order).mp back
  · intro steady base pacing tx more r replayed
    have whole := (told_steady _ base perm order).mpr steady
    exact whole.sublist (replayLoop_start run replayed).sublist

theorem offsets_back {replay : Option Replay} {offsets : List Nat}
    (sent : replay.map (fun r => r.sent.map Sent.offset) = some offsets)
    (back : ¬ offsets.Pairwise (· ≤ ·)) : ∃ r, replay = some r ∧ ¬ NeverBack r.sent := by
  obtain ⟨r, replayed, rfl⟩ := Option.map_eq_some_iff.mp sent
  exact ⟨r, replayed, fun never => back (List.pairwise_map.mpr (never.imp And.left))⟩

end Steadiness

section Examples

open ArchiveContents (plainParquet)
open ArchiveRuns (opening)
open ArchiveWriter (run)

def beat (mono : Nat) (wall : Int) : MarketEvent where
  venue := .kraken
  symbol := ⟨"BTC-USD"⟩
  venueTs := none
  ingestTs := ⟨mono, wall⟩
  kind := .heartbeat none

/-- The store after a writer run that starts with some objects. -/
def writtenTo (objects : Objects (List (List Row))) (events : List MarketEvent) :
    Objects (List (List Row)) :=
  (run plainParquet (fun _ => false) events
    (opening objects "events".toList .default .zero)).objects

/-- A writer that was started again within the hour. -/
def restarted : Objects (List (List Row)) :=
  writtenTo (writtenTo .empty [beat 0 0, beat 5 5]) [beat 0 10]

/-- A writer whose wall clock was set back. -/
def setBack : Objects (List (List Row)) := writtenTo .empty [beat 0 10, beat 10 20, beat 20 15]

theorem replay_steady_restarted :
    (∀ base pacing tx fuel r,
      replayArchiveMany plainParquet .plain restarted ["events".toList] base pacing tx fuel =
        some r → NeverBack r.sent) ↔
      Steady (decide (1 < ["events".toList].length))
        (archive (contents restarted plainParquet .plain)
          (listed restarted ["events".toList])) := by
  refine replay_steady ?_
  unfold Readable
  decide +kernel

/-- The recorded offsets 0, 5 and 0, and the wall readings 10, 20 and 15 under two prefixes. -/
theorem replay_steps_back :
    (∃ r, replayArchiveMany plainParquet .plain restarted ["events".toList] ⟨0, 0⟩ .faithful
        (fun _ => .sent) 4 = some r ∧ ¬ NeverBack r.sent) ∧
      ∃ r, replayArchiveMany plainParquet .plain setBack [[], "events".toList] ⟨0, 0⟩ .faithful
        (fun _ => .sent) 4 = some r ∧ ¬ NeverBack r.sent := by
  have recorded : (replayArchiveMany plainParquet .plain restarted ["events".toList] ⟨0, 0⟩
      .faithful (fun _ => .sent) 4).map (fun r => r.sent.map Sent.offset) = some [0, 5, 0] := by
    decide +kernel
  have walls : (replayArchiveMany plainParquet .plain setBack [[], "events".toList] ⟨0, 0⟩
      .faithful (fun _ => .sent) 4).map (fun r => r.sent.map Sent.offset) = some [0, 10, 5] := by
    decide +kernel
  exact ⟨offsets_back recorded (by decide), offsets_back walls (by decide)⟩

end Examples

end ArchiveReplay

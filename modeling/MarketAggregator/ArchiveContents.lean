import MarketAggregator.ArchiveRuns
import Mathlib.Data.List.Perm.Basic

/-!
# What an archive gives back of a run

A run without a failure adds to what could be read before exactly its events. The one
exception is a wall reading or a venue time at the least 64-bit number of nanoseconds,
which is stored as the number above it.
-/

namespace ArchiveContents

open ArchiveKeys ArchiveReader ArchiveRows ArchiveRuns ArchiveWriter Clocks Decimals MarketEvents
  OrderedMaps

section Logs

variable {B : Type} {parquet : Parquet B} {start objects : Objects B} {under : Key}
  {events : List MarketEvent} {closed : List Volume} {v : Volume}

theorem numbered_increasing : ((numbered events).map Prod.fst).Pairwise (· < ·) := by
  have positions : (events.zipIdx.map Prod.snd).Pairwise (· < ·) := by
    rw [List.zipIdx_map_snd]
    exact List.pairwise_lt_range'
  refine List.pairwise_map.mpr (List.pairwise_map.mpr ((List.pairwise_map.mp positions).imp ?_))
  intro a b less
  change (a.2 : Int) + 1 < b.2 + 1
  omega

theorem numbered_events (events : List MarketEvent) : (numbered events).map Prod.snd = events := by
  rw [numbered, List.map_map]
  exact List.zipIdx_map_fst ..

/-- A file's events are some of its partition's, in their order. -/
theorem log_sublist (stored : Stored parquet start under events objects closed) (mem : v ∈ closed) :
    v.log.Sublist ((numbered events).filter (inPartition v.partition)) := by
  rw [← stored.shares]
  exact List.sublist_flatten_of_mem (List.mem_map_of_mem
    (List.mem_filter.mpr ⟨mem, decide_eq_true rfl⟩))

theorem log_increasing (stored : Stored parquet start under events objects closed)
    (mem : v ∈ closed) : (v.log.map Prod.fst).Pairwise (· < ·) :=
  numbered_increasing.sublist (((log_sublist stored mem).trans List.filter_sublist).map _)

theorem log_events (stored : Stored parquet start under events objects closed) (mem : v ∈ closed) :
    ∀ e ∈ v.log, e.2 ∈ events := by
  intro e inside
  have there := (List.filter_sublist.subset ((log_sublist stored mem).subset inside))
  rw [← numbered_events events]
  exact List.mem_map_of_mem there

/-- The files of a partition hold what all files hold of it. -/
theorem logs_filter {all : List Volume} (p : Key)
    (own : ∀ v ∈ all, ∀ e ∈ v.log, inPartition v.partition e = true) :
    (all.flatMap Volume.log).filter (inPartition p) = (volumesOf p all).flatMap Volume.log := by
  induction all with
  | nil => rfl
  | cons v all ih =>
    have rest := ih fun u mem => own u (List.mem_cons_of_mem _ mem)
    rw [List.flatMap_cons, List.filter_append, rest, volumesOf, volumesOf]
    by_cases same : v.partition = p
    · rw [List.filter_cons_of_pos (by simpa using same), List.flatMap_cons]
      refine congrArg (· ++ _) (List.filter_eq_self.mpr fun e mem => ?_)
      exact same ▸ own v List.mem_cons_self e mem
    · rw [List.filter_cons_of_neg (by simpa using same)]
      refine congrArg (· ++ _) (List.filter_eq_nil_iff.mpr fun e mem => ?_)
      have here := own v List.mem_cons_self e mem
      simp only [inPartition, decide_eq_true_eq] at here ⊢
      rw [here]
      exact same

theorem log_partition (stored : Stored parquet start under events objects closed) :
    ∀ v ∈ closed, ∀ e ∈ v.log, inPartition v.partition e = true :=
  fun _ mem _ inside => (List.mem_filter.mp ((log_sublist stored mem).subset inside)).2

/-- The files share out the events between them. -/
theorem logs_perm (stored : Stored parquet start under events objects closed) :
    (closed.flatMap Volume.log).Perm (numbered events) := by
  refine List.perm_iff_count.mpr fun e => ?_
  have own : inPartition (partitionFor e.2) e = true := decide_eq_true rfl
  rw [← List.count_filter own, ← List.count_filter (l := numbered events) own,
    logs_filter _ (log_partition stored), stored.shares]

variable {text : DecimalText} {reader : Key}

theorem find?_of_entry {key : Key} {bytes : B} (entry : (key, bytes) ∈ objects.entries) :
    Objects.get objects key = .ok bytes := by
  rw [Objects.get, OrderedMap.mem_find? entry]
  rfl

/-- A stored file reads back as its events. -/
theorem contents_new (stored : Stored parquet start under events objects closed) (mem : v ∈ closed)
    (legible : ∀ e ∈ events, Legible text e) :
    contents objects parquet text v.key =
      .ok (v.log.map (fun e => readBack (baseOf events) e.2)) := by
  have entry : (v.key, parquet.encode v.groups) ∈ objects.entries :=
    stored.objects.mem_iff.mpr (List.mem_append_left _ (List.mem_map.mpr ⟨v, mem, rfl⟩))
  obtain ⟨batches, loaded, rows⟩ := parquet.faithful v.groups
  have decoded : decode text batches = _ := decode_rowsOf (rows.trans (stored.rows v mem))
    (fun e inside => legible e.2 (log_events stored mem e inside)) (log_increasing stored mem)
  rw [contents, find?_of_entry entry]
  change parquet.load _ >>= _ = _
  rw [loaded]
  exact decoded

/-- A file that was there is read as before. -/
theorem contents_old (stored : Stored parquet start under events objects closed) {key : Key}
    (mem : key ∈ start.entries.map Prod.fst) :
    contents objects parquet text key = contents start parquet text key := by
  obtain ⟨⟨key, bytes⟩, entry, rfl⟩ := List.mem_map.mp mem
  have still : (key, bytes) ∈ objects.entries :=
    stored.objects.mem_iff.mpr (List.mem_append_right _ entry)
  rw [contents, contents, find?_of_entry still, find?_of_entry entry]

/-- A reader above the writer's directories finds the new files beside the old ones. -/
theorem filesUnder_perm (stored : Stored parquet start under events objects closed)
    (beneath : reader <+: under ++ ['/']) :
    (filesUnder objects reader).Perm (closed.map Volume.key ++ filesUnder start reader) := by
  have keys := (stored.objects.map Prod.fst).filter (fun key => reader.isPrefixOf key)
  have files := keys.filter (fun key => ".parquet".toList.isSuffixOf key)
  rw [List.map_append, List.filter_append, List.filter_append, List.map_map] at files
  have new : (closed.map Volume.key).filter (fun key => reader.isPrefixOf key) =
      closed.map Volume.key := by
    refine List.filter_eq_self.mpr fun key mem => ?_
    obtain ⟨v, on, rfl⟩ := List.mem_map.mp mem
    obtain ⟨wall, n, same⟩ := stored.key v on
    rw [same, List.isPrefixOf_iff_prefix]
    exact beneath.trans base_prefix
  have named : (closed.map Volume.key).filter (fun key => ".parquet".toList.isSuffixOf key) =
      closed.map Volume.key := by
    refine List.filter_eq_self.mpr fun key mem => ?_
    obtain ⟨v, on, rfl⟩ := List.mem_map.mp mem
    obtain ⟨wall, n, same⟩ := stored.key v on
    rw [same, List.isSuffixOf_iff_suffix]
    exact parquet_suffix
  refine files.trans ?_
  rw [show (Prod.fst ∘ fun v : Volume => (v.key, parquet.encode v.groups)) = Volume.key from rfl,
    new, named]
  exact .refl _

end Logs

section Once

variable {B : Type} {parquet : Parquet B} {text : DecimalText} {refuses : Nat → Bool}
  {start objects : Objects B} {under raw reader : Key} {config : WriterConfig}
  {counters : ArchiveCounters} {events : List MarketEvent} {closed : List Volume}
  {old : List StoredEvent} {base : IngestTime} {event : MarketEvent}

variable (parquet text objects reader) in
/-- Reading a prefix to the end gives some events and no others. -/
def HoldsExactly (expected : List StoredEvent) : Prop :=
  (∃ out, Reads parquet text objects reader out) ∧
    ∀ out, Reads parquet text objects reader out → out.Perm expected

/-- The files that were there are read as before. -/
theorem filesUnder_old (stored : Stored parquet start under events objects closed) {key : Key}
    (mem : key ∈ filesUnder start reader) :
    contents objects parquet text key = contents start parquet text key :=
  contents_old stored (List.filter_sublist.subset (List.filter_sublist.subset mem))

theorem held_old (stored : Stored parquet start under events objects closed)
    (readable : Reads parquet text start reader old) :
    ((filesUnder start reader).flatMap (held (contents objects parquet text))).Perm old := by
  have same : (filesUnder start reader).flatMap (held (contents objects parquet text)) =
      (filesUnder start reader).flatMap (held (contents start parquet text)) :=
    List.flatMap_congr fun key mem => by rw [held, held, filesUnder_old stored mem]
  exact same ▸ (reads_perm readable).symm

theorem held_new (stored : Stored parquet start under events objects closed)
    (legible : ∀ e ∈ events, Legible text e) :
    ((closed.map Volume.key).flatMap (held (contents objects parquet text))).Perm
      (events.map (readBack (baseOf events))) := by
  have own : (closed.map Volume.key).flatMap (held (contents objects parquet text)) =
      (closed.flatMap Volume.log).map (fun e => readBack (baseOf events) e.2) := by
    rw [List.flatMap_map, List.map_flatMap]
    refine List.flatMap_congr fun v mem => ?_
    rw [held, contents_new stored mem legible]
    rfl
  have plain : (numbered events).map (fun e => readBack (baseOf events) e.2) =
      events.map (readBack (baseOf events)) := by
    have mapped := congrArg (List.map (readBack (baseOf events))) (numbered_events events)
    rwa [List.map_map] at mapped
  rw [own, ← plain]
  exact (logs_perm stored).map _

variable (reader) in
/-- After a run the store holds what it held and what its rows say of every event. -/
theorem stored_readBack (stored : Stored parquet start under events objects closed)
    (readable : Reads parquet text start reader old) (beneath : reader <+: under ++ ['/'])
    (legible : ∀ e ∈ events, Legible text e) :
    HoldsExactly parquet text objects reader (old ++ events.map (readBack (baseOf events))) := by
  have files := filesUnder_perm stored beneath
  constructor
  · refine reads_of_readable fun key mem => ?_
    rcases List.mem_append.mp (files.mem_iff.mp mem) with new | there
    · obtain ⟨v, on, rfl⟩ := List.mem_map.mp new
      exact readable_of_ok (contents_new stored on legible)
    · have kept := reads_readable readable key there
      rw [Readable, ← filesUnder_old stored there] at kept
      exact readable_of_ok kept
  · intro out h
    refine (reads_perm h).trans ((files.flatMap_right _).trans ?_)
    rw [List.flatMap_append]
    exact List.perm_append_comm.trans
      ((held_old stored readable).append (held_new stored legible))

/-- An event as it was appended, with its offset from the first one. -/
def exactly (base : IngestTime) (event : MarketEvent) : StoredEvent where
  stream := ⟨event.venue, event.symbol⟩
  venueTs := event.venueTs
  ingestWall := event.ingestTs.wall
  kind := event.kind
  elapsed := event.ingestTs.since base

/-- Every number of an event fits the 64 bits of its column. -/
structure Fits (base : IngestTime) (event : MarketEvent) : Prop where
  wall : -2 ^ 63 ≤ event.ingestTs.wall ∧ event.ingestTs.wall < 2 ^ 63
  venueTs : ∀ t ∈ event.venueTs, -2 ^ 63 ≤ t ∧ t < 2 ^ 63
  elapsed : event.ingestTs.since base < 2 ^ 63
  counter : ∀ c, event.kind = .heartbeat (some c) → c.toNat < 2 ^ 63

/-- No time of an event is the least one that fits. -/
def AboveLeast (event : MarketEvent) : Prop :=
  event.ingestTs.wall ≠ -2 ^ 63 ∧ event.venueTs ≠ some (-2 ^ 63)

theorem unixNanos_above (wall : Int) : unixNanos wall ≠ -2 ^ 63 := by
  rw [unixNanos, i64Max]
  split <;> omega

theorem unixNanos_exact {wall : Int} (low : -2 ^ 63 ≤ wall) (high : wall < 2 ^ 63)
    (above : wall ≠ -2 ^ 63) : unixNanos wall = wall := by
  rw [unixNanos, i64Max]
  split <;> omega

theorem readBack_exact (fits : Fits base event) (above : AboveLeast event) :
    readBack base event = exactly base event := by
  have clamped : ∀ n : Nat, n < 2 ^ 63 → (asI64 n).natAbs = n := by
    intro n small
    rw [asI64, i64Max]
    omega
  have wall := unixNanos_exact fits.wall.1 fits.wall.2 above.1
  have venue : event.venueTs.map unixNanos = event.venueTs := by
    cases known : event.venueTs with
    | none => rfl
    | some t =>
      obtain ⟨low, high⟩ := fits.venueTs t known
      rw [Option.map_some, unixNanos_exact low high fun least => above.2 (by rw [known, least])]
  have kind : kindBack event.kind = event.kind := by
    cases shape : event.kind with
    | heartbeat counter =>
      cases counter with
      | none => rfl
      | some c =>
        rw [kindBack, Option.map_some, clamped _ (fits.counter c shape), UInt64.ofNat_toNat]
    | _ => rfl
  rw [readBack, storedAs, exactly, wall, venue, kind, clamped _ fits.elapsed]

/-- A run without a failure adds exactly its events, if and only if none of their times is
the least one that fits. -/
theorem run_exact_iff (readable : Reads parquet text start reader old)
    (beneath : reader <+: intoPrefix raw ++ ['/'])
    (small : PartsBelow (2 ^ 63) (start.entries.map Prod.fst))
    (legible : ∀ e ∈ events, Legible text e) (fits : ∀ e ∈ events, Fits (baseOf events) e)
    (quiet : (run parquet refuses events (opening start raw config counters)).counters.writeFailures
      = counters.writeFailures) :
    HoldsExactly parquet text
        (run parquet refuses events (opening start raw config counters)).objects reader
        (old ++ events.map (exactly (baseOf events))) ↔
      ∀ e ∈ events, AboveLeast e := by
  have met : GuardedRuns.Meets (step parquet refuses) (fun _ _ => True)
      (opening start raw config counters) events := GuardedRuns.meets_of_forall fun _ _ => trivial
  obtain ⟨closed, stored, -⟩ := run_stored (Q := fun _ _ => True) (R := fun _ => True)
    (fun _ _ _ _ _ _ _ _ => trivial) trivial (fun _ _ _ _ => trivial) small met quiet
  obtain ⟨⟨out, reads⟩, holds⟩ := stored_readBack reader stored readable beneath legible
  constructor
  · rintro ⟨-, exact⟩ event mem
    have same := (holds out reads).symm.trans (exact out reads)
    have news := (List.perm_append_left_iff old).mp same
    obtain ⟨other, -, equal⟩ := List.mem_map.mp (news.symm.mem_iff.mp (List.mem_map_of_mem mem))
    have wall := congrArg StoredEvent.ingestWall equal
    have venue := congrArg StoredEvent.venueTs equal
    constructor
    · intro least
      exact unixNanos_above other.ingestTs.wall (wall.trans least)
    · intro least
      obtain ⟨t, -, bad⟩ := Option.map_eq_some_iff.mp (venue.trans least)
      exact unixNanos_above t bad
  · intro above
    have same : events.map (readBack (baseOf events)) = events.map (exactly (baseOf events)) :=
      List.map_congr_left fun e mem => readBack_exact (fits e mem) (above e mem)
    rw [← same]
    exact ⟨⟨out, reads⟩, holds⟩

end Once

section Examples

/-- A format that stores row groups as they are. -/
def plainParquet : Parquet (List (List Row)) where
  encode := id
  size := List.length
  load := .ok
  faithful := fun groups => ⟨groups, rfl, rfl⟩

def sampleDelta (symbol : String) (mono : Nat) (wall : Int) : MarketEvent where
  venue := .kraken
  symbol := ⟨symbol⟩
  venueTs := some (wall - 1)
  ingestTs := ⟨mono, wall⟩
  kind := .delta [.whole 100 1] [.whole 101 2]

/-- Every event is a row group of its own. -/
def sampleConfig : WriterConfig := { WriterConfig.default with rowGroupRows := 1 }

def sampleRun (start : Objects (List (List Row))) (events : List MarketEvent) :
    Objects (List (List Row)) :=
  (run plainParquet (fun _ => false) events
    (opening start "events".toList sampleConfig .zero)).objects

/-- An event of an earlier run. -/
def earlierEvents : List MarketEvent := [sampleDelta "BTC-USD" 0 1786247000000000000]

/-- Two symbols, and an event of the next hour, for which the file of the first is rotated. -/
def sampleEvents : List MarketEvent :=
  [sampleDelta "BTC-USD" 0 1786247996000000000, sampleDelta "ETH-USD" 1 1786247997000000000,
    sampleDelta "BTC-USD" 2 1786247998000000000, sampleDelta "BTC-USD" 3 1786248001000000000]

theorem run_exact_iff_sample :
    HoldsExactly plainParquet DecimalText.plain
        (sampleRun (sampleRun .empty earlierEvents) sampleEvents) "events".toList
        (earlierEvents.map (exactly (baseOf earlierEvents)) ++
          sampleEvents.map (exactly (baseOf sampleEvents))) ↔
      ∀ e ∈ sampleEvents, AboveLeast e := by
  have small : PartsBelow (2 ^ 63) ((sampleRun .empty earlierEvents).entries.map Prod.fst) := by
    refine partsBelow_of_named (by decide) fun key mem => ?_
    have only : (sampleRun .empty earlierEvents).entries.map Prod.fst =
        [partKey (dirFor "events".toList "BTC-USD".toList 1786247000000000000) 0] := by
      decide +kernel
    exact ⟨_, _, _, 0, List.mem_singleton.mp (only ▸ mem), by decide⟩
  refine run_exact_iff ⟨2, by decide +kernel⟩ ⟨['/'], by decide⟩ small ?_ ?_ (by decide +kernel)
  · unfold Legible
    decide +kernel
  · intro e mem
    have some_wall : ∃ symbol mono wall, e = sampleDelta symbol mono wall ∧ mono < 4 ∧
        0 < wall ∧ wall < 2 ^ 62 := by
      simp only [sampleEvents, List.mem_cons, List.not_mem_nil, or_false] at mem
      rcases mem with rfl | rfl | rfl | rfl <;> exact ⟨_, _, _, rfl, by decide, by decide, by decide⟩
    obtain ⟨symbol, mono, wall, rfl, early, positive, low⟩ := some_wall
    refine ⟨?_, ?_, ?_, fun c same => by cases same⟩
    · change -2 ^ 63 ≤ wall ∧ wall < 2 ^ 63
      omega
    · rintro t known
      obtain rfl : wall - 1 = t := Option.some.inj known
      omega
    · change mono - 0 < 2 ^ 63
      omega

/-- A heartbeat whose wall reading is the least that fits. -/
def leastHeartbeat : MarketEvent where
  venue := .kraken
  symbol := ⟨"BTC-USD"⟩
  venueTs := none
  ingestTs := ⟨0, -2 ^ 63⟩
  kind := .heartbeat none

/-- The least wall reading is read back a nanosecond later. -/
theorem least_wall_reading_moves :
    Fits (baseOf [leastHeartbeat]) leastHeartbeat ∧
      (run plainParquet (fun _ => false) [leastHeartbeat]
        (opening .empty "events".toList .default .zero)).counters.writeFailures = 0 ∧
      ¬HoldsExactly plainParquet DecimalText.plain
        (run plainParquet (fun _ => false) [leastHeartbeat]
          (opening .empty "events".toList .default .zero)).objects "events".toList
        ([leastHeartbeat].map (exactly (baseOf [leastHeartbeat]))) := by
  refine ⟨⟨by decide, by decide, by decide, fun c same => by cases same⟩, by decide +kernel, ?_⟩
  rintro ⟨-, holds⟩
  have reads : Reads plainParquet DecimalText.plain
      (run plainParquet (fun _ => false) [leastHeartbeat]
        (opening .empty "events".toList .default .zero)).objects "events".toList
      [{ exactly (baseOf [leastHeartbeat]) leastHeartbeat with ingestWall := -(2 ^ 63 - 1) }] :=
    ⟨2, by decide +kernel⟩
  exact absurd (holds _ reads) (by decide)

end Examples

end ArchiveContents

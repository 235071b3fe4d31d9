import MarketAggregator.ArchiveContents

/-!
# The order in which a book's events are read back

A reader takes the files of a partition in the order of their keys. If every file that a
run opens sorts after the one that it replaces, the events of a symbol are read back in
the order in which they were appended, whatever was in the store before.
-/

namespace ArchiveOrder

open ArchiveContents ArchiveKeys ArchiveReader ArchiveRows ArchiveRuns ArchiveWriter Clocks Decimals
  GuardedRuns Interleavings MarketEvents OrderedMaps VenueStreams

section Keys

variable {B : Type} {w v : EventWriter B} {event : MarketEvent} {closed more : List Volume}

/-- Keys in their order. -/
def Ascending (keys : List Key) : Prop := keys.Pairwise (fun a b => Key.cmp a b = .lt)

/-- An event that replaces its partition's file goes to a file whose key sorts after it. -/
def SortsAfter (w : EventWriter B) (event : MarketEvent) : Prop :=
  ∀ file, w.opened.find? (partitionFor event) = some file →
    mustRotate w.config event file = true → Key.cmp file.key (nextKey w event) = .lt

instance sortsAfterDecidable (w : EventWriter B) (event : MarketEvent) :
    Decidable (SortsAfter w event) :=
  inferInstanceAs (Decidable (∀ file ∈ w.opened.find? (partitionFor event), _))

/-- The files of every partition were opened in the order of their keys. -/
def InOrder (w : EventWriter B) (closed : List Volume) : Prop :=
  ∀ p, Ascending (keysOf w closed p) ∧ (w.opened.find? p = none → keysOf w closed p = [])

theorem ascending_snoc {keys : List Key} {last next : Key} (order : Ascending (keys ++ [last]))
    (after : Key.cmp last next = .lt) : Ascending (keys ++ [last] ++ [next]) := by
  refine List.pairwise_append.mpr ⟨order, List.pairwise_singleton _ _, ?_⟩
  intro key mem other single
  obtain rfl := List.mem_singleton.mp single
  rcases List.mem_append.mp mem with before | here
  · have less := (List.pairwise_append.mp order).2.2 key before last List.mem_cons_self
    exact Std.TransCmp.lt_trans less after
  · obtain rfl := List.mem_singleton.mp here
    exact after

theorem inOrder_append (order : InOrder w closed) (after : SortsAfter w event)
    (effect : Effect w event v closed more) : InOrder v (closed ++ more) := by
  intro p
  by_cases same : p = partitionFor event
  · subst same
    obtain ⟨file, found⟩ := effect.isOpen
    refine ⟨?_, fun absent => by rw [found] at absent; cases absent⟩
    obtain ⟨ascending, empty⟩ := order (partitionFor event)
    rcases effect.own with kept | ⟨added, due⟩
    · rwa [kept]
    · rw [added]
      cases before : w.opened.find? (partitionFor event) with
      | none =>
        rw [empty before]
        exact List.pairwise_singleton _ _
      | some file =>
        rw [keysOf_open before] at ascending ⊢
        exact ascending_snoc ascending (after file before (due file before))
  · obtain ⟨keys, stays⟩ := effect.others p same
    rw [keys]
    exact ⟨(order p).1, fun absent => (order p).2 (stays absent)⟩

end Keys

section Reading

variable {B : Type} {parquet : Parquet B} {text : DecimalText} {start objects : Objects B}
  {under reader : Key} {events : List MarketEvent} {closed : List Volume}
  {old out : List StoredEvent}

theorem eq_of_ascending {a b : List Key} (ha : Ascending a) (hb : Ascending b)
    (same : ∀ key, key ∈ a ↔ key ∈ b) : a = b := by
  have nodup : ∀ l, Ascending l → l.Nodup := fun l order => by
    refine order.imp ?_
    rintro x y less rfl
    exact absurd less (by simp [Std.ReflCmp.compare_self])
  have perm := (List.perm_ext_iff_of_nodup (nodup a ha) (nodup b hb)).mpr same
  refine perm.eq_of_pairwise (fun x y _ _ less more => ?_) ha hb
  rw [Std.OrientedCmp.gt_of_lt less] at more
  cases more

variable (closed) in
def isNew (key : Key) : Bool := key ∈ closed.map Volume.key

variable (parquet text objects closed) in
/-- A file's events, marked when the run wrote them. -/
def marks (key : Key) : List (Bool × StoredEvent) :=
  (held (contents objects parquet text) key).map (fun e => (isNew closed key, e))

/-- An event of a symbol that the run wrote. -/
def wanted (symbol : Symbol) (e : Bool × StoredEvent) : Bool :=
  e.1 && (e.2.stream.symbol = symbol)

variable (closed) in
theorem marked_interleaved (reads : Reads parquet text objects reader out) :
    ∃ marked, Interleaved ((cursorsOf (filesUnder objects reader)).map
      (fun c => c.keys.flatMap (marks parquet text objects closed))) marked ∧
        marked.map Prod.snd = out := by
  have plain := reads_interleaved reads
  have labels : ((cursorsOf (filesUnder objects reader)).map
      (fun c => c.keys.flatMap (marks parquet text objects closed))).map (List.map Prod.snd) =
        (cursorsOf (filesUnder objects reader)).map
          (fun c => c.keys.flatMap (held (contents objects parquet text))) := by
    rw [List.map_map]
    refine List.map_congr_left fun c _ => ?_
    refine List.map_flatMap.trans (List.flatMap_congr fun key _ => ?_)
    rw [marks, List.map_map]
    exact List.map_id _
  rw [← labels] at plain
  exact plain.lift

theorem isNew_old (stored : Stored parquet start under events objects closed) {key : Key}
    (mem : key ∈ start.entries.map Prod.fst) : isNew closed key = false := by
  have distinct := (stored.objects.map Prod.fst).nodup_iff.mp objects.keys_nodup
  rw [List.map_append, List.map_map] at distinct
  refine decide_eq_false fun new => ?_
  exact (List.nodup_append.mp distinct).2.2 key new key mem rfl

/-- The run wrote a marked event into a file of its symbol's partition. -/
theorem marks_wanted (stored : Stored parquet start under events objects closed)
    (legible : ∀ e ∈ events, Legible text e) {symbol : Symbol} {key : Key} {e : Bool × StoredEvent}
    (mem : e ∈ marks parquet text objects closed key) (want : wanted symbol e = true) :
    ∃ v ∈ volumesOf (partitionName symbol.text) closed, v.key = key := by
  obtain ⟨event, inside, rfl⟩ := List.mem_map.mp mem
  obtain ⟨new, own⟩ := Bool.and_eq_true_iff.mp want
  obtain ⟨v, on, rfl⟩ := List.mem_map.mp (of_decide_eq_true new)
  rw [held, contents_new stored on legible] at inside
  obtain ⟨⟨n, source⟩, logged, rfl⟩ := List.mem_map.mp inside
  have home : partitionFor source = v.partition := by
    simpa only [inPartition, decide_eq_true_eq] using log_partition stored v on _ logged
  have same : (readBack (baseOf events) source).stream.symbol = symbol := by
    simpa only [decide_eq_true_eq] using own
  refine ⟨v, List.mem_filter.mpr ⟨on, decide_eq_true ?_⟩, rfl⟩
  have named : source.symbol = symbol := same
  rw [← home, partitionFor, named]

theorem volume_partitionOf (stored : Stored parquet start under events objects closed)
    {v : Volume} (on : v ∈ closed) :
    partitionOf v.key = under ++ "/symbol=".toList ++ v.partition := by
  obtain ⟨wall, n, key⟩ := stored.key v on
  rw [key, partitionOf_partKey]

/-- The new files on a partition's cursor are the partition's, in the order they were opened. -/
theorem new_keys (stored : Stored parquet start under events objects closed)
    (beneath : reader <+: under ++ ['/'])
    (order : ∀ p, Ascending ((volumesOf p closed).map Volume.key)) {v : Volume} {c : Cursor}
    (on : v ∈ closed) (ascending : Ascending c.keys)
    (own : ∀ j, j ∈ c.keys ↔
      j ∈ filesUnder objects reader ∧ partitionOf j = partitionOf v.key) :
    c.keys.filter (isNew closed) = (volumesOf v.partition closed).map Volume.key := by
  refine eq_of_ascending (ascending.sublist List.filter_sublist) (order _) fun key => ?_
  rw [List.mem_filter, own, volume_partitionOf stored on]
  constructor
  · rintro ⟨⟨-, group⟩, new⟩
    obtain ⟨u, there, rfl⟩ := List.mem_map.mp (of_decide_eq_true new)
    rw [volume_partitionOf stored there] at group
    exact List.mem_map_of_mem
      (List.mem_filter.mpr ⟨there, decide_eq_true (List.append_cancel_left group)⟩)
  · intro mem
    obtain ⟨u, there, rfl⟩ := List.mem_map.mp mem
    obtain ⟨inside, same⟩ := List.mem_filter.mp there
    have new := List.mem_map_of_mem (f := Volume.key) inside
    refine ⟨⟨(filesUnder_perm stored beneath).mem_iff.mpr (List.mem_append_left _ new), ?_⟩,
      decide_eq_true new⟩
    rw [volume_partitionOf stored inside, of_decide_eq_true same]

theorem flatMap_filter {T S : Type} {l : List T} {p : T → Bool} {f : T → List S}
    (nothing : ∀ a ∈ l, p a = false → f a = []) : l.flatMap f = (l.filter p).flatMap f := by
  induction l with
  | nil => rfl
  | cons a l ih =>
    have rest := ih fun b mem => nothing b (List.mem_cons_of_mem _ mem)
    cases keep : p a with
    | true => rw [List.filter_cons_of_pos keep, List.flatMap_cons, List.flatMap_cons, rest]
    | false =>
      have drop : ¬p a = true := by rw [keep]; decide
      rw [List.filter_cons_of_neg drop, List.flatMap_cons, nothing a List.mem_cons_self keep, rest]
      rfl

/-- The run's events of a symbol come out file by file. -/
theorem wanted_marked (stored : Stored parquet start under events objects closed)
    (beneath : reader <+: under ++ ['/']) (legible : ∀ e ∈ events, Legible text e)
    (order : ∀ p, Ascending ((volumesOf p closed).map Volume.key)) (symbol : Symbol)
    {marked : List (Bool × StoredEvent)}
    (merged : Interleaved ((cursorsOf (filesUnder objects reader)).map
      (fun c => c.keys.flatMap (marks parquet text objects closed))) marked) :
    marked.filter (wanted symbol) = (volumesOf (partitionName symbol.text) closed).flatMap
      (fun v => (marks parquet text objects closed v.key).filter (wanted symbol)) := by
  cases files : volumesOf (partitionName symbol.text) closed with
  | nil =>
    refine List.filter_eq_nil_iff.mpr fun e mem want => ?_
    obtain ⟨l, on, inside⟩ := List.mem_flatten.mp (merged.perm.mem_iff.mp mem)
    obtain ⟨c, -, rfl⟩ := List.mem_map.mp on
    obtain ⟨key, -, there⟩ := List.mem_flatMap.mp inside
    obtain ⟨v, some_file, -⟩ := marks_wanted stored legible there want
    rw [files] at some_file
    cases some_file
  | cons v more =>
    have first : v ∈ volumesOf (partitionName symbol.text) closed := files ▸ List.mem_cons_self
    obtain ⟨on, home⟩ := List.mem_filter.mp first
    have home : v.partition = partitionName symbol.text := of_decide_eq_true home
    have listed : v.key ∈ filesUnder objects reader :=
      (filesUnder_perm stored beneath).mem_iff.mpr (List.mem_append_left _ (List.mem_map_of_mem on))
    obtain ⟨i, c, at_i, own, others⟩ := cursor_of_mem listed
    have here : ((cursorsOf (filesUnder objects reader)).map
        (fun c => c.keys.flatMap (marks parquet text objects closed)))[i]? =
          some (c.keys.flatMap (marks parquet text objects closed)) := by
      rw [List.getElem?_map, at_i]
      rfl
    rw [merged.filter here ?_, List.filter_flatMap, ← files, ← home,
      flatMap_filter (p := isNew closed) ?_, new_keys stored beneath order on
        (mem_cursorsOf (List.mem_of_getElem? at_i)).2.1 own, List.flatMap_map]
    · intro key _ foreign
      refine List.filter_eq_nil_iff.mpr fun e mem want => ?_
      obtain ⟨event, -, rfl⟩ := List.mem_map.mp mem
      rw [wanted, foreign] at want
      cases want
    · intro k l elsewhere at_k e mem
      rw [List.getElem?_map] at at_k
      obtain ⟨d, there, rfl⟩ := Option.map_eq_some_iff.mp at_k
      obtain ⟨key, inside, marked_here⟩ := List.mem_flatMap.mp mem
      refine Bool.eq_false_iff.mpr fun want => ?_
      obtain ⟨u, mine, rfl⟩ := marks_wanted stored legible marked_here want
      obtain ⟨inside', same⟩ := List.mem_filter.mp mine
      refine others k d elsewhere there u.key inside ?_
      rw [volume_partitionOf stored inside', volume_partitionOf stored on, home,
        of_decide_eq_true same]

/-- A new file's events of a symbol are those that were appended to it. -/
theorem marks_new (stored : Stored parquet start under events objects closed)
    (legible : ∀ e ∈ events, Legible text e) (symbol : Symbol) {v : Volume} (on : v ∈ closed) :
    (marks parquet text objects closed v.key).filter (wanted symbol) =
      (v.log.filter (fun e => e.2.symbol = symbol)).map
        (fun e => (true, readBack (baseOf events) e.2)) := by
  have new : isNew closed v.key = true := decide_eq_true (List.mem_map_of_mem on)
  rw [marks, held, contents_new stored on legible, new]
  change ((v.log.map _).map _).filter _ = _
  rw [List.map_map, List.filter_map]
  rfl

/-- The run's events of a symbol come out in the order in which they were appended. -/
theorem wanted_events (stored : Stored parquet start under events objects closed)
    (beneath : reader <+: under ++ ['/']) (legible : ∀ e ∈ events, Legible text e)
    (order : ∀ p, Ascending ((volumesOf p closed).map Volume.key)) (symbol : Symbol)
    {marked : List (Bool × StoredEvent)}
    (merged : Interleaved ((cursorsOf (filesUnder objects reader)).map
      (fun c => c.keys.flatMap (marks parquet text objects closed))) marked) :
    (marked.filter (wanted symbol)).map Prod.snd =
      (events.filter (fun e => e.symbol = symbol)).map (readBack (baseOf events)) := by
  have ours : ∀ e : Int × MarketEvent, decide (e.2.symbol = symbol) = true →
      inPartition (partitionName symbol.text) e = true := by
    intro e same
    refine decide_eq_true ?_
    rw [partitionFor, of_decide_eq_true same]
  calc (marked.filter (wanted symbol)).map Prod.snd
      = ((volumesOf (partitionName symbol.text) closed).flatMap (fun v =>
          (v.log.filter (fun e => e.2.symbol = symbol)).map
            (fun e => (true, readBack (baseOf events) e.2)))).map Prod.snd := by
        rw [wanted_marked stored beneath legible order symbol merged]
        exact congrArg _ (List.flatMap_congr fun v mem =>
          marks_new stored legible symbol (List.mem_filter.mp mem).1)
    _ = (((volumesOf (partitionName symbol.text) closed).flatMap Volume.log).filter
          (fun e => e.2.symbol = symbol)).map (fun e => readBack (baseOf events) e.2) := by
        rw [List.map_flatMap, List.filter_flatMap, List.map_flatMap]
        exact List.flatMap_congr fun v _ => List.map_map
    _ = ((numbered events).filter (fun e => e.2.symbol = symbol)).map
          (fun e => readBack (baseOf events) e.2) := by
        rw [stored.shares, List.filter_filter]
        refine congrArg (List.map _) (List.filter_congr fun e _ => ?_)
        cases same : decide (e.2.symbol = symbol) with
        | true => rw [ours e same]; rfl
        | false => rfl
    _ = (((numbered events).map Prod.snd).filter (fun e => e.symbol = symbol)).map
          (readBack (baseOf events)) := by
        rw [List.filter_map, List.map_map]
        rfl
    _ = (events.filter (fun e => e.symbol = symbol)).map (readBack (baseOf events)) := by
        rw [numbered_events]

theorem marked_perm {marked : List (Bool × StoredEvent)}
    (merged : Interleaved ((cursorsOf (filesUnder objects reader)).map
      (fun c => c.keys.flatMap (marks parquet text objects closed))) marked) :
    marked.Perm ((filesUnder objects reader).flatMap (marks parquet text objects closed)) := by
  refine merged.perm.trans ?_
  have keys := keys_cursorsOf (filesUnder_nodup objects reader)
  have shared := keys.flatMap_right (marks parquet text objects closed)
  rwa [List.flatMap_assoc, List.flatMap_def] at shared

/-- The events that the run did not write are those that were there. -/
theorem old_marks (stored : Stored parquet start under events objects closed)
    (readable : Reads parquet text start reader old) (beneath : reader <+: under ++ ['/']) :
    ((((filesUnder objects reader).flatMap (marks parquet text objects closed)).filter
      (fun e => !e.1)).map Prod.snd).Perm old := by
  have files := (filesUnder_perm stored beneath).flatMap_right (marks parquet text objects closed)
  refine ((files.filter _).map _).trans ?_
  have new : ((closed.map Volume.key).flatMap (marks parquet text objects closed)).filter
      (fun e => !e.1) = [] := by
    refine List.filter_eq_nil_iff.mpr fun e mem => ?_
    obtain ⟨key, inside, there⟩ := List.mem_flatMap.mp mem
    obtain ⟨event, -, rfl⟩ := List.mem_map.mp there
    simpa [isNew] using inside
  have kept : (((filesUnder start reader).flatMap (marks parquet text objects closed)).filter
      (fun e => !e.1)).map Prod.snd =
        (filesUnder start reader).flatMap (held (contents objects parquet text)) := by
    rw [List.filter_flatMap, List.map_flatMap]
    refine List.flatMap_congr fun key mem => ?_
    have before := isNew_old stored (List.filter_sublist.subset (List.filter_sublist.subset mem))
    rw [marks, before, List.filter_map, List.map_map]
    exact (List.map_id _).trans (List.filter_eq_self.mpr fun _ _ => rfl)
  rw [List.flatMap_append, List.filter_append, new, List.nil_append, kept]
  exact held_old stored readable

variable (parquet text objects reader old events) in
/-- What is read is what was there and, of every symbol, the run's events in their order. -/
def KeepsOrder : Prop :=
  (∃ out, Reads parquet text objects reader out) ∧
    ∀ out, Reads parquet text objects reader out → ∃ marked : List (Bool × StoredEvent),
      marked.map Prod.snd = out ∧ ((marked.filter (fun e => !e.1)).map Prod.snd).Perm old ∧
        ∀ symbol, (marked.filter (wanted symbol)).map Prod.snd =
          (events.filter (fun e => e.symbol = symbol)).map (readBack (baseOf events))

theorem stored_keepsOrder (stored : Stored parquet start under events objects closed)
    (readable : Reads parquet text start reader old) (beneath : reader <+: under ++ ['/'])
    (legible : ∀ e ∈ events, Legible text e)
    (order : ∀ p, Ascending ((volumesOf p closed).map Volume.key)) :
    KeepsOrder parquet text objects reader events old := by
  refine ⟨(stored_readBack reader stored readable beneath legible).1, fun out reads => ?_⟩
  obtain ⟨marked, merged, plain⟩ := marked_interleaved closed reads
  refine ⟨marked, plain, ?_, fun symbol => wanted_events stored beneath legible order symbol merged⟩
  exact ((marked_perm merged).filter _ |>.map _).trans (old_marks stored readable beneath)

end Reading

section Books

variable {B : Type} {parquet : Parquet B} {text : DecimalText} {refuses : Nat → Bool}
  {start : Objects B} {raw reader : Key} {config : WriterConfig} {counters : ArchiveCounters}
  {events : List MarketEvent} {old : List StoredEvent}

/-- In a run without a failure whose every rotation opens a file that sorts after the one it
closes, the events of a symbol are read back in the order in which they were appended. -/
theorem books_in_order (readable : Reads parquet text start reader old)
    (beneath : reader <+: intoPrefix raw ++ ['/'])
    (small : PartsBelow (2 ^ 63) (start.entries.map Prod.fst))
    (legible : ∀ e ∈ events, Legible text e)
    (met : Meets (step parquet refuses) SortsAfter (opening start raw config counters) events)
    (quiet : (run parquet refuses events (opening start raw config counters)).counters.writeFailures
      = counters.writeFailures) :
    KeepsOrder parquet text (run parquet refuses events (opening start raw config counters)).objects
      reader events old := by
  obtain ⟨closed, stored, order⟩ := run_stored
    (fun _ _ _ _ _ order after effect => inOrder_append order after effect)
    (fun p => ⟨List.Pairwise.nil, fun _ => rfl⟩) (fun _ _ order p => (order p).1) small met quiet
  exact stored_keepsOrder stored readable beneath legible order

end Books

section Examples

def beat (counter : UInt64) (wall : Int) : MarketEvent where
  venue := .kraken
  symbol := ⟨"BTC-USD"⟩
  venueTs := none
  ingestTs := ⟨counter.toNat, wall⟩
  kind := .heartbeat (some counter)

/-- One second before 04:00 on 2026-08-09, and one second after. -/
def forward : List MarketEvent :=
  [beat 1 1786247999000000000, beat 2 1786248001000000000]

theorem books_in_order_forward :
    KeepsOrder plainParquet DecimalText.plain
      (run plainParquet (fun _ => false) forward
        (opening .empty "events".toList .default .zero)).objects "events".toList forward [] := by
  have small : PartsBelow (2 ^ 63) [] :=
    ⟨fun key mem => (List.not_mem_nil mem).elim, fun dir n mem => (List.not_mem_nil mem).elim⟩
  refine books_in_order ⟨1, rfl⟩ ⟨['/'], by decide⟩ small ?_ (by decide +kernel)
    (by decide +kernel)
  intro e mem d here
  rcases List.mem_cons.mp mem with rfl | mem
  · cases here
  · obtain rfl := List.mem_singleton.mp mem
    cases here

/-- The wall clock steps back across the hour between the two events. -/
def backward : List MarketEvent :=
  [beat 1 1786248001000000000, beat 2 1786247999000000000]

/-- A step back across an hour reverses two events of a symbol. -/
theorem step_back_reverses :
    backward.Pairwise (fun a b => a.ingestTs.mono ≤ b.ingestTs.mono) ∧
      (run plainParquet (fun _ => false) backward
        (opening .empty "events".toList .default .zero)).counters.writeFailures = 0 ∧
      ∃ out, Reads plainParquet DecimalText.plain
          (run plainParquet (fun _ => false) backward
            (opening .empty "events".toList .default .zero)).objects "events".toList out ∧
        out.filter (fun e => e.stream.symbol = ⟨"BTC-USD"⟩) =
          backward.reverse.map (readBack (baseOf backward)) ∧
        out.filter (fun e => e.stream.symbol = ⟨"BTC-USD"⟩) ≠
          (backward.filter (fun e => e.symbol = ⟨"BTC-USD"⟩)).map (readBack (baseOf backward)) :=
  ⟨by decide, by decide +kernel, backward.reverse.map (readBack (baseOf backward)),
    ⟨3, by decide +kernel⟩, by decide, by decide⟩

end Examples

end ArchiveOrder

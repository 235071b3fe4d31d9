import MarketAggregator.ArchiveWriter

/-!
# What a run stores

An account of a run names the files it has closed with their events, and the events of
each open file. Together the files of a partition hold its events in the order they
were appended, their rows are those of these events, and no key is used twice.
-/

namespace ArchiveRuns

open ArchiveKeys ArchiveReader ArchiveRows ArchiveWriter Clocks Decimals GuardedRuns MarketEvents
  OrderedMaps

abbrev Log := List (Int × MarketEvent)

/-- Events with the numbers they are appended under. -/
def numbered (events : List MarketEvent) : Log :=
  events.zipIdx.map (fun e => ((e.2 : Int) + 1, e.1))

/-- A file that a run has stored. -/
structure Volume where
  partition : Key
  key : Key
  groups : List (List Row)
  log : Log

def inPartition (partition : Key) (e : Int × MarketEvent) : Bool := partitionFor e.2 = partition

def volumesOf (partition : Key) (closed : List Volume) : List Volume :=
  closed.filter (fun v => v.partition = partition)

variable {B : Type}

/-- The key has a number that its directory gives to no other file. -/
def Issued (w : EventWriter B) (under partition key : Key) : Prop :=
  ∃ wall n m, key = partKey (dirFor under partition wall) n ∧
    w.parts.find? (dirFor under partition wall) = some m ∧ n < m

variable (parquet : Parquet B) (start : Objects B) (under : Key) (base : IngestTime) in
/-- What a run has stored and has open after the events so far. -/
structure Account (past : List MarketEvent) (w : EventWriter B) (closed : List Volume)
    (live : Key → Log) : Prop where
  keyPrefix : w.keyPrefix = under
  eventSeq : w.eventSeq = past.length
  objects : w.objects.entries.Perm
    (closed.map (fun v => (v.key, parquet.encode v.groups)) ++ start.entries)
  shares : ∀ p, (volumesOf p closed).flatMap Volume.log ++ live p =
    (numbered past).filter (inPartition p)
  closedRows : ∀ v ∈ closed, v.groups.flatten = rowsOf base v.log
  openRows : ∀ p file, w.opened.find? p = some file → file.allRows = rowsOf base (live p)
  idle : ∀ p, w.opened.find? p = none → live p = []
  closedKey : ∀ v ∈ closed, Issued w under v.partition v.key
  openKey : ∀ p file, w.opened.find? p = some file → Issued w under p file.key
  fresh : ∀ p file, w.opened.find? p = some file → file.key ∉ w.objects.entries.map Prod.fst
  resumed : ∀ p wall m, w.parts.find? (dirFor under p wall) = some m →
    nextPart (Objects.list start (dirFor under p wall)) ≤ m

section Steps

variable {parquet : Parquet B} {refuses : Nat → Bool} {start : Objects B} {under : Key}
  {base : IngestTime} {past : List MarketEvent} {w v : EventWriter B} {closed : List Volume}
  {live : Key → Log} {event : MarketEvent} {partition : Key} {file : OpenFile}

theorem numbered_append : numbered (past ++ [event]) =
    numbered past ++ [((past.length : Int) + 1, event)] := by
  rw [numbered, numbered, List.zipIdx_append, List.map_append, Nat.zero_add]
  rfl

theorem Account.recount (acc : Account parquet start under base past w closed live) (n : Nat) :
    Account parquet start under base past { w with calls := n } closed live :=
  ⟨acc.keyPrefix, acc.eventSeq, acc.objects, acc.shares, acc.closedRows, acc.openRows, acc.idle,
    acc.closedKey, acc.openKey, acc.fresh, acc.resumed⟩

theorem Account.rebase (acc : Account parquet start under base past w closed live)
    (event : MarketEvent) : Account parquet start under base past (w.based event) closed live :=
  ⟨acc.keyPrefix, acc.eventSeq, acc.objects, acc.shares, acc.closedRows, acc.openRows, acc.idle,
    acc.closedKey, acc.openKey, acc.fresh, acc.resumed⟩

theorem partition_of_issued {key q : Key} (own : Issued w under partition key)
    (also : Issued v under q key) : partition = q := by
  obtain ⟨wall, n, m, rfl, -, -⟩ := own
  obtain ⟨wall', n', m', same, -, -⟩ := also
  have groups := congrArg partitionOf same
  rw [partitionOf_partKey, partitionOf_partKey] at groups
  exact List.append_cancel_left groups

theorem volumesOf_append (more : List Volume) :
    volumesOf partition (closed ++ more) = volumesOf partition closed ++ volumesOf partition more :=
  List.filter_append ..

/-- The volume that an open file becomes. -/
def volumeOf (partition : Key) (file : OpenFile) (log : Log) : Volume :=
  ⟨partition, file.key, file.written.groups, log⟩

theorem volumesOf_other {p : Key} {v : Volume} (other : v.partition ≠ p) :
    volumesOf p (closed ++ [v]) = volumesOf p closed := by
  rw [volumesOf_append, volumesOf, volumesOf, List.filter_cons_of_neg (by simpa using other)]
  exact List.append_nil _

theorem volumesOf_same {p : Key} {v : Volume} (same : v.partition = p) :
    volumesOf p (closed ++ [v]) = volumesOf p closed ++ [v] := by
  rw [volumesOf_append, volumesOf, volumesOf, List.filter_cons_of_pos (by simpa using same)]
  rfl

variable (parquet file) in
theorem stored_opened (p : Key) : (w.stored parquet partition file).opened.find? p =
    if p = partition then none else w.opened.find? p := by
  rw [EventWriter.stored, OrderedMap.find?_remove]
  simp only [Std.LawfulEqCmp.compare_eq_iff_eq]

theorem insert_perm {objects : Objects B} {key : Key} {bytes : B}
    (new : key ∉ objects.entries.map Prod.fst) :
    (objects.insert key bytes).entries.Perm ((key, bytes) :: objects.entries) := by
  refine OrderedMap.insertEntry_perm fun e mem same => new ?_
  rw [Std.LawfulEqCmp.eq_of_compare same]
  exact List.mem_map_of_mem mem

/-- Closing a file moves its events from the open to the stored ones. -/
theorem Account.store (acc : Account parquet start under base past w closed live)
    (found : w.opened.find? partition = some file) :
    Account parquet start under base past (w.stored parquet partition file)
      (closed ++ [volumeOf partition file (live partition)])
      (fun p => if p = partition then [] else live p) := by
  have still : ∀ p other, (w.stored parquet partition file).opened.find? p = some other →
      p ≠ partition ∧ w.opened.find? p = some other := by
    intro p other there
    rw [stored_opened] at there
    by_cases same : p = partition
    · rw [if_pos same] at there
      cases there
    · rw [if_neg same] at there
      exact ⟨same, there⟩
  have added : (w.objects.insert file.key (parquet.encode file.written.groups)).entries.Perm _ :=
    insert_perm (acc.fresh partition file found)
  constructor
  case keyPrefix => exact acc.keyPrefix
  case eventSeq => exact acc.eventSeq
  case resumed => exact acc.resumed
  case objects =>
    refine added.trans ?_
    rw [List.map_append, List.append_assoc]
    exact (acc.objects.cons _).trans List.perm_middle.symm
  case shares =>
    intro p
    by_cases same : p = partition
    · subst same
      have mine : (volumeOf p file (live p)).partition = p := rfl
      rw [if_pos rfl, List.append_nil, volumesOf_same mine, List.flatMap_append, ← acc.shares p,
        List.flatMap_singleton]
      rfl
    · rw [if_neg same, volumesOf_other (Ne.symm same), acc.shares p]
  case closedRows =>
    intro v mem
    rcases List.mem_append.mp mem with mem | mem
    · exact acc.closedRows v mem
    · obtain rfl := List.mem_singleton.mp mem
      exact written_groups.trans (acc.openRows partition file found)
  case openRows =>
    intro p other there
    obtain ⟨different, before⟩ := still p other there
    rw [if_neg different]
    exact acc.openRows p other before
  case idle =>
    intro p none_there
    rw [stored_opened] at none_there
    split
    · rfl
    · rename_i different
      rw [if_neg different] at none_there
      exact acc.idle p none_there
  case closedKey =>
    intro v mem
    rcases List.mem_append.mp mem with mem | mem
    · exact acc.closedKey v mem
    · obtain rfl := List.mem_singleton.mp mem
      exact acc.openKey partition file found
  case openKey => exact fun p other there => acc.openKey p other (still p other there).2
  case fresh =>
    intro p other there mem
    obtain ⟨different, before⟩ := still p other there
    have keys := (added.map Prod.fst).mem_iff.mp mem
    rcases List.mem_cons.mp keys with same | old
    · have own := acc.openKey p other before
      rw [show other.key = file.key from same] at own
      exact different (partition_of_issued own (acc.openKey partition file found))
    · exact acc.fresh p other before old

theorem started_opened (p : Key) : (w.started event).opened.find? p =
    if p = partitionFor event then some (newFile w event) else w.opened.find? p := by
  rw [EventWriter.started, OrderedMap.find?_insert]
  simp only [Std.LawfulEqCmp.compare_eq_iff_eq]

theorem started_parts (dir : Key) : (w.started event).parts.find? dir =
    if dir = dirOf w event then some (nextPartOf w (dirOf w event) + 1)
      else w.parts.find? dir := by
  rw [EventWriter.started, OrderedMap.find?_insert]
  simp only [Std.LawfulEqCmp.compare_eq_iff_eq]

/-- The next part of a directory is past all that it held at the start. -/
theorem Account.nextPartOf_ge (acc : Account parquet start under base past w closed live)
    (p : Key) (wall : Int) :
    nextPart (Objects.list start (dirFor under p wall)) ≤ nextPartOf w (dirFor under p wall) := by
  rw [nextPartOf]
  cases known : w.parts.find? (dirFor under p wall) with
  | some next => exact acc.resumed p wall next known
  | none =>
    refine nextPart_mono fun key mem => ?_
    obtain ⟨inside, starts⟩ := List.mem_filter.mp mem
    refine List.mem_filter.mpr ⟨(acc.objects.map Prod.fst).mem_iff.mpr ?_, starts⟩
    rw [List.map_append]
    exact List.mem_append_right _ inside

/-- No object has the next key of a partition. -/
theorem Account.nextKey_new (acc : Account parquet start under base past w closed live)
    (small : PartsBelow (2 ^ 63) (start.entries.map Prod.fst)) :
    nextKey w event ∉ w.objects.entries.map Prod.fst := by
  intro mem
  have inside := (acc.objects.map Prod.fst).mem_iff.mp mem
  rw [List.map_append, List.map_map] at inside
  rw [nextKey, dirOf, acc.keyPrefix] at inside
  rcases List.mem_append.mp inside with mine | old
  · obtain ⟨v, on, same⟩ := List.mem_map.mp mine
    obtain ⟨wall, n, m, key, known, below⟩ := acc.closedKey v on
    have equal := key.symm.trans same
    obtain ⟨dirs, numbers⟩ := partKey_injective equal
    rw [← dirs, nextPartOf, known, Option.getD_some] at numbers
    omega
  · exact partKey_notMem small (by decide) (fun there => (mem_list start).mpr there)
      (acc.nextPartOf_ge _ _) old

theorem issued_started {p key : Key} (own : Issued w under p key) :
    Issued (w.started event) under p key := by
  obtain ⟨wall, n, m, same, known, below⟩ := own
  rw [Issued]
  by_cases here : dirFor under p wall = dirOf w event
  · refine ⟨wall, n, _, same, (started_parts _).trans (if_pos here), ?_⟩
    rw [nextPartOf, ← here, known, Option.getD_some]
    omega
  · exact ⟨wall, n, m, same, ((started_parts _).trans (if_neg here)).trans known, below⟩

/-- Opening a file changes nothing that is stored, and its key is new. -/
theorem Account.openNew (acc : Account parquet start under base past w closed live)
    (small : PartsBelow (2 ^ 63) (start.entries.map Prod.fst))
    (absent : w.opened.find? (partitionFor event) = none) :
    Account parquet start under base past (w.started event) closed live := by
  have cases : ∀ p file, (w.started event).opened.find? p = some file →
      p = partitionFor event ∧ file = newFile w event ∨ w.opened.find? p = some file := by
    intro p file there
    rw [started_opened] at there
    by_cases same : p = partitionFor event
    · rw [if_pos same] at there
      exact .inl ⟨same, (Option.some.inj there).symm⟩
    · rw [if_neg same] at there
      exact .inr there
  constructor
  case keyPrefix => exact acc.keyPrefix
  case eventSeq => exact acc.eventSeq
  case objects => exact acc.objects
  case shares => exact acc.shares
  case closedRows => exact acc.closedRows
  case closedKey => exact fun v mem => issued_started (acc.closedKey v mem)
  case openRows =>
    intro p file there
    rcases cases p file there with ⟨rfl, rfl⟩ | before
    · rw [acc.idle _ absent]
      rfl
    · exact acc.openRows p file before
  case idle =>
    intro p none_there
    rw [started_opened] at none_there
    by_cases same : p = partitionFor event
    · rw [if_pos same] at none_there
      cases none_there
    · rw [if_neg same] at none_there
      exact acc.idle p none_there
  case openKey =>
    intro p file there
    rcases cases p file there with ⟨rfl, rfl⟩ | before
    · refine ⟨event.ingestTs.wall, nextPartOf w (dirOf w event), _, ?_,
        (started_parts _).trans (if_pos ?_), Nat.lt_succ_self _⟩
      · rw [newFile, nextKey, dirOf, acc.keyPrefix]
      · rw [dirOf, acc.keyPrefix]
    · exact issued_started (acc.openKey p file before)
  case fresh =>
    intro p file there
    rcases cases p file there with ⟨rfl, rfl⟩ | before
    · exact acc.nextKey_new small
    · exact acc.fresh p file before
  case resumed =>
    intro p wall m known
    rw [started_parts] at known
    by_cases here : dirFor under p wall = dirOf w event
    · rw [if_pos here] at known
      have past := acc.nextPartOf_ge p wall
      rw [← Option.some.inj known, ← here]
      omega
    · rw [if_neg here] at known
      exact acc.resumed p wall m known

theorem rowsOf_append {log more : Log} :
    rowsOf base (log ++ more) = rowsOf base log ++ rowsOf base more := List.flatMap_append

/-- An event becomes the last one of its partition's open file. -/
theorem Account.extend (acc : Account parquet start under base past w closed live)
    {later : OpenFile} {opened : OrderedMap Key OpenFile Key.cmp} {n : Nat}
    (found : w.opened.find? (partitionFor event) = some file) (key : later.key = file.key)
    (rows : later.allRows = file.allRows ++ flatten event (w.eventSeq + 1) base)
    (files : ∀ p, opened.find? p =
      if p = partitionFor event then some later else w.opened.find? p) :
    Account parquet start under base (past ++ [event])
      { w with calls := n, eventSeq := w.eventSeq + 1, opened := opened } closed
      (fun p => if p = partitionFor event then live p ++ [(w.eventSeq + 1, event)]
        else live p) := by
  have cases : ∀ p other, opened.find? p = some other →
      p = partitionFor event ∧ other = later ∨
        p ≠ partitionFor event ∧ w.opened.find? p = some other := by
    intro p other there
    rw [files] at there
    by_cases same : p = partitionFor event
    · rw [if_pos same] at there
      exact .inl ⟨same, (Option.some.inj there).symm⟩
    · rw [if_neg same] at there
      exact .inr ⟨same, there⟩
  constructor
  case keyPrefix => exact acc.keyPrefix
  case objects => exact acc.objects
  case closedRows => exact acc.closedRows
  case closedKey => exact acc.closedKey
  case resumed => exact acc.resumed
  case eventSeq =>
    have before := acc.eventSeq
    rw [List.length_append, List.length_singleton]
    change w.eventSeq + 1 = _
    omega
  case shares =>
    intro p
    rw [numbered_append, List.filter_append, ← acc.shares p, ← acc.eventSeq]
    by_cases same : p = partitionFor event
    · have own : inPartition p (w.eventSeq + 1, event) = true := decide_eq_true same.symm
      rw [if_pos same, List.filter_cons_of_pos own, List.append_assoc]
      rfl
    · have other : ¬inPartition p (w.eventSeq + 1, event) = true := by
        simpa [inPartition] using Ne.symm same
      rw [if_neg same, List.filter_cons_of_neg other]
      exact (List.append_nil _).symm
  case openRows =>
    intro p other there
    rcases cases p other there with ⟨rfl, rfl⟩ | ⟨different, before⟩
    · rw [if_pos rfl, rowsOf_append, rows, acc.openRows _ file found]
      simp [rowsOf]
    · rw [if_neg different]
      exact acc.openRows p other before
  case idle =>
    intro p none_there
    change opened.find? p = none at none_there
    rw [files] at none_there
    by_cases same : p = partitionFor event
    · rw [if_pos same] at none_there
      cases none_there
    · rw [if_neg same] at none_there
      rw [if_neg same]
      exact acc.idle p none_there
  case openKey =>
    intro p other there
    rcases cases p other there with ⟨rfl, rfl⟩ | ⟨-, before⟩
    · rw [key]
      exact acc.openKey _ file found
    · exact acc.openKey p other before
  case fresh =>
    intro p other there
    rcases cases p other there with ⟨rfl, rfl⟩ | ⟨-, before⟩
    · rw [key]
      exact acc.fresh _ file found
    · exact acc.fresh p other before

/-- The keys of a partition's files in the order in which they were opened. -/
def keysOf (w : EventWriter B) (closed : List Volume) (p : Key) : List Key :=
  (volumesOf p closed).map Volume.key ++ ((w.opened.find? p).map OpenFile.key).toList

theorem keysOf_open (found : w.opened.find? partition = some file) :
    keysOf w closed partition = (volumesOf partition closed).map Volume.key ++ [file.key] := by
  rw [keysOf, found]
  rfl

variable (parquet) in
theorem keysOf_stored {log : Log} (found : w.opened.find? partition = some file) (p : Key) :
    keysOf (w.stored parquet partition file) (closed ++ [volumeOf partition file log]) p =
      keysOf w closed p := by
  rw [keysOf, stored_opened]
  by_cases same : p = partition
  · subst same
    have mine : (volumeOf p file log).partition = p := rfl
    rw [keysOf_open found, if_pos rfl, volumesOf_same mine, List.map_append]
    exact List.append_nil _
  · rw [if_neg same, volumesOf_other (Ne.symm same), keysOf]

theorem keysOf_started (absent : w.opened.find? (partitionFor event) = none) (p : Key) :
    keysOf (w.started event) closed p =
      if p = partitionFor event then keysOf w closed p ++ [nextKey w event]
        else keysOf w closed p := by
  rw [keysOf, keysOf, started_opened]
  by_cases same : p = partitionFor event
  · rw [if_pos same, if_pos same, same, absent]
    exact congrArg (· ++ [nextKey w event]) (List.append_nil _).symm
  · rw [if_neg same, if_neg same]

/-- Storing a partition's file does not change which key is next. -/
theorem Account.nextKey_stored (acc : Account parquet start under base past w closed live)
    (found : w.opened.find? (partitionFor event) = some file) :
    nextKey (w.stored parquet (partitionFor event) file) event = nextKey w event := by
  have parts : nextPartOf (w.stored parquet (partitionFor event) file) (dirOf w event) =
      nextPartOf w (dirOf w event) := by
    rw [nextPartOf, nextPartOf]
    change (w.parts.find? (dirOf w event)).getD _ = _
    cases known : w.parts.find? (dirOf w event) with
    | some next => rfl
    | none =>
      have entries : (w.objects.insert file.key (parquet.encode file.written.groups)).entries.Perm
          _ := insert_perm (acc.fresh _ file found)
      have added := entries.map Prod.fst
      refine le_antisymm (nextPart_mono fun key mem => ?_) (nextPart_mono fun key mem => ?_)
      · obtain ⟨inside, starts⟩ := List.mem_filter.mp mem
        rcases List.mem_cons.mp (added.mem_iff.mp inside) with same | old
        · obtain ⟨wall, n, m, own, other, -⟩ := acc.openKey _ file found
          rw [same, own, List.isPrefixOf_iff_prefix, dirOf, acc.keyPrefix] at starts
          rw [dirOf, acc.keyPrefix, dirFor_of_prefix starts, other] at known
          cases known
        · exact List.mem_filter.mpr ⟨old, starts⟩
      · obtain ⟨inside, starts⟩ := List.mem_filter.mp mem
        exact List.mem_filter.mpr ⟨added.mem_iff.mpr (List.mem_cons_of_mem _ inside), starts⟩
  exact congrArg (partKey (dirOf w event)) parts

/-- An append keeps its partition's file or opens the next one, and no other file. -/
structure Effect (w : EventWriter B) (event : MarketEvent) (v : EventWriter B)
    (closed more : List Volume) : Prop where
  others : ∀ p, p ≠ partitionFor event → keysOf v (closed ++ more) p = keysOf w closed p ∧
    (v.opened.find? p = none → w.opened.find? p = none)
  own : keysOf v (closed ++ more) (partitionFor event) = keysOf w closed (partitionFor event) ∨
    keysOf v (closed ++ more) (partitionFor event) =
        keysOf w closed (partitionFor event) ++ [nextKey w event] ∧
      ∀ file, w.opened.find? (partitionFor event) = some file →
        mustRotate w.config event file = true
  isOpen : ∃ file, v.opened.find? (partitionFor event) = some file

/-- Rotation may store the partition's file. All keys and the next one stay. -/
theorem Account.rotate (acc : Account parquet start under base past w closed live)
    (rotated : Yields (rotate parquet refuses event) (w.based event) () v) :
    ∃ more live', Account parquet start under base past v (closed ++ more) live' ∧
      (∀ p, keysOf v (closed ++ more) p = keysOf w closed p) ∧
      nextKey v event = nextKey w event ∧
      (∀ p, p ≠ partitionFor event → v.opened.find? p = w.opened.find? p) ∧
      (v.opened.find? (partitionFor event) = none →
        ∀ file, w.opened.find? (partitionFor event) = some file →
          mustRotate w.config event file = true) := by
  rcases yields_rotate rotated with ⟨rfl, -⟩ | ⟨file, n, found, due, rfl⟩
  · refine ⟨[], live, ?_, fun p => ?_, rfl, fun p _ => rfl, fun absent file found => ?_⟩
    · rw [List.append_nil]
      exact acc.rebase event
    · rw [List.append_nil]
      rfl
    · rw [show w.opened.find? (partitionFor event) = none from absent] at found
      cases found
  · refine ⟨_, _, ((acc.rebase event).store found).recount n, keysOf_stored parquet found,
      (acc.rebase event).nextKey_stored found, fun p other => ?_, fun _ other same => ?_⟩
    · exact (stored_opened parquet file p).trans (if_neg other)
    · rw [← Option.some.inj (found.symm.trans same)]
      exact due

theorem keysOf_extended {later : OpenFile} {opened : OrderedMap Key OpenFile Key.cmp}
    (found : w.opened.find? (partitionFor event) = some file) (key : later.key = file.key)
    (files : ∀ p, opened.find? p =
      if p = partitionFor event then some later else w.opened.find? p) (n : Nat) (p : Key) :
    keysOf { w with calls := n, eventSeq := w.eventSeq + 1, opened := opened } closed p =
      keysOf w closed p := by
  rw [keysOf, keysOf, files]
  by_cases own : p = partitionFor event
  · rw [if_pos own, own, found, Option.map_some, Option.map_some, key]
  · rw [if_neg own]

/-- A successful append accounts for one more event. -/
theorem Account.append (acc : Account parquet start under base past w closed live)
    (small : PartsBelow (2 ^ 63) (start.entries.map Prod.fst))
    (based : w.base.getD event.ingestTs = base)
    (done : Yields (append parquet refuses event) w () v) :
    ∃ more live', Account parquet start under base (past ++ [event]) v (closed ++ more) live' ∧
      Effect w event v closed more := by
  obtain ⟨s1, s2, rotated, ensured, extended⟩ := yields_append done
  rw [based] at extended
  obtain ⟨more, live1, acc1, keys, next, others, due⟩ := acc.rotate rotated
  rcases yields_ensureOpen ensured with ⟨rfl, file, found⟩ | ⟨absent, n, rfl⟩
  · obtain ⟨m, later, opened, key, rows, files, rfl⟩ := yields_extend extended found
    have same : ∀ p, _ = keysOf s2 (closed ++ more) p := keysOf_extended found key files m
    refine ⟨more, _, acc1.extend found key rows files, fun p other => ⟨?_, fun absent => ?_⟩,
      .inl ?_, later, (files _).trans (if_pos rfl)⟩
    · exact (same p).trans (keys p)
    · rw [files, if_neg other, others p other] at absent
      exact absent
    · exact (same _).trans (keys _)
  · have found : (s1.started event).opened.find? (partitionFor event) =
        some (newFile s1 event) := (started_opened _).trans (if_pos rfl)
    obtain ⟨m, later, opened, key, rows, files, rfl⟩ := yields_extend extended found
    have same : ∀ p, _ = keysOf (s1.started event) (closed ++ more) p :=
      keysOf_extended found key files m
    refine ⟨more, _, ((acc1.openNew small absent).recount n).extend found key rows files,
      fun p other => ⟨?_, fun absent => ?_⟩, .inr ⟨?_, due absent⟩, later,
      (files _).trans (if_pos rfl)⟩
    · rw [same, keysOf_started absent, if_neg other, keys]
    · rw [files, if_neg other] at absent
      rw [← others p other]
      exact ((started_opened p).trans (if_neg other)).symm.trans absent
    · rw [same, keysOf_started absent, if_pos rfl, keys, next]

/-- Closing a partition stores its file, if it has one. -/
theorem Account.close (acc : Account parquet start under base past w closed live)
    (done : Yields (roll parquet refuses partition) w () v) :
    ∃ more live', Account parquet start under base past v (closed ++ more) live' ∧
      (∀ p, keysOf v (closed ++ more) p = keysOf w closed p) ∧
      ∀ p, v.opened.find? p = if p = partition then none else w.opened.find? p := by
  rcases yields_roll done with ⟨absent, rfl⟩ | ⟨file, n, found, rfl⟩
  · refine ⟨[], live, ?_, fun p => ?_, fun p => ?_⟩
    · rwa [List.append_nil]
    · rw [List.append_nil]
    · by_cases same : p = partition
      · rw [if_pos same, same, absent]
      · rw [if_neg same]
  · exact ⟨_, _, (acc.store found).recount n, keysOf_stored parquet found,
      stored_opened parquet file⟩

theorem append_base (done : Yields (append parquet refuses event) w () v) :
    v.base = some (w.base.getD event.ingestTs) := by
  obtain ⟨s1, s2, rotated, ensured, extended⟩ := yields_append done
  have first : s1.base = some (w.base.getD event.ingestTs) := by
    rcases yields_rotate rotated with ⟨rfl, -⟩ | ⟨file, n, -, -, rfl⟩ <;> rfl
  obtain ⟨file, found, second⟩ : ∃ file, s2.opened.find? (partitionFor event) = some file ∧
      s2.base = s1.base := by
    rcases yields_ensureOpen ensured with ⟨rfl, file, found⟩ | ⟨-, n, rfl⟩
    · exact ⟨file, found, rfl⟩
    · exact ⟨newFile s1 event, (started_opened _).trans (if_pos rfl), rfl⟩
  obtain ⟨n, later, opened, -, -, -, rfl⟩ := yields_extend extended found
  exact second.trans first

end Steps

section Runs

variable {parquet : Parquet B} {refuses : Nat → Bool} {start : Objects B} {under : Key}
  {base : IngestTime} {w : EventWriter B} {events : List MarketEvent}

/-- The instant that a run counts elapsed time from. -/
def baseOf (events : List MarketEvent) : IngestTime :=
  (events.head?.map MarketEvent.ingestTs).getD ⟨0, 0⟩

variable (parquet refuses) in
/-- Every append of a run succeeds. -/
def Appends (w : EventWriter B) (events : List MarketEvent) : Prop :=
  Meets (step parquet refuses)
    (fun w event => Yields (append parquet refuses event) w () (step parquet refuses w event))
    w events

/-- The first event's instant is the base of every later one. -/
theorem based_run (fresh : w.base = none) (done : Appends parquet refuses w events) :
    Meets (step parquet refuses) (fun t event => t.base.getD event.ingestTs = baseOf events)
      w events := by
  refine meets_iff_prefixes.mpr ?_
  rintro past event rest rfl
  have before := (meets_append.mp done).1
  have held : (exec (step parquet refuses) w past).base =
      past.head?.map MarketEvent.ingestTs := by
    refine @exec_history _ _ _ _ _ (fun past t => t.base = past.head?.map MarketEvent.ingestTs)
      (fun past t event h yields => ?_) fresh past before
    rw [append_base yields, h]
    cases past <;> rfl
  rw [held]
  cases past <;> rfl

/-- A property of the files that every append keeps holds after the appends. -/
theorem account_run {ok : EventWriter B → MarketEvent → Prop}
    {Q : EventWriter B → List Volume → Prop}
    (kept : ∀ w event v closed more, Q w closed → ok w event → Effect w event v closed more →
      Q v (closed ++ more))
    (small : PartsBelow (2 ^ 63) (start.entries.map Prod.fst)) {live : Key → Log}
    (acc : Account parquet start under (baseOf events) [] w [] live) (initial : Q w [])
    (fresh : w.base = none) (done : Appends parquet refuses w events)
    (met : Meets (step parquet refuses) ok w events) :
    ∃ closed live', Account parquet start under (baseOf events) events
      (exec (step parquet refuses) w events) closed live' ∧
        Q (exec (step parquet refuses) w events) closed := by
  have steps := (done.and (based_run fresh done)).and met
  refine @exec_history _ _ _ _ _ (fun past t => ∃ closed live',
    Account parquet start under (baseOf events) past t closed live' ∧ Q t closed)
    ?_ ⟨[], live, acc, initial⟩ events steps
  rintro past t event ⟨closed, live', acc', held⟩ ⟨⟨yields, based⟩, allowed⟩
  obtain ⟨more, live'', acc'', effect⟩ := acc'.append small based yields
  exact ⟨closed ++ more, live'', acc'', kept _ _ _ _ _ held allowed effect⟩

/-- Closing all partitions stores every file and keeps every key. -/
theorem close_run {partitions : List Key} {past : List MarketEvent} {closed : List Volume}
    {live : Key → Log} (acc : Account parquet start under base past w closed live)
    (done : Meets (closeStep parquet refuses) (fun w partition =>
      Yields (roll parquet refuses partition) w () (closeStep parquet refuses w partition))
      w partitions) :
    ∃ more live', Account parquet start under base past
        (exec (closeStep parquet refuses) w partitions) (closed ++ more) live' ∧
      (∀ p, keysOf (exec (closeStep parquet refuses) w partitions) (closed ++ more) p =
        keysOf w closed p) ∧
      ∀ p, p ∈ partitions ∨ w.opened.find? p = none →
        (exec (closeStep parquet refuses) w partitions).opened.find? p = none := by
  induction partitions generalizing w closed live with
  | nil =>
    refine ⟨[], live, by rwa [List.append_nil], fun p => by rw [List.append_nil]; rfl, ?_⟩
    rintro p (mem | absent)
    · cases mem
    · exact absent
  | cons partition partitions ih =>
    obtain ⟨first, acc1, acc1', keys1, opened1⟩ := acc.close done.1
    obtain ⟨later, live2, acc2, keys2, opened2⟩ := ih acc1' done.2
    refine ⟨first ++ later, live2, ?_, fun p => ?_, fun p gone => opened2 p ?_⟩
    · rwa [List.append_assoc] at acc2
    · rw [← List.append_assoc]
      exact (keys2 p).trans (keys1 p)
    · rw [opened1]
      by_cases same : p = partition
      · exact .inr (if_pos same)
      · rw [if_neg same]
        exact gone.imp (fun mem => (List.mem_cons.mp mem).resolve_left same) id

variable (parquet start under) in
/-- The store after a run, with the files that are new. -/
structure Stored (events : List MarketEvent) (objects : Objects B) (closed : List Volume) :
    Prop where
  objects : objects.entries.Perm
    (closed.map (fun v => (v.key, parquet.encode v.groups)) ++ start.entries)
  shares : ∀ p, (volumesOf p closed).flatMap Volume.log =
    (numbered events).filter (inPartition p)
  rows : ∀ v ∈ closed, v.groups.flatten = rowsOf (baseOf events) v.log
  key : ∀ v ∈ closed, ∃ wall n, v.key = partKey (dirFor under v.partition wall) n

variable (start) in
/-- A writer that has appended nothing. -/
def opening (raw : Key) (config : WriterConfig) (counters : ArchiveCounters) : EventWriter B :=
  ((EventWriter.new start raw).withConfig config).withCounters counters

theorem account_opening {raw : Key} {config : WriterConfig} {counters : ArchiveCounters} :
    Account parquet start (intoPrefix raw) base [] (opening start raw config counters) []
      (fun _ => []) := by
  constructor
  case keyPrefix => rfl
  case eventSeq => rfl
  case objects => exact .refl _
  case shares => exact fun p => rfl
  case closedRows => exact fun v mem => by cases mem
  case openRows => exact fun p file found => by cases found
  case idle => exact fun p absent => rfl
  case closedKey => exact fun v mem => by cases mem
  case openKey => exact fun p file found => by cases found
  case fresh => exact fun p file found => by cases found
  case resumed => exact fun p wall m known => by cases known

variable {raw : Key} {config : WriterConfig} {counters : ArchiveCounters}

/-- A run without a failure stores every event's rows once, and a property of the files
that every append keeps holds of the keys of each partition. -/
theorem run_stored {ok : EventWriter B → MarketEvent → Prop}
    {Q : EventWriter B → List Volume → Prop} {R : List Key → Prop}
    (kept : ∀ w event v closed more, Q w closed → ok w event → Effect w event v closed more →
      Q v (closed ++ more))
    (initial : Q (opening start raw config counters) [])
    (last : ∀ w closed, Q w closed → ∀ p, R (keysOf w closed p))
    (small : PartsBelow (2 ^ 63) (start.entries.map Prod.fst))
    (met : Meets (step parquet refuses) ok (opening start raw config counters) events)
    (quiet : (run parquet refuses events (opening start raw config counters)).counters.writeFailures
      = counters.writeFailures) :
    ∃ closed, Stored parquet start (intoPrefix raw) events
        (run parquet refuses events (opening start raw config counters)).objects closed ∧
      ∀ p, R ((volumesOf p closed).map Volume.key) := by
  obtain ⟨appends, rolls⟩ := quiet_run (w := opening start raw config counters) quiet
  obtain ⟨closed, live, acc, held⟩ :=
    account_run kept small account_opening initial rfl appends met
  obtain ⟨more, live', acc', keys, gone⟩ := close_run acc rolls
  rw [run_eq]
  have empty : ∀ p, (exec (closeStep parquet refuses) (exec (step parquet refuses)
      (opening start raw config counters) events) ((exec (step parquet refuses)
        (opening start raw config counters) events).opened.entries.map Prod.fst)).opened.find? p =
          none := by
    intro p
    refine gone p ?_
    cases found : (exec (step parquet refuses) (opening start raw config counters)
        events).opened.find? p with
    | none => exact .inr rfl
    | some file =>
      obtain ⟨key, mem, same⟩ := OrderedMap.find?_mem found
      rw [← Std.LawfulEqCmp.eq_of_compare same] at mem
      exact .inl (List.mem_map.mpr ⟨_, mem, rfl⟩)
  refine ⟨closed ++ more, ⟨acc'.objects, fun p => ?_, acc'.closedRows, fun v mem => ?_⟩,
    fun p => ?_⟩
  · have shares := acc'.shares p
    rwa [acc'.idle p (empty p), List.append_nil] at shares
  · obtain ⟨wall, n, m, key, -, -⟩ := acc'.closedKey v mem
    exact ⟨wall, n, key⟩
  · have own := last _ _ held p
    rwa [← keys p, keysOf, empty p, Option.map_none, Option.toList_none, List.append_nil] at own

end Runs

end ArchiveRuns

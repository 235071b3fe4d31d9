import MarketAggregator.ArchiveReader
import MarketAggregator.GuardedRuns

/-!
# Writing an archive

Each partition has one open file. It is closed and stored when an event falls in
another window or finds the file open for too long. Whether a call that can fail does
fail is a schedule of refusals, which is arbitrary.
-/

namespace ArchiveWriter

open ArchiveKeys ArchiveReader ArchiveRows Clocks GuardedRuns MarketEvents OrderedMaps

inductive WriteError where
  | arrow
  | parquet
  | store
  deriving DecidableEq

/-- `rollEvery` and `maxOpen` are durations. -/
structure WriterConfig where
  rowGroupRows : Nat
  rollEvery : Nat
  maxOpen : Nat

def WriterConfig.default : WriterConfig where
  rowGroupRows := 8192
  rollEvery := 3600 * nanosPerSec
  maxOpen := 300 * nanosPerSec

/-- The row groups are written, the rows are not. -/
structure OpenFile where
  window : Int
  openedAt : IngestTime
  key : Key
  groups : List (List Row)
  rows : List Row
  rowsTotal : Nat

def OpenFile.add (file : OpenFile) (rows : List Row) : OpenFile :=
  { file with rowsTotal := file.rowsTotal + rows.length, rows := file.rows ++ rows }

structure ArchiveCounters where
  rowsWritten : Nat
  filesWritten : Nat
  bytesWritten : Nat
  writeFailures : Nat
  openFiles : Nat

namespace ArchiveCounters

def zero : ArchiveCounters := ⟨0, 0, 0, 0, 0⟩

def recordFile (c : ArchiveCounters) (rows bytes : Nat) : ArchiveCounters :=
  { c with
    filesWritten := c.filesWritten + 1
    rowsWritten := c.rowsWritten + rows
    bytesWritten := c.bytesWritten + bytes }

def recordFailure (c : ArchiveCounters) : ArchiveCounters :=
  { c with writeFailures := c.writeFailures + 1 }

def setOpenFiles (c : ArchiveCounters) (n : Nat) : ArchiveCounters := { c with openFiles := n }

end ArchiveCounters

/-- The store's objects and the number of calls made so far are part of the state. -/
structure EventWriter (B : Type) where
  objects : Objects B
  calls : Nat
  keyPrefix : Key
  config : WriterConfig
  base : Option IngestTime
  eventSeq : Int
  opened : OrderedMap Key OpenFile Key.cmp
  parts : OrderedMap Key Nat Key.cmp
  counters : ArchiveCounters

section Create

variable {B : Type}

def EventWriter.new (objects : Objects B) (raw : Key) : EventWriter B where
  objects := objects
  calls := 0
  keyPrefix := intoPrefix raw
  config := .default
  base := none
  eventSeq := 0
  opened := .empty
  parts := .empty
  counters := .zero

def EventWriter.withConfig (w : EventWriter B) (config : WriterConfig) : EventWriter B :=
  { w with config := config }

def EventWriter.withCounters (w : EventWriter B) (counters : ArchiveCounters) : EventWriter B :=
  { w with counters := counters }

/-- Which roll window a wall reading falls in. -/
def windowOf (config : WriterConfig) (wall : Int) : Int :=
  asI64 (unixSecs wall / max (config.rollEvery / nanosPerSec) 1)

def partitionFor (event : MarketEvent) : Key := partitionName event.symbol.text

/-- An event does not go into a file of another window or one open for too long. -/
def mustRotate (config : WriterConfig) (event : MarketEvent) (file : OpenFile) : Bool :=
  file.window ≠ windowOf config event.ingestTs.wall ∨
    config.maxOpen ≤ event.ingestTs.since file.openedAt

end Create

abbrev Writing (B : Type) := ExceptT WriteError (StateM (EventWriter B))

section Steps

variable {B : Type} (parquet : Parquet B) (refuses : Nat → Bool)

/-- A call that fails if the schedule refuses it. -/
def ask (e : WriteError) : Writing B Unit := do
  let w ← get
  set { w with calls := w.calls + 1 }
  if refuses w.calls then throw e

def setOpened (opened : OrderedMap Key OpenFile Key.cmp) : Writing B Unit :=
  modify fun w => { w with opened := opened, counters := w.counters.setOpenFiles opened.size }

def setFile (partition : Key) (file : OpenFile) : Writing B Unit :=
  modify fun w => { w with opened := w.opened.insert partition file }

def flushRowGroup (file : OpenFile) : Writing B OpenFile :=
  if file.rows = [] then pure file
  else do
    ask refuses .arrow
    ask refuses .parquet
    pure { file with groups := file.groups ++ [file.rows], rows := [] }

/-- Finish one partition's open file and hand it to the store. -/
def roll (partition : Key) : Writing B Unit := do
  let w ← get
  match w.opened.find? partition with
  | none => pure ()
  | some file =>
    setOpened (w.opened.remove partition)
    let file ← flushRowGroup refuses file
    ask refuses .parquet
    ask refuses .store
    let bytes := parquet.encode file.groups
    modify fun w =>
      { w with
        objects := w.objects.insert file.key bytes
        counters := w.counters.recordFile file.rowsTotal (parquet.size bytes) }

/-- The next part of a directory. A directory is listed at its first use. -/
def nextPartIn (dir : Key) : Writing B Nat := do
  let w ← get
  match w.parts.find? dir with
  | some next => pure next
  | none => do
    ask refuses .store
    pure (nextPart (Objects.list w.objects dir))

def startFile (partition : Key) (window : Int) (openedAt : IngestTime) :
    Writing B OpenFile := do
  ask refuses .parquet
  let w ← get
  let part ← nextPartIn refuses (dirFor w.keyPrefix partition openedAt.wall)
  modify fun w =>
    { w with parts := w.parts.insert (dirFor w.keyPrefix partition openedAt.wall) (part + 1) }
  pure ⟨window, openedAt, partKey (dirFor w.keyPrefix partition openedAt.wall) part, [], [], 0⟩

def rotate (event : MarketEvent) : Writing B Unit := do
  let w ← get
  if (w.opened.find? (partitionFor event)).any (mustRotate w.config event) then
    roll parquet refuses (partitionFor event)

def ensureOpen (event : MarketEvent) : Writing B Unit := do
  let w ← get
  if (w.opened.find? (partitionFor event)).isNone then
    let file ← startFile refuses (partitionFor event)
      (windowOf w.config event.ingestTs.wall) event.ingestTs
    let w ← get
    setOpened (w.opened.insert (partitionFor event) file)

def extend (event : MarketEvent) (base : IngestTime) : Writing B Unit := do
  modify fun w => { w with eventSeq := w.eventSeq + 1 }
  let w ← get
  match w.opened.find? (partitionFor event) with
  | none => pure ()
  | some file =>
    setFile (partitionFor event) (file.add (flatten event w.eventSeq base))
    if w.config.rowGroupRows ≤ (file.add (flatten event w.eventSeq base)).rows.length then
      let file ← flushRowGroup refuses (file.add (flatten event w.eventSeq base))
      setFile (partitionFor event) file

/-- Append one event, after rolling its partition's file if it must be. -/
def append (event : MarketEvent) : Writing B Unit := do
  let w ← get
  set { w with base := some (w.base.getD event.ingestTs) }
  rotate parquet refuses event
  ensureOpen refuses event
  extend refuses event (w.base.getD event.ingestTs)

/-- A failure is counted and returned. -/
def attempt (x : Writing B Unit) : Writing B (Option WriteError) :=
  ExceptT.mk fun w => match x w with
    | (.ok _, u) => (.ok none, u)
    | (.error e, u) => (.ok (some e), { u with counters := u.counters.recordFailure })

/-- Every partition is attempted. The first error is returned. -/
def closeAll : List Key → Writing B (Option WriteError)
  | [] => pure none
  | partition :: partitions => do
    let first ← attempt (roll parquet refuses partition)
    let later ← closeAll partitions
    pure (first.or later)

def close : Writing B Unit := do
  let w ← get
  let first ← closeAll parquet refuses (w.opened.entries.map Prod.fst)
  first.elim (pure ()) throw

/-- The state after an event was appended or dropped. -/
def step (w : EventWriter B) (event : MarketEvent) : EventWriter B :=
  (attempt (append parquet refuses event) w).2

/-- Append all events of a channel and close. -/
def run (events : List MarketEvent) (w : EventWriter B) : EventWriter B :=
  (close parquet refuses (events.foldl (step parquet refuses) w)).2

end Steps

section Outcomes

variable {B T S : Type} {parquet : Parquet B} {refuses : Nat → Bool} {w v : EventWriter B}
  {event : MarketEvent} {partition : Key} {file flushed : OpenFile} {base : IngestTime}

/-- A call succeeds in a state with a result and a next state. -/
def Yields (x : Writing B T) (w : EventWriter B) (a : T) (v : EventWriter B) : Prop :=
  x w = (.ok a, v)

theorem yields_bind {x : Writing B T} {f : T → Writing B S} {b : S}
    (h : Yields (x >>= f) w b v) : ∃ a u, Yields x w a u ∧ Yields (f a) u b v := by
  rw [Yields] at h
  change (ExceptT.bindCont f (x w).1) (x w).2 = _ at h
  cases outcome : x w with
  | mk result u =>
    rw [outcome] at h
    cases result with
    | error e => cases h
    | ok a => exact ⟨a, u, outcome, h⟩

theorem yields_pure {a b : T} (h : Yields (pure a) w b v) : a = b ∧ w = v := by
  obtain ⟨same, rfl⟩ := Prod.mk.inj h
  exact ⟨Except.ok.inj same, rfl⟩

theorem yields_get {u : EventWriter B} (h : Yields get w u v) : w = u ∧ w = v := by
  obtain ⟨same, rfl⟩ := Prod.mk.inj h
  exact ⟨Except.ok.inj same, rfl⟩

theorem yields_modify {f : EventWriter B → EventWriter B} {a : PUnit}
    (h : Yields (modify f) w a v) : v = f w := by
  obtain ⟨-, rfl⟩ := Prod.mk.inj h
  rfl

theorem ask_counts (e : WriteError) : (ask refuses e w).2 = { w with calls := w.calls + 1 } := by
  have shape : ask refuses e w = (if refuses w.calls then throw e else pure () : Writing B Unit)
      { w with calls := w.calls + 1 } := rfl
  rw [shape]
  split <;> rfl

theorem yields_ask {e : WriteError} {a : Unit} (h : Yields (ask refuses e) w a v) :
    v = { w with calls := w.calls + 1 } := by
  rw [← ask_counts e, h]

/-- A file with all its rows in row groups. -/
def OpenFile.written (file : OpenFile) : OpenFile :=
  if file.rows = [] then file else { file with groups := file.groups ++ [file.rows], rows := [] }

@[simp] theorem written_key : file.written.key = file.key := by
  rw [OpenFile.written]
  split <;> rfl

@[simp] theorem written_rowsTotal : file.written.rowsTotal = file.rowsTotal := by
  rw [OpenFile.written]
  split <;> rfl

@[simp] theorem written_rows : file.written.rows = [] := by
  rw [OpenFile.written]
  split
  · assumption
  · rfl

/-- All rows of a file in their order. -/
def OpenFile.allRows (file : OpenFile) : List Row := file.groups.flatten ++ file.rows

theorem written_groups : file.written.groups.flatten = file.allRows := by
  rw [OpenFile.written, OpenFile.allRows]
  split
  · rename_i empty
    rw [empty, List.append_nil]
  · simp

theorem written_allRows : file.written.allRows = file.allRows := by
  rw [OpenFile.allRows, written_rows, List.append_nil, written_groups]

theorem yields_flush (h : Yields (flushRowGroup refuses file) w flushed v) :
    flushed = file.written ∧ ∃ n, v = { w with calls := n } := by
  rw [flushRowGroup] at h
  rw [OpenFile.written]
  split at h
  · rename_i empty
    obtain ⟨rfl, rfl⟩ := yields_pure h
    exact ⟨(if_pos empty).symm, w.calls, rfl⟩
  · rename_i some_row
    obtain ⟨_, u, first, h⟩ := yields_bind h
    obtain ⟨_, t, second, h⟩ := yields_bind h
    obtain ⟨rfl, rfl⟩ := yields_pure h
    obtain rfl := yields_ask first
    obtain rfl := yields_ask second
    exact ⟨(if_neg some_row).symm, _, rfl⟩

variable (parquet) in
/-- A partition's open file is in the store. -/
def EventWriter.stored (w : EventWriter B) (partition : Key) (file : OpenFile) :
    EventWriter B :=
  { w with
    objects := w.objects.insert file.key (parquet.encode file.written.groups)
    opened := w.opened.remove partition
    counters := (w.counters.setOpenFiles (w.opened.remove partition).size).recordFile
      file.rowsTotal (parquet.size (parquet.encode file.written.groups)) }

/-- The next part of a directory, known or listed. -/
def nextPartOf (w : EventWriter B) (dir : Key) : Nat :=
  (w.parts.find? dir).getD (nextPart (Objects.list w.objects dir))

/-- The directory that an event's partition has at its wall reading. -/
def dirOf (w : EventWriter B) (event : MarketEvent) : Key :=
  dirFor w.keyPrefix (partitionFor event) event.ingestTs.wall

/-- The key of the next file of an event's partition. -/
def nextKey (w : EventWriter B) (event : MarketEvent) : Key :=
  partKey (dirOf w event) (nextPartOf w (dirOf w event))

def newFile (w : EventWriter B) (event : MarketEvent) : OpenFile :=
  ⟨windowOf w.config event.ingestTs.wall, event.ingestTs, nextKey w event, [], [], 0⟩

/-- A new file is open for an event's partition. -/
def EventWriter.started (w : EventWriter B) (event : MarketEvent) : EventWriter B :=
  { w with
    opened := w.opened.insert (partitionFor event) (newFile w event)
    parts := w.parts.insert (dirOf w event) (nextPartOf w (dirOf w event) + 1)
    counters :=
      w.counters.setOpenFiles (w.opened.insert (partitionFor event) (newFile w event)).size }

/-- A successful roll stores the open file, if there is one. -/
theorem yields_roll {a : Unit} (h : Yields (roll parquet refuses partition) w a v) :
    (w.opened.find? partition = none ∧ v = w) ∨
      ∃ file n, w.opened.find? partition = some file ∧
        v = { w.stored parquet partition file with calls := n } := by
  obtain ⟨_, _, got, h⟩ := yields_bind h
  obtain ⟨rfl, rfl⟩ := yields_get got
  cases found : w.opened.find? partition with
  | none =>
    rw [found] at h
    exact .inl ⟨rfl, (yields_pure h).2.symm⟩
  | some file =>
    rw [found] at h
    obtain ⟨_, s1, removed, h⟩ := yields_bind h
    obtain rfl := yields_modify removed
    obtain ⟨flushed, s2, flush, h⟩ := yields_bind h
    obtain ⟨rfl, n, rfl⟩ := yields_flush flush
    obtain ⟨_, s3, finished, h⟩ := yields_bind h
    obtain rfl := yields_ask finished
    obtain ⟨_, s4, put, h⟩ := yields_bind h
    obtain rfl := yields_ask put
    rw [written_key, written_rowsTotal] at h
    exact .inr ⟨file, _, rfl, yields_modify h⟩

theorem yields_nextPartIn {dir : Key} {part : Nat}
    (h : Yields (nextPartIn refuses dir) w part v) :
    part = nextPartOf w dir ∧ ∃ n, v = { w with calls := n } := by
  obtain ⟨_, _, got, h⟩ := yields_bind h
  obtain ⟨rfl, rfl⟩ := yields_get got
  rw [nextPartOf]
  cases known : w.parts.find? dir with
  | some next =>
    rw [known] at h
    obtain ⟨rfl, rfl⟩ := yields_pure h
    exact ⟨rfl, w.calls, rfl⟩
  | none =>
    rw [known] at h
    obtain ⟨_, s1, listed, h⟩ := yields_bind h
    obtain rfl := yields_ask listed
    obtain ⟨rfl, rfl⟩ := yields_pure h
    exact ⟨rfl, _, rfl⟩

/-- A new file is empty and takes the next part of its directory. -/
theorem yields_startFile {window : Int} {openedAt : IngestTime}
    (h : Yields (startFile refuses partition window openedAt) w file v) :
    ∃ n, file = ⟨window, openedAt, partKey (dirFor w.keyPrefix partition openedAt.wall)
        (nextPartOf w (dirFor w.keyPrefix partition openedAt.wall)), [], [], 0⟩ ∧
      v = { w with
        calls := n
        parts := w.parts.insert (dirFor w.keyPrefix partition openedAt.wall)
          (nextPartOf w (dirFor w.keyPrefix partition openedAt.wall) + 1) } := by
  obtain ⟨_, s1, created, h⟩ := yields_bind h
  obtain rfl := yields_ask created
  obtain ⟨_, _, got, h⟩ := yields_bind h
  obtain ⟨rfl, rfl⟩ := yields_get got
  obtain ⟨part, s2, numbered, h⟩ := yields_bind h
  obtain ⟨rfl, n, rfl⟩ := yields_nextPartIn numbered
  obtain ⟨_, s3, kept, h⟩ := yields_bind h
  obtain rfl := yields_modify kept
  obtain ⟨rfl, rfl⟩ := yields_pure h
  exact ⟨n, rfl, rfl⟩

theorem yields_rotate {a : Unit} (h : Yields (rotate parquet refuses event) w a v) :
    (v = w ∧ ∀ file, w.opened.find? (partitionFor event) = some file →
        mustRotate w.config event file = false) ∨
      ∃ file n, w.opened.find? (partitionFor event) = some file ∧
        mustRotate w.config event file = true ∧
        v = { w.stored parquet (partitionFor event) file with calls := n } := by
  obtain ⟨_, _, got, h⟩ := yields_bind h
  obtain ⟨rfl, rfl⟩ := yields_get got
  cases found : w.opened.find? (partitionFor event) with
  | none =>
    rw [found] at h
    exact .inl ⟨(yields_pure h).2.symm, fun file other => by cases other⟩
  | some file =>
    rw [found] at h
    cases due : mustRotate w.config event file with
    | false =>
      rw [Option.any_some, due] at h
      refine .inl ⟨(yields_pure h).2.symm, fun other same => ?_⟩
      rwa [← Option.some.inj same]
    | true =>
      rw [Option.any_some, due] at h
      rcases yields_roll (show Yields (roll parquet refuses _) w a v from h) with
        ⟨absent, -⟩ | ⟨other, n, same, rfl⟩
      · rw [found] at absent
        cases absent
      · obtain rfl := Option.some.inj (found.symm.trans same)
        exact .inr ⟨file, n, rfl, due, rfl⟩

/-- A new file is empty and takes the next part of its directory. -/
theorem yields_ensureOpen {a : Unit} (h : Yields (ensureOpen refuses event) w a v) :
    (v = w ∧ ∃ file, w.opened.find? (partitionFor event) = some file) ∨
      (w.opened.find? (partitionFor event) = none ∧
        ∃ n, v = { w.started event with calls := n }) := by
  obtain ⟨_, _, got, h⟩ := yields_bind h
  obtain ⟨rfl, rfl⟩ := yields_get got
  cases found : w.opened.find? (partitionFor event) with
  | some file =>
    rw [found] at h
    exact .inl ⟨(yields_pure h).2.symm, file, rfl⟩
  | none =>
    rw [found] at h
    obtain ⟨file, s1, start, h⟩ := yields_bind h
    obtain ⟨n, rfl, rfl⟩ := yields_startFile start
    obtain ⟨_, _, got', h⟩ := yields_bind h
    obtain ⟨rfl, rfl⟩ := yields_get got'
    exact .inr ⟨rfl, n, yields_modify h⟩

/-- The event's rows are the last ones of its partition's file. -/
theorem yields_extend {a : Unit} (h : Yields (extend refuses event base) w a v)
    (found : w.opened.find? (partitionFor event) = some file) :
    ∃ n later opened, later.key = file.key ∧
      later.allRows = file.allRows ++ flatten event (w.eventSeq + 1) base ∧
      (∀ p, opened.find? p =
        if p = partitionFor event then some later else w.opened.find? p) ∧
      v = { w with calls := n, eventSeq := w.eventSeq + 1, opened := opened } := by
  have added : ∀ rows, (file.add rows).allRows = file.allRows ++ rows := fun rows => by
    rw [OpenFile.allRows, OpenFile.allRows, List.append_assoc]
    rfl
  obtain ⟨_, s1, counted, h⟩ := yields_bind h
  obtain rfl := yields_modify counted
  obtain ⟨_, _, got, h⟩ := yields_bind h
  obtain ⟨rfl, rfl⟩ := yields_get got
  rw [found] at h
  obtain ⟨_, s2, extended, h⟩ := yields_bind h
  obtain rfl := yields_modify extended
  split at h
  · obtain ⟨flushed, s3, flush, h⟩ := yields_bind h
    obtain ⟨rfl, n, rfl⟩ := yields_flush flush
    obtain rfl := yields_modify h
    refine ⟨n, (file.add (flatten event (w.eventSeq + 1) base)).written, _, written_key, ?_,
      fun p => ?_, rfl⟩
    · rw [written_allRows, added]
    · rw [OrderedMap.find?_insert, OrderedMap.find?_insert]
      simp only [Std.LawfulEqCmp.compare_eq_iff_eq]
      split <;> rfl
  · obtain ⟨-, rfl⟩ := yields_pure h
    refine ⟨w.calls, file.add (flatten event (w.eventSeq + 1) base), _, rfl, added _,
      fun p => ?_, rfl⟩
    rw [OrderedMap.find?_insert]
    simp only [Std.LawfulEqCmp.compare_eq_iff_eq]

/-- The state before an event is rotated, with the base it is stored under. -/
def EventWriter.based (w : EventWriter B) (event : MarketEvent) : EventWriter B :=
  { w with base := some (w.base.getD event.ingestTs) }

/-- A successful append rotates, opens and extends. -/
theorem yields_append {a : Unit} (h : Yields (append parquet refuses event) w a v) :
    ∃ s1 s2, Yields (rotate parquet refuses event) (w.based event) () s1 ∧
      Yields (ensureOpen refuses event) s1 () s2 ∧
      Yields (extend refuses event (w.base.getD event.ingestTs)) s2 () v := by
  obtain ⟨_, _, got, h⟩ := yields_bind h
  obtain ⟨rfl, rfl⟩ := yields_get got
  obtain ⟨_, s0, based, h⟩ := yields_bind h
  obtain ⟨-, rfl⟩ := Prod.mk.inj based
  obtain ⟨_, s1, rotated, h⟩ := yields_bind h
  obtain ⟨_, s2, ensured, h⟩ := yields_bind h
  exact ⟨s1, s2, rotated, ensured, h⟩

end Outcomes

section Failures

variable {B T S : Type} {parquet : Parquet B} {refuses : Nat → Bool} {w v : EventWriter B}
  {event : MarketEvent}

/-- A call does not count a failure, whether it succeeds or not. -/
structure Uncounted (x : Writing B T) : Prop where
  kept : ∀ w, (x w).2.counters.writeFailures = w.counters.writeFailures

theorem Uncounted.bind {x : Writing B T} {f : T → Writing B S} (hx : Uncounted x)
    (hf : ∀ a, Uncounted (f a)) : Uncounted (x >>= f) := by
  refine ⟨fun w => ?_⟩
  have before := hx.kept w
  change (ExceptT.bindCont f (x w).1 (x w).2).2.counters.writeFailures = _
  cases outcome : x w with
  | mk result u =>
    rw [outcome] at before
    cases result with
    | error e => exact before
    | ok a => exact ((hf a).kept u).trans before

theorem uncounted_pure (a : T) : Uncounted (pure a : Writing B T) := ⟨fun _ => rfl⟩

theorem uncounted_get : Uncounted (get : Writing B (EventWriter B)) := ⟨fun _ => rfl⟩

theorem uncounted_modify {f : EventWriter B → EventWriter B}
    (h : ∀ w, (f w).counters.writeFailures = w.counters.writeFailures) :
    Uncounted (modify f : Writing B PUnit) := ⟨h⟩

theorem uncounted_ask (e : WriteError) : Uncounted (ask refuses e : Writing B Unit) :=
  ⟨fun w => by rw [ask_counts]⟩

theorem uncounted_flush (file : OpenFile) : Uncounted (B := B) (flushRowGroup refuses file) := by
  rw [flushRowGroup]
  split
  · exact uncounted_pure _
  · refine (uncounted_ask _).bind fun _ => (uncounted_ask _).bind fun _ => uncounted_pure _

theorem uncounted_roll (partition : Key) : Uncounted (roll parquet refuses partition) := by
  refine uncounted_get.bind fun w => ?_
  cases w.opened.find? partition with
  | none => exact uncounted_pure _
  | some file =>
    refine .bind (uncounted_modify fun _ => rfl) fun _ => .bind (uncounted_flush file) fun _ => ?_
    refine .bind (uncounted_ask _) fun _ => .bind (uncounted_ask _) fun _ => ?_
    exact uncounted_modify fun _ => rfl

theorem uncounted_nextPartIn (dir : Key) : Uncounted (B := B) (nextPartIn refuses dir) := by
  refine uncounted_get.bind fun w => ?_
  cases w.parts.find? dir with
  | none => exact (uncounted_ask _).bind fun _ => uncounted_pure _
  | some next => exact uncounted_pure _

theorem uncounted_startFile (partition : Key) (window : Int) (openedAt : IngestTime) :
    Uncounted (B := B) (startFile refuses partition window openedAt) := by
  refine .bind (uncounted_ask _) fun _ => .bind uncounted_get fun _ => ?_
  refine .bind (uncounted_nextPartIn _) fun _ => .bind (uncounted_modify fun _ => rfl) fun _ => ?_
  exact uncounted_pure _

theorem uncounted_append : Uncounted (append parquet refuses event) := by
  have rotated : Uncounted (rotate parquet refuses event) := by
    refine uncounted_get.bind fun w => ?_
    split
    · exact uncounted_roll _
    · exact uncounted_pure _
  have ensured : Uncounted (B := B) (ensureOpen refuses event) := by
    refine uncounted_get.bind fun w => ?_
    split
    · refine .bind (uncounted_startFile _ _ _) fun _ => .bind uncounted_get fun _ => ?_
      exact uncounted_modify fun _ => rfl
    · exact uncounted_pure _
  have extended : ∀ base, Uncounted (B := B) (extend refuses event base) := by
    intro base
    refine .bind (uncounted_modify fun _ => rfl) fun _ => .bind uncounted_get fun w => ?_
    cases w.opened.find? (partitionFor event) with
    | none => exact uncounted_pure _
    | some file =>
      refine .bind (uncounted_modify fun _ => rfl) fun _ => ?_
      split
      · exact .bind (uncounted_flush _) fun _ => uncounted_modify fun _ => rfl
      · exact uncounted_pure _
  refine ⟨fun w => ?_⟩
  have later : Uncounted (rotate parquet refuses event >>= fun _ =>
      ensureOpen refuses event >>= fun _ => extend refuses event (w.base.getD event.ingestTs)) :=
    .bind rotated fun _ => .bind ensured fun _ => extended _
  exact later.kept (w.based event)

variable {x : Writing B Unit}

/-- Either a call succeeds or one failure is counted. -/
theorem attempt_cases (uncounted : Uncounted x) (w : EventWriter B) :
    Yields x w () (attempt x w).2 ∨
      (attempt x w).2.counters.writeFailures = w.counters.writeFailures + 1 := by
  have same := uncounted.kept w
  rw [Yields, attempt, ExceptT.mk]
  cases outcome : x w with
  | mk result u =>
    rw [outcome] at same
    cases result with
    | ok a => exact .inl rfl
    | error e => exact .inr (congrArg (· + 1) same)

theorem attempt_grows (uncounted : Uncounted x) (w : EventWriter B) :
    w.counters.writeFailures ≤ (attempt x w).2.counters.writeFailures := by
  rcases attempt_cases uncounted w with done | failed
  · have same := uncounted.kept w
    rw [done] at same
    exact Nat.le_of_eq same.symm
  · omega

theorem attempt_quiet (uncounted : Uncounted x)
    (quiet : (attempt x w).2.counters.writeFailures = w.counters.writeFailures) :
    Yields x w () (attempt x w).2 :=
  (attempt_cases uncounted w).resolve_right (by omega)

variable (parquet refuses) in
/-- The state after a partition's file was closed or lost. -/
def closeStep (w : EventWriter B) (partition : Key) : EventWriter B :=
  (attempt (roll parquet refuses partition) w).2

variable (parquet refuses) in
theorem closeAll_state (partitions : List Key) (w : EventWriter B) :
    ∃ first, closeAll parquet refuses partitions w =
      (.ok first, exec (closeStep parquet refuses) w partitions) := by
  induction partitions generalizing w with
  | nil => exact ⟨none, rfl⟩
  | cons partition partitions ih =>
    obtain ⟨first, head⟩ : ∃ first, attempt (roll parquet refuses partition) w =
        (.ok first, closeStep parquet refuses w partition) := by
      rw [closeStep, attempt, ExceptT.mk]
      cases outcome : roll parquet refuses partition w with
      | mk result u => cases result <;> exact ⟨_, rfl⟩
    obtain ⟨later, tail⟩ := ih (closeStep parquet refuses w partition)
    refine ⟨first.or later, ?_⟩
    change (ExceptT.bindCont _ (attempt (roll parquet refuses partition) w).1 :
      StateM (EventWriter B) _) (attempt (roll parquet refuses partition) w).2 = _
    rw [head]
    change (ExceptT.bindCont _ (closeAll parquet refuses partitions _).1 :
      StateM (EventWriter B) _) (closeAll parquet refuses partitions _).2 = _
    rw [tail]
    rfl

/-- A run appends all events and then closes every partition that is open. -/
theorem run_eq (events : List MarketEvent) (w : EventWriter B) :
    run parquet refuses events w = exec (closeStep parquet refuses)
      (exec (step parquet refuses) w events)
      ((exec (step parquet refuses) w events).opened.entries.map Prod.fst) := by
  generalize last : exec (step parquet refuses) w events = u
  obtain ⟨first, all⟩ := closeAll_state parquet refuses (u.opened.entries.map Prod.fst) u
  have closed : close parquet refuses u =
      (ExceptT.bindCont (fun first => first.elim (pure ()) throw)
        (closeAll parquet refuses (u.opened.entries.map Prod.fst) u).1 : StateM (EventWriter B) _)
          (closeAll parquet refuses (u.opened.entries.map Prod.fst) u).2 := rfl
  rw [run, ← exec, last, closed, all]
  cases first <;> rfl

def failures (w : EventWriter B) : Nat := w.counters.writeFailures

variable (parquet refuses) in
theorem step_grows (w : EventWriter B) (event : MarketEvent) :
    failures w ≤ failures (step parquet refuses w event) :=
  attempt_grows uncounted_append w

variable (parquet refuses) in
theorem closeStep_grows (w : EventWriter B) (partition : Key) :
    failures w ≤ failures (closeStep parquet refuses w partition) :=
  attempt_grows (uncounted_roll partition) w

/-- In a run that counts no failure every append and every final roll succeeds. -/
theorem quiet_run {events : List MarketEvent}
    (quiet : failures (run parquet refuses events w) = failures w) :
    Meets (step parquet refuses)
        (fun w event => Yields (append parquet refuses event) w () (step parquet refuses w event))
        w events ∧
      Meets (closeStep parquet refuses) (fun w partition =>
          Yields (roll parquet refuses partition) w () (closeStep parquet refuses w partition))
        (exec (step parquet refuses) w events)
        ((exec (step parquet refuses) w events).opened.entries.map Prod.fst) := by
  rw [run_eq] at quiet
  generalize keys : (exec (step parquet refuses) w events).opened.entries.map Prod.fst = partitions
  rw [keys] at quiet
  have appended := exec_grows (step_grows parquet refuses) w events
  have closed := exec_grows (closeStep_grows parquet refuses)
    (exec (step parquet refuses) w events) partitions
  constructor
  · exact (meets_of_flat (step_grows parquet refuses) (by omega)).mono
      fun w event flat => attempt_quiet uncounted_append flat
  · exact (meets_of_flat (closeStep_grows parquet refuses) (by omega)).mono
      fun w partition flat => attempt_quiet (uncounted_roll partition) flat

end Failures

end ArchiveWriter

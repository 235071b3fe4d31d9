import MarketAggregator.ArchiveRuns

/-!
# The puts of a writer

A roll finishes a file and then issues at most one put. A put that fails may have stored
its object all the same, which is up to the environment. A session is the life of one
writer, from its start to a restart, and finds the objects that earlier ones left.
-/

namespace ArchivePuts

open ArchiveKeys ArchiveReader ArchiveRows ArchiveRuns ArchiveWriter Clocks GuardedRuns
  MarketEvents OrderedMaps

section Ending

variable {B T S : Type} {x : Writing B T} {f : T → Writing B S} {w : EventWriter B}
  {ok more : T → EventWriter B → Prop} {done : S → EventWriter B → Prop}
  {failed less : EventWriter B → Prop}

/-- What holds where a call ends, when it succeeds and when it fails. -/
def Ends (x : Writing B T) (w : EventWriter B) (ok : T → EventWriter B → Prop)
    (failed : EventWriter B → Prop) : Prop :=
  match x w with
  | (.ok a, v) => ok a v
  | (.error _, v) => failed v

theorem Ends.bind (h : Ends x w (fun a v => Ends (f a) v done failed) failed) :
    Ends (x >>= f) w done failed := by
  rw [Ends] at h
  change match (ExceptT.bindCont f (x w).1 : StateM _ _) (x w).2 with
    | (.ok a, v) => done a v
    | (.error _, v) => failed v
  cases outcome : x w with
  | mk result u =>
    rw [outcome] at h
    cases result with
    | error e => exact h
    | ok a => exact h

theorem Ends.mono (h : Ends x w ok failed) (good : ∀ a v, ok a v → more a v)
    (bad : ∀ v, failed v → less v) : Ends x w more less := by
  rw [Ends] at h ⊢
  cases outcome : x w with
  | mk result u =>
    rw [outcome] at h
    cases result with
    | error e => exact bad u h
    | ok a => exact good a u h

theorem ends_pure {a : T} (h : ok a w) : Ends (pure a) w ok failed := h

theorem ends_get {ok : EventWriter B → EventWriter B → Prop} (h : ok w w) :
    Ends get w ok failed := h

theorem ends_modify {g : EventWriter B → EventWriter B} {ok : PUnit → EventWriter B → Prop}
    (h : ok ⟨⟩ (g w)) : Ends (modify g) w ok failed := h

theorem ends_ask {refuses : Nat → Bool} {e : WriteError} {ok : Unit → EventWriter B → Prop}
    (good : refuses w.calls = false → ok () { w with calls := w.calls + 1 })
    (bad : refuses w.calls = true → failed { w with calls := w.calls + 1 }) :
    Ends (ask refuses e) w ok failed := by
  have shape : ask refuses e w = (if refuses w.calls then throw e else pure () : Writing B Unit)
      { w with calls := w.calls + 1 } := rfl
  rw [Ends, shape]
  cases refused : refuses w.calls with
  | true => exact bad refused
  | false => exact good refused

/-- A failure is counted where a call fails. -/
theorem Ends.attempt {x : Writing B Unit} {P : EventWriter B → Prop}
    (h : Ends x w (fun _ => P) fun v => P { v with counters := v.counters.recordFailure }) :
    P (attempt x w).2 := by
  rw [Ends] at h
  rw [ArchiveWriter.attempt, ExceptT.mk]
  cases outcome : x w with
  | mk result u =>
    rw [outcome] at h
    cases result with
    | ok a => exact h
    | error e => exact h

end Ending

section Puts

variable {B : Type} (parquet : Parquet B) (refuses keeps : Nat → Bool)

/-- A put with the number of its call and the objects that it finds. -/
structure Put (B : Type) where
  call : Nat
  found : Objects B
  key : Key
  bytes : B
  failed : Bool

/-- A partition's file is closed and finished, if it is open. -/
def finish (partition : Key) : Writing B (Option OpenFile) := do
  let w ← get
  match w.opened.find? partition with
  | none => pure none
  | some file =>
    setOpened (w.opened.remove partition)
    let file ← flushRowGroup refuses file
    ask refuses .parquet
    pure (some file)

/-- Hand a finished file to the store. -/
def putFile (file : OpenFile) : Writing B Unit := do
  ask refuses .store
  let bytes := parquet.encode file.groups
  modify fun w =>
    { w with
      objects := w.objects.insert file.key bytes
      counters := w.counters.recordFile file.rowsTotal (parquet.size bytes) }

/-- A roll's put is the last thing it does. -/
theorem roll_eq (partition : Key) : roll parquet refuses partition =
    finish refuses partition >>= fun file => file.elim (pure ()) (putFile parquet refuses) := by
  rw [roll, finish, bind_assoc]
  congr 1
  funext w
  cases w.opened.find? partition with
  | none => rfl
  | some file =>
    simp only [bind_assoc, pure_bind]
    rfl

/-- The put that a roll comes to. -/
def putOf (w : EventWriter B) (partition : Key) : Option (Put B) :=
  match finish refuses partition w with
  | (.ok (some file), v) =>
    some ⟨v.calls, v.objects, file.key, parquet.encode file.groups, refuses v.calls⟩
  | _ => none

/-- The state after a put, which may have failed and stored its object nevertheless. -/
def settle (w : EventWriter B) (put : Put B) : EventWriter B :=
  if put.failed = true ∧ keeps put.call = true then
    { w with objects := w.objects.insert put.key put.bytes }
  else w

def settled (w : EventWriter B) (put : Option (Put B)) : EventWriter B :=
  put.elim w (settle keeps w)

/-- Closing is a roll of every partition that is open. -/
inductive Move where
  | append (event : MarketEvent)
  | roll (partition : Key)

def Move.put (w : EventWriter B) : Move → Option (Put B)
  | .append event =>
    if (w.opened.find? (partitionFor event)).any (mustRotate w.config event) then
      putOf parquet refuses (w.based event) (partitionFor event)
    else none
  | .roll partition => putOf parquet refuses w partition

def Move.next (w : EventWriter B) : Move → EventWriter B
  | .append event => step parquet refuses w event
  | .roll partition => closeStep parquet refuses w partition

/-- A writer with the puts that it has issued. -/
structure Progress (B : Type) where
  writer : EventWriter B
  puts : List (Put B)

def Progress.act (s : Progress B) (m : Move) : Progress B where
  writer := settled keeps (m.next parquet refuses s.writer) (m.put parquet refuses s.writer)
  puts := s.puts ++ (m.put parquet refuses s.writer).toList

inductive Action where
  | append (event : MarketEvent)
  | close

def Action.moves (w : EventWriter B) : Action → List Move
  | .append event => [.append event]
  | .close => (w.opened.entries.map Prod.fst).map .roll

def Progress.perform (s : Progress B) (a : Action) : Progress B :=
  exec (Progress.act parquet refuses keeps) s (a.moves s.writer)

/-- The state after an append or a close of the writer. -/
def Action.next (w : EventWriter B) : Action → EventWriter B
  | .append event => step parquet refuses w event
  | .close => (ArchiveWriter.close parquet refuses w).2

end Puts

section Sessions

variable {B : Type} (parquet : Parquet B) (raw : Key)

/-- The life of a writer: which calls fail, which failed puts are kept, and what it is told. -/
structure Session where
  config : WriterConfig
  counters : ArchiveCounters
  refuses : Nat → Bool
  keeps : Nat → Bool
  actions : List Action

/-- A session after some actions. -/
def Session.after (session : Session) (objects : Objects B) (actions : List Action) :
    Progress B :=
  exec (Progress.perform parquet session.refuses session.keeps)
    ⟨opening objects raw session.config session.counters, []⟩ actions

def Session.left (objects : Objects B) (session : Session) : Objects B :=
  (session.after parquet raw objects session.actions).writer.objects

/-- What the store holds after some sessions under one prefix. -/
def leftBy (objects : Objects B) (sessions : List Session) : Objects B :=
  exec (Session.left parquet raw) objects sessions

def Action.appends : Action → Nat
  | .append _ => 1
  | .close => 0

def Session.appends (session : Session) : Nat := (session.actions.map Action.appends).sum

end Sessions

section Faithful

variable {B : Type} {parquet : Parquet B} {refuses keeps : Nat → Bool} {w v : EventWriter B}
  {file : OpenFile} {partition : Key} {event : MarketEvent}

theorem ends_flush : Ends (flushRowGroup refuses file) w
    (fun flushed v => flushed = file.written ∧ ∃ n, v = { w with calls := n })
    (fun v => ∃ n, v = { w with calls := n }) := by
  rw [flushRowGroup, OpenFile.written]
  split
  · exact ends_pure ⟨rfl, w.calls, rfl⟩
  · refine .bind (ends_ask (fun _ => ?_) fun _ => ⟨_, rfl⟩)
    refine .bind (ends_ask (fun _ => ?_) fun _ => ⟨_, rfl⟩)
    exact ends_pure ⟨rfl, _, rfl⟩

theorem ends_nextPartIn {dir : Key} : Ends (nextPartIn refuses dir) w
    (fun part v => part = nextPartOf w dir ∧ ∃ n, v = { w with calls := n })
    (fun v => ∃ n, v = { w with calls := n }) := by
  refine .bind (ends_get ?_)
  rw [nextPartOf]
  cases w.parts.find? dir with
  | some next => exact ends_pure ⟨rfl, w.calls, rfl⟩
  | none =>
    refine .bind (ends_ask (fun _ => ?_) fun _ => ⟨_, rfl⟩)
    exact ends_pure ⟨rfl, _, rfl⟩

/-- The state after a partition's file was closed, and maybe finished. -/
def taken (w : EventWriter B) (partition : Key) (n : Nat) : EventWriter B :=
  { w with
    opened := w.opened.remove partition
    counters := w.counters.setOpenFiles (w.opened.remove partition).size
    calls := n }

theorem ends_finish : Ends (finish refuses partition) w
    (fun out v => w.opened.find? partition = none ∧ out = none ∧ v = w ∨
      ∃ file n, w.opened.find? partition = some file ∧ out = some file.written ∧
        v = taken w partition n)
    (fun v => ∃ file n, w.opened.find? partition = some file ∧ v = taken w partition n) := by
  refine .bind (ends_get ?_)
  cases found : w.opened.find? partition with
  | none => exact ends_pure (.inl ⟨rfl, rfl, rfl⟩)
  | some file =>
    refine .bind (ends_modify (.bind (ends_flush.mono ?_ ?_)))
    · rintro flushed v ⟨rfl, n, rfl⟩
      refine .bind (ends_ask (fun _ => ?_) fun _ => ⟨file, _, rfl, rfl⟩)
      exact ends_pure (.inr ⟨file, _, rfl, rfl, rfl⟩)
    · rintro v ⟨n, rfl⟩
      exact ⟨file, n, rfl, rfl⟩

/-- What a put that was issued does to the store, as the writer knows. -/
def Put.stored (put : Put B) : Objects B :=
  if put.failed then put.found else put.found.insert put.key put.bytes

end Faithful

end ArchivePuts

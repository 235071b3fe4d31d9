import MarketAggregator.BitstampSplice
import MarketAggregator.DropAccounting
import MarketAggregator.TapeTee

/-!
# Streams that were released

The supervisor releases a stream in three steps: it signals the task, aborts it and sends the
end of the session in the task's place. It waits for nothing between them. An aborted task is
polled no more, but a poll that is under way on another worker runs on to its next await point.
A task is at work from the moment it has looked at its shutdown to the await point after it,
and what it has read it sends. So the end of a session is the last that a task is heard of
when no task is at work at that moment.
-/

namespace ReleasedStreams

open AggregatorApply Clocks Decimals DropAccounting GuardedRuns MarketEvents OrderedMaps TapeTee
  VenueBooks VenueStreams

universe u v

inductive Phase where
  | parked
  | selecting
  | working
  | gone
  deriving DecidableEq

/-- An ingest task, with what its supervisor has done to it. -/
structure Task where
  stream : StreamId
  phase : Phase
  signalled : Bool
  aborted : Bool

namespace Task

/-- A poll resumes at the select, or inside an await that does not look at the shutdown. -/
def poll (inside : Bool) (t : Task) : Task :=
  if t.phase = .parked ∧ t.aborted = false then
    { t with phase := if inside then .working else .selecting }
  else t

/-- The select is biased: the shutdown is its first branch. -/
def look (t : Task) : Task :=
  if t.phase = .selecting then { t with phase := if t.signalled then .gone else .working } else t

/-- The end of a piece of work: back to the select, to an await that is not ready, or out. -/
def leave (next : Phase) (t : Task) : Task :=
  if t.phase = .working then { t with phase := next } else t

def signal (t : Task) : Task := { t with signalled := true }

def abort (t : Task) : Task := { t with aborted := true }

end Task

/-- What is sent, with the task that says it or that it is said of. -/
inductive Entry where
  | said (task : Nat) (message : IngestMessage)
  | ended (task : Option Nat) (stream : StreamId) (now : IngestTime)

namespace Entry

def message : Entry → IngestMessage
  | .said _ message => message
  | .ended _ stream now => .sessionEnded stream now .errored

def task : Entry → Option Nat
  | .said i _ => some i
  | .ended i _ _ => i

end Entry

/-- How far the release of a task has come. -/
inductive Stage where
  | idle
  | signalled (stream : StreamId) (task : Nat)
  | aborted (stream : StreamId) (task : Nat)

structure Node where
  tasks : List Task
  supervisor : Supervisor
  stage : Stage
  ledger : Ledger Entry

inductive Act where
  | poll (i : Nat) (inside : Bool)
  | look (i : Nat)
  | emit (i : Nat) (said : Said)
  | leave (i : Nat) (next : Phase)
  | reconcile (owned : OrderedSet StreamId StreamId.cmp)
  | supervise (now : IngestTime) (spawned : Bool)
  | receive
  | hangUp

namespace Node

def start (capacity : Nat) (positive : 0 < capacity) : Node where
  tasks := []
  supervisor := ⟨.empty, []⟩
  stage := .idle
  ledger := .bounded capacity positive

def modify (s : Node) (i : Nat) (f : Task → Task) : Node := { s with tasks := s.tasks.modify i f }

def send (s : Node) (entry : Entry) : Node := { s with ledger := s.ledger.send entry }

def emit (s : Node) (i : Nat) (said : Said) : Node :=
  match s.tasks[i]? with
  | some t => if t.phase = .working then s.send (.said i (said.message t.stream)) else s
  | none => s

/-- One step of a pass. The task of a stream that is released is not waited for. -/
def supervise (s : Node) (now : IngestTime) (spawned : Bool) : Node :=
  match s.stage with
  | .signalled stream i => { s.modify i .abort with stage := .aborted stream i }
  | .aborted stream i => { s with stage := .idle }.send (.ended (some i) stream now)
  | .idle =>
    match s.supervisor with
    | ⟨running, .release stream :: pending⟩ =>
      match running.find? stream with
      | some i =>
        { s.modify i .signal with
          supervisor := ⟨running.remove stream, pending⟩
          stage := .signalled stream i }
      | none => { s with supervisor := ⟨running, pending⟩ }.send (.ended none stream now)
    | ⟨running, .acquire stream :: pending⟩ =>
      if (running.find? stream).isSome || !spawned then
        { s with supervisor := ⟨running, pending⟩ }
      else
        { s with
          tasks := s.tasks ++ [⟨stream, .parked, false, false⟩]
          supervisor := ⟨running.insert stream s.tasks.length, pending⟩ }
    | ⟨_, []⟩ => s

def reconcile (s : Node) (owned : OrderedSet StreamId StreamId.cmp) : Node :=
  match s.stage, s.supervisor.pending with
  | .idle, [] => { s with supervisor := s.supervisor.reconcile owned }
  | _, _ => s

def step (s : Node) : Act → Node
  | .poll i inside => s.modify i (.poll inside)
  | .look i => s.modify i .look
  | .emit i said => s.emit i said
  | .leave i next => s.modify i (.leave next)
  | .reconcile owned => s.reconcile owned
  | .supervise now spawned => s.supervise now spawned
  | .receive => { s with ledger := s.ledger.receive }
  | .hangUp => { s with ledger := s.ledger.close }

end Node

/-- When the supervisor ends the session of a task, the task is not at work. -/
def Settled (s : Node) : Act → Prop
  | .supervise _ _ => ∀ x i t, s.stage = .aborted x i → s.tasks[i]? = some t → t.phase ≠ .working
  | _ => True

section Books

variable {σ : Type u} {ω : Type v} (v : VenueSync σ) (arith : DecimalArith) (ops : WindowOps ω)

/-- The aggregator after it was told these messages. -/
def told (agg : Aggregator σ ω) (messages : List IngestMessage) : Aggregator σ ω :=
  messages.foldl (fun agg message => (apply v arith ops agg message).1) agg

/-- A released stream stays released: the end of its session is the last entry of its task, and
its book is not live once the end is applied, unless the stream was acquired again. -/
structure StaysReleased (agg : Aggregator σ ω) (s : Node) : Prop where
  last : ∀ before i x now after,
    s.ledger.accepted = before ++ .ended (some i) x now :: after → ∀ m, .said i m ∉ after
  down : ∀ before i x now after,
    s.ledger.received = before ++ .ended (some i) x now :: after →
      (∀ j t, i < j → s.tasks[j]? = some t → t.stream ≠ x) →
        ∀ st, (told v arith ops agg (s.ledger.received.map Entry.message)).streams.find? x =
          some st → st.book.book.state.isLive = false

end Books

/-- Signalled, aborted and not at work: nothing more comes of it. -/
def Task.Silent (t : Task) : Prop := t.signalled = true ∧ t.aborted = true ∧ t.phase ≠ .working

/-- What no step takes back from a task. -/
structure Task.Kept (t u : Task) : Prop where
  stream : u.stream = t.stream
  signalled : t.signalled = true → u.signalled = true
  aborted : t.aborted = true → u.aborted = true
  silent : t.Silent → u.Silent

namespace Task.Kept

theorem refl (t : Task) : Kept t t := ⟨rfl, id, id, id⟩

theorem poll (inside : Bool) (t : Task) : Kept t (t.poll inside) := by
  rw [Task.poll]
  split
  · rename_i polled
    refine ⟨rfl, id, id, ?_⟩
    rintro ⟨_, aborted, _⟩
    rw [polled.2] at aborted
    cases aborted
  · exact refl t

theorem look (t : Task) : Kept t t.look := by
  rw [Task.look]
  split
  · refine ⟨rfl, id, id, ?_⟩
    rintro ⟨signalled, aborted, _⟩
    refine ⟨signalled, aborted, ?_⟩
    rw [signalled]
    exact Phase.noConfusion
  · exact refl t

theorem leave (next : Phase) (t : Task) : Kept t (t.leave next) := by
  rw [Task.leave]
  split
  · rename_i working
    exact ⟨rfl, id, id, fun silent => absurd working silent.2.2⟩
  · exact refl t

theorem signal (t : Task) : Kept t t.signal :=
  ⟨rfl, fun _ => rfl, id, fun silent => ⟨rfl, silent.2⟩⟩

theorem abort (t : Task) : Kept t t.abort :=
  ⟨rfl, id, fun _ => rfl, fun silent => ⟨silent.1, rfl, silent.2.2⟩⟩

end Task.Kept

/-- The stream and the task of the release that is under way. -/
def Stage.release : Stage → Option (StreamId × Nat)
  | .idle => none
  | .signalled stream i => some (stream, i)
  | .aborted stream i => some (stream, i)

/-- The task runs for the supervisor, or is the one that it is letting go. -/
def Node.Holds (s : Node) (x : StreamId) (i : Nat) : Prop :=
  s.supervisor.running.find? x = some i ∨ s.stage.release = some (x, i)

def Node.Has (s : Node) (i : Nat) (x : StreamId) : Prop :=
  ∃ t, s.tasks[i]? = some t ∧ t.stream = x

/-- What comes after the end of a task's session on its stream is of a later task. -/
def After (e f : Entry) : Prop :=
  ∀ i x now, e = .ended (some i) x now → f.message.stream = x → ∀ j, f.task = some j → i < j

/-- The entry is one that the node may send now. -/
structure Fits (s : Node) (entry : Entry) : Prop where
  own : ∀ i m, entry = .said i m → s.Has i m.stream
  quiet : ∀ i x now, entry = .ended (some i) x now →
    ∃ t, s.tasks[i]? = some t ∧ t.stream = x ∧ t.Silent
  fresh : ∀ i x now, entry = .ended (some i) x now → ∀ j, s.Holds x j → i < j
  later : ∀ e ∈ s.ledger.accepted, After e entry

/-- Every task that may still speak is held, and what was ended is silent and earlier. -/
structure Inv (s : Node) : Prop where
  known : ∀ x i, s.Holds x i → s.Has i x
  signalled : ∀ x i t, s.stage.release = some (x, i) → s.tasks[i]? = some t → t.signalled = true
  aborted : ∀ x i t, s.stage = .aborted x i → s.tasks[i]? = some t → t.aborted = true
  alone : ∀ x i, s.stage.release = some (x, i) → s.supervisor.running.find? x = none
  active : ∀ i t, s.tasks[i]? = some t → s.Holds t.stream i ∨ t.Silent
  own : ∀ i m, .said i m ∈ s.ledger.accepted → s.Has i m.stream
  quiet : ∀ i x now, .ended (some i) x now ∈ s.ledger.accepted →
    ∃ t, s.tasks[i]? = some t ∧ t.stream = x ∧ t.Silent
  fresh : ∀ i x now, .ended (some i) x now ∈ s.ledger.accepted → ∀ j, s.Holds x j → i < j
  ordered : s.ledger.accepted.Pairwise After

section Steps

variable {s : Node} {x : StreamId} {i : Nat}

theorem forth_modify (i : Nat) {f : Task → Task} (kept : ∀ t, Task.Kept t (f t)) {j : Nat}
    {t : Task} (here : s.tasks[j]? = some t) :
    ∃ u, (s.modify i f).tasks[j]? = some u ∧ Task.Kept t u := by
  rw [Node.modify]
  by_cases same : i = j
  · subst same
    rw [List.getElem?_modify_eq, here]
    exact ⟨f t, rfl, kept t⟩
  · rw [List.getElem?_modify_ne f s.tasks same]
    exact ⟨t, here, .refl t⟩

theorem back_modify (i : Nat) {f : Task → Task} (kept : ∀ t, Task.Kept t (f t)) {j : Nat}
    {u : Task} (here : (s.modify i f).tasks[j]? = some u) :
    ∃ t, s.tasks[j]? = some t ∧ Task.Kept t u := by
  cases before : s.tasks[j]? with
  | none =>
    rw [Node.modify, List.getElem?_modify, before] at here
    cases here
  | some t =>
    obtain ⟨u', there, kept⟩ := forth_modify i kept before
    rw [here] at there
    cases there
    exact ⟨t, rfl, kept⟩

theorem inv_modify (inv : Inv s) (i : Nat) {f : Task → Task} (kept : ∀ t, Task.Kept t (f t)) :
    Inv (s.modify i f) := by
  have has : ∀ j y, s.Has j y → (s.modify i f).Has j y := by
    rintro j y ⟨t, here, rfl⟩
    obtain ⟨u, there, moved⟩ := forth_modify i kept here
    exact ⟨u, there, moved.stream⟩
  constructor
  · exact fun y j holds => has j y (inv.known y j holds)
  · intro y j u staged here
    obtain ⟨t, there, moved⟩ := back_modify i kept here
    exact moved.signalled (inv.signalled y j t staged there)
  · intro y j u staged here
    obtain ⟨t, there, moved⟩ := back_modify i kept here
    exact moved.aborted (inv.aborted y j t staged there)
  · exact inv.alone
  · intro j u here
    obtain ⟨t, there, moved⟩ := back_modify i kept here
    rcases inv.active j t there with holds | silent
    · left
      rw [moved.stream]
      exact holds
    · exact .inr (moved.silent silent)
  · exact fun j m said => has j _ (inv.own j m said)
  · intro j y now ended
    obtain ⟨t, here, stream, silent⟩ := inv.quiet j y now ended
    obtain ⟨u, there, moved⟩ := forth_modify i kept here
    exact ⟨u, there, moved.stream.trans stream, moved.silent silent⟩
  · exact inv.fresh
  · exact inv.ordered

theorem accepted_send (s : Node) (entry : Entry) :
    (s.send entry).ledger.accepted = s.ledger.accepted ∨
      (s.send entry).ledger.accepted = s.ledger.accepted ++ [entry] := by
  rw [Node.send]
  rcases s.ledger.send_cases entry with ⟨_, sent⟩ | ⟨_, _, sent⟩ | ⟨_, _, _, _, _, sent⟩
  · exact .inl (by rw [sent])
  · exact .inr (by rw [sent])
  · exact .inr (by rw [sent])

/-- A step that leaves the tasks, what was accepted and who is held keeps the invariant if what
it says of the release under way is true. -/
theorem inv_restaged (inv : Inv s) {t : Node} (tasks : t.tasks = s.tasks)
    (accepted : t.ledger.accepted = s.ledger.accepted)
    (holds : ∀ y j, t.Holds y j ↔ s.Holds y j)
    (signalled : ∀ y j u, t.stage.release = some (y, j) → t.tasks[j]? = some u →
      u.signalled = true)
    (aborted : ∀ y j u, t.stage = .aborted y j → t.tasks[j]? = some u → u.aborted = true)
    (alone : ∀ y j, t.stage.release = some (y, j) → t.supervisor.running.find? y = none) :
    Inv t := by
  have has : ∀ j y, s.Has j y → t.Has j y := by
    rintro j y ⟨u, here, stream⟩
    exact ⟨u, tasks ▸ here, stream⟩
  refine ⟨?_, signalled, aborted, alone, ?_, ?_, ?_, ?_, ?_⟩
  · exact fun y j held => has j y (inv.known y j ((holds y j).mp held))
  · exact fun j u here => (inv.active j u (tasks ▸ here)).imp_left (holds _ j).mpr
  · exact fun j m said => has j _ (inv.own j m (accepted ▸ said))
  · intro j y now ended
    obtain ⟨u, here, own⟩ := inv.quiet j y now (accepted ▸ ended)
    exact ⟨u, tasks ▸ here, own⟩
  · exact fun j y now ended k held => inv.fresh j y now (accepted ▸ ended) k ((holds y k).mp held)
  · exact accepted ▸ inv.ordered

/-- A step that moves no task and no release keeps the invariant with what was accepted. -/
theorem inv_ledger (inv : Inv s) {t : Node} (tasks : t.tasks = s.tasks)
    (running : t.supervisor.running = s.supervisor.running) (stage : t.stage = s.stage)
    (accepted : t.ledger.accepted = s.ledger.accepted) : Inv t := by
  refine inv_restaged inv tasks accepted ?_ ?_ ?_ ?_
  · intro y j
    rw [Node.Holds, Node.Holds, running, stage]
  · exact fun y j u staged here => inv.signalled y j u (stage ▸ staged) (tasks ▸ here)
  · exact fun y j u staged here => inv.aborted y j u (stage ▸ staged) (tasks ▸ here)
  · exact fun y j staged => running ▸ inv.alone y j (stage ▸ staged)

theorem inv_send (inv : Inv s) {entry : Entry} (fits : Fits s entry) : Inv (s.send entry) := by
  rcases accepted_send s entry with same | more
  · exact inv_ledger inv rfl rfl rfl same
  · have mem : ∀ e ∈ (s.send entry).ledger.accepted, e ∈ s.ledger.accepted ∨ e = entry := by
      intro e there
      rw [more, List.mem_append, List.mem_singleton] at there
      exact there
    constructor
    · exact inv.known
    · exact inv.signalled
    · exact inv.aborted
    · exact inv.alone
    · exact inv.active
    · intro j m said
      rcases mem _ said with before | now
      · exact inv.own j m before
      · exact fits.own j m now.symm
    · intro j y now ended
      rcases mem _ ended with before | last
      · exact inv.quiet j y now before
      · exact fits.quiet j y now last.symm
    · intro j y now ended
      rcases mem _ ended with before | last
      · exact inv.fresh j y now before
      · exact fits.fresh j y now last.symm
    · rw [more, List.pairwise_append]
      refine ⟨inv.ordered, List.pairwise_singleton .., ?_⟩
      intro e before f last
      rw [List.mem_singleton.mp last]
      exact fits.later e before

/-- A task at work is held, so it speaks after every end of an earlier session. -/
theorem inv_emit (inv : Inv s) (i : Nat) (said : Said) : Inv (s.emit i said) := by
  rw [Node.emit]
  split
  · rename_i t here
    split
    · rename_i working
      apply inv_send inv
      constructor
      · intro j m same
        cases same
        exact ⟨t, here, (said.message_stream t.stream).symm⟩
      · intro j y now same
        cases same
      · intro j y now same
        cases same
      · rintro e before j y now rfl stream k task
        cases task
        have own : t.stream = y := (said.message_stream t.stream).symm.trans stream
        rcases inv.active i t here with holds | silent
        · exact inv.fresh j y now before i (own ▸ holds)
        · exact absurd working silent.2.2
    · exact inv
  · exact inv

/-- A flag that every task would get is set on the task that the step is about. -/
theorem modified {f : Task → Task} {p : Task → Prop} (sets : ∀ t, p (f t)) {u : Task}
    (here : (s.modify i f).tasks[i]? = some u) : p u := by
  rw [Node.modify, List.getElem?_modify_eq] at here
  obtain ⟨t, _, rfl⟩ := Option.map_eq_some_iff.mp here
  exact sets t

theorem inv_abort (inv : Inv s) (staged : s.stage = .signalled x i) :
    Inv { s.modify i .abort with stage := .aborted x i } := by
  have moved := inv_modify inv i Task.Kept.abort
  have release : s.stage.release = some (x, i) := congrArg Stage.release staged
  have same : ∀ y j, some (x, i) = some (y, j) → s.stage.release = some (y, j) :=
    fun y j now => release.trans now
  refine inv_restaged moved rfl rfl ?_ ?_ ?_ ?_
  · intro y j
    exact or_congr_right ⟨same y j, fun before => release.symm.trans before⟩
  · exact fun y j t now here => moved.signalled y j t (same y j now) here
  · intro y j t now here
    cases now
    exact modified (p := fun t => t.aborted = true) (fun _ => rfl) here
  · exact fun y j now => moved.alone y j (same y j now)

/-- A release begins with a signal to the task that runs for the stream. -/
theorem inv_signal (inv : Inv s) (idle : s.stage = .idle)
    (found : s.supervisor.running.find? x = some i) (pending : List Duty) :
    Inv { s.modify i .signal with
      supervisor := ⟨s.supervisor.running.remove x, pending⟩
      stage := .signalled x i } := by
  refine inv_restaged (inv_modify inv i Task.Kept.signal) rfl rfl ?_ ?_ nofun ?_
  · intro y j
    have before : (s.modify i .signal).Holds y j ↔ s.supervisor.running.find? y = some j := by
      rw [Node.Holds, Node.modify, idle]
      exact or_iff_left nofun
    rw [before, Node.Holds, OrderedMap.find?_remove]
    by_cases own : y = x
    · subst own
      rw [if_pos (StreamId.cmp_eq.mpr rfl), found]
      constructor
      · rintro (⟨⟨⟩⟩ | release)
        cases release
        rfl
      · rintro ⟨⟩
        exact .inr rfl
    · rw [if_neg (fun same => own (StreamId.cmp_eq.mp same))]
      refine or_iff_left ?_
      intro release
      cases release
      exact own rfl
  · intro y j t now here
    cases now
    exact modified (p := fun t => t.signalled = true) (fun _ => rfl) here
  · intro y j now
    cases now
    rw [OrderedMap.find?_remove, if_pos (StreamId.cmp_eq.mpr rfl)]

theorem inv_idle (inv : Inv s) (staged : s.stage.release = some (x, i))
    (silent : ∀ t, s.tasks[i]? = some t → t.Silent) : Inv { s with stage := .idle } := by
  have holds : ∀ y j, Node.Holds { s with stage := .idle } y j → s.Holds y j :=
    fun y j held => held.imp_right nofun
  constructor
  · exact fun y j held => inv.known y j (holds y j held)
  · exact fun y j t now => nomatch now
  · exact fun y j t now => nomatch now
  · exact fun y j now => nomatch now
  · intro j t here
    rcases inv.active j t here with (found | release) | quiet
    · exact .inl (.inl found)
    · rw [staged] at release
      cases release
      exact .inr (silent t here)
    · exact .inr quiet
  · exact inv.own
  · exact inv.quiet
  · exact fun j y now ended k held => inv.fresh j y now ended k (holds y k held)
  · exact inv.ordered

/-- The end of a session fits once the task is silent. -/
theorem inv_ended (inv : Inv s) (staged : s.stage = .aborted x i)
    (settled : ∀ t, s.tasks[i]? = some t → t.phase ≠ .working) (now : IngestTime) :
    Inv ({ s with stage := .idle }.send (.ended (some i) x now)) := by
  have release : s.stage.release = some (x, i) := congrArg Stage.release staged
  have silent : ∀ t, s.tasks[i]? = some t → t.Silent := fun t here =>
    ⟨inv.signalled x i t release here, inv.aborted x i t staged here, settled t here⟩
  obtain ⟨t, here, stream⟩ := inv.known x i (.inr release)
  apply inv_send (inv_idle inv release silent)
  constructor
  · intro j m same
    cases same
  · intro j y later same
    cases same
    exact ⟨t, here, stream, silent t here⟩
  · intro j y later same k held
    cases same
    rcases held with found | ⟨⟨⟩⟩
    rw [inv.alone x i release] at found
    cases found
  · rintro e before j y later rfl own k task
    cases task
    have held : s.Holds y i := .inr (release.trans (congrArg (fun z => some (z, i)) own))
    exact inv.fresh j y later before i held

theorem inv_acquire (inv : Inv s) (idle : s.stage = .idle)
    (missing : s.supervisor.running.find? x = none) (pending : List Duty) :
    Inv { s with
      tasks := s.tasks ++ [⟨x, .parked, false, false⟩]
      supervisor := ⟨s.supervisor.running.insert x s.tasks.length, pending⟩ } := by
  have has : ∀ j y, s.Has j y → Node.Has { s with
      tasks := s.tasks ++ [⟨x, .parked, false, false⟩]
      supervisor := ⟨s.supervisor.running.insert x s.tasks.length, pending⟩ } j y := by
    rintro j y ⟨t, here, stream⟩
    refine ⟨t, ?_, stream⟩
    rw [List.getElem?_append_left (List.getElem?_eq_some_iff.mp here).1]
    exact here
  have held : ∀ y j, Node.Holds { s with
      tasks := s.tasks ++ [⟨x, .parked, false, false⟩]
      supervisor := ⟨s.supervisor.running.insert x s.tasks.length, pending⟩ } y j ↔
        (y = x ∧ j = s.tasks.length) ∨ s.Holds y j := by
    intro y j
    have before : s.Holds y j ↔ s.supervisor.running.find? y = some j := by
      rw [Node.Holds, idle]
      exact or_iff_left nofun
    rw [before, Node.Holds, OrderedMap.find?_insert, idle]
    refine (or_iff_left nofun).trans ?_
    by_cases own : y = x
    · rw [if_pos (StreamId.cmp_eq.mpr own), own, missing]
      constructor
      · rintro ⟨⟩
        exact .inl ⟨rfl, rfl⟩
      · rintro (⟨_, rfl⟩ | ⟨⟨⟩⟩)
        rfl
    · rw [if_neg (fun same => own (StreamId.cmp_eq.mp same))]
      exact (or_iff_right (fun here => own here.1)).symm
  have unstaged : s.stage.release = none := congrArg Stage.release idle
  constructor
  · intro y j holds
    rcases (held y j).mp holds with ⟨rfl, rfl⟩ | before
    · exact ⟨_, List.getElem?_concat_length, rfl⟩
    · exact has j y (inv.known y j before)
  · exact fun y j t now => nomatch unstaged.symm.trans now
  · exact fun y j t now => nomatch idle.symm.trans now
  · exact fun y j now => nomatch unstaged.symm.trans now
  · intro j t here
    by_cases inside : j < s.tasks.length
    · rw [List.getElem?_append_left inside] at here
      exact (inv.active j t here).imp_left fun holds => (held _ j).mpr (.inr holds)
    · have there := Nat.le_of_not_lt inside
      rw [List.getElem?_append_right there] at here
      obtain ⟨first, rfl⟩ := List.getElem?_eq_some_iff.mp here
      rw [List.length_singleton] at first
      left
      rw [held]
      exact .inl ⟨by simp, by omega⟩
  · exact fun j m said => has j _ (inv.own j m said)
  · intro j y now ended
    obtain ⟨t, here, stream, silent⟩ := inv.quiet j y now ended
    refine ⟨t, ?_, stream, silent⟩
    rw [List.getElem?_append_left (List.getElem?_eq_some_iff.mp here).1]
    exact here
  · intro j y now ended k holds
    rcases (held y k).mp holds with ⟨rfl, rfl⟩ | before
    · obtain ⟨t, here, _⟩ := inv.quiet j y now ended
      exact (List.getElem?_eq_some_iff.mp here).1
    · exact inv.fresh j y now ended k before
  · exact inv.ordered

/-- A release of a stream without a task ends a session that is no task's. -/
theorem inv_untasked (inv : Inv s) (pending : List Duty) (now : IngestTime) :
    Inv ({ s with supervisor := ⟨s.supervisor.running, pending⟩ }.send (.ended none x now)) := by
  have same : Inv { s with supervisor := ⟨s.supervisor.running, pending⟩ } :=
    inv_ledger inv rfl rfl rfl rfl
  refine inv_send same ⟨?_, ?_, ?_, ?_⟩
  · exact fun j m same => nomatch same
  · exact fun j y later same => nomatch same
  · exact fun j y later same => nomatch same
  · exact fun e before j y later ended own k task => nomatch task

theorem inv_supervise (inv : Inv s) {now : IngestTime} {spawned : Bool}
    (settled : Settled s (.supervise now spawned)) : Inv (s.supervise now spawned) := by
  rw [Node.supervise]
  split
  · rename_i x i staged
    exact inv_abort inv staged
  · rename_i x i staged
    exact inv_ended inv staged (settled x i · staged) now
  · rename_i idle
    split
    · rename_i running x pending duty
      have same : running = s.supervisor.running := (congrArg Supervisor.running duty).symm
      subst same
      split
      · rename_i i found
        exact inv_signal inv idle found pending
      · exact inv_untasked inv pending now
    · rename_i running x pending duty
      have same : running = s.supervisor.running := (congrArg Supervisor.running duty).symm
      subst same
      split
      · exact inv_ledger inv rfl rfl rfl rfl
      · rename_i fresh
        refine inv_acquire inv idle ?_ pending
        cases found : s.supervisor.running.find? x with
        | none => rfl
        | some i =>
          rw [found] at fresh
          exact absurd rfl fresh
    · exact inv

theorem inv_step (a : Act) (inv : Inv s) (settled : Settled s a) : Inv (s.step a) := by
  cases a with
  | poll i inside => exact inv_modify inv i (Task.Kept.poll inside)
  | look i => exact inv_modify inv i Task.Kept.look
  | emit i said => exact inv_emit inv i said
  | leave i next => exact inv_modify inv i (Task.Kept.leave next)
  | reconcile owned =>
    rw [Node.step, Node.reconcile]
    split
    · exact inv_ledger inv rfl rfl rfl rfl
    · exact inv
  | supervise now spawned => exact inv_supervise inv settled
  | receive =>
    have accepted : s.ledger.receive.accepted = s.ledger.accepted := by
      rcases s.ledger.receive_cases with ⟨_, taken⟩ | ⟨_, _, _, taken⟩ <;> rw [taken]
    exact inv_ledger inv rfl rfl rfl accepted
  | hangUp => exact inv_ledger inv rfl rfl rfl rfl

theorem inv_start (capacity : Nat) (positive : 0 < capacity) : Inv (.start capacity positive) := by
  constructor
  · rintro y j (⟨⟨⟩⟩ | ⟨⟨⟩⟩)
  · exact fun y j t now => nomatch now
  · exact fun y j t now => nomatch now
  · exact fun y j now => nomatch now
  · exact fun j t here => nomatch here
  · exact fun j m said => nomatch said
  · exact fun j y now ended => nomatch ended
  · exact fun j y now ended => nomatch ended
  · exact .nil

theorem conserved_run {capacity : Nat} (a : Act) (conserved : s.ledger.Conserved capacity) :
    (s.step a).ledger.Conserved capacity := by
  cases a with
  | emit i said =>
    rw [Node.step, Node.emit]
    split
    · split
      · exact Ledger.conserved_send conserved _
      · exact conserved
    · exact conserved
  | supervise now spawned =>
    rw [Node.step, Node.supervise]
    split
    · exact conserved
    · exact Ledger.conserved_send conserved _
    · split
      · split
        · exact conserved
        · exact Ledger.conserved_send conserved _
      · split <;> exact conserved
      · exact conserved
  | reconcile owned =>
    rw [Node.step, Node.reconcile]
    split <;> exact conserved
  | receive => exact Ledger.conserved_receive conserved
  | hangUp => exact Ledger.conserved_step s.ledger .close conserved
  | _ => exact conserved

end Steps

section Books

variable {σ : Type u} {ω : Type v} {v : VenueSync σ} {arith : DecimalArith} {ops : WindowOps ω}
  {x : StreamId}

def Down (agg : Aggregator σ ω) (x : StreamId) : Prop :=
  ∀ st, agg.streams.find? x = some st → st.book.book.state.isLive = false

/-- The end of a session takes its book down, whatever it was. -/
theorem down_ended (agg : Aggregator σ ω) (now : IngestTime) (ending : SessionEnd) :
    Down (apply v arith ops agg (.sessionEnded x now ending)).1 x := by
  intro st found
  rcases find?_apply found with ⟨other, _⟩ | ⟨_, before, _, book⟩
  · exact absurd rfl other
  · rw [book]
    rfl

theorem down_step {agg : Aggregator σ ω} (down : Down agg x) {message : IngestMessage}
    (quiet : message.stream = x → ∃ now ending, message = .sessionEnded x now ending) :
    Down (apply v arith ops agg message).1 x := by
  by_cases own : message.stream = x
  · obtain ⟨now, ending, rfl⟩ := quiet own
    exact down_ended agg now ending
  · intro st found
    rw [apply_find, if_neg (Ne.symm own)] at found
    exact down st found

theorem down_told {agg : Aggregator σ ω} (down : Down agg x) {messages : List IngestMessage}
    (quiet : ∀ m ∈ messages, m.stream = x → ∃ now ending, m = .sessionEnded x now ending) :
    Down (told v arith ops agg messages) x := by
  induction messages generalizing agg with
  | nil => exact down
  | cons m messages ih =>
    apply ih
    · exact down_step down (quiet m List.mem_cons_self)
    · exact fun m' there => quiet m' (List.mem_cons_of_mem m there)

/-- Where the invariant holds, what follows an end of a session is of a later task. -/
theorem stays_released {capacity : Nat} {s : Node} (inv : Inv s)
    (conserved : s.ledger.Conserved capacity) (agg : Aggregator σ ω) :
    StaysReleased v arith ops agg s := by
  constructor
  · intro before i x now after split m there
    have ordered := inv.ordered
    rw [split, List.pairwise_append, List.pairwise_cons] at ordered
    have later : After (.ended (some i) x now) (.said i m) := ordered.2.1.1 _ there
    have ended : .ended (some i) x now ∈ s.ledger.accepted := by
      rw [split]
      exact List.mem_append_right _ List.mem_cons_self
    have said : .said i m ∈ s.ledger.accepted := by
      rw [split]
      exact List.mem_append_right _ (List.mem_cons_of_mem _ there)
    obtain ⟨t, here, stream, _⟩ := inv.quiet i x now ended
    obtain ⟨u, there, own⟩ := inv.own i m said
    rw [here] at there
    cases there
    exact Nat.lt_irrefl i (later i x now rfl (own.symm.trans stream) i rfl)
  · intro before i x now after split unclaimed
    have part : s.ledger.received.Sublist s.ledger.accepted :=
      (List.sublist_append_left ..).trans conserved.ordered
    have ordered := inv.ordered.sublist part
    rw [split, List.pairwise_append, List.pairwise_cons] at ordered
    rw [split, List.map_append, List.map_cons, told, List.foldl_append, List.foldl_cons]
    apply down_told (down_ended _ now .errored)
    rintro m there own
    obtain ⟨entry, mem, rfl⟩ := List.mem_map.mp there
    have accepted : entry ∈ s.ledger.accepted := by
      apply part.subset
      rw [split]
      exact List.mem_append_right _ (List.mem_cons_of_mem _ mem)
    have later : After (.ended (some i) x now) entry := ordered.2.1.1 entry mem
    cases entry with
    | said j m =>
      obtain ⟨t, here, stream⟩ := inv.own j m accepted
      exact absurd (stream.trans own) (unclaimed j t (later i x now rfl own j rfl) here)
    | ended task y then_ =>
      have same : y = x := own
      exact ⟨then_, .errored, congrArg (IngestMessage.sessionEnded · then_ .errored) same⟩

variable (v arith ops)

/-- A run in which the supervisor ends no session while its task is at work keeps every
released stream released. -/
theorem released_stays_released (agg : Aggregator σ ω) (capacity : Nat) (positive : 0 < capacity)
    (acts : List Act) (settled : Meets Node.step Settled (.start capacity positive) acts) :
    StaysReleased v arith ops agg (exec Node.step (.start capacity positive) acts) := by
  have inv : Inv (exec Node.step (.start capacity positive) acts) :=
    exec_invariant (fun t a (h : Inv t) ok => inv_step a h ok) (inv_start capacity positive) settled
  have start : (Node.start capacity positive).ledger.Conserved capacity :=
    ⟨rfl, Nat.zero_le _, List.Sublist.refl _, List.Perm.refl _, rfl⟩
  have conserved : (exec Node.step (.start capacity positive) acts).ledger.Conserved capacity :=
    @exec_keeps Node Act Node.step (fun t => t.ledger.Conserved capacity)
      (fun _ a h => conserved_run a h) _ start acts
  exact stays_released inv conserved agg

end Books

section Sample

open BitstampFeed BitstampSplice

def bitcoin : StreamId := ⟨.bitstamp, ⟨"BTC-USD"⟩⟩

def owned : OrderedSet StreamId StreamId.cmp := OrderedSet.ofKeys StreamId.cmp [bitcoin]

def nothing : OrderedSet StreamId StreamId.cmp := .empty

def snapshotSaid : Said := .frame (.text restText) .restSnapshot ⟨1, 1⟩

/-- The stream is acquired and its task is polled up to its work. -/
def acquired : List Act :=
  [.reconcile owned, .supervise ⟨0, 0⟩ true, .poll 0 false, .look 0]

/-- The stream is released: a signal, an abort, the end of the session. -/
def released : List Act :=
  [.reconcile nothing, .supervise ⟨2, 2⟩ true, .supervise ⟨2, 2⟩ true, .supervise ⟨2, 2⟩ true]

def tracker : Aggregator BitstampSync Unit :=
  Aggregator.new (BitstampSync.sync sampleWire) [⟨BitstampSync.new "btcusd", ⟨"BTC-USD"⟩, none⟩] ()
    ⟨0, 0⟩ false

/-- The task has said what it read and is parked when the stream is released. -/
def quietRelease : List Act :=
  acquired ++ [.emit 0 snapshotSaid, .leave 0 .parked] ++ released ++ [.receive, .receive]

/-- The task is at work when the stream is released, and says what it read afterwards. -/
def lateWord : List Act := acquired ++ released ++ [.emit 0 snapshotSaid, .receive, .receive]

theorem released_stays_released_quiet :
    StaysReleased (BitstampSync.sync sampleWire) DecimalArith.idle noWindows tracker
      (exec Node.step (.start channelCapacity (by decide)) quietRelease) := by
  refine released_stays_released (BitstampSync.sync sampleWire) .idle noWindows tracker
    channelCapacity (by decide) quietRelease ?_
  refine ⟨trivial, nofun, trivial, trivial, trivial, trivial, trivial, nofun, nofun, ?_, trivial,
    trivial, trivial⟩
  rintro x i t ⟨⟩ ⟨⟩
  exact Phase.noConfusion

/-- What the task at work says goes behind the end of its session, and the book is live. -/
theorem released_task_revives_book :
    ¬ ∀ (agg : Aggregator BitstampSync Unit) (capacity : Nat) (positive : 0 < capacity)
      (acts : List Act), StaysReleased (BitstampSync.sync sampleWire) DecimalArith.idle noWindows
        agg (exec Node.step (.start capacity positive) acts) := by
  intro claim
  have stays := claim tracker channelCapacity (by decide) lateWord
  have alone : ∀ (j : Nat) (t : Task), 0 < j →
      (exec Node.step (.start channelCapacity (by decide)) lateWord).tasks[j]? = some t →
        t.stream ≠ bitcoin := by
    intro j t later here
    obtain ⟨inside, _⟩ := List.getElem?_eq_some_iff.mp here
    have one : (exec Node.step (.start channelCapacity (by decide)) lateWord).tasks.length = 1 := rfl
    omega
  have revived : ((told (BitstampSync.sync sampleWire) DecimalArith.idle noWindows tracker
      ((exec Node.step (.start channelCapacity (by decide)) lateWord).ledger.received.map
        Entry.message)).streams.find? bitcoin).map (fun st => st.book.book.state.isLive) =
          some true := by
    decide +kernel
  obtain ⟨st, found, live⟩ := Option.map_eq_some_iff.mp revived
  have down := stays.down [] 0 bitcoin ⟨2, 2⟩ [.said 0 (snapshotSaid.message bitcoin)] rfl alone st
    found
  rw [down] at live
  cases live

end Sample

end ReleasedStreams

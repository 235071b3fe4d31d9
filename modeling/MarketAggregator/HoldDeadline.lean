import MarketAggregator.GuardedRuns
import MarketAggregator.LeaseSteps

/-!
# The holder's own deadline

The coordinator loop makes a pass, publishes what the node owns and sleeps for
the renewal period. The age of the last round trip is compared only inside a pass,
so what was published stands until the next pass has finished, however long its
registry calls take. What a pass leaves published is told from the times and the
outcomes of the passes alone.
-/

namespace HoldDeadline

open Clocks GuardedRuns LeaseSteps OrderedMaps StreamAssignment VenueStreams

/-- One pass of the loop: its wall reading, how long it took and what the calls returned. -/
structure Attempt where
  wall : Int
  took : Nat
  announced : Except RegistryError Unit
  members : Except RegistryError (List Lease)

/-- A pass that was made, and what it read if its round trip was complete. -/
structure Pass where
  began : Nat
  finished : Nat
  wall : Int
  read : Option (List Lease)

/-- When the loop finished its last pass and begins the next one, and its passes, latest first. -/
structure Timeline where
  finished : Nat
  next : Nat
  past : List Pass

def Attempt.pass (a : Attempt) (began : Nat) : Pass where
  began := began
  finished := began + a.took
  wall := a.wall
  read := Coordinator.roundTrip a.announced a.members

namespace Timeline

def starting (now : IngestTime) : Timeline := ⟨now.mono, now.mono, []⟩

def after (config : LeaseConfig) (h : Timeline) (a : Attempt) : Timeline where
  finished := h.next + a.took
  next := h.next + a.took + config.renew
  past := a.pass h.next :: h.past

/-- The passes whose round trip was complete. -/
def trips (h : Timeline) : List Pass := h.past.filter (fun p => p.read.isSome)

end Timeline

/-- The loop between two passes. -/
structure Loop where
  lease : LeaseState
  published : StreamSet
  times : Timeline

def starting (now : IngestTime) : Loop where
  lease := LeaseState.new now
  published := OrderedMap.empty
  times := Timeline.starting now

def run (c : Coordinator) (s : Loop) (a : Attempt) : Loop :=
  let decided := (c.step s.lease ⟨s.times.next, a.wall⟩ a.announced a.members).1
  { lease := decided
    published := decided.owned
    times := s.times.after c.config a }

/-- Until the attempt finishes, streams stay published only within the hold of a round trip. -/
def DeadlineKept (c : Coordinator) (s : Loop) (a : Attempt) : Prop :=
  ∀ t, s.times.finished ≤ t → t < s.times.next + a.took → s.published.members ≠ [] →
    ∃ trip ∈ s.times.trips, t < trip.finished + c.config.holdFor

def lastTrip (past : List Pass) : Option Pass := past.find? (fun p => p.read.isSome)

/-- The pass and each one back to `joined`, a complete one, began within the hold of the last
complete round trip by then, which may be its own. -/
def InContactSince (config : LeaseConfig) (joined : Pass) : List Pass → Prop
  | [] => False
  | p :: past =>
    (∃ trip ∈ lastTrip (p :: past), p.began < trip.began + config.holdFor) ∧
      (joined = p ∧ p.read.isSome = true ∨ InContactSince config joined past)

/-- The notice is served: the last pass began a settling time or more after a pass since which
the node was in contact. -/
def Served (config : LeaseConfig) (past : List Pass) : Prop :=
  ∃ last ∈ past.head?, ∃ joined, InContactSince config joined past ∧
    joined.began + config.settleFor ≤ last.began

/-- The members that the last complete round trip read leave a stream to the node. -/
def Assigned (c : Coordinator) (past : List Pass) : Prop :=
  ∃ trip ∈ lastTrip past, ∃ leases ∈ trip.read,
    (assignedTo c.node c.streams (liveMembers leases trip.wall)).members ≠ []

/-- A pass that follows a served notice and an assignment finishes within the hold of the last
complete round trip. -/
def InTime (c : Coordinator) (h : Timeline) (a : Attempt) : Prop :=
  Served c.config h.past → Assigned c h.past → h.finished < h.next + a.took →
    ∀ trip ∈ lastTrip h.past, h.next + a.took ≤ trip.finished + c.config.holdFor

section Passes

variable {config : LeaseConfig} {p joined trip : Pass} {past : List Pass} {next : Nat}

theorem lastTrip_complete (complete : p.read.isSome = true) : lastTrip (p :: past) = some p := by
  simp [lastTrip, complete]

theorem lastTrip_failed (failed : p.read = none) : lastTrip (p :: past) = lastTrip past := by
  simp [lastTrip, failed]

theorem lastTrip_mem (found : lastTrip past = some trip) :
    trip ∈ past ∧ trip.read.isSome = true :=
  ⟨List.mem_of_find?_eq_some found, by simpa using List.find?_some found⟩

theorem InContactSince.mem (h : InContactSince config joined past) :
    joined ∈ past ∧ joined.read.isSome = true := by
  induction past with
  | nil => exact h.elim
  | cons p past ih =>
    rcases h.2 with ⟨rfl, complete⟩ | before
    · exact ⟨List.mem_cons_self, complete⟩
    · exact ⟨List.mem_cons_of_mem _ (ih before).1, (ih before).2⟩

/-- Later passes come first, and begin when the earlier ones have finished. -/
structure Ordered (past : List Pass) (next : Nat) : Prop where
  sorted : past.Pairwise (fun p q => q.finished ≤ p.began)
  long : ∀ p ∈ past, p.began ≤ p.finished
  before : ∀ p ∈ past, p.finished ≤ next

theorem Ordered.began (ordered : Ordered past next) (mem : p ∈ past) : p.began ≤ next :=
  Nat.le_trans (ordered.long p mem) (ordered.before p mem)

theorem Ordered.after (ordered : Ordered past next) (a : Attempt) (renew : Nat) :
    Ordered (a.pass next :: past) (next + a.took + renew) where
  sorted := List.pairwise_cons.mpr ⟨ordered.before, ordered.sorted⟩
  long q mem := by
    rcases List.mem_cons.mp mem with rfl | old
    · exact Nat.le_add_right _ _
    · exact ordered.long q old
  before q mem := by
    rcases List.mem_cons.mp mem with rfl | old
    · exact Nat.le_add_right _ _
    · have early := ordered.before q old
      omega

theorem Ordered.latest (ordered : Ordered past next) (found : lastTrip past = some trip)
    {other : Pass} (mem : other ∈ past) (complete : other.read.isSome = true) :
    other.finished ≤ trip.finished := by
  induction past with
  | nil => cases mem
  | cons p past ih =>
    obtain ⟨first, apart⟩ := List.pairwise_cons.mp ordered.sorted
    have older : Ordered past next := ⟨apart, fun q m => ordered.long q (List.mem_cons_of_mem _ m),
      fun q m => ordered.before q (List.mem_cons_of_mem _ m)⟩
    cases read : p.read with
    | none =>
      rcases List.mem_cons.mp mem with rfl | mem
      · simp [read] at complete
      · exact ih older ((lastTrip_failed read).symm.trans found) mem
    | some leases =>
      obtain rfl : p = trip :=
        Option.some.inj ((lastTrip_complete (by simp [read])).symm.trans found)
      rcases List.mem_cons.mp mem with rfl | mem
      · exact Nat.le_refl _
      · have early := first other mem
        have long := ordered.long p List.mem_cons_self
        omega

end Passes

variable {c : Coordinator} {s : Loop} {a : Attempt}

/-- What the state remembers of the passes. -/
structure Remembers (config : LeaseConfig) (lease : LeaseState) (past : List Pass) : Prop where
  blind : lease.lastContact = none → ∀ joined, ¬ InContactSince config joined past
  contact : ∀ contact, lease.lastContact = some contact →
    ∃ trip ∈ lastTrip past, ∃ leases ∈ trip.read,
      contact.mono = trip.began ∧ lease.members = liveMembers leases trip.wall
  settled : lease.lastContact ≠ none →
    (∃ joined, InContactSince config joined past ∧ lease.settledAt.mono = joined.began) ∧
      ∀ joined, InContactSince config joined past → lease.settledAt.mono ≤ joined.began

theorem remembers_starting (config : LeaseConfig) (now : IngestTime) :
    Remembers config (LeaseState.new now) [] where
  blind _ _ h := h
  contact _ h := by cases h
  settled h := absurd rfl h

/-- A pass that leaves the node out of contact found its last round trip too old. -/
theorem step_blind {lease : LeaseState} {now contact : IngestTime}
    (lost : (c.step lease now a.announced a.members).1.lastContact = none)
    (heard : (Coordinator.hear lease now
      (Coordinator.roundTrip a.announced a.members)).lastContact = some contact) :
    c.config.holdFor ≤ now.since contact := by
  rw [Coordinator.step] at lost
  obtain ⟨lapsed, _⟩ | ⟨_, _, e⟩ | ⟨_, _, e⟩ := LeaseState.reconcile_cases
    (Coordinator.hear lease now (Coordinator.roundTrip a.announced a.members)) now c.config
    c.node c.streams
  · by_contra fresh
    have held := LeaseState.held_iff.mpr ⟨contact, heard, Nat.lt_of_not_le fresh⟩
    exact absurd (held.symm.trans lapsed) (by decide)
  all_goals
    rw [e] at lost
    exact absurd (heard.symm.trans lost) (by simp)

theorem step_settled {lease : LeaseState} {now : IngestTime}
    (inContact : (c.step lease now a.announced a.members).1.lastContact ≠ none)
    (settled : c.config.settleFor ≤
      now.since (c.step lease now a.announced a.members).1.settledAt) :
    (c.step lease now a.announced a.members).1.owned = assignedTo c.node c.streams
      (c.step lease now a.announced a.members).1.members := by
  rw [Coordinator.step] at *
  obtain ⟨_, e⟩ | ⟨_, early, e⟩ | ⟨_, _, e⟩ := LeaseState.reconcile_cases
    (Coordinator.hear lease now (Coordinator.roundTrip a.announced a.members)) now c.config
    c.node c.streams
  · rw [e] at inContact
    exact absurd rfl inContact
  · rw [e] at settled
    exact absurd early (Nat.not_lt.mpr settled)
  · rw [e]

/-- After a complete round trip, a node that was blind joins with this pass. -/
theorem remembers_complete {lease : LeaseState} {past : List Pass} {next : Nat}
    (remembers : Remembers c.config lease past) (ordered : Ordered past next)
    {leases : List Lease} (read : (a.pass next).read = some leases) :
    Remembers c.config (c.step lease ⟨next, a.wall⟩ a.announced a.members).1
      (a.pass next :: past) := by
  have complete : (a.pass next).read.isSome = true := by simp [read]
  have last : lastTrip (a.pass next :: past) = some (a.pass next) := lastTrip_complete complete
  refine ⟨?_, ?_, ?_⟩
  · rintro lost joined ⟨⟨trip, found, fresh⟩, _⟩
    have heard : (Coordinator.hear lease ⟨next, a.wall⟩
        (Coordinator.roundTrip a.announced a.members)).lastContact = some ⟨next, a.wall⟩ := by
      rw [show Coordinator.roundTrip a.announced a.members = some leases from read]
      rfl
    have old := step_blind lost heard
    obtain rfl := Option.some.inj (last.symm.trans found)
    simp only [IngestTime.since] at old
    omega
  · intro contact heard
    obtain ⟨_, ⟨leases', trip, rfl, members, _⟩ | ⟨failed, _⟩⟩ := Coordinator.step_contact heard
    · exact ⟨_, last, leases', trip, rfl, members⟩
    · exact absurd (failed.symm.trans read) (by simp)
  · intro inContact
    obtain ⟨contact, heard⟩ := Option.ne_none_iff_exists'.mp inContact
    obtain ⟨fresh, ⟨_, _, rfl, _, settled⟩ | ⟨failed, _⟩⟩ := Coordinator.step_contact heard
    · have own : ∃ trip ∈ lastTrip (a.pass next :: past),
          (a.pass next).began < trip.began + c.config.holdFor :=
        ⟨_, last, by simp only [IngestTime.since] at fresh; omega⟩
      rw [settled]
      cases before : lease.lastContact with
      | none =>
        refine ⟨⟨a.pass next, ⟨own, .inl ⟨rfl, complete⟩⟩, rfl⟩, ?_⟩
        rintro joined ⟨_, ⟨rfl, _⟩ | older⟩
        · exact Nat.le_refl _
        · exact absurd older (remembers.blind before joined)
      | some contact =>
        obtain ⟨⟨joined, since, began⟩, least⟩ := remembers.settled (by simp [before])
        refine ⟨⟨joined, ⟨own, .inr since⟩, began⟩, ?_⟩
        rintro other ⟨_, ⟨rfl, _⟩ | older⟩
        · exact Nat.le_trans (Nat.le_of_eq began) (ordered.began since.mem.1)
        · exact least other older
    · exact absurd (failed.symm.trans read) (by simp)

/-- After a failed one, nothing is new but the age of the last complete round trip. -/
theorem remembers_failed {lease : LeaseState} {past : List Pass} {next : Nat}
    (remembers : Remembers c.config lease past) (ordered : Ordered past next)
    (read : (a.pass next).read = none) :
    Remembers c.config (c.step lease ⟨next, a.wall⟩ a.announced a.members).1
      (a.pass next :: past) := by
  have last : lastTrip (a.pass next :: past) = lastTrip past := lastTrip_failed read
  have failed : Coordinator.roundTrip a.announced a.members = none := read
  refine ⟨?_, ?_, ?_⟩
  · rintro lost joined ⟨⟨trip, found, fresh⟩, ⟨rfl, complete⟩ | since⟩
    · simp [read] at complete
    cases before : lease.lastContact with
    | none => exact remembers.blind before joined since
    | some contact =>
      have heard : (Coordinator.hear lease ⟨next, a.wall⟩
          (Coordinator.roundTrip a.announced a.members)).lastContact = some contact := by
        rw [failed]
        exact before
      have old := step_blind lost heard
      obtain ⟨trip', found', _, _, began, _⟩ := remembers.contact contact before
      obtain rfl := Option.some.inj (found'.symm.trans (last.symm.trans found))
      have early := ordered.began (lastTrip_mem found').1
      simp only [IngestTime.since, Attempt.pass] at old fresh
      omega
  · intro contact heard
    obtain ⟨_, ⟨_, trip, _⟩ | ⟨_, before, members, _⟩⟩ := Coordinator.step_contact heard
    · exact absurd (failed.symm.trans trip) (by simp)
    · rw [last, members]
      exact remembers.contact contact before
  · intro inContact
    obtain ⟨contact, heard⟩ := Option.ne_none_iff_exists'.mp inContact
    obtain ⟨fresh, ⟨_, trip, _⟩ | ⟨_, before, _, settled⟩⟩ := Coordinator.step_contact heard
    · exact absurd (failed.symm.trans trip) (by simp)
    · obtain ⟨trip, found, _, _, began, _⟩ := remembers.contact contact before
      obtain ⟨⟨joined, since, start⟩, least⟩ := remembers.settled (by simp [before])
      have own : ∃ trip ∈ lastTrip (a.pass next :: past),
          (a.pass next).began < trip.began + c.config.holdFor := by
        refine ⟨trip, last.trans found, ?_⟩
        simp only [IngestTime.since, Attempt.pass] at fresh ⊢
        omega
      rw [settled]
      refine ⟨⟨joined, ⟨own, .inr since⟩, start⟩, ?_⟩
      rintro other ⟨_, ⟨rfl, complete⟩ | older⟩
      · simp [read] at complete
      · exact least other older

theorem remembers_step {lease : LeaseState} {past : List Pass} {next : Nat}
    (remembers : Remembers c.config lease past) (ordered : Ordered past next) (a : Attempt) :
    Remembers c.config (c.step lease ⟨next, a.wall⟩ a.announced a.members).1
      (a.pass next :: past) := by
  cases read : (a.pass next).read with
  | some leases => exact remembers_complete remembers ordered read
  | none => exact remembers_failed remembers ordered read

/-- What a pass publishes is told from the passes up to it. -/
theorem published_iff {lease : LeaseState} {past : List Pass} {next : Nat}
    (ordered : Ordered past next)
    (remembers : Remembers c.config (c.step lease ⟨next, a.wall⟩ a.announced a.members).1
      (a.pass next :: past)) :
    (c.step lease ⟨next, a.wall⟩ a.announced a.members).1.owned.members ≠ [] ↔
      Served c.config (a.pass next :: past) ∧ Assigned c (a.pass next :: past) := by
  constructor
  · intro own
    obtain ⟨stream, mem⟩ := List.exists_mem_of_ne_nil _ own
    obtain ⟨⟨contact, heard⟩, settled, listed, chosen⟩ := Coordinator.step_owned mem
    obtain ⟨⟨joined, since, began⟩, _⟩ := remembers.settled (by simp [heard])
    obtain ⟨trip, found, leases, read, _, members⟩ := remembers.contact contact heard
    refine ⟨⟨_, rfl, joined, since, ?_⟩, trip, found, leases, read, ?_⟩
    · have early : joined.began ≤ next := by
        rcases List.mem_cons.mp since.mem.1 with rfl | older
        · exact Nat.le_refl _
        · exact ordered.began older
      simp only [IngestTime.since, Attempt.pass] at settled ⊢
      omega
    · rw [members] at chosen
      exact List.ne_nil_of_mem (mem_assignedTo.mpr ⟨listed, chosen⟩)
  · rintro ⟨⟨last, latest, joined, since, late⟩, trip, found, leases, read, assigned⟩
    obtain rfl : a.pass next = last := Option.some.inj latest
    have inContact : (c.step lease ⟨next, a.wall⟩ a.announced a.members).1.lastContact ≠ none :=
      fun lost => remembers.blind lost joined since
    obtain ⟨contact, heard⟩ := Option.ne_none_iff_exists'.mp inContact
    obtain ⟨trip', found', leases', read', _, members⟩ := remembers.contact contact heard
    obtain rfl := Option.some.inj (found'.symm.trans found)
    obtain rfl := Option.some.inj (read'.symm.trans read)
    have least := (remembers.settled inContact).2 joined since
    rw [step_settled inContact, members]
    · exact assigned
    · simp only [IngestTime.since, Attempt.pass] at late ⊢
      omega

/-- Between two passes what is published follows from the passes made. -/
structure Tenure (c : Coordinator) (s : Loop) : Prop where
  ordered : Ordered s.times.past s.times.next
  remembers : Remembers c.config s.lease s.times.past
  published : s.published.members ≠ [] ↔ Served c.config s.times.past ∧ Assigned c s.times.past

theorem tenure_starting (c : Coordinator) (now : IngestTime) : Tenure c (starting now) where
  ordered := ⟨.nil, by simp [starting, Timeline.starting], by simp [starting, Timeline.starting]⟩
  remembers := remembers_starting c.config now
  published := by simp [starting, Timeline.starting, Served]

theorem tenure_run (tenure : Tenure c s) (a : Attempt) : Tenure c (run c s a) where
  ordered := tenure.ordered.after a c.config.renew
  remembers := remembers_step tenure.remembers tenure.ordered a
  published := published_iff tenure.ordered (remembers_step tenure.remembers tenure.ordered a)

theorem deadlineKept_iff_step (tenure : Tenure c s) (a : Attempt) :
    DeadlineKept c s a ↔ InTime c s.times a := by
  constructor
  · intro kept served assigned room trip found
    obtain ⟨other, mem, bound⟩ := kept (s.times.next + a.took - 1) (by omega) (by omega)
      (tenure.published.mpr ⟨served, assigned⟩)
    obtain ⟨made, complete⟩ := List.mem_filter.mp mem
    have late := tenure.ordered.latest found made complete
    omega
  · intro inTime t from' until' own
    obtain ⟨served, assigned⟩ := tenure.published.mp own
    obtain ⟨trip, found, _⟩ := id assigned
    have bound := inTime served assigned (by omega) trip found
    exact ⟨trip, List.mem_filter.mpr (lastTrip_mem found), by omega⟩

/-- The times go their own way, whatever the node holds. -/
theorem meets_times (s : Loop) (attempts : List Attempt) :
    Meets (run c) (fun s => InTime c s.times) s attempts ↔
      Meets (Timeline.after c.config) (InTime c) s.times attempts := by
  induction attempts generalizing s with
  | nil => exact Iff.rfl
  | cons a attempts ih => exact and_congr Iff.rfl (ih (run c s a))

/-- The deadline is met at every instant of a run exactly when every pass is in time. -/
theorem deadlineKept_iff (c : Coordinator) (now : IngestTime) (attempts : List Attempt) :
    Meets (run c) (DeadlineKept c) (starting now) attempts ↔
      Meets (Timeline.after c.config) (InTime c) (Timeline.starting now) attempts := by
  have told := meets_iff_of_invariant (fun s a (tenure : Tenure c s) => tenure_run tenure a)
    (fun _ a tenure => deadlineKept_iff_step tenure a) (tenure_starting c now) attempts
  exact told.trans (meets_times (starting now) attempts)

section Default

def holder : Coordinator where
  node := ⟨"a"⟩
  config := LeaseConfig.default
  streams := [⟨.coinbase, ⟨"BTC-USD"⟩⟩]

/-- A round trip without delay in which the node reads its own record. -/
def renewal (seconds : Nat) : Attempt where
  wall := seconds * nanosPerSec
  took := 0
  announced := .ok ()
  members := .ok [holder.lease ⟨seconds * nanosPerSec, seconds * nanosPerSec⟩]

def outage (seconds : Nat) : Attempt where
  wall := seconds * nanosPerSec
  took := 0
  announced := .error (.io "registry handle is offline")
  members := .error (.io "registry handle is offline")

/-- Renewals until 18 s, then an outage seen at 21, 24, 27 and 30 s. -/
def outagePasses : List Attempt :=
  [0, 3, 6, 9, 12, 15, 18].map renewal ++ [21, 24, 27, 30].map outage

theorem default_holds_past_deadline :
    ¬ ∀ c now attempts, c.config.renew < c.config.holdFor →
      Meets (run c) (DeadlineKept c) (starting now) attempts := by
  intro claim
  have kept := claim holder ⟨0, 0⟩ (outagePasses ++ [outage 33]) (by decide)
  have last := (meets_append.mp kept).2.1
  have late := last (31 * nanosPerSec) (by decide +kernel) (by decide +kernel)
    (by decide +kernel)
  exact absurd late (by decide +kernel)

end Default

end HoldDeadline

import MarketAggregator.Clocks
import MarketAggregator.StreamAssignment

/-!
# One pass of the lease loop

A pass announces the node's record, reads the membership and decides what the
node holds. Only a complete round trip extends the hold. The holder's deadline is
monotonic; the record compared between nodes is a wall reading.
-/

namespace LeaseSteps

open Clocks OrderedMaps StreamAssignment VenueStreams

inductive RegistryError where
  | io (error : String)
  | malformed (node error : String)
  deriving DecidableEq, Repr

structure Lease where
  node : NodeId
  writtenAtUnixMs : Nat
  ttlMs : Nat
  deriving DecidableEq, Repr

/-- A record from the future, or any record read before the epoch, is live. -/
def Lease.expiredAt (l : Lease) (now : Int) : Bool :=
  if now < 0 then false
  else decide (min (l.writtenAtUnixMs + l.ttlMs) u64Max < millis now.toNat)

/-- Durations in nanoseconds. -/
structure LeaseConfig where
  ttl : Nat
  renew : Nat
  guard : Nat
  deriving DecidableEq, Repr

def LeaseConfig.default : LeaseConfig where
  ttl := 15 * nanosPerSec
  renew := 3 * nanosPerSec
  guard := 2 * nanosPerSec

def LeaseConfig.holdFor (config : LeaseConfig) : Nat := config.ttl - config.guard

def LeaseConfig.settleFor (config : LeaseConfig) : Nat := config.ttl + config.guard

structure ClusterView where
  node : NodeId
  members : List NodeId
  owned : List String
  elsewhere : List String
  settling : Bool
  stoodDown : Bool
  lastContactMs : Option Nat
  deriving DecidableEq, Repr

structure LeaseState where
  members : List NodeId
  lastContact : Option IngestTime
  settledAt : IngestTime
  stoodDown : Bool
  settling : Bool
  owned : StreamSet
  deriving DecidableEq

namespace LeaseState

def new (now : IngestTime) : LeaseState where
  members := []
  lastContact := none
  settledAt := now
  stoodDown := true
  settling := false
  owned := OrderedMap.empty

/-- The settling clock starts at the first contact, not at process start. -/
def noteContact (s : LeaseState) (now : IngestTime) : LeaseState :=
  { s with
    settledAt := if s.lastContact.isNone then now else s.settledAt
    lastContact := some now }

def standDown (s : LeaseState) (now : IngestTime) : LeaseState :=
  { s with
    owned := OrderedMap.empty
    stoodDown := true
    settling := false
    lastContact := none
    settledAt := now }

def held (s : LeaseState) (now : IngestTime) (config : LeaseConfig) : Bool :=
  s.lastContact.any (fun contact => now.since contact < config.holdFor)

def reconcile (s : LeaseState) (now : IngestTime) (config : LeaseConfig) (node : NodeId)
    (streams : List StreamId) : LeaseState :=
  if s.held now config then
    if now.since s.settledAt < config.settleFor then
      { s with settling := true, owned := OrderedMap.empty }
    else
      { s with
        settling := false
        stoodDown := false
        owned := assignedTo node streams s.members }
  else s.standDown now

def view (s : LeaseState) (node : NodeId) (streams : List StreamId) (now : IngestTime) :
    ClusterView where
  node := node
  members := s.members
  owned := s.owned.members.map StreamId.key
  elsewhere := (streams.filter (fun stream => stream ∉ s.owned.members)).map StreamId.key
  settling := s.settling
  stoodDown := s.stoodDown
  lastContactMs := s.lastContact.map (fun contact => millis (now.since contact))

end LeaseState

/-- Unexpired nodes, sorted and without repetition. -/
def liveMembers (leases : List Lease) (now : Int) : List NodeId :=
  (OrderedSet.ofKeys NodeId.cmp
    ((leases.filter (fun l => !l.expiredAt now)).map Lease.node)).members

structure Coordinator where
  node : NodeId
  config : LeaseConfig
  streams : List StreamId
  deriving DecidableEq, Repr

namespace Coordinator

def lease (c : Coordinator) (now : IngestTime) : Lease where
  node := c.node
  writtenAtUnixMs := unixMillis now.wall
  ttlMs := millis c.config.ttl

/-- The read is attempted only after a successful announcement. -/
def roundTrip (announced : Except RegistryError Unit)
    (members : Except RegistryError (List Lease)) : Option (List Lease) :=
  match announced with
  | .ok () => match members with
    | .ok leases => some leases
    | .error _ => none
  | .error _ => none

/-- What a pass remembers of its round trip before it decides anything. -/
def hear (state : LeaseState) (now : IngestTime) : Option (List Lease) → LeaseState
  | some leases => { state.noteContact now with members := liveMembers leases now.wall }
  | none => state

def step (c : Coordinator) (state : LeaseState) (now : IngestTime)
    (announced : Except RegistryError Unit) (members : Except RegistryError (List Lease)) :
    LeaseState × ClusterView :=
  let heard := hear state now (roundTrip announced members)
  let decided := heard.reconcile now c.config c.node c.streams
  (decided, decided.view c.node c.streams now)

end Coordinator

theorem LeaseConfig.holdFor_le_settleFor (config : LeaseConfig) :
    config.holdFor ≤ config.settleFor := by
  simp only [holdFor, settleFor]
  omega

theorem mem_liveMembers {leases : List Lease} {now : Int} {node : NodeId} :
    node ∈ liveMembers leases now ↔
      ∃ l ∈ leases, l.expiredAt now = false ∧ l.node = node := by
  simp [liveMembers, OrderedSet.mem_ofKeys, and_assoc]

/-- Expiry is seen only after the whole lifetime, for a lifetime in whole milliseconds. -/
theorem expiredAt_late {l : Lease} {written now : Int} {ttl : Nat}
    (whole : nanosPerMilli ∣ ttl) (hw : l.writtenAtUnixMs = unixMillis written)
    (ht : l.ttlMs = millis ttl) (h : l.expiredAt now = true) : written + ttl < now := by
  obtain ⟨m, rfl⟩ := whole
  rw [Lease.expiredAt] at h
  split at h
  · cases h
  · have late := of_decide_eq_true h
    rw [hw, ht] at late
    simp only [unixMillis, millis, nanosPerMilli, u64Max] at *
    split at late <;> omega

namespace LeaseState

variable {s : LeaseState} {now : IngestTime} {config : LeaseConfig} {node : NodeId}
  {streams : List StreamId}

theorem held_iff : s.held now config = true ↔
    ∃ contact, s.lastContact = some contact ∧ now.since contact < config.holdFor := by
  simp [held, Option.any_eq_true]

theorem reconcile_cases (s : LeaseState) (now : IngestTime) (config : LeaseConfig)
    (node : NodeId) (streams : List StreamId) :
    (s.held now config = false ∧
      s.reconcile now config node streams = s.standDown now) ∨
    (s.held now config = true ∧ now.since s.settledAt < config.settleFor ∧
      s.reconcile now config node streams =
        { s with settling := true, owned := OrderedMap.empty }) ∨
    (s.held now config = true ∧ config.settleFor ≤ now.since s.settledAt ∧
      s.reconcile now config node streams =
        { s with
          settling := false
          stoodDown := false
          owned := assignedTo node streams s.members }) := by
  rw [reconcile]
  cases s.held now config with
  | false => exact .inl ⟨rfl, rfl⟩
  | true =>
    by_cases early : now.since s.settledAt < config.settleFor
    · exact .inr (.inl ⟨rfl, early, by simp [early]⟩)
    · exact .inr (.inr ⟨rfl, Nat.le_of_not_lt early, by simp [early]⟩)

/-- A node that still counts itself in contact was in time at this pass. -/
theorem reconcile_contact {contact : IngestTime}
    (h : (s.reconcile now config node streams).lastContact = some contact) :
    s.lastContact = some contact ∧ now.since contact < config.holdFor ∧
      (s.reconcile now config node streams).settledAt = s.settledAt ∧
      (s.reconcile now config node streams).members = s.members := by
  obtain ⟨_, e⟩ | ⟨hold, _, e⟩ | ⟨hold, _, e⟩ := reconcile_cases s now config node streams
  · rw [e] at h
    cases h
  all_goals
    rw [e] at h ⊢
    obtain ⟨at', hc, hlt⟩ := held_iff.mp hold
    obtain rfl := Option.some.inj (hc.symm.trans h)
    exact ⟨h, hlt, rfl, rfl⟩

/-- Holding streams means being in contact and settled, with the assignment just computed. -/
theorem reconcile_owned {stream : StreamId}
    (h : stream ∈ (s.reconcile now config node streams).owned.members) :
    s.held now config = true ∧ config.settleFor ≤ now.since s.settledAt ∧
      stream ∈ (assignedTo node streams s.members).members ∧
      (s.reconcile now config node streams).lastContact = s.lastContact ∧
      (s.reconcile now config node streams).settledAt = s.settledAt ∧
      (s.reconcile now config node streams).members = s.members := by
  obtain ⟨_, e⟩ | ⟨_, _, e⟩ | ⟨hold, settled, e⟩ := reconcile_cases s now config node streams
  · rw [e] at h
    simp [standDown] at h
  · rw [e] at h
    simp at h
  · rw [e] at h ⊢
    exact ⟨hold, settled, h, rfl, rfl, rfl⟩

end LeaseState

namespace Coordinator

variable {c : Coordinator} {state : LeaseState} {now : IngestTime}
  {announced : Except RegistryError Unit} {members : Except RegistryError (List Lease)}

theorem roundTrip_eq_some {leases : List Lease} :
    roundTrip announced members = some leases ↔ announced = .ok () ∧ members = .ok leases := by
  simp only [roundTrip]
  cases announced <;> cases members <;> simp

/-- Contact after a pass is this round trip's, or the one before if it failed. -/
theorem step_contact {contact : IngestTime}
    (h : (c.step state now announced members).1.lastContact = some contact) :
    now.since contact < c.config.holdFor ∧
      ((∃ leases, roundTrip announced members = some leases ∧ contact = now ∧
          (c.step state now announced members).1.members = liveMembers leases now.wall ∧
          (c.step state now announced members).1.settledAt =
            if state.lastContact.isNone then now else state.settledAt) ∨
        (roundTrip announced members = none ∧ state.lastContact = some contact ∧
          (c.step state now announced members).1.members = state.members ∧
          (c.step state now announced members).1.settledAt = state.settledAt)) := by
  obtain ⟨hc, fresh, settled, mem⟩ := LeaseState.reconcile_contact h
  refine ⟨fresh, ?_⟩
  rw [step]
  dsimp only
  cases trip : roundTrip announced members with
  | some leases =>
    rw [trip] at hc settled mem
    exact .inl ⟨leases, rfl, (Option.some.inj hc).symm, mem, settled⟩
  | none =>
    rw [trip] at hc settled mem
    exact .inr ⟨rfl, hc, mem, settled⟩

theorem step_owned {stream : StreamId}
    (h : stream ∈ (c.step state now announced members).1.owned.members) :
    (∃ contact, (c.step state now announced members).1.lastContact = some contact) ∧
      c.config.settleFor ≤ now.since (c.step state now announced members).1.settledAt ∧
      stream ∈ c.streams ∧
      owner stream (c.step state now announced members).1.members = some c.node := by
  obtain ⟨hold, settled, assigned, hc, hs, hm⟩ := LeaseState.reconcile_owned h
  obtain ⟨contact, heard, _⟩ := LeaseState.held_iff.mp hold
  obtain ⟨listed, chosen⟩ := mem_assignedTo.mp assigned
  exact ⟨⟨contact, hc.trans heard⟩, hs ▸ settled, listed, hm ▸ chosen⟩

/-- A complete round trip keeps the node in contact, and owning once it has settled. -/
theorem step_heard (state : LeaseState) {leases : List Lease}
    (trip : roundTrip announced members = some leases) (positive : 0 < c.config.holdFor) :
    (c.step state now announced members).1.lastContact = some now ∧
      (c.step state now announced members).1.settledAt =
        (if state.lastContact.isNone then now else state.settledAt) ∧
      (c.config.settleFor ≤ now.since (if state.lastContact.isNone then now else state.settledAt) →
        (c.step state now announced members).1.owned =
          assignedTo c.node c.streams (liveMembers leases now.wall)) := by
  rw [step]
  dsimp only
  rw [trip]
  have hold : (hear state now (some leases)).held now c.config = true :=
    LeaseState.held_iff.mpr ⟨now, rfl, by simpa [IngestTime.since] using positive⟩
  obtain ⟨lapsed, _⟩ | ⟨_, early, e⟩ | ⟨_, _, e⟩ :=
    LeaseState.reconcile_cases (hear state now (some leases)) now c.config c.node c.streams
  · exact absurd (hold.symm.trans lapsed) nofun
  · rw [e]
    exact ⟨rfl, rfl, fun settled => absurd early (Nat.not_lt.mpr settled)⟩
  · rw [e]
    exact ⟨rfl, rfl, fun _ => rfl⟩

theorem liveMembers_own (c : Coordinator) (now : IngestTime) :
    liveMembers [c.lease now] now.wall = [c.node] := by
  have live : (c.lease now).expiredAt now.wall = false := by
    rw [Lease.expiredAt, lease, unixMillis, millis, nanosPerMilli, u64Max]
    by_cases early : now.wall < 0
    · simp [early]
    · simp only [early, if_false, decide_eq_false_iff_not]
      omega
  simp only [liveMembers, List.filter_cons, live]
  rfl

end Coordinator

end LeaseSteps

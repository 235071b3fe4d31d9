import MarketAggregator.GuardedRuns
import MarketAggregator.LeaseSteps

/-!
# No stream is held twice

Coordinators share one registry and one time line. Every pass is atomic, either
registry call may fail, and processes start, crash and leave in any order. A
process that has been in contact keeps a record that cannot have expired, so a
later reader finds it; a reader that came before it joined has let go by the time
the joiner has settled.
-/

namespace LeaseSafety

open Clocks GuardedRuns LeaseSteps OrderedMaps StreamAssignment VenueStreams

/-- What every node of one cluster shares. -/
structure Setting where
  epoch : Int
  config : LeaseConfig
  streams : List StreamId

structure Process where
  lease : LeaseState
  lastPass : Option Nat

structure Cluster where
  now : Nat
  registry : OrderedMap NodeId Lease NodeId.cmp
  procs : OrderedMap NodeId Process NodeId.cmp

/-- A failed announcement may or may not have been written. -/
inductive Announcement where
  | written
  | unacknowledged (error : RegistryError)
  | failed (error : RegistryError)

inductive Action where
  | tick (elapsed : Nat)
  | start (node : NodeId)
  | crash (node : NodeId)
  | leave (node : NodeId) (withdrawn : Bool)
  | pass (node : NodeId) (announcement : Announcement) (unreadable : Option RegistryError)

def Announcement.reply : Announcement → Except RegistryError Unit
  | .written => .ok ()
  | .unacknowledged error => .error error
  | .failed error => .error error

def Announcement.write (a : Announcement) (lease : Lease)
    (registry : OrderedMap NodeId Lease NodeId.cmp) : OrderedMap NodeId Lease NodeId.cmp :=
  match a with
  | .failed _ => registry
  | _ => registry.insert lease.node lease

def readMembers (registry : OrderedMap NodeId Lease NodeId.cmp) :
    Option RegistryError → Except RegistryError (List Lease)
  | none => .ok (registry.entries.map Prod.snd)
  | some error => .error error

namespace Setting

def clock (w : Setting) (t : Nat) : IngestTime := ⟨t, w.epoch + t⟩

def coordinator (w : Setting) (node : NodeId) : Coordinator := ⟨node, w.config, w.streams⟩

def record (w : Setting) (node : NodeId) (t : Nat) : Lease := (w.coordinator node).lease (w.clock t)

/-- The passing process after its round trip and its decision. -/
def passed (w : Setting) (s : Cluster) (node : NodeId) (p : Process)
    (announcement : Announcement) (unreadable : Option RegistryError) : Process :=
  let registry := announcement.write (w.record node s.now) s.registry
  ⟨((w.coordinator node).step p.lease (w.clock s.now) announcement.reply
    (readMembers registry unreadable)).1, some s.now⟩

def step (w : Setting) (s : Cluster) : Action → Cluster
  | .tick elapsed => { s with now := s.now + elapsed }
  | .start node => match s.procs.find? node with
    | some _ => s
    | none => { s with procs := s.procs.insert node ⟨LeaseState.new (w.clock s.now), none⟩ }
  | .crash node => { s with procs := s.procs.remove node }
  | .leave node withdrawn =>
    { s with
      procs := s.procs.remove node
      registry := if withdrawn then s.registry.remove node else s.registry }
  | .pass node announcement unreadable => match s.procs.find? node with
    | none => s
    | some p =>
      { s with
        registry := announcement.write (w.record node s.now) s.registry
        procs := s.procs.insert node (w.passed s node p announcement unreadable) }

/-- Time never carries a running node further than the guard past its last pass. -/
def Punctual (w : Setting) (s : Cluster) : Action → Prop
  | .tick elapsed => ∀ e ∈ s.procs.entries, ∀ last ∈ e.2.lastPass,
    s.now + elapsed ≤ last + w.config.guard
  | _ => True

instance (w : Setting) (s : Cluster) (a : Action) : Decidable (w.Punctual s a) := by
  cases a <;> unfold Punctual <;> infer_instance

end Setting

/-- A registry with any records in it and no process running. -/
def idle (now : Nat) (registry : OrderedMap NodeId Lease NodeId.cmp) : Cluster :=
  ⟨now, registry, OrderedMap.empty⟩

def Running (s : Cluster) (node : NodeId) (p : Process) : Prop := s.procs.find? node = some p

def Holds (s : Cluster) (node : NodeId) (stream : StreamId) : Prop :=
  ∃ p, Running s node p ∧ stream ∈ p.lease.owned.members

instance (s : Cluster) (node : NodeId) (stream : StreamId) : Decidable (Holds s node stream) :=
  match h : s.procs.find? node with
  | none => .isFalse (fun ⟨_, run, _⟩ => Option.some_ne_none _ (run.symm.trans h))
  | some p => decidable_of_iff (stream ∈ p.lease.owned.members)
    ⟨fun own => ⟨p, h, own⟩, fun ⟨_, run, own⟩ => Option.some.inj (run.symm.trans h) ▸ own⟩

def HeldOnce (s : Cluster) : Prop :=
  ∀ stream a b, Holds s a stream → Holds s b stream → a = b

variable {w : Setting} {s : Cluster}

/-- A process in contact passed recently and left a record no older than the contact. -/
structure InContact (w : Setting) (s : Cluster) (node : NodeId) (p : Process)
    (contact last : Nat) : Prop where
  passed : p.lastPass = some last
  past : last ≤ s.now
  punctual : s.now ≤ last + w.config.guard
  ordered : contact ≤ last
  fresh : last - contact < w.config.holdFor
  recorded : ∃ written, contact ≤ written ∧ s.registry.find? node = some (w.record node written)

structure Safe (w : Setting) (s : Cluster) : Prop where
  inContact : ∀ node p contact, Running s node p → p.lease.lastContact = some contact →
    ∃ last, InContact w s node p contact.mono last
  holding : ∀ node p stream, Running s node p → stream ∈ p.lease.owned.members →
    ∃ contact last, p.lease.lastContact = some contact ∧ p.lastPass = some last ∧
      p.lease.settledAt.mono + w.config.settleFor ≤ last ∧
      owner stream p.lease.members = some node
  known : ∀ a p b q contact joined, Running s a p → Running s b q →
    p.lease.lastContact = some contact → q.lease.lastContact = some joined →
    contact.mono ≤ q.lease.settledAt.mono ∨ b ∈ p.lease.members

theorem node_cmp {a b : NodeId} : NodeId.cmp a b = .eq ↔ a = b :=
  ⟨Std.LawfulEqCmp.eq_of_compare, fun h => h ▸ Std.ReflCmp.compare_self⟩

theorem find_inserted {V : Type} {m : OrderedMap NodeId V NodeId.cmp} {a b : NodeId} {v : V} :
    (m.insert a v).find? b = if b = a then some v else m.find? b := by
  simp only [OrderedMap.find?_insert, node_cmp]

theorem find_removed {V : Type} {m : OrderedMap NodeId V NodeId.cmp} {a b : NodeId} :
    (m.remove a).find? b = if b = a then none else m.find? b := by
  simp only [OrderedMap.find?_remove, node_cmp]

theorem InContact.recent {node : NodeId} {p : Process} {contact last : Nat}
    (h : InContact w s node p contact last) : s.now < contact + w.config.ttl := by
  have punctual := h.punctual
  have ordered := h.ordered
  have fresh := h.fresh
  rw [LeaseConfig.holdFor] at fresh
  omega

/-- A record younger than the lifetime is read as a live member. -/
theorem recorded_member (whole : nanosPerMilli ∣ w.config.ttl)
    {registry : OrderedMap NodeId Lease NodeId.cmp} {node : NodeId} {written now : Nat}
    (h : registry.find? node = some (w.record node written))
    (young : now ≤ written + w.config.ttl) :
    node ∈ liveMembers (registry.entries.map Prod.snd) (w.clock now).wall := by
  obtain ⟨key, mem, _⟩ := OrderedMap.find?_mem h
  refine mem_liveMembers.mpr ⟨_, List.mem_map_of_mem mem, ?_, rfl⟩
  cases expired : (w.record node written).expiredAt (w.clock now).wall with
  | false => rfl
  | true =>
    have late : w.epoch + written + w.config.ttl < _ := expiredAt_late whole rfl rfl expired
    simp only [Setting.clock] at late
    omega

/-- The argument at one instant: both claimants know each other, so they are one node. -/
theorem Safe.exclusive (safe : Safe w s) : HeldOnce s := by
  rintro stream a b ⟨p, runA, ownA⟩ ⟨q, runB, ownB⟩
  obtain ⟨contactA, lastA, heardA, passA, settledA, ownerA⟩ := safe.holding a p stream runA ownA
  obtain ⟨contactB, lastB, heardB, passB, settledB, ownerB⟩ := safe.holding b q stream runB ownB
  obtain ⟨_, tendA⟩ := safe.inContact a p contactA runA heardA
  obtain ⟨_, tendB⟩ := safe.inContact b q contactB runB heardB
  obtain rfl := Option.some.inj (passA.symm.trans tendA.passed)
  obtain rfl := Option.some.inj (passB.symm.trans tendB.passed)
  have recentA := tendA.recent
  have recentB := tendB.recent
  have pastA := tendA.past
  have pastB := tendB.past
  rw [LeaseConfig.settleFor] at settledA settledB
  have seenB : b ∈ p.lease.members := by
    rcases safe.known a p b q contactA contactB runA runB heardA heardB with h | h
    · omega
    · exact h
  have seenA : a ∈ q.lease.members := by
    rcases safe.known b q a p contactB contactA runB runA heardB heardA with h | h
    · omega
    · exact h
  exact owner_agree ownerA ownerB seenB seenA

theorem safe_idle (now : Nat) (registry : OrderedMap NodeId Lease NodeId.cmp) :
    Safe w (idle now registry) where
  inContact _ _ _ h := by cases h
  holding _ _ _ h := by cases h
  known _ _ _ _ _ _ h := by cases h

/-- Invariants carry over to fewer processes, a later instant and kept records. -/
theorem Safe.shrink (safe : Safe w s) {t : Cluster}
    (run : ∀ node p, Running t node p → Running s node p ∨ p.lease.lastContact = none ∧
      p.lease.owned.members = [])
    (later : s.now ≤ t.now)
    (punctual : ∀ node p last, Running t node p → p.lastPass = some last →
      t.now ≤ last + w.config.guard ∨ s.now = t.now)
    (kept : ∀ node p, Running t node p → t.registry.find? node = s.registry.find? node) :
    Safe w t where
  inContact node p contact h heard := by
    rcases run node p h with old | ⟨silent, _⟩
    · obtain ⟨last, tend⟩ := safe.inContact node p contact old heard
      have past := tend.past
      have due := tend.punctual
      refine ⟨last, tend.passed, by omega, ?_, tend.ordered, tend.fresh, ?_⟩
      · rcases punctual node p last h tend.passed with hp | hp
        · exact hp
        · omega
      · rw [kept node p h]
        exact tend.recorded
    · exact absurd (silent.symm.trans heard) nofun
  holding node p stream h own := by
    rcases run node p h with old | ⟨_, empty⟩
    · exact safe.holding node p stream old own
    · rw [empty] at own
      cases own
  known a p b q contact joined ha hb heardA heardB := by
    rcases run a p ha with oldA | ⟨silent, _⟩
    · rcases run b q hb with oldB | ⟨silent, _⟩
      · exact safe.known a p b q contact joined oldA oldB heardA heardB
      · exact absurd (silent.symm.trans heardB) nofun
    · exact absurd (silent.symm.trans heardA) nofun

section Pass

variable {node : NodeId} {p : Process} {announcement : Announcement}
  {unreadable : Option RegistryError}

theorem written_other {other : NodeId} (h : other ≠ node) :
    (announcement.write (w.record node s.now) s.registry).find? other =
      s.registry.find? other := by
  simp only [Announcement.write]
  split
  · rfl
  · exact find_inserted.trans (if_neg h)

/-- The own record after an announcement is the new one, or the old one was kept. -/
theorem written_own (w : Setting) (s : Cluster) (node : NodeId) (announcement : Announcement) :
    (announcement.write (w.record node s.now) s.registry).find? node =
        some (w.record node s.now) ∨
      announcement.reply ≠ .ok () ∧
        (announcement.write (w.record node s.now) s.registry).find? node =
          s.registry.find? node := by
  cases announcement with
  | written => exact .inl (find_inserted.trans (if_pos rfl))
  | unacknowledged => exact .inl (find_inserted.trans (if_pos rfl))
  | failed => exact .inr ⟨nofun, rfl⟩

theorem trip_leases {leases : List Lease}
    (h : Coordinator.roundTrip announcement.reply
      (readMembers (announcement.write (w.record node s.now) s.registry) unreadable) =
        some leases) :
    leases = (announcement.write (w.record node s.now) s.registry).entries.map Prod.snd ∧
      (announcement.write (w.record node s.now) s.registry).find? node =
        some (w.record node s.now) := by
  obtain ⟨told, read⟩ := Coordinator.roundTrip_eq_some.mp h
  constructor
  · cases unreadable with
    | none => exact (Except.ok.inj read).symm
    | some error => cases read
  · rcases written_own w s node announcement with
      new | ⟨untold, _⟩
    · exact new
    · exact absurd told untold

theorem passed_inContact (safe : Safe w s) (run : Running s node p) {contact : IngestTime}
    (heard : (w.passed s node p announcement unreadable).lease.lastContact = some contact)
    {t : Cluster} (now : t.now = s.now)
    (registry : t.registry = announcement.write (w.record node s.now) s.registry) :
    InContact w t node (w.passed s node p announcement unreadable) contact.mono s.now := by
  obtain ⟨fresh, cases⟩ := Coordinator.step_contact heard
  have ordered : contact.mono ≤ s.now := by
    rcases cases with ⟨_, _, rfl, _⟩ | ⟨_, old, _⟩
    · exact Nat.le_refl _
    · obtain ⟨last, tend⟩ := safe.inContact node p contact run old
      exact Nat.le_trans tend.ordered tend.past
  refine ⟨rfl, by omega, by omega, ordered, fresh, ?_⟩
  rw [registry]
  rcases written_own w s node announcement with
    new | ⟨untold, kept⟩
  · exact ⟨s.now, ordered, new⟩
  · rcases cases with ⟨_, trip, _⟩ | ⟨_, old, _⟩
    · exact absurd (Coordinator.roundTrip_eq_some.mp trip).1 untold
    · obtain ⟨last, tend⟩ := safe.inContact node p contact run old
      rw [kept]
      exact tend.recorded

/-- A complete round trip finds every process in contact; a failed one changes nothing. -/
theorem passed_reads (safe : Safe w s) (whole : nanosPerMilli ∣ w.config.ttl)
    (run : Running s node p) {contact : IngestTime}
    (heard : (w.passed s node p announcement unreadable).lease.lastContact = some contact)
    {b : NodeId} {q : Process} {joined : IngestTime} (other : Running s b q) (ne : b ≠ node)
    (hb : q.lease.lastContact = some joined) :
    contact.mono ≤ q.lease.settledAt.mono ∨
      b ∈ (w.passed s node p announcement unreadable).lease.members := by
  obtain ⟨_, ⟨leases, trip, _, mem, _⟩ | ⟨_, old, mem, _⟩⟩ := Coordinator.step_contact heard
  · right
    obtain ⟨last, tend⟩ := safe.inContact b q joined other hb
    obtain ⟨written, late, record⟩ := tend.recorded
    have recent := tend.recent
    refine mem.symm ▸ (trip_leases trip).1 ▸
      recorded_member whole ((written_other ne).trans record) ?_
    omega
  · rcases safe.known node p b q contact joined run other old hb with h | h
    · exact .inl h
    · exact .inr (mem.symm ▸ h)

/-- A joiner settles from now on; a process that stays in contact keeps its start. -/
theorem passed_joins (safe : Safe w s) (run : Running s node p) {joined : IngestTime}
    (heard : (w.passed s node p announcement unreadable).lease.lastContact = some joined)
    {a : NodeId} {q : Process} {contact : IngestTime} (other : Running s a q)
    (ha : q.lease.lastContact = some contact) :
    contact.mono ≤ (w.passed s node p announcement unreadable).lease.settledAt.mono ∨
      node ∈ q.lease.members := by
  obtain ⟨_, ⟨_, _, _, _, settled⟩ | ⟨_, old, _, settled⟩⟩ := Coordinator.step_contact heard
  · cases was : p.lease.lastContact with
    | none =>
      rw [was] at settled
      obtain ⟨last, tend⟩ := safe.inContact a q contact other ha
      have ordered := tend.ordered
      have past := tend.past
      exact .inl (settled.symm ▸ Nat.le_trans ordered past)
    | some before =>
      rw [was] at settled
      exact settled.symm ▸ safe.known a q node p contact before other run ha was
  · exact settled.symm ▸ safe.known a q node p contact joined other run ha old

theorem passed_own (safe : Safe w s) (whole : nanosPerMilli ∣ w.config.ttl)
    (run : Running s node p) {contact : IngestTime}
    (heard : (w.passed s node p announcement unreadable).lease.lastContact = some contact) :
    contact.mono ≤ (w.passed s node p announcement unreadable).lease.settledAt.mono ∨
      node ∈ (w.passed s node p announcement unreadable).lease.members := by
  obtain ⟨_, ⟨leases, trip, _, mem, _⟩ | ⟨_, old, mem, settled⟩⟩ := Coordinator.step_contact heard
  · right
    obtain ⟨read, own⟩ := trip_leases trip
    exact mem.symm ▸ read ▸ recorded_member whole own (Nat.le_add_right _ _)
  · rcases safe.known node p node p contact contact run run old old with h | h
    · exact .inl (settled.symm ▸ h)
    · exact .inr (mem.symm ▸ h)

theorem safe_pass (announcement : Announcement) (unreadable : Option RegistryError)
    (safe : Safe w s) (whole : nanosPerMilli ∣ w.config.ttl)
    (run : Running s node p) {t : Cluster} (now : t.now = s.now)
    (registry : t.registry = announcement.write (w.record node s.now) s.registry)
    (procs : t.procs = s.procs.insert node (w.passed s node p announcement unreadable)) :
    Safe w t := by
  have running : ∀ m q, Running t m q →
      (m = node ∧ q = w.passed s node p announcement unreadable) ∨
        (m ≠ node ∧ Running s m q) := by
    intro m q h
    rw [Running] at h
    rw [procs, find_inserted] at h
    by_cases same : m = node
    · rw [if_pos same] at h
      exact .inl ⟨same, (Option.some.inj h).symm⟩
    · rw [if_neg same] at h
      exact .inr ⟨same, h⟩
  constructor
  · intro m q contact h heard
    rcases running m q h with ⟨rfl, rfl⟩ | ⟨ne, old⟩
    · exact ⟨s.now, passed_inContact safe run heard now registry⟩
    · obtain ⟨last, tend⟩ := safe.inContact m q contact old heard
      refine ⟨last, tend.passed, now ▸ tend.past, now ▸ tend.punctual, tend.ordered,
        tend.fresh, ?_⟩
      rw [registry, written_other ne]
      exact tend.recorded
  · intro m q stream h own
    rcases running m q h with ⟨rfl, rfl⟩ | ⟨_, old⟩
    · obtain ⟨⟨contact, heard⟩, settled, _, chosen⟩ := Coordinator.step_owned own
      refine ⟨contact, s.now, heard, rfl, ?_, chosen⟩
      have fresh := (passed_inContact safe run heard now registry).fresh
      have since : w.config.settleFor ≤ s.now -
          (w.passed s m p announcement unreadable).lease.settledAt.mono := settled
      rw [LeaseConfig.holdFor] at fresh
      rw [LeaseConfig.settleFor] at since ⊢
      omega
    · exact safe.holding m q stream old own
  · intro a q b r contact joined ha hb heardA heardB
    rcases running a q ha with ⟨rfl, rfl⟩ | ⟨neA, oldA⟩
    · rcases running b r hb with ⟨rfl, rfl⟩ | ⟨neB, oldB⟩
      · exact passed_own safe whole run heardA
      · exact passed_reads safe whole run heardA oldB neB heardB
    · rcases running b r hb with ⟨rfl, rfl⟩ | ⟨neB, oldB⟩
      · exact passed_joins safe run heardB oldA heardA
      · exact safe.known a q b r contact joined oldA oldB heardA heardB

end Pass

theorem safe_step (whole : nanosPerMilli ∣ w.config.ttl) (s : Cluster) (a : Action)
    (safe : Safe w s) (ok : w.Punctual s a) : Safe w (w.step s a) := by
  cases a with
  | tick elapsed =>
    refine safe.shrink (fun _ _ h => .inl h) (Nat.le_add_right _ _) ?_ (fun _ _ _ => rfl)
    intro node p last run passed
    obtain ⟨key, mem, _⟩ := OrderedMap.find?_mem run
    exact .inl (ok _ mem last passed)
  | start node =>
    dsimp only [Setting.step]
    split
    · exact safe
    · refine safe.shrink ?_ (Nat.le_refl _) (fun _ _ _ _ _ => .inr rfl) (fun _ _ _ => rfl)
      intro m q h
      rw [Running] at h
      rw [find_inserted] at h
      split at h
      · obtain rfl := Option.some.inj h
        exact .inr ⟨rfl, rfl⟩
      · exact .inl h
  | crash node =>
    refine safe.shrink ?_ (Nat.le_refl _) (fun _ _ _ _ _ => .inr rfl) (fun _ _ _ => rfl)
    intro m q h
    rw [Running, Setting.step] at h
    rw [find_removed] at h
    split at h
    · cases h
    · exact .inl h
  | leave node withdrawn =>
    have stays : ∀ m q, Running (w.step s (.leave node withdrawn)) m q →
        m ≠ node ∧ Running s m q := by
      intro m q h
      rw [Running, Setting.step] at h
      rw [find_removed] at h
      split at h
      · cases h
      · exact ⟨by assumption, h⟩
    refine safe.shrink (fun m q h => .inl (stays m q h).2) (Nat.le_refl _)
      (fun _ _ _ _ _ => .inr rfl) ?_
    intro m q h
    rw [Setting.step]
    cases withdrawn with
    | true => exact find_removed.trans (if_neg (stays m q h).1)
    | false => rfl
  | pass node announcement unreadable =>
    dsimp only [Setting.step]
    split
    · exact safe
    · rename_i p run
      exact safe_pass announcement unreadable safe whole run rfl rfl rfl

/-- At every instant of every punctual run at most one running node holds a stream. -/
theorem stream_held_once (w : Setting) (whole : nanosPerMilli ∣ w.config.ttl) (now : Nat)
    (registry : OrderedMap NodeId Lease NodeId.cmp) (acts : List Action)
    (punctual : Meets w.step w.Punctual (idle now registry) acts) :
    HeldOnce (exec w.step (idle now registry) acts) :=
  (exec_invariant (safe_step whole) (safe_idle now registry) punctual).exclusive

def pair : Setting where
  epoch := 0
  config := ⟨3 * nanosPerMilli, nanosPerMilli, nanosPerMilli⟩
  streams := [⟨.coinbase, ⟨"BTC-USD"⟩⟩, ⟨.kraken, ⟨"BTC-USD"⟩⟩]

def beat (node : NodeId) : List Action := [.pass node .written none, .tick nanosPerMilli]

/-- Node `a` settles alone, then `b` joins and both keep passing. -/
def joining : List Action :=
  [.start ⟨"a"⟩] ++ beat ⟨"a"⟩ ++ beat ⟨"a"⟩ ++ beat ⟨"a"⟩ ++ beat ⟨"a"⟩ ++
    [.start ⟨"b"⟩, .pass ⟨"b"⟩ .written none] ++ beat ⟨"a"⟩

theorem stream_held_once_joining :
    Holds (exec pair.step (idle 0 OrderedMap.empty) joining) ⟨"a"⟩ ⟨.kraken, ⟨"BTC-USD"⟩⟩ ∧
      HeldOnce (exec pair.step (idle 0 OrderedMap.empty) joining) :=
  ⟨by decide +kernel, stream_held_once pair ⟨3, rfl⟩ 0 OrderedMap.empty joining
    (by decide +kernel)⟩

end LeaseSafety

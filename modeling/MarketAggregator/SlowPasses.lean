import MarketAggregator.LeaseSafety

/-!
# Passes that take time

A round trip is several calls. The record lands at some moment of the announcement, the scan of
the membership reads one record at a time, and meanwhile the clock runs and other nodes join,
write, crash and leave. All decisions of a pass go by the reading at its beginning. What the guard
has to cover is the time from the beginning of one pass to the end of the next.
-/

namespace SlowPasses

open Clocks GuardedRuns LeaseSafety LeaseSteps OrderedMaps StreamAssignment VenueStreams

/-- How far the round trip of a pass has come. What is due has been there since the scan began and
was not read yet. -/
inductive Stage where
  | announcing (landed : Bool)
  | scanning (due : List NodeId) (leases : List Lease)
  deriving DecidableEq

structure Pass where
  began : Nat
  stage : Stage
  deriving DecidableEq

/-- A running node: what it decided last, when that pass began and the pass that is going on. -/
structure Worker where
  lease : LeaseState
  lastBegan : Option Nat
  pass : Option Pass

structure Fleet where
  now : Nat
  registry : OrderedMap NodeId Lease NodeId.cmp
  workers : OrderedMap NodeId Worker NodeId.cmp

inductive Move where
  | tick (elapsed : Nat)
  | start (node : NodeId)
  | crash (node : NodeId)
  | sweep (node : NodeId)
  | begin (node : NodeId)
  | write (node : NodeId)
  | accept (node : NodeId)
  | read (node other : NodeId)
  | finish (node : NodeId)
  | fail (node : NodeId) (error : RegistryError)

/-- A record that disappears during a scan need not be found by it. -/
def Stage.forget (gone : NodeId) : Stage → Stage
  | .announcing landed => .announcing landed
  | .scanning due leases => .scanning (due.filter (· ≠ gone)) leases

def Worker.forget (gone : NodeId) (p : Worker) : Worker :=
  { p with pass := p.pass.map (fun pass => { pass with stage := pass.stage.forget gone }) }

namespace Fleet

def put (s : Fleet) (node : NodeId) (p : Worker) : Fleet :=
  { s with workers := s.workers.insert node p }

def recorded (s : Fleet) : List NodeId := s.registry.entries.map Prod.fst

end Fleet

section Steps

variable (w : Setting)

/-- A pass ends: it decides by its round trip and by the reading it began with. -/
def concluded (node : NodeId) (p : Worker) (began : Nat) (announced : Except RegistryError Unit)
    (members : Except RegistryError (List Lease)) : Worker :=
  ⟨((w.coordinator node).step p.lease (w.clock began) announced members).1, some began, none⟩

def step (s : Fleet) : Move → Fleet
  | .tick elapsed => { s with now := s.now + elapsed }
  | .start node => match s.workers.find? node with
    | some _ => s
    | none => s.put node ⟨LeaseState.new (w.clock s.now), none, none⟩
  | .crash node => { s with workers := s.workers.remove node }
  -- A stopped node withdraws after it has let go of everything.
  | .sweep node => match s.workers.find? node with
    | some _ => s
    | none =>
      { s with
        registry := s.registry.remove node
        workers := s.workers.mapValues (fun _ => Worker.forget node) }
  | .begin node => match s.workers.find? node with
    | some ⟨lease, lastBegan, none⟩ =>
      s.put node ⟨lease, lastBegan, some ⟨s.now, .announcing false⟩⟩
    | _ => s
  | .write node => match s.workers.find? node with
    | some ⟨lease, lastBegan, some ⟨began, .announcing false⟩⟩ =>
      { s with registry := s.registry.insert node (w.record node began) }.put node
        ⟨lease, lastBegan, some ⟨began, .announcing true⟩⟩
    | _ => s
  | .accept node => match s.workers.find? node with
    | some ⟨lease, lastBegan, some ⟨began, .announcing true⟩⟩ =>
      s.put node ⟨lease, lastBegan, some ⟨began, .scanning s.recorded []⟩⟩
    | _ => s
  | .read node other => match s.workers.find? node with
    | some ⟨lease, lastBegan, some ⟨began, .scanning due leases⟩⟩ =>
      s.put node ⟨lease, lastBegan, some ⟨began, .scanning (due.filter (· ≠ other))
        (leases ++ (s.registry.find? other).toList)⟩⟩
    | _ => s
  | .finish node => match s.workers.find? node with
    | some ⟨lease, lastBegan, some ⟨began, .scanning [] leases⟩⟩ =>
      s.put node (concluded w node ⟨lease, lastBegan, none⟩ began (.ok ()) (.ok leases))
    | _ => s
  | .fail node error => match s.workers.find? node with
    | some ⟨lease, lastBegan, some ⟨began, .announcing _⟩⟩ =>
      s.put node (concluded w node ⟨lease, lastBegan, none⟩ began (.error error) (.error error))
    | some ⟨lease, lastBegan, some ⟨began, .scanning _ _⟩⟩ =>
      s.put node (concluded w node ⟨lease, lastBegan, none⟩ began (.ok ()) (.error error))
    | _ => s

/-- Time never carries a running node further than the guard past the beginning of its last
finished pass, or of its first one. -/
def Prompt (s : Fleet) : Move → Prop
  | .tick elapsed => ∀ e ∈ s.workers.entries,
    (∀ last ∈ e.2.lastBegan, s.now + elapsed ≤ last + w.config.guard) ∧
    ∀ pass ∈ e.2.pass, s.now + elapsed ≤ pass.began + w.config.guard
  | _ => True

instance (s : Fleet) (a : Move) : Decidable (Prompt w s a) := by
  cases a <;> unfold Prompt <;> infer_instance

end Steps

/-- A registry with any records in it and no node running. -/
def asleep (now : Nat) (registry : OrderedMap NodeId Lease NodeId.cmp) : Fleet :=
  ⟨now, registry, OrderedMap.empty⟩

def Works (s : Fleet) (node : NodeId) (p : Worker) : Prop := s.workers.find? node = some p

def Runs (s : Fleet) (node : NodeId) (stream : StreamId) : Prop :=
  ∃ p, Works s node p ∧ stream ∈ p.lease.owned.members

def RunOnce (s : Fleet) : Prop := ∀ stream a b, Runs s a stream → Runs s b stream → a = b

/-- What a node's own calls guarantee about it. -/
structure Fine (w : Setting) (s : Fleet) (node : NodeId) (p : Worker) : Prop where
  last : ∀ last, p.lastBegan = some last → last ≤ s.now ∧ s.now ≤ last + w.config.guard
  pass : ∀ pass, p.pass = some pass → pass.began ≤ s.now ∧ s.now ≤ pass.began + w.config.guard ∧
    (∀ last, p.lastBegan = some last → last ≤ pass.began) ∧
    (pass.stage ≠ .announcing false → s.registry.find? node = some (w.record node pass.began))
  contact : ∀ contact, p.lease.lastContact = some contact → ∃ last, p.lastBegan = some last ∧
    contact.mono ≤ last ∧ last - contact.mono < w.config.holdFor ∧
    ∃ written, contact.mono ≤ written ∧ s.registry.find? node = some (w.record node written)
  holding : ∀ stream ∈ p.lease.owned.members, ∃ contact last, p.lease.lastContact = some contact ∧
    p.lastBegan = some last ∧ p.lease.settledAt.mono + w.config.settleFor ≤ last ∧
    owner stream p.lease.members = some node

/-- A node in contact is known to another one, will be read by it, or has joined so late that it
takes nothing before the other has let go. -/
structure Knows (w : Setting) (p : Worker) (b : NodeId) (q : Worker) : Prop where
  members : ∀ contact joined, p.lease.lastContact = some contact →
    q.lease.lastContact = some joined →
    contact.mono ≤ q.lease.settledAt.mono + w.config.guard ∨ b ∈ p.lease.members
  scan : ∀ began due leases joined, p.pass = some ⟨began, .scanning due leases⟩ →
    q.lease.lastContact = some joined →
    began ≤ q.lease.settledAt.mono + w.config.guard ∨ b ∈ due ∨
      b ∈ liveMembers leases (w.clock began).wall

structure Sound (w : Setting) (s : Fleet) : Prop where
  each : ∀ node p, Works s node p → Fine w s node p
  known : ∀ a p b q, Works s a p → Works s b q → Knows w p b q

section Invariants

variable {w : Setting} {s t : Fleet} {node a b : NodeId} {p q r : Worker}

theorem Fine.recent (fine : Fine w s node p) {contact : IngestTime}
    (heard : p.lease.lastContact = some contact) : s.now < contact.mono + w.config.ttl := by
  obtain ⟨last, known, ordered, fresh, -⟩ := fine.contact contact heard
  obtain ⟨-, due⟩ := fine.last last known
  rw [LeaseConfig.holdFor] at fresh
  omega

/-- The argument at one instant: both claimants know each other, so they are one node. -/
theorem Sound.exclusive (sound : Sound w s) : RunOnce s := by
  rintro stream a b ⟨p, runA, ownA⟩ ⟨q, runB, ownB⟩
  have fineA := sound.each a p runA
  have fineB := sound.each b q runB
  obtain ⟨contactA, lastA, heardA, passA, settledA, ownerA⟩ := fineA.holding stream ownA
  obtain ⟨contactB, lastB, heardB, passB, settledB, ownerB⟩ := fineB.holding stream ownB
  have recentA := fineA.recent heardA
  have recentB := fineB.recent heardB
  have pastA := (fineA.last lastA passA).1
  have pastB := (fineB.last lastB passB).1
  rw [LeaseConfig.settleFor] at settledA settledB
  have seenB : b ∈ p.lease.members := by
    rcases (sound.known a p b q runA runB).members contactA contactB heardA heardB with h | h
    · omega
    · exact h
  have seenA : a ∈ q.lease.members := by
    rcases (sound.known b q a p runB runA).members contactB contactA heardB heardA with h | h
    · omega
    · exact h
  exact owner_agree ownerA ownerB seenB seenA

theorem works_put {m : NodeId} (run : Works (s.put node r) m q) :
    m = node ∧ q = r ∨ m ≠ node ∧ Works s m q := by
  rw [Works, Fleet.put, find_inserted] at run
  split at run
  · rename_i same
    exact .inl ⟨same, (Option.some.inj run).symm⟩
  · rename_i other
    exact .inr ⟨other, run⟩

/-- One node changes while the others keep what they know. -/
theorem Sound.changed (sound : Sound w s) (now : t.now = s.now)
    (others : ∀ m, m ≠ node → t.registry.find? m = s.registry.find? m)
    (workers : t.workers = s.workers.insert node r) (fine : Fine w t node r)
    (outward : ∀ m q, m ≠ node → Works s m q → Knows w r m q)
    (inward : ∀ m q, m ≠ node → Works s m q → Knows w q node r)
    (own : Knows w r node r) : Sound w t := by
  have works : ∀ m q, Works t m q → m = node ∧ q = r ∨ m ≠ node ∧ Works s m q := by
    intro m q run
    rw [Works, workers] at run
    exact works_put run
  constructor
  · intro m q run
    rcases works m q run with ⟨rfl, rfl⟩ | ⟨other, old⟩
    · exact fine
    · obtain ⟨last, pass, contact, holding⟩ := sound.each m q old
      rw [← now] at last pass
      rw [← others m other] at pass contact
      exact ⟨last, pass, contact, holding⟩
  · intro a q b q' runA runB
    rcases works a q runA with ⟨rfl, rfl⟩ | ⟨otherA, oldA⟩
    · rcases works b q' runB with ⟨rfl, rfl⟩ | ⟨otherB, oldB⟩
      · exact own
      · exact outward b q' otherB oldB
    · rcases works b q' runB with ⟨rfl, rfl⟩ | ⟨otherB, oldB⟩
      · exact inward a q otherA oldA
      · exact sound.known a q b q' oldA oldB

/-- A node goes on with its round trip and decides nothing. -/
theorem Sound.proceeds (sound : Sound w s) (run : Works s node p) {pass : Pass}
    (now : t.now = s.now)
    (others : ∀ m, m ≠ node → t.registry.find? m = s.registry.find? m)
    (workers : t.workers = s.workers.insert node { p with pass := some pass })
    (fine : Fine w t node { p with pass := some pass })
    (scan : ∀ m q began due leases joined, Works s m q → pass = ⟨began, .scanning due leases⟩ →
      q.lease.lastContact = some joined →
      began ≤ q.lease.settledAt.mono + w.config.guard ∨ m ∈ due ∨
        m ∈ liveMembers leases (w.clock began).wall) : Sound w t := by
  have goes : ∀ m q, Works s m q → Knows w { p with pass := some pass } m q := fun m q other =>
    ⟨(sound.known node p m q run other).members, fun began due leases joined here =>
      scan m q began due leases joined other (Option.some.inj here)⟩
  refine sound.changed now others workers fine (fun m q _ => goes m q) ?_ ?_
  · intro m q _ other
    have known := sound.known m q node p other run
    exact ⟨known.members, known.scan⟩
  · have known := goes node p run
    exact ⟨known.members, known.scan⟩

theorem Fine.proceeds (fine : Fine w s node p) {pass : Pass} (now : t.now = s.now)
    (began : pass.began ≤ s.now ∧ s.now ≤ pass.began + w.config.guard)
    (ordered : ∀ last, p.lastBegan = some last → last ≤ pass.began)
    (landed : pass.stage ≠ .announcing false →
      t.registry.find? node = some (w.record node pass.began))
    (kept : t.registry.find? node = s.registry.find? node ∨
      t.registry.find? node = some (w.record node pass.began)) :
    Fine w t node { p with pass := some pass } where
  last last known := now ▸ fine.last last known
  pass other here := by
    obtain rfl := Option.some.inj here
    exact ⟨now ▸ began.1, now ▸ began.2, ordered, landed⟩
  contact contact heard := by
    obtain ⟨last, known, before, fresh, written, late, record⟩ := fine.contact contact heard
    refine ⟨last, known, before, fresh, ?_⟩
    rcases kept with same | new
    · exact ⟨written, late, same.trans record⟩
    · exact ⟨pass.began, Nat.le_trans before (ordered last known), new⟩
  holding := fine.holding

theorem sound_begin {lease : LeaseState} {lastBegan : Option Nat} (sound : Sound w s)
    (run : Works s node ⟨lease, lastBegan, none⟩) :
    Sound w (s.put node ⟨lease, lastBegan, some ⟨s.now, .announcing false⟩⟩) := by
  have fine := sound.each _ _ run
  refine sound.proceeds run rfl (fun _ _ => rfl) rfl ?_ (fun _ _ _ _ _ _ _ here => nomatch here)
  exact fine.proceeds rfl ⟨Nat.le_refl _, Nat.le_add_right _ _⟩
    (fun last known => (fine.last last known).1) (fun late => absurd rfl late) (.inl rfl)

theorem sound_write {lease : LeaseState} {lastBegan : Option Nat} {began : Nat} (sound : Sound w s)
    (run : Works s node ⟨lease, lastBegan, some ⟨began, .announcing false⟩⟩) :
    Sound w ({ s with registry := s.registry.insert node (w.record node began) }.put node
      ⟨lease, lastBegan, some ⟨began, .announcing true⟩⟩) := by
  have fine := sound.each _ _ run
  obtain ⟨past, due, ordered, -⟩ := fine.pass _ rfl
  have own : (s.registry.insert node (w.record node began)).find? node =
      some (w.record node began) := find_inserted.trans (if_pos rfl)
  refine sound.proceeds run rfl (fun m other => find_inserted.trans (if_neg other)) rfl ?_
    (fun _ _ _ _ _ _ _ here => nomatch here)
  exact fine.proceeds rfl ⟨past, due⟩ ordered (fun _ => own) (.inr own)

/-- A scan begins with every record that is there. -/
theorem sound_accept {lease : LeaseState} {lastBegan : Option Nat} {began : Nat}
    (sound : Sound w s)
    (run : Works s node ⟨lease, lastBegan, some ⟨began, .announcing true⟩⟩) :
    Sound w (s.put node ⟨lease, lastBegan, some ⟨began, .scanning s.recorded []⟩⟩) := by
  have fine := sound.each _ _ run
  obtain ⟨past, due, ordered, landed⟩ := fine.pass _ rfl
  refine sound.proceeds run rfl (fun _ _ => rfl) rfl ?_ ?_
  · exact fine.proceeds rfl ⟨past, due⟩ ordered (fun _ => landed nofun) (.inl rfl)
  · rintro m q began due leases joined other here heard
    obtain ⟨-, stage⟩ := Pass.mk.inj here
    obtain ⟨rfl, rfl⟩ := Stage.scanning.inj stage
    obtain ⟨last, known, before, fresh, written, late, record⟩ :=
      (sound.each m q other).contact joined heard
    obtain ⟨key, mem, same⟩ := OrderedMap.find?_mem record
    exact .inr (.inl (List.mem_map.mpr ⟨_, mem, (node_cmp.mp same).symm⟩))

theorem mem_live_append {leases more : List Lease} {now : Int} {n : NodeId} :
    n ∈ liveMembers (leases ++ more) now ↔ n ∈ liveMembers leases now ∨ n ∈ liveMembers more now := by
  simp only [mem_liveMembers, List.mem_append, or_and_right, exists_or]

/-- The record of a node in contact is live for every pass that has begun. -/
theorem Fine.live (fine : Fine w s node p) (whole : nanosPerMilli ∣ w.config.ttl)
    {joined : IngestTime} (heard : p.lease.lastContact = some joined) {began : Nat}
    (past : began ≤ s.now) :
    node ∈ liveMembers (s.registry.find? node).toList (w.clock began).wall := by
  obtain ⟨last, known, before, fresh, written, late, record⟩ := fine.contact joined heard
  have recent := fine.recent heard
  rw [record]
  refine mem_liveMembers.mpr ⟨_, List.mem_singleton_self _, ?_, rfl⟩
  cases expired : (w.record node written).expiredAt (w.clock began).wall with
  | false => rfl
  | true =>
    have old : w.epoch + written + w.config.ttl < _ := expiredAt_late whole rfl rfl expired
    simp only [Setting.clock] at old
    omega

/-- Reading a record finds the node if it is in contact. -/
theorem sound_read {lease : LeaseState} {lastBegan : Option Nat} {began : Nat}
    {due : List NodeId} {leases : List Lease} (sound : Sound w s)
    (whole : nanosPerMilli ∣ w.config.ttl) (other : NodeId)
    (run : Works s node ⟨lease, lastBegan, some ⟨began, .scanning due leases⟩⟩) :
    Sound w (s.put node ⟨lease, lastBegan, some ⟨began, .scanning (due.filter (· ≠ other))
      (leases ++ (s.registry.find? other).toList)⟩⟩) := by
  have fine := sound.each _ _ run
  obtain ⟨past, prompt, ordered, landed⟩ := fine.pass _ rfl
  refine sound.proceeds run rfl (fun _ _ => rfl) rfl ?_ ?_
  · exact fine.proceeds rfl ⟨past, prompt⟩ ordered (fun _ => landed nofun) (.inl rfl)
  · rintro m q _ _ _ joined works here heard
    obtain ⟨rfl, stage⟩ := Pass.mk.inj here
    obtain ⟨rfl, rfl⟩ := Stage.scanning.inj stage
    rw [mem_live_append]
    by_cases same : m = other
    · subst same
      exact .inr (.inr (.inr ((sound.each m q works).live whole heard past)))
    · rcases (sound.known node _ m q run works).scan began due leases joined rfl heard with
        late | waits | read
      · exact .inl late
      · exact .inr (.inl (List.mem_filter.mpr ⟨waits, decide_eq_true same⟩))
      · exact .inr (.inr (.inl read))

section Conclusion

variable {pass : Pass} {announced : Except RegistryError Unit}
  {members : Except RegistryError (List Lease)}

/-- A round trip is complete only after its scan. -/
def Completes (pass : Pass) (announced : Except RegistryError Unit)
    (members : Except RegistryError (List Lease)) : Prop :=
  ∀ leases, Coordinator.roundTrip announced members = some leases →
    pass.stage = .scanning [] leases

theorem fine_concluded (fine : Fine w s node p) (on : p.pass = some pass)
    (completes : Completes pass announced members) :
    Fine w (s.put node (concluded w node p pass.began announced members)) node
      (concluded w node p pass.began announced members) := by
  obtain ⟨past, due, ordered, landed⟩ := fine.pass pass on
  constructor
  · intro last known
    obtain rfl := Option.some.inj known
    exact ⟨past, due⟩
  · exact nofun
  · intro contact heard
    obtain ⟨fresh, ⟨leases, trip, rfl, -⟩ | ⟨-, old, -⟩⟩ := Coordinator.step_contact heard
    · have scanned := completes leases trip
      refine ⟨pass.began, rfl, Nat.le_refl _, fresh, pass.began, Nat.le_refl _, landed ?_⟩
      rw [scanned]
      exact nofun
    · obtain ⟨last, known, before, -, record⟩ := fine.contact contact old
      exact ⟨pass.began, rfl, Nat.le_trans before (ordered last known), fresh, record⟩
  · intro stream own
    obtain ⟨⟨contact, heard⟩, settled, -, chosen⟩ := Coordinator.step_owned own
    refine ⟨contact, pass.began, heard, rfl, ?_, chosen⟩
    have fresh : pass.began - contact.mono < w.config.holdFor :=
      (Coordinator.step_contact heard).1
    have since : w.config.settleFor ≤ pass.began -
        (concluded w node p pass.began announced members).lease.settledAt.mono := settled
    rw [LeaseConfig.holdFor] at fresh
    rw [LeaseConfig.settleFor] at since ⊢
    omega

/-- What a node knows of another after a pass: what its scan has found, or what it knew. -/
theorem knows_outward (known : Knows w p b q) (on : p.pass = some pass)
    (completes : Completes pass announced members) :
    Knows w (concluded w node p pass.began announced members) b q := by
  refine ⟨fun contact joined heard there => ?_, nofun⟩
  obtain ⟨-, ⟨leases, trip, rfl, mem, -⟩ | ⟨-, old, mem, -⟩⟩ := Coordinator.step_contact heard
  · have scanning : p.pass = some ⟨pass.began, .scanning [] leases⟩ := by
      rw [on, ← completes leases trip]
    rcases known.scan pass.began [] leases joined scanning there with late | waits | read
    · exact .inl late
    · cases waits
    · exact .inr (mem.symm ▸ read)
  · rcases known.members contact joined old there with late | listed
    · exact .inl late
    · exact .inr (mem.symm ▸ listed)

/-- A node that joins by a pass settles from its beginning, or has joined before. -/
theorem concluded_settled {joined : IngestTime}
    (heard : (concluded w node p pass.began announced members).lease.lastContact = some joined) :
    (concluded w node p pass.began announced members).lease.settledAt.mono = pass.began ∨
      (∃ before, p.lease.lastContact = some before) ∧
        (concluded w node p pass.began announced members).lease.settledAt = p.lease.settledAt := by
  obtain ⟨-, ⟨leases, trip, rfl, -, settled⟩ | ⟨-, old, -, settled⟩⟩ :=
    Coordinator.step_contact heard
  · cases was : p.lease.lastContact with
    | none =>
      rw [was] at settled
      exact .inl (congrArg IngestTime.mono settled)
    | some before =>
      rw [was] at settled
      exact .inr ⟨⟨before, rfl⟩, settled⟩
  · exact .inr ⟨⟨joined, old⟩, settled⟩

/-- The other nodes know one that has just joined, since its pass has been short. -/
theorem knows_inward (known : Knows w q node p) (fine : Fine w s a q)
    (due : s.now ≤ pass.began + w.config.guard) :
    Knows w q node (concluded w node p pass.began announced members) := by
  constructor
  · intro contact joined heard there
    rcases concluded_settled there with new | ⟨⟨before, was⟩, same⟩
    · obtain ⟨last, at_, ordered, -⟩ := fine.contact contact heard
      have past := (fine.last last at_).1
      exact .inl (by omega)
    · rcases known.members contact before heard was with late | listed
      · exact .inl (same.symm ▸ late)
      · exact .inr listed
  · intro began waiting leases joined on there
    rcases concluded_settled there with new | ⟨⟨before, was⟩, same⟩
    · have past : began ≤ s.now := (fine.pass _ on).1
      exact .inl (by omega)
    · rcases known.scan began waiting leases before on was with late | listed
      · exact .inl (same.symm ▸ late)
      · exact .inr listed

theorem sound_concluded (sound : Sound w s) (run : Works s node p) (on : p.pass = some pass)
    (completes : Completes pass announced members) :
    Sound w (s.put node (concluded w node p pass.began announced members)) := by
  have fine := sound.each node p run
  obtain ⟨past, due, ordered, landed⟩ := fine.pass pass on
  refine sound.changed rfl (fun _ _ => rfl) rfl (fine_concluded fine on completes) ?_ ?_ ?_
  · exact fun m q _ other => knows_outward (sound.known node p m q run other) on completes
  · exact fun m q _ other => knows_inward (sound.known m q node p other run)
      (sound.each m q other) due
  · have known : Knows w p node (concluded w node p pass.began announced members) :=
      knows_inward (sound.known node p node p run run) fine due
    exact knows_outward known on completes

end Conclusion

/-- Fewer nodes, less of a registry that none of them wrote, a later instant in time. -/
theorem Sound.shrinks (sound : Sound w s) (later : s.now ≤ t.now)
    (works : ∀ m q, Works t m q → Works s m q)
    (kept : ∀ m q, Works t m q → t.registry.find? m = s.registry.find? m)
    (prompt : ∀ m q, Works t m q → s.now = t.now ∨
      (∀ last, q.lastBegan = some last → t.now ≤ last + w.config.guard) ∧
        ∀ pass, q.pass = some pass → t.now ≤ pass.began + w.config.guard) : Sound w t := by
  refine ⟨fun m q run => ?_, fun a q b r ha hb => sound.known a q b r (works a q ha) (works b r hb)⟩
  obtain ⟨last, pass, contact, holding⟩ := sound.each m q (works m q run)
  rw [← kept m q run] at contact
  refine ⟨fun at_ known => ?_, fun own on => ?_, contact, holding⟩
  · obtain ⟨past, due⟩ := last at_ known
    rcases prompt m q run with same | ⟨prompt, -⟩
    · exact ⟨by omega, by omega⟩
    · exact ⟨by omega, prompt at_ known⟩
  · obtain ⟨past, due, ordered, landed⟩ := pass own on
    rw [← kept m q run] at landed
    rcases prompt m q run with same | ⟨-, prompt⟩
    · exact ⟨by omega, by omega, ordered, landed⟩
    · exact ⟨by omega, prompt own on, ordered, landed⟩

theorem forget_pass {gone : NodeId} {pass : Pass} (on : (p.forget gone).pass = some pass) :
    ∃ before, p.pass = some before ∧ pass.began = before.began ∧
      pass.stage = before.stage.forget gone := by
  obtain ⟨before, own, rfl⟩ := Option.map_eq_some_iff.mp on
  exact ⟨before, own, rfl, rfl⟩

theorem forget_landed {gone : NodeId} {stage : Stage}
    (late : stage.forget gone ≠ .announcing false) : stage ≠ .announcing false := by
  rintro rfl
  exact late rfl

/-- The record of a node that has stopped disappears from the registry and from the scans. -/
theorem sound_sweep (sound : Sound w s) (stopped : s.workers.find? node = none) :
    Sound w
      { s with
        registry := s.registry.remove node
        workers := s.workers.mapValues (fun _ => Worker.forget node) } := by
  have works : ∀ m q', Works
      { s with
        registry := s.registry.remove node
        workers := s.workers.mapValues (fun _ => Worker.forget node) } m q' →
      m ≠ node ∧ ∃ q, Works s m q ∧ q' = q.forget node := by
    intro m q' run
    rw [Works, OrderedMap.find?_mapValues] at run
    obtain ⟨q, old, rfl⟩ := Option.map_eq_some_iff.mp run
    refine ⟨?_, q, old, rfl⟩
    rintro rfl
    rw [stopped] at old
    cases old
  constructor
  · intro m q' run
    obtain ⟨other, q, old, rfl⟩ := works m q' run
    obtain ⟨last, pass, contact, holding⟩ := sound.each m q old
    have kept : (s.registry.remove node).find? m = s.registry.find? m :=
      find_removed.trans (if_neg other)
    rw [← kept] at contact
    refine ⟨last, fun own on => ?_, contact, holding⟩
    obtain ⟨before, was, began, stage⟩ := forget_pass on
    obtain ⟨past, due, ordered, landed⟩ := pass before was
    rw [began, stage]
    exact ⟨past, due, ordered, fun late => kept.trans (landed (forget_landed late))⟩
  · intro a q' b r' runA runB
    obtain ⟨-, q, oldA, rfl⟩ := works a q' runA
    obtain ⟨other, r, oldB, rfl⟩ := works b r' runB
    have known := sound.known a q b r oldA oldB
    refine ⟨known.members, fun began due leases joined on there => ?_⟩
    obtain ⟨⟨began', stage⟩, was, began, forgot⟩ := forget_pass on
    obtain rfl : _ = began' := began
    cases stage with
    | announcing landed => cases forgot
    | scanning before leases' =>
      obtain ⟨rfl, rfl⟩ := Stage.scanning.inj forgot
      rcases known.scan began before leases joined was there with late | waits | read
      · exact .inl late
      · exact .inr (.inl (List.mem_filter.mpr ⟨waits, decide_eq_true other⟩))
      · exact .inr (.inr read)

theorem sound_step (whole : nanosPerMilli ∣ w.config.ttl) (s : Fleet) (a : Move)
    (sound : Sound w s) (prompt : Prompt w s a) : Sound w (step w s a) := by
  cases a with
  | tick elapsed =>
    refine sound.shrinks (Nat.le_add_right _ _) (fun _ _ run => run) (fun _ _ _ => rfl) ?_
    intro m q run
    obtain ⟨key, mem, -⟩ := OrderedMap.find?_mem run
    obtain ⟨last, pass⟩ := prompt _ mem
    exact .inr ⟨fun at_ known => last at_ known, fun own on => pass own on⟩
  | start node =>
    rw [step]
    split
    · exact sound
    · refine sound.changed rfl (fun _ _ => rfl) rfl ⟨nofun, nofun, nofun, nofun⟩ ?_ ?_ ?_
      · exact fun m q _ _ => ⟨nofun, nofun⟩
      · exact fun m q _ _ => ⟨fun _ _ _ there => (nomatch there), fun _ _ _ _ _ there =>
          (nomatch there)⟩
      · exact ⟨nofun, nofun⟩
  | crash node =>
    refine sound.shrinks (Nat.le_refl _) ?_ (fun _ _ _ => rfl) (fun _ _ _ => .inl rfl)
    intro m q run
    rw [Works, step, find_removed] at run
    split at run
    · cases run
    · exact run
  | sweep node =>
    rw [step]
    split
    · exact sound
    · rename_i stopped
      exact sound_sweep sound stopped
  | begin node =>
    rw [step]
    split
    · rename_i lease lastBegan run
      exact sound_begin sound run
    · exact sound
  | write node =>
    rw [step]
    split
    · rename_i lease lastBegan began run
      exact sound_write sound run
    · exact sound
  | accept node =>
    rw [step]
    split
    · rename_i lease lastBegan began run
      exact sound_accept sound run
    · exact sound
  | read node other =>
    rw [step]
    split
    · rename_i lease lastBegan began due leases run
      exact sound_read sound whole other run
    · exact sound
  | finish node =>
    rw [step]
    split
    · rename_i lease lastBegan began leases run
      have completes : Completes ⟨began, .scanning [] leases⟩ (.ok ()) (.ok leases) := by
        intro others trip
        rw [Option.some.inj trip]
      exact sound_concluded sound run rfl completes
    · exact sound
  | fail node error =>
    rw [step]
    split
    · rename_i lease lastBegan began landed run
      have completes : Completes ⟨began, .announcing landed⟩ (.error error) (.error error) := nofun
      exact sound_concluded sound run rfl completes
    · rename_i lease lastBegan began due leases run
      have completes : Completes ⟨began, .scanning due leases⟩ (.ok ()) (.error error) := nofun
      exact sound_concluded sound run rfl completes
    · exact sound

end Invariants

instance (s : Fleet) (node : NodeId) (stream : StreamId) : Decidable (Runs s node stream) :=
  match h : s.workers.find? node with
  | none => .isFalse (fun ⟨_, run, _⟩ => Option.some_ne_none _ (run.symm.trans h))
  | some p => decidable_of_iff (stream ∈ p.lease.owned.members)
    ⟨fun own => ⟨p, h, own⟩, fun ⟨_, run, own⟩ => Option.some.inj (run.symm.trans h) ▸ own⟩

section Atomic

variable {w : Setting} {s : Fleet} {node : NodeId} {p : Worker}

/-- What is left of a fleet if passes that go on are not looked at. -/
def Fleet.cluster (s : Fleet) : Cluster :=
  ⟨s.now, s.registry, s.workers.mapValues (fun _ p => ⟨p.lease, p.lastBegan⟩)⟩

/-- The calls of a pass with nothing in between. -/
def passMoves (w : Setting) (s : Fleet) (node : NodeId) :
    Announcement → Option RegistryError → List Move
  | .failed error, _ => [.begin node, .fail node error]
  | .unacknowledged error, _ => [.begin node, .write node, .fail node error]
  | .written, some error => [.begin node, .write node, .accept node, .fail node error]
  | .written, none => .begin node :: .write node :: .accept node ::
    ((s.registry.insert node (w.record node s.now)).entries.map (fun e => .read node e.1) ++
      [.finish node])

theorem put_put (p q : Worker) : (s.put node p).put node q = s.put node q := by
  have workers : (s.workers.insert node p).insert node q = s.workers.insert node q := by
    refine OrderedMap.eq_of_find? fun m => ?_
    simp only [find_inserted]
    split <;> rfl
  simp only [Fleet.put, workers]

theorem find_put : (s.put node p).workers.find? node = some p :=
  find_inserted.trans (if_pos rfl)

/-- A scan that reads every record in turn ends with all of them. -/
theorem scan_all {lease : LeaseState} {lastBegan : Option Nat} {began : Nat}
    {entries : List (NodeId × Lease)} {leases : List Lease}
    (held : ∀ e ∈ entries, s.registry.find? e.1 = some e.2)
    (once : (entries.map Prod.fst).Nodup) :
    exec (step w) (s.put node ⟨lease, lastBegan,
        some ⟨began, .scanning (entries.map Prod.fst) leases⟩⟩)
      (entries.map (fun e => .read node e.1)) =
    s.put node ⟨lease, lastBegan, some ⟨began, .scanning [] (leases ++ entries.map Prod.snd)⟩⟩ := by
  induction entries generalizing leases with
  | nil => simp
  | cons e entries ih =>
    obtain ⟨first, rest⟩ := List.forall_mem_cons.mp held
    obtain ⟨new, others⟩ := List.nodup_cons.mp once
    have left : (e.1 :: entries.map Prod.fst).filter (· ≠ e.1) = entries.map Prod.fst := by
      rw [List.filter_cons_of_neg (by simp)]
      refine List.filter_eq_self.mpr fun n mem => decide_eq_true ?_
      rintro rfl
      exact new mem
    have read : step w (s.put node ⟨lease, lastBegan,
          some ⟨began, .scanning ((e :: entries).map Prod.fst) leases⟩⟩) (.read node e.1) =
        s.put node ⟨lease, lastBegan,
          some ⟨began, .scanning (entries.map Prod.fst) (leases ++ [e.2])⟩⟩ := by
      have found : (s.put node ⟨lease, lastBegan,
          some ⟨began, .scanning ((e :: entries).map Prod.fst) leases⟩⟩).registry.find? e.1 =
            some e.2 := first
      rw [step, find_put]
      dsimp only
      rw [found, put_put, List.map_cons, left]
      rfl
    calc exec (step w) (s.put node ⟨lease, lastBegan,
            some ⟨began, .scanning ((e :: entries).map Prod.fst) leases⟩⟩)
          ((e :: entries).map (fun e => .read node e.1))
        = exec (step w) (s.put node ⟨lease, lastBegan,
            some ⟨began, .scanning (entries.map Prod.fst) (leases ++ [e.2])⟩⟩)
          (entries.map (fun e => .read node e.1)) := congrArg (exec (step w) · _) read
      _ = s.put node ⟨lease, lastBegan,
            some ⟨began, .scanning [] (leases ++ [e.2] ++ entries.map Prod.snd)⟩⟩ := ih rest others
      _ = _ := by rw [List.append_assoc, List.map_cons, List.singleton_append]

theorem cluster_put (s : Fleet) (node : NodeId) (p : Worker) :
    (s.put node p).cluster =
      { s.cluster with procs := s.cluster.procs.insert node ⟨p.lease, p.lastBegan⟩ } := by
  have procs : (s.put node p).cluster.procs =
      s.cluster.procs.insert node ⟨p.lease, p.lastBegan⟩ := by
    refine OrderedMap.eq_of_find? fun m => ?_
    simp only [Fleet.cluster, Fleet.put, OrderedMap.find?_mapValues, find_inserted]
    split <;> rfl
  simp only [Fleet.cluster] at procs ⊢
  simp only [procs]
  rfl

/-- The fleet while the record of a pass is on its way, or has landed. -/
def Fleet.wrote (w : Setting) (s : Fleet) (node : NodeId) : Fleet :=
  { s with registry := s.registry.insert node (w.record node s.now) }

theorem moves_begin {lease : LeaseState} {lastBegan : Option Nat}
    (run : Works s node ⟨lease, lastBegan, none⟩) :
    step w s (.begin node) = s.put node ⟨lease, lastBegan, some ⟨s.now, .announcing false⟩⟩ := by
  rw [step, run]

theorem moves_write (p : Worker) :
    step w (s.put node ⟨p.lease, p.lastBegan, some ⟨s.now, .announcing false⟩⟩) (.write node) =
      (s.wrote w node).put node ⟨p.lease, p.lastBegan, some ⟨s.now, .announcing true⟩⟩ := by
  rw [step, find_put]
  exact put_put (s := s.wrote w node) _ _

/-- The fleet after a pass that takes no time and is not disturbed. -/
def Fleet.passed (w : Setting) (s : Fleet) (node : NodeId) (lease : LeaseState)
    (lastBegan : Option Nat) (announcement : Announcement) (unreadable : Option RegistryError) :
    Fleet :=
  let after := w.passed s.cluster node ⟨lease, lastBegan⟩ announcement unreadable
  { s with registry := announcement.write (w.record node s.now) s.registry }.put node
    ⟨after.lease, after.lastPass, none⟩

/-- The calls of a pass with nothing in between are an atomic pass. -/
theorem atomic_pass {lease : LeaseState} {lastBegan : Option Nat}
    (run : Works s node ⟨lease, lastBegan, none⟩) (announcement : Announcement)
    (unreadable : Option RegistryError) :
    exec (step w) s (passMoves w s node announcement unreadable) =
      s.passed w node lease lastBegan announcement unreadable := by
  cases announcement with
  | failed error =>
    rw [passMoves, exec_cons, moves_begin run, exec_cons, exec_nil, step, find_put]
    exact put_put _ _
  | unacknowledged error =>
    rw [passMoves, exec_cons, moves_begin run, exec_cons, moves_write ⟨lease, lastBegan, none⟩,
      exec_cons, exec_nil, step, find_put]
    exact put_put (s := s.wrote w node) _ _
  | written =>
    have accepted : step w ((s.wrote w node).put node
          ⟨lease, lastBegan, some ⟨s.now, .announcing true⟩⟩) (.accept node) =
        (s.wrote w node).put node ⟨lease, lastBegan,
          some ⟨s.now, .scanning (s.wrote w node).recorded []⟩⟩ := by
      rw [step, find_put]
      exact put_put _ _
    cases unreadable with
    | some error =>
      rw [passMoves, exec_cons, moves_begin run, exec_cons, moves_write ⟨lease, lastBegan, none⟩,
        exec_cons, accepted, exec_cons, exec_nil, step, find_put]
      exact put_put (s := s.wrote w node) _ _
    | none =>
      have scanned : exec (step w) ((s.wrote w node).put node ⟨lease, lastBegan,
            some ⟨s.now, .scanning (s.wrote w node).recorded []⟩⟩)
          ((s.wrote w node).registry.entries.map (fun e => .read node e.1)) = _ :=
        scan_all (fun e mem => OrderedMap.mem_find? mem) (OrderedMap.keys_nodup _)
      rw [passMoves, exec_cons, moves_begin run, exec_cons, moves_write ⟨lease, lastBegan, none⟩,
        exec_cons, accepted, exec_append]
      refine (congrArg (exec (step w) · [.finish node]) scanned).trans ?_
      rw [exec_cons, exec_nil, step, find_put]
      exact put_put (s := s.wrote w node) _ _

/-- No pass is going on. -/
def Quiet (s : Fleet) : Prop := ∀ node p, Works s node p → p.pass = none

theorem Quiet.put (quiet : Quiet s) (idle : p.pass = none) : Quiet (s.put node p) := by
  intro m q run
  rcases works_put run with ⟨rfl, rfl⟩ | ⟨-, old⟩
  · exact idle
  · exact quiet m q old

/-- The calls that make up one atomic action. -/
def Fleet.moves (w : Setting) (s : Fleet) : Action → List Move
  | .tick elapsed => [.tick elapsed]
  | .start node => [.start node]
  | .crash node => [.crash node]
  | .leave node withdrawn => .crash node :: if withdrawn then [.sweep node] else []
  | .pass node announcement unreadable => match s.workers.find? node with
    | none => []
    | some _ => passMoves w s node announcement unreadable

theorem find_cluster (s : Fleet) (node : NodeId) : s.cluster.procs.find? node =
    (s.workers.find? node).map (fun p => ⟨p.lease, p.lastBegan⟩) :=
  OrderedMap.find?_mapValues _ _ _

theorem cluster_crash (w : Setting) (s : Fleet) (node : NodeId) :
    (step w s (.crash node)).cluster = { s.cluster with procs := s.cluster.procs.remove node } := by
  have procs : (s.workers.remove node).mapValues (fun _ p => (⟨p.lease, p.lastBegan⟩ : Process)) =
      s.cluster.procs.remove node := by
    refine OrderedMap.eq_of_find? fun m => ?_
    rw [OrderedMap.find?_mapValues, find_removed, find_removed, find_cluster]
    split <;> rfl
  rw [← procs]
  rfl

theorem quiet_crash (w : Setting) (quiet : Quiet s) : Quiet (step w s (.crash node)) := by
  intro m q run
  rw [Works, step, find_removed] at run
  split at run
  · cases run
  · exact quiet m q run

theorem cluster_sweep (stopped : s.workers.find? node = none) :
    (step w s (.sweep node)).cluster =
      { s.cluster with registry := s.cluster.registry.remove node } := by
  have procs : (s.workers.mapValues (fun _ => Worker.forget node)).mapValues
      (fun _ p => (⟨p.lease, p.lastBegan⟩ : Process)) = s.cluster.procs := by
    refine OrderedMap.eq_of_find? fun m => ?_
    rw [OrderedMap.find?_mapValues, OrderedMap.find?_mapValues, find_cluster, Option.map_map]
    rfl
  have swept : step w s (.sweep node) =
      { s with
        registry := s.registry.remove node
        workers := s.workers.mapValues (fun _ => Worker.forget node) } := by
    rw [step, stopped]
  rw [swept]
  exact congrArg (fun procs => (⟨s.now, s.registry.remove node, procs⟩ : Cluster)) procs

theorem quiet_sweep (w : Setting) (quiet : Quiet s) (stopped : s.workers.find? node = none) :
    Quiet (step w s (.sweep node)) := by
  intro m q run
  rw [Works, step, stopped, OrderedMap.find?_mapValues] at run
  obtain ⟨p, old, rfl⟩ := Option.map_eq_some_iff.mp run
  rw [Worker.forget, quiet m p old]
  rfl

theorem moves_simulate (quiet : Quiet s) (a : Action) :
    (exec (step w) s (s.moves w a)).cluster = w.step s.cluster a ∧
      Quiet (exec (step w) s (s.moves w a)) := by
  cases a with
  | tick elapsed => exact ⟨rfl, quiet⟩
  | start node =>
    rw [Fleet.moves, exec_cons, exec_nil, step, Setting.step, find_cluster]
    cases s.workers.find? node with
    | some p => exact ⟨rfl, quiet⟩
    | none => exact ⟨cluster_put s node _, quiet.put rfl⟩
  | crash node => exact ⟨cluster_crash w s node, quiet_crash w quiet⟩
  | leave node withdrawn =>
    cases withdrawn with
    | false => exact ⟨cluster_crash w s node, quiet_crash w quiet⟩
    | true =>
      have stopped : (step w s (.crash node)).workers.find? node = none :=
        find_removed.trans (if_pos rfl)
      constructor
      · have swept : (step w (step w s (.crash node)) (.sweep node)).cluster = _ :=
          cluster_sweep stopped
        rw [cluster_crash] at swept
        exact swept
      · exact quiet_sweep w (quiet_crash w quiet) stopped
  | pass node announcement unreadable =>
    rw [Fleet.moves, Setting.step, find_cluster]
    cases run : s.workers.find? node with
    | none => exact ⟨rfl, quiet⟩
    | some p =>
      obtain ⟨lease, lastBegan, pass⟩ := p
      obtain rfl : pass = none := quiet node _ run
      have moved : exec (step w) s (passMoves w s node announcement unreadable) = _ :=
        atomic_pass run announcement unreadable
      dsimp only
      rw [moved]
      exact ⟨cluster_put _ node _, Quiet.put quiet rfl⟩

theorem passMoves_prompt (announcement : Announcement) (unreadable : Option RegistryError) :
    ∀ move ∈ passMoves w s node announcement unreadable, ∀ t, Prompt w t move := by
  cases announcement with
  | failed error => simp [passMoves, Prompt]
  | unacknowledged error => simp [passMoves, Prompt]
  | written => cases unreadable with
    | some error => simp [passMoves, Prompt]
    | none =>
      intro move mem t
      simp only [passMoves, List.mem_cons, List.mem_append, List.mem_map, List.not_mem_nil,
        or_false] at mem
      rcases mem with rfl | rfl | rfl | ⟨e, -, rfl⟩ | rfl <;> trivial

/-- A punctual action is made of prompt calls. -/
theorem moves_prompt (quiet : Quiet s) {a : Action} (punctual : w.Punctual s.cluster a) :
    Meets (step w) (Prompt w) s (s.moves w a) := by
  have timeless : ∀ moves : List Move, (∀ move ∈ moves, ∀ t, Prompt w t move) →
      ∀ t, Meets (step w) (Prompt w) t moves := by
    intro moves
    induction moves with
    | nil => exact fun _ _ => trivial
    | cons move moves ih =>
      intro all t
      obtain ⟨first, rest⟩ := List.forall_mem_cons.mp all
      exact ⟨first t, ih rest _⟩
  cases a with
  | tick elapsed =>
    refine ⟨fun e mem => ⟨fun last known => ?_, fun pass on => ?_⟩, trivial⟩
    · have found : s.cluster.procs.find? e.1 = some ⟨e.2.lease, e.2.lastBegan⟩ := by
        rw [find_cluster, OrderedMap.mem_find? mem]
        rfl
      obtain ⟨key, entry, -⟩ := OrderedMap.find?_mem found
      exact punctual _ entry last known
    · have idle := quiet e.1 e.2 (OrderedMap.mem_find? mem)
      rw [idle] at on
      cases on
  | start node => exact ⟨trivial, trivial⟩
  | crash node => exact ⟨trivial, trivial⟩
  | leave node withdrawn =>
    cases withdrawn with
    | false => exact ⟨trivial, trivial⟩
    | true => exact ⟨trivial, trivial, trivial⟩
  | pass node announcement unreadable =>
    rw [Fleet.moves]
    cases s.workers.find? node with
    | none => trivial
    | some p =>
      exact timeless _ (passMoves_prompt announcement unreadable) s

/-- Every run with atomic passes is a run of passes that take time, and it is prompt if it is
punctual. -/
theorem atomic_runs (w : Setting) (now : Nat) (registry : OrderedMap NodeId Lease NodeId.cmp)
    (acts : List Action) : ∃ moves,
      (exec (step w) (asleep now registry) moves).cluster = exec w.step (idle now registry) acts ∧
      (Meets w.step w.Punctual (idle now registry) acts →
        Meets (step w) (Prompt w) (asleep now registry) moves) := by
  suffices all : ∀ s : Fleet, Quiet s → ∃ moves,
      (exec (step w) s moves).cluster = exec w.step s.cluster acts ∧
      (Meets w.step w.Punctual s.cluster acts → Meets (step w) (Prompt w) s moves) from
    all (asleep now registry) (fun _ _ run => nomatch run)
  induction acts with
  | nil => exact fun s _ => ⟨[], rfl, fun _ => trivial⟩
  | cons a acts ih =>
    intro s quiet
    obtain ⟨reached, still⟩ := moves_simulate (w := w) quiet a
    obtain ⟨moves, ends, prompt⟩ := ih _ still
    rw [reached] at ends prompt
    refine ⟨s.moves w a ++ moves, by rw [exec_append, ends, exec_cons], fun punctual => ?_⟩
    exact meets_append.mpr ⟨moves_prompt quiet punctual.1, prompt punctual.2⟩

end Atomic

end SlowPasses

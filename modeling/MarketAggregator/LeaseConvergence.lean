import MarketAggregator.LeaseSafety

/-!
# The cluster settles on its assignment

Nodes may have crashed, failed and slept in any way. Once the registry works, nobody joins or
goes, and every running node passes in time, two periods and a settling time later every
stream is held by its owner among the running nodes and by nobody else.
-/

namespace LeaseConvergence

open Clocks GuardedRuns LeaseSafety LeaseSteps OrderedMaps StreamAssignment VenueStreams

/-- Nobody joins or goes, every round trip is complete, and no node is late for its next pass,
counted from the beginning of the calm at the earliest. -/
def Calm (period begun : Nat) (s : Cluster) : Action → Prop
  | .tick elapsed => ∀ e ∈ s.procs.entries,
    s.now + elapsed ≤ max begun (e.2.lastPass.getD begun) + period
  | .pass _ .written none => True
  | _ => False

instance (period begun : Nat) (s : Cluster) (a : Action) : Decidable (Calm period begun s a) := by
  rcases a with elapsed | node | node | ⟨node, withdrawn⟩ | ⟨node, _ | _ | _, _ | _⟩ <;>
    unfold Calm <;> infer_instance

def runningNodes (s : Cluster) : List NodeId := s.procs.entries.map Prod.fst

/-- No process has a reading of the clock that is still to come. -/
def Past (s : Cluster) : Prop :=
  ∀ node p, Running s node p → p.lease.settledAt.mono ≤ s.now ∧ p.lastPass.getD 0 ≤ s.now

/-- A process that has passed during the calm, and what it knows if that was late enough. -/
structure Renewed (w : Setting) (s₀ : Cluster) (period late : Nat) (s : Cluster) (node : NodeId)
    (p : Process) : Prop where
  passed : ∃ last, p.lastPass = some last ∧ s₀.now ≤ last ∧
    s.registry.find? node = some (w.record node last) ∧
    (late ≤ last → p.lease.owned = assignedTo node w.streams p.lease.members ∧
      ∀ n, n ∈ p.lease.members ↔ n ∈ runningNodes s₀)
  inContact : p.lease.lastContact.isSome = true
  settled : p.lease.settledAt.mono ≤ s₀.now + period

/-- What the calm keeps true. -/
structure Tended (w : Setting) (s₀ : Cluster) (period late : Nat) (s : Cluster) : Prop where
  past : s₀.now ≤ s.now
  same : ∀ n, n ∈ runningNodes s ↔ n ∈ runningNodes s₀
  stale : ∀ e ∈ s.registry.entries, e.1 ∉ runningNodes s₀ →
    e.2.expiredAt (w.clock late).wall = true
  punctual : ∀ node p, Running s node p →
    s.now ≤ max s₀.now (p.lastPass.getD s₀.now) + period
  nodes : ∀ node p, Running s node p → Renewed w s₀ period late s node p ∨
    p.lease.settledAt.mono ≤ s₀.now ∧ p.lastPass.getD s₀.now ≤ s₀.now

section Calm

variable {w : Setting} {s₀ s : Cluster} {period late : Nat} {node : NodeId} {p : Process}

theorem mem_runningNodes : node ∈ runningNodes s ↔ ∃ p, Running s node p := by
  constructor
  · intro mem
    obtain ⟨⟨key, p⟩, entry, rfl⟩ := List.mem_map.mp mem
    exact ⟨p, OrderedMap.mem_find? entry⟩
  · rintro ⟨p, run⟩
    obtain ⟨key, entry, same⟩ := OrderedMap.find?_mem run
    exact List.mem_map.mpr ⟨_, entry, (node_cmp.mp same).symm⟩

/-- What has expired stays expired. -/
theorem expiredAt_mono {l : Lease} {now later : Int} (expired : l.expiredAt now = true)
    (after : now ≤ later) : l.expiredAt later = true := by
  rw [Lease.expiredAt] at expired ⊢
  split at expired
  · cases expired
  · have grown : millis now.toNat ≤ millis later.toNat := by
      simp only [millis, nanosPerMilli]
      omega
    have past := of_decide_eq_true expired
    rw [if_neg (by omega), decide_eq_true_eq]
    omega

/-- The owner does not depend on how the nodes are listed. -/
theorem owner_listed {stream : StreamId} {nodes others : List NodeId}
    (same : ∀ n, n ∈ nodes ↔ n ∈ others) : owner stream nodes = owner stream others := by
  rcases nodes with _ | ⟨first, rest⟩
  · have none : others = [] :=
      List.eq_nil_iff_forall_not_mem.mpr fun n mem => List.not_mem_nil ((same n).mpr mem)
    rw [none]
  · obtain ⟨a, own⟩ := Option.isSome_iff_exists.mp
      (owner_isSome.mpr (List.cons_ne_nil first rest))
    have listed := (same a).mp (owner_mem own)
    obtain ⟨b, other⟩ := Option.isSome_iff_exists.mp (owner_isSome.mpr (List.ne_nil_of_mem listed))
    rw [own, other, owner_agree own other ((same b).mpr (owner_mem other)) listed]

theorem tended_start (past : Past s₀)
    (stale : ∀ e ∈ s₀.registry.entries, e.1 ∉ runningNodes s₀ →
      e.2.expiredAt (w.clock late).wall = true) : Tended w s₀ period late s₀ where
  past := Nat.le_refl _
  same _ := Iff.rfl
  stale := stale
  punctual _ _ _ := by omega
  nodes node p run := by
    obtain ⟨settled, last⟩ := past node p run
    refine .inr ⟨settled, ?_⟩
    cases known : p.lastPass with
    | none => exact Nat.le_refl _
    | some at_ =>
      rw [known] at last
      exact last

/-- Late enough, every running node has passed. -/
theorem Tended.renewed (h : Tended w s₀ period late s) (run : Running s node p)
    (after : s₀.now + period < s.now) : Renewed w s₀ period late s node p := by
  rcases h.nodes node p run with renewed | ⟨-, early⟩
  · exact renewed
  · have due := h.punctual node p run
    omega

/-- Late enough, the members that are read are the running nodes. -/
theorem Tended.members (h : Tended w s₀ period late s) (whole : nanosPerMilli ∣ w.config.ttl)
    (prompt : period ≤ w.config.ttl) (after : s₀.now + period < s.now) (reached : late ≤ s.now)
    (run : Running s node p) (n : NodeId) :
    n ∈ liveMembers ((s.registry.insert node (w.record node s.now)).entries.map Prod.snd)
        (w.clock s.now).wall ↔ n ∈ runningNodes s₀ := by
  constructor
  · intro live
    obtain ⟨l, mem, young, rfl⟩ := mem_liveMembers.mp live
    obtain ⟨⟨key, l⟩, entry, rfl⟩ := List.mem_map.mp mem
    rcases OrderedMap.mem_insertEntry_lawful entry with new | old
    · obtain ⟨rfl, rfl⟩ := Prod.mk.inj new
      exact (h.same _).mp (mem_runningNodes.mpr ⟨p, run⟩)
    · by_cases on : key ∈ runningNodes s₀
      · obtain ⟨q, other⟩ := mem_runningNodes.mp ((h.same key).mpr on)
        obtain ⟨last, -, -, record, -⟩ := (h.renewed other after).passed
        have found : s.registry.find? key = some l := OrderedMap.mem_find? old
        rw [Option.some.inj (found.symm.trans record)]
        exact on
      · have wall : (w.clock late).wall ≤ (w.clock s.now).wall := by
          simp only [Setting.clock]
          omega
        have gone := expiredAt_mono (h.stale _ old on) wall
        rw [gone] at young
        cases young
  · intro on
    obtain ⟨q, other⟩ := mem_runningNodes.mp ((h.same n).mpr on)
    by_cases own : n = node
    · subst own
      exact recorded_member whole (find_inserted.trans (if_pos rfl)) (Nat.le_add_right _ _)
    · obtain ⟨last, passed, begun, record, -⟩ := (h.renewed other after).passed
      have due := h.punctual n q other
      rw [passed, Option.getD_some] at due
      exact recorded_member whole ((find_inserted.trans (if_neg own)).trans record) (by omega)

theorem runningNodes_pass {p' : Process} (run : Running s node p) (n : NodeId) :
    n ∈ (s.procs.insert node p').entries.map Prod.fst ↔ n ∈ runningNodes s := by
  have listed : n ∈ (s.procs.insert node p').entries.map Prod.fst ↔
      ∃ q, Running ⟨s.now, s.registry, s.procs.insert node p'⟩ n q :=
    mem_runningNodes (s := ⟨s.now, s.registry, s.procs.insert node p'⟩)
  rw [listed, mem_runningNodes]
  by_cases own : n = node
  · subst own
    exact iff_of_true ⟨p', find_inserted.trans (if_pos rfl)⟩ ⟨p, run⟩
  · simp only [Running, find_inserted, if_neg own]

/-- A pass of the calm renews its node. -/
theorem Tended.pass_own (h : Tended w s₀ period late s) (whole : nanosPerMilli ∣ w.config.ttl)
    (holds : 0 < w.config.holdFor) (prompt : period ≤ w.config.ttl)
    (end_ : late = s₀.now + period + w.config.settleFor) (run : Running s node p) {t : Cluster}
    (registry : t.registry = s.registry.insert node (w.record node s.now)) :
    Renewed w s₀ period late t node (w.passed s node p .written none) := by
  have trip : Coordinator.roundTrip Announcement.written.reply
      (readMembers (Announcement.written.write (w.record node s.now) s.registry) none) =
        some ((s.registry.insert node (w.record node s.now)).entries.map Prod.snd) := rfl
  have heard : (w.passed s node p .written none).lease.lastContact = some (w.clock s.now) ∧
      (w.passed s node p .written none).lease.settledAt =
        (if p.lease.lastContact.isNone then w.clock s.now else p.lease.settledAt) ∧
      (w.config.settleFor ≤ (w.clock s.now).since
          (if p.lease.lastContact.isNone then w.clock s.now else p.lease.settledAt) →
        (w.passed s node p .written none).lease.owned = assignedTo node w.streams (liveMembers
          ((s.registry.insert node (w.record node s.now)).entries.map Prod.snd)
            (w.clock s.now).wall)) :=
    Coordinator.step_heard p.lease trip holds
  obtain ⟨contact, began, assigned⟩ := heard
  have members : (w.passed s node p .written none).lease.members = liveMembers
      ((s.registry.insert node (w.record node s.now)).entries.map Prod.snd)
        (w.clock s.now).wall := by
    rcases (Coordinator.step_contact contact).2 with ⟨leases, took, -, mem, -⟩ | ⟨failed, -⟩
    · obtain rfl := Option.some.inj (took.symm.trans trip)
      exact mem
    · exact absurd (failed.symm.trans trip) nofun
  -- The settling clock began before the calm or with this node's first pass.
  have settled : (if p.lease.lastContact.isNone then w.clock s.now
      else p.lease.settledAt).mono ≤ s₀.now + period := by
    have due := h.punctual node p run
    rcases h.nodes node p run with renewed | ⟨before, early⟩
    · have known := renewed.inContact
      rw [if_neg (by simp [Option.isNone_eq_false_iff.mpr known])]
      exact renewed.settled
    · split
      · simp only [Setting.clock]
        omega
      · omega
  refine ⟨⟨s.now, rfl, h.past, ?_, fun reached => ?_⟩, by rw [contact]; rfl, began ▸ settled⟩
  · rw [registry]
    exact find_inserted.trans (if_pos rfl)
  · have settles : 0 < w.config.settleFor := by
      rw [LeaseConfig.holdFor] at holds
      rw [LeaseConfig.settleFor]
      omega
    rw [members]
    refine ⟨assigned ?_, h.members whole prompt (by omega) reached run⟩
    rw [IngestTime.since]
    simp only [Setting.clock] at settled ⊢
    omega

theorem tended_step (whole : nanosPerMilli ∣ w.config.ttl) (holds : 0 < w.config.holdFor)
    (prompt : period ≤ w.config.ttl) (end_ : late = s₀.now + period + w.config.settleFor)
    (a : Action) (h : Tended w s₀ period late s) (calm : Calm period s₀.now s a) :
    Tended w s₀ period late (w.step s a) := by
  cases a with
  | start node => exact calm.elim
  | crash node => exact calm.elim
  | leave node withdrawn => exact calm.elim
  | tick elapsed =>
    refine ⟨Nat.le_trans h.past (Nat.le_add_right _ _), h.same, h.stale, ?_,
      fun node p run => (h.nodes node p run).imp
        (fun renewed => ⟨renewed.passed, renewed.inContact, renewed.settled⟩) id⟩
    intro node p run
    obtain ⟨key, mem, -⟩ := OrderedMap.find?_mem run
    exact calm _ mem
  | pass node announcement unreadable =>
    cases announcement with
    | unacknowledged error => exact calm.elim
    | failed error => exact calm.elim
    | written => cases unreadable with
      | some error => exact calm.elim
      | none =>
        rw [Setting.step]
        cases run : s.procs.find? node with
        | none => exact h
        | some p =>
          dsimp only
          refine ⟨h.past, ?_, ?_, ?_, ?_⟩
          · intro n
            exact (runningNodes_pass run n).trans (h.same n)
          · intro e mem away
            rcases OrderedMap.mem_insertEntry_lawful mem with new | old
            · exact absurd ((h.same node).mp (mem_runningNodes.mpr ⟨p, run⟩)) (by
                rw [new] at away
                exact away)
            · exact h.stale e old away
          · intro n q other
            by_cases own : n = node
            · subst own
              obtain rfl := Option.some.inj (other.symm.trans (find_inserted.trans (if_pos rfl)))
              have due : s.now ≤ max s₀.now s.now + period := by omega
              exact due
            · exact h.punctual n q ((find_inserted.trans (if_neg own)).symm.trans other)
          · intro n q other
            by_cases own : n = node
            · subst own
              obtain rfl := Option.some.inj (other.symm.trans (find_inserted.trans (if_pos rfl)))
              exact .inl (h.pass_own whole holds prompt end_ run rfl)
            · have was : Running s n q := (find_inserted.trans (if_neg own)).symm.trans other
              rcases h.nodes n q was with renewed | untouched
              · obtain ⟨last, passed, begun, record, knows⟩ := renewed.passed
                exact .inl ⟨⟨last, passed, begun, (find_inserted.trans (if_neg own)).trans record,
                  knows⟩, renewed.inContact, renewed.settled⟩
              · exact .inr untouched

theorem tended_run (whole : nanosPerMilli ∣ w.config.ttl) (holds : 0 < w.config.holdFor)
    (prompt : period ≤ w.config.ttl) (end_ : late = s₀.now + period + w.config.settleFor)
    {acts : List Action} (h : Tended w s₀ period late s)
    (calm : Meets w.step (Calm period s₀.now) s acts) :
    Tended w s₀ period late (exec w.step s acts) :=
  exec_invariant (fun _ a h ok => tended_step whole holds prompt end_ a h ok) h calm

/-- At the end of the calm every stream is where its owner among the running nodes is. -/
theorem Tended.assigned (h : Tended w s₀ period late s)
    (long : late + period ≤ s.now) (settles : s₀.now + period < late) (node : NodeId)
    (stream : StreamId) : Holds s node stream ↔
      stream ∈ w.streams ∧ owner stream (runningNodes s₀) = some node := by
  have held : ∀ p, Running s node p → (stream ∈ p.lease.owned.members ↔
      stream ∈ w.streams ∧ owner stream (runningNodes s₀) = some node) := by
    intro p run
    obtain ⟨last, passed, begun, -, knows⟩ := (h.renewed run (by omega)).passed
    have due := h.punctual node p run
    rw [passed, Option.getD_some] at due
    obtain ⟨owned, members⟩ := knows (by omega)
    rw [owned, mem_assignedTo, owner_listed members]
  constructor
  · rintro ⟨p, run, own⟩
    exact (held p run).mp own
  · rintro ⟨listed, chosen⟩
    obtain ⟨p, run⟩ := mem_runningNodes.mp ((h.same node).mpr (owner_mem chosen))
    exact ⟨p, run, (held p run).mpr ⟨listed, chosen⟩⟩

end Calm

/-- What any run leaves: readings of the clock that are past, and records that were there or were
written by now. -/
structure Reached (w : Setting) (registry : OrderedMap NodeId Lease NodeId.cmp) (s : Cluster) :
    Prop where
  past : Past s
  records : ∀ e ∈ s.registry.entries, e ∈ registry.entries ∨
    ∃ written ≤ s.now, e.2 = w.record e.1 written

section Reached

variable {w : Setting} {s : Cluster} {registry : OrderedMap NodeId Lease NodeId.cmp}

theorem settledAt_reconcile (s : LeaseState) (now : IngestTime) (config : LeaseConfig)
    (node : NodeId) (streams : List StreamId) :
    (s.reconcile now config node streams).settledAt = now ∨
      (s.reconcile now config node streams).settledAt = s.settledAt := by
  obtain ⟨-, e⟩ | ⟨-, -, e⟩ | ⟨-, -, e⟩ := LeaseState.reconcile_cases s now config node streams
  · rw [e]
    exact .inl rfl
  · rw [e]
    exact .inr rfl
  · rw [e]
    exact .inr rfl

theorem settledAt_step {c : Coordinator} {state : LeaseState} {now : IngestTime}
    {announced : Except RegistryError Unit} {members : Except RegistryError (List Lease)} :
    (c.step state now announced members).1.settledAt = now ∨
      (c.step state now announced members).1.settledAt = state.settledAt := by
  rw [Coordinator.step]
  dsimp only
  rcases settledAt_reconcile (Coordinator.hear state now (Coordinator.roundTrip announced members))
    now c.config c.node c.streams with fresh | kept
  · exact .inl fresh
  · rw [kept]
    cases Coordinator.roundTrip announced members with
    | none => exact .inr rfl
    | some leases =>
      simp only [Coordinator.hear, LeaseState.noteContact]
      split
      · exact .inl rfl
      · exact .inr rfl

theorem Reached.records_later (h : Reached w registry s) {t : Cluster} (later : s.now ≤ t.now)
    (part : ∀ e ∈ t.registry.entries, e ∈ s.registry.entries ∨ e.2 = w.record e.1 s.now) :
    ∀ e ∈ t.registry.entries, e ∈ registry.entries ∨
      ∃ written ≤ t.now, e.2 = w.record e.1 written := by
  intro e mem
  rcases part e mem with old | new
  · rcases h.records e old with first | ⟨written, before, same⟩
    · exact .inl first
    · exact .inr ⟨written, Nat.le_trans before later, same⟩
  · exact .inr ⟨s.now, later, new⟩

theorem reached_step (a : Action) (h : Reached w registry s) : Reached w registry (w.step s a) := by
  cases a with
  | tick elapsed =>
    refine ⟨fun node p run => ?_, h.records_later (Nat.le_add_right _ _) fun e mem => .inl mem⟩
    obtain ⟨settled, last⟩ := h.past node p run
    exact ⟨Nat.le_trans settled (Nat.le_add_right _ _), Nat.le_trans last (Nat.le_add_right _ _)⟩
  | crash node =>
    refine ⟨fun n p run => ?_, h.records⟩
    rw [Setting.step, Running, find_removed] at run
    split at run
    · cases run
    · exact h.past n p run
  | leave node withdrawn =>
    refine ⟨fun n p run => ?_, h.records_later (Nat.le_refl _) fun e mem => ?_⟩
    · rw [Setting.step, Running, find_removed] at run
      split at run
      · cases run
      · exact h.past n p run
    · rw [Setting.step] at mem
      dsimp only at mem
      split at mem
      · exact .inl (OrderedMap.mem_remove mem)
      · exact .inl mem
  | start node =>
    rw [Setting.step]
    cases found : s.procs.find? node with
    | some p => exact h
    | none =>
      refine ⟨fun n p run => ?_, h.records⟩
      by_cases own : n = node
      · subst own
        obtain rfl := Option.some.inj (run.symm.trans (find_inserted.trans (if_pos rfl)))
        exact ⟨Nat.le_refl _, Nat.zero_le _⟩
      · exact h.past n p ((find_inserted.trans (if_neg own)).symm.trans run)
  | pass node announcement unreadable =>
    rw [Setting.step]
    cases found : s.procs.find? node with
    | none => exact h
    | some p =>
      refine ⟨fun n q run => ?_, h.records_later (Nat.le_refl _) fun e mem => ?_⟩
      · by_cases own : n = node
        · subst own
          obtain rfl := Option.some.inj (run.symm.trans (find_inserted.trans (if_pos rfl)))
          refine ⟨?_, Nat.le_refl _⟩
          have settled : (w.passed s n p announcement unreadable).lease.settledAt = w.clock s.now ∨
              (w.passed s n p announcement unreadable).lease.settledAt = p.lease.settledAt :=
            settledAt_step
          rcases settled with now | kept
          · rw [now]
            exact Nat.le_refl _
          · rw [kept]
            exact (h.past n p found).1
        · exact h.past n q ((find_inserted.trans (if_neg own)).symm.trans run)
      · cases announcement with
        | failed error => exact .inl mem
        | written =>
          rcases OrderedMap.mem_insertEntry_lawful mem with rfl | old
          · exact .inr rfl
          · exact .inl old
        | unacknowledged error =>
          rcases OrderedMap.mem_insertEntry_lawful mem with rfl | old
          · exact .inr rfl
          · exact .inl old

theorem reached_run (now : Nat) (acts : List Action) :
    Reached w registry (exec w.step (idle now registry) acts) := by
  have first : Reached w registry (idle now registry) :=
    { past := fun node p run => by cases run
      records := fun e mem => .inl mem }
  exact exec_keeps (fun _ a h => reached_step a h) first acts

/-- A record that is a lifetime and a millisecond old has expired. -/
theorem record_expires (modern : 0 ≤ w.epoch) {node : NodeId} {written late : Nat}
    (old : written + w.config.ttl + nanosPerMilli ≤ late)
    (counts : w.epoch + late < (u64Max + 1) * nanosPerMilli) :
    (w.record node written).expiredAt (w.clock late).wall = true := by
  obtain ⟨epoch, same⟩ := Int.eq_ofNat_of_zero_le modern
  have wall : (w.clock late).wall = ((epoch + late : Nat) : Int) := by
    rw [Setting.clock, same]
    rfl
  have stamp : (w.record node written).writtenAtUnixMs = millis (epoch + written) := by
    simp only [Setting.record, Coordinator.lease, Setting.clock, same, unixMillis]
    rw [if_neg (by omega)]
    rfl
  have lifetime : (w.record node written).ttlMs = millis w.config.ttl := rfl
  rw [Lease.expiredAt, wall, if_neg (by omega), stamp, lifetime, decide_eq_true_eq,
    Int.toNat_natCast]
  rw [same] at counts
  simp only [millis, nanosPerMilli, u64Max] at *
  omega

/-- After anything at all, a calm of two periods and a settling time leaves every stream with its
owner among the running nodes, and with nobody else. -/
theorem cluster_converges (whole : nanosPerMilli ∣ w.config.ttl) (holds : 0 < w.config.holdFor)
    {period : Nat} (prompt : period ≤ w.config.ttl)
    (slack : nanosPerMilli ≤ period + w.config.guard) (modern : 0 ≤ w.epoch)
    (now : Nat) (before after : List Action) {s : Cluster}
    (reached : s = exec w.step (idle now registry) before)
    (counts : w.epoch + ((s.now + period + w.config.settleFor : Nat) : Int) <
      (u64Max + 1) * nanosPerMilli)
    (inherited : ∀ e ∈ registry.entries,
      e.2.expiredAt (w.clock (s.now + period + w.config.settleFor)).wall = true)
    (calm : Meets w.step (Calm period s.now) s after)
    (long : s.now + 2 * period + w.config.settleFor ≤ (exec w.step s after).now)
    (node : NodeId) (stream : StreamId) :
    Holds (exec w.step s after) node stream ↔
      stream ∈ w.streams ∧ owner stream (runningNodes s) = some node := by
  have history : Reached w registry s := reached ▸ reached_run now before
  have settles : w.config.settleFor = w.config.ttl + w.config.guard := rfl
  have begun : Tended w s period (s.now + period + w.config.settleFor) s := by
    refine tended_start history.past fun e mem _ => ?_
    rcases history.records e mem with first | ⟨written, past, same⟩
    · exact inherited e first
    · rw [same]
      exact record_expires modern (by omega) counts
  have kept := tended_run whole holds prompt rfl begun calm
  rw [LeaseConfig.holdFor] at holds
  exact kept.assigned (by omega) (by omega) node stream

/-- Node `a` crashes while `b` is still settling. -/
def failure : List Action := joining ++ [.crash ⟨"a"⟩]

def takeover : List Action := (List.replicate 6 (beat ⟨"b"⟩)).flatten

theorem cluster_converges_takeover :
    Holds (exec pair.step (exec pair.step (idle 0 OrderedMap.empty) failure) takeover) ⟨"b"⟩
        ⟨.kraken, ⟨"BTC-USD"⟩⟩ ↔
      (⟨.kraken, ⟨"BTC-USD"⟩⟩ : StreamId) ∈ pair.streams ∧
        owner ⟨.kraken, ⟨"BTC-USD"⟩⟩
          (runningNodes (exec pair.step (idle 0 OrderedMap.empty) failure)) = some ⟨"b"⟩ :=
  cluster_converges ⟨3, rfl⟩ (by decide) (by decide : nanosPerMilli ≤ pair.config.ttl) (by decide)
    (by decide) 0 failure takeover rfl (by decide +kernel)
    (fun e mem => (List.not_mem_nil mem).elim) (by decide +kernel) (by decide +kernel) ⟨"b"⟩
    ⟨.kraken, ⟨"BTC-USD"⟩⟩

end Reached

end LeaseConvergence

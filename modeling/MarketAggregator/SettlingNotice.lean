import MarketAggregator.GuardedRuns
import MarketAggregator.LeaseSteps

/-!
# Coming back as joining

One coordinator makes passes at non-decreasing times with any registry results.
A pass is stale when the last complete round trip before it is at least the hold
old. The pass notes its own round trip before it compares ages, so a stale pass
whose round trip succeeds serves a new notice only if the node had stood down.
-/

namespace SettlingNotice

open Clocks GuardedRuns LeaseSteps OrderedMaps StreamAssignment VenueStreams

structure Pass where
  now : IngestTime
  announced : Except RegistryError Unit
  members : Except RegistryError (List Lease)

def Pass.roundTrip (p : Pass) : Option (List Lease) := Coordinator.roundTrip p.announced p.members

def pass (c : Coordinator) (s : LeaseState) (p : Pass) : LeaseState :=
  (c.step s p.now p.announced p.members).1

/-- The state after some passes of a coordinator started at `start`. -/
def after (c : Coordinator) (start : IngestTime) (passes : List Pass) : LeaseState :=
  exec (pass c) (LeaseState.new start) passes

def lastRoundTrip (passes : List Pass) : Option IngestTime :=
  ((passes.filter (fun p => p.roundTrip.isSome)).getLast?).map Pass.now

def Ordered (passes : List Pass) : Prop :=
  passes.Pairwise (fun p q => p.now.mono ≤ q.now.mono)

/-- The last complete round trip is at least the hold old when the pass begins. -/
def Stale (c : Coordinator) (before : List Pass) (p : Pass) : Prop :=
  ∃ contact, lastRoundTrip before = some contact ∧ c.config.holdFor ≤ p.now.since contact

/-- Nothing is owned from the pass until the settling period from it has gone by. -/
def ServesNotice (c : Coordinator) (start : IngestTime) (before : List Pass) (p : Pass) : Prop :=
  ∀ later, Ordered (before ++ p :: later) →
    (∀ q ∈ later, q.now.mono < p.now.mono + c.config.settleFor) →
    (after c start (before ++ p :: later)).owned.members = []

/-- The round trip fails, or the node had already stood down, or it never holds anything. -/
def Noticed (c : Coordinator) (start : IngestTime) (before : List Pass) (p : Pass) : Prop :=
  p.roundTrip = none ∨ (after c start before).lastContact = none ∨
    c.config.holdFor = 0 ∨ c.streams = []

variable {c : Coordinator} {s : LeaseState} {start : IngestTime} {before : List Pass} {p : Pass}

theorem lastRoundTrip_append {passes : List Pass} {p : Pass} :
    lastRoundTrip (passes ++ [p]) =
      if p.roundTrip.isSome then some p.now else lastRoundTrip passes := by
  simp only [lastRoundTrip]
  cases trip : p.roundTrip.isSome <;> simp [trip]

theorem after_append {passes : List Pass} {p : Pass} :
    after c start (passes ++ [p]) = pass c (after c start passes) p := by
  simp [after]

/-- The remembered contact is the last complete round trip, and settling began before it. -/
theorem contact_remembered (passes : List Pass) (ordered : Ordered passes) (contact : IngestTime)
    (h : (after c start passes).lastContact = some contact) :
    lastRoundTrip passes = some contact ∧ (∃ p ∈ passes, p.now = contact) ∧
      (after c start passes).settledAt.mono ≤ contact.mono := by
  induction passes using List.reverseRecOn generalizing contact with
  | nil => cases h
  | append_singleton passes p ih =>
    obtain ⟨earlier, _, last⟩ := List.pairwise_append.mp ordered
    rw [after_append] at h ⊢
    rw [lastRoundTrip_append]
    obtain ⟨_, ⟨leases, trip, rfl, _, settled⟩ | ⟨trip, old, _, settled⟩⟩ :=
      Coordinator.step_contact h
    · refine ⟨by simp [Pass.roundTrip, trip], ⟨p, by simp, rfl⟩, ?_⟩
      cases was : (after c start passes).lastContact with
      | none =>
        rw [was] at settled
        exact Nat.le_of_eq (congrArg IngestTime.mono settled)
      | some contact =>
        rw [was] at settled
        obtain ⟨_, ⟨q, mem, rfl⟩, started⟩ := ih earlier contact was
        have order := last q mem p (List.mem_singleton_self p)
        exact (congrArg IngestTime.mono settled).trans_le (Nat.le_trans started order)
    · obtain ⟨remembered, ⟨q, mem, at'⟩, started⟩ := ih earlier contact old
      refine ⟨by simp [Pass.roundTrip, trip, remembered], ⟨q, by simp [mem], at'⟩, ?_⟩
      exact (congrArg IngestTime.mono settled).trans_le started

/-- The settling clock has been reset at or after `t`, or will be at the next contact. -/
def Notice (t : Nat) (s : LeaseState) : Prop := s.lastContact = none ∨ t ≤ s.settledAt.mono

theorem notice_settled {t : Nat} (notice : Notice t s) (late : t ≤ p.now.mono)
    {contact : IngestTime} (h : (pass c s p).lastContact = some contact) :
    t ≤ (pass c s p).settledAt.mono := by
  obtain ⟨_, ⟨_, _, _, _, settled⟩ | ⟨_, old, _, settled⟩⟩ := Coordinator.step_contact h
  · cases was : s.lastContact with
    | none =>
      rw [was] at settled
      exact late.trans_eq (congrArg IngestTime.mono settled).symm
    | some contact =>
      rw [was] at settled
      have began : t ≤ s.settledAt.mono := notice.resolve_left (was ▸ nofun)
      exact began.trans_eq (congrArg IngestTime.mono settled).symm
  · have began : t ≤ s.settledAt.mono := notice.resolve_left (old ▸ nofun)
    exact began.trans_eq (congrArg IngestTime.mono settled).symm

theorem notice_pass {t : Nat} (notice : Notice t s) (late : t ≤ p.now.mono) :
    Notice t (pass c s p) := by
  cases h : (pass c s p).lastContact with
  | none => exact .inl h
  | some contact => exact .inr (notice_settled notice late h)

/-- No stream is owned during a notice. -/
theorem notice_owned {t : Nat} (notice : Notice t s) (late : t ≤ p.now.mono)
    (soon : p.now.mono < t + c.config.settleFor ∨ c.config.holdFor = 0) :
    (pass c s p).owned.members = [] := by
  refine List.eq_nil_iff_forall_not_mem.mpr ?_
  intro stream own
  obtain ⟨⟨contact, heard⟩, settled, _, _⟩ := Coordinator.step_owned own
  have began := notice_settled notice late heard
  have fresh := (Coordinator.step_contact heard).1
  have served : c.config.settleFor ≤ p.now.mono - (pass c s p).settledAt.mono := settled
  have span := c.config.holdFor_le_settleFor
  omega

theorem notice_run {t : Nat} (notice : Notice t s) (own : s.owned.members = [])
    {later : List Pass} (late : ∀ q ∈ later, t ≤ q.now.mono)
    (soon : ∀ q ∈ later, q.now.mono < t + c.config.settleFor) :
    (exec (pass c) s later).owned.members = [] := by
  induction later generalizing s with
  | nil => exact own
  | cons q later ih =>
    have lateQ := late q List.mem_cons_self
    have soonQ := soon q List.mem_cons_self
    exact ih (notice_pass notice lateQ) (notice_owned notice lateQ (.inl soonQ))
      (fun r h => late r (List.mem_cons_of_mem _ h))
      (fun r h => soon r (List.mem_cons_of_mem _ h))

theorem owned_listed (passes : List Pass) :
    ∀ stream ∈ (after c start passes).owned.members, stream ∈ c.streams := by
  have kept : ∀ s p, (∀ stream ∈ s.owned.members, stream ∈ c.streams) →
      ∀ stream ∈ (pass c s p).owned.members, stream ∈ c.streams :=
    fun _ _ _ _ own => (Coordinator.step_owned own).2.2.1
  exact exec_keeps kept (by simp [LeaseState.new]) passes

theorem idle_without_contact (h : (pass c s p).lastContact = none) :
    (pass c s p).owned.members = [] := by
  refine List.eq_nil_iff_forall_not_mem.mpr ?_
  intro stream own
  obtain ⟨⟨contact, heard⟩, _⟩ := Coordinator.step_owned own
  exact absurd (h.symm.trans heard) nofun

/-- A stale pass without a round trip leaves the node out of contact. -/
theorem stale_failure (start : IngestTime) (ordered : Ordered before) (stale : Stale c before p)
    (failed : p.roundTrip = none) : (pass c (after c start before) p).lastContact = none := by
  cases h : (pass c (after c start before) p).lastContact with
  | none => rfl
  | some contact =>
    obtain ⟨fresh, ⟨_, trip, _⟩ | ⟨_, old, _⟩⟩ := Coordinator.step_contact h
    · exact absurd (failed.symm.trans trip) nofun
    · obtain ⟨remembered, _⟩ := contact_remembered before ordered contact old
      obtain ⟨last, isLast, age⟩ := stale
      obtain rfl := Option.some.inj (remembered.symm.trans isLast)
      omega

theorem noticed_begins (start : IngestTime) (ordered : Ordered before) (stale : Stale c before p)
    (noticed : p.roundTrip = none ∨ (after c start before).lastContact = none ∨
      c.config.holdFor = 0) :
    Notice p.now.mono (pass c (after c start before) p) ∧
      (pass c (after c start before) p).owned.members = [] := by
  rcases noticed with failed | silent | never
  · have silent := stale_failure start ordered stale failed
    exact ⟨.inl silent, idle_without_contact silent⟩
  · have notice : Notice p.now.mono (after c start before) := .inl silent
    refine ⟨notice_pass notice (Nat.le_refl _), notice_owned notice (Nat.le_refl _) ?_⟩
    have span := c.config.holdFor_le_settleFor
    omega
  · have silent : (pass c (after c start before) p).lastContact = none := by
      cases h : (pass c (after c start before) p).lastContact with
      | none => rfl
      | some contact =>
        have fresh := (Coordinator.step_contact h).1
        omega
    exact ⟨.inl silent, idle_without_contact silent⟩

/-- A round trip in which the node reads only its own record. -/
def alone (c : Coordinator) (t : Nat) : Pass where
  now := ⟨t, t⟩
  announced := .ok ()
  members := .ok [c.lease ⟨t, t⟩]

theorem alone_owns (positive : 0 < c.config.holdFor) (some_stream : c.streams ≠ [])
    {contact : IngestTime} (heard : s.lastContact = some contact) {t : Nat}
    (settled : s.settledAt.mono + c.config.settleFor ≤ t) :
    (pass c s (alone c t)).owned.members ≠ [] := by
  obtain ⟨stream, mem⟩ := List.exists_mem_of_ne_nil _ some_stream
  have trip : (alone c t).roundTrip = some [c.lease ⟨t, t⟩] := rfl
  have owns := (@Coordinator.step_heard c ⟨t, t⟩ _ _ s _ trip positive).2.2
  rw [heard] at owns
  have assigned := owns (show c.config.settleFor ≤ t - s.settledAt.mono by omega)
  refine List.ne_nil_of_mem (a := stream) ?_
  rw [pass]
  rw [show (alone c t).now = ⟨t, t⟩ from rfl, assigned,
    Coordinator.liveMembers_own c ⟨t, t⟩]
  exact mem_assignedTo.mpr ⟨mem, rfl⟩

/-- An unnoticed stale pass keeps a settling clock that was started before it. -/
theorem unnoticed_contact (start : IngestTime) (ordered : Ordered before) (stale : Stale c before p)
    (positive : 0 < c.config.holdFor) (succeeded : p.roundTrip ≠ none)
    (inContact : (after c start before).lastContact ≠ none) :
    (pass c (after c start before) p).lastContact = some p.now ∧
      (pass c (after c start before) p).settledAt.mono < p.now.mono := by
  obtain ⟨leases, trip⟩ := Option.ne_none_iff_exists'.mp succeeded
  obtain ⟨contact, heard⟩ := Option.ne_none_iff_exists'.mp inContact
  obtain ⟨remembered, _, began⟩ := contact_remembered before ordered contact heard
  obtain ⟨last, isLast, age⟩ := stale
  obtain rfl := Option.some.inj (remembered.symm.trans isLast)
  have now := @Coordinator.step_heard c p.now _ _ (after c start before) _ trip positive
  rw [heard] at now
  have kept : (pass c (after c start before) p).settledAt = (after c start before).settledAt :=
    now.2.1
  have gap : c.config.holdFor ≤ p.now.mono - contact.mono := age
  refine ⟨now.1, ?_⟩
  rw [kept]
  omega

/-- The continuation that tells: one pass alone, as soon as the old clock has run out. -/
theorem unnoticed_owns (ordered : Ordered (before ++ [p])) (stale : Stale c before p)
    (unnoticed : ¬ Noticed c start before p) :
    ∃ t, Ordered (before ++ [p, alone c t]) ∧ t < p.now.mono + c.config.settleFor ∧
      (after c start (before ++ [p, alone c t])).owned.members ≠ [] := by
  obtain ⟨succeeded, unnoticed⟩ := not_or.mp unnoticed
  obtain ⟨inContact, unnoticed⟩ := not_or.mp unnoticed
  obtain ⟨lasting, some_stream⟩ := not_or.mp unnoticed
  obtain ⟨orderedBefore, _, last⟩ := List.pairwise_append.mp ordered
  have positive : 0 < c.config.holdFor := Nat.pos_of_ne_zero lasting
  obtain ⟨heard, began⟩ :=
    unnoticed_contact start orderedBefore stale positive succeeded inContact
  have span := c.config.holdFor_le_settleFor
  let t := max p.now.mono ((pass c (after c start before) p).settledAt.mono + c.config.settleFor)
  have reached : p.now.mono ≤ t := Nat.le_max_left _ _
  have split : before ++ [p, alone c t] = (before ++ [p]) ++ [alone c t] := by simp
  refine ⟨t, ?_, ?_, ?_⟩
  · rw [split]
    refine List.pairwise_append.mpr ⟨ordered, List.pairwise_singleton _ _, ?_⟩
    intro q hq r hr
    obtain rfl := List.mem_singleton.mp hr
    rcases List.mem_append.mp hq with hq | hq
    · exact Nat.le_trans (last q hq p (List.mem_singleton_self p)) reached
    · obtain rfl := List.mem_singleton.mp hq
      exact reached
  · omega
  · rw [split, after_append, after_append]
    exact alone_owns positive some_stream heard (Nat.le_max_right _ _)

theorem noticed_serves (ordered : Ordered before) (stale : Stale c before p)
    (noticed : Noticed c start before p) : ServesNotice c start before p := by
  intro later orderedAll soon
  by_cases none_listed : c.streams = []
  · refine List.eq_nil_iff_forall_not_mem.mpr fun stream own => ?_
    have listed := owned_listed _ stream own
    rw [none_listed] at listed
    cases listed
  · have begins :=
      noticed_begins start ordered stale (by simpa [Noticed, none_listed] using noticed)
    have late : ∀ q ∈ later, p.now.mono ≤ q.now.mono :=
      (List.pairwise_cons.mp (List.pairwise_append.mp orderedAll).2.1).1
    have idle := notice_run begins.1 begins.2 late soon
    simpa [after] using idle

/-- After a stale pass the notice is served in every continuation exactly when noticed. -/
theorem servesNotice_iff (c : Coordinator) (start : IngestTime) (before : List Pass) (p : Pass)
    (ordered : Ordered (before ++ [p])) (stale : Stale c before p) :
    ServesNotice c start before p ↔ Noticed c start before p := by
  constructor
  · intro serves
    refine Classical.byContradiction fun unnoticed => ?_
    obtain ⟨t, orderedAll, soon, owns⟩ := unnoticed_owns ordered stale unnoticed
    refine owns (serves [alone c t] orderedAll ?_)
    intro q hq
    obtain rfl := List.mem_singleton.mp hq
    exact soon
  · intro noticed
    exact noticed_serves (List.pairwise_append.mp ordered).1 stale noticed

section Suspended

def lone : Coordinator where
  node := ⟨"a"⟩
  config := LeaseConfig.default
  streams := [⟨.coinbase, ⟨"BTC-USD"⟩⟩]

def passAt (seconds : Nat) : Pass := alone lone (seconds * nanosPerSec)

/-- The registry fails at the pass after the gap. -/
def failingAt (seconds : Nat) : Pass :=
  { passAt seconds with announced := .error (.io "registry handle is offline") }

def settledPasses : List Pass := [passAt 0, passAt 10, passAt 20]

theorem suspended_keeps_streams :
    ¬ ∀ c start before p, Ordered (before ++ [p]) → Stale c before p →
      ServesNotice c start before p := by
  intro claim
  have ordered : Ordered (settledPasses ++ [passAt 40]) := by
    rw [Ordered]
    decide
  have stale : Stale lone settledPasses (passAt 40) :=
    ⟨(passAt 20).now, rfl, by decide⟩
  have idle := claim lone ⟨0, 0⟩ settledPasses (passAt 40) ordered stale [] ordered nofun
  exact absurd idle (by decide +kernel)

theorem servesNotice_iff_failing :
    ServesNotice lone ⟨0, 0⟩ settledPasses (failingAt 40) ↔
      Noticed lone ⟨0, 0⟩ settledPasses (failingAt 40) :=
  servesNotice_iff lone ⟨0, 0⟩ settledPasses (failingAt 40) (by unfold Ordered; decide)
    ⟨(passAt 20).now, rfl, by decide⟩

end Suspended

end SettlingNotice

import MarketAggregator.VenueBooks

/-!
# What a book is for: levels that are believed or not

A view of a book is its levels and whether they are believed. Actions move the
view without times, events or bookkeeping. A view that is believed after some
actions was believed before them or was replaced by a snapshot on the way, and its
levels are exactly what the snapshot and the later updates say.
-/

namespace TrustedReplay

open Clocks MarketEvents OrderBook VenueBooks

universe u

inductive Status where
  | blank
  | live
  | down (reason : DesyncReason)
  deriving DecidableEq

structure View where
  levels : Levels
  status : Status
  deriving DecidableEq

/-- Levels as an update leaves them: believed unless the sides cross. -/
def judged (levels : Levels) : View :=
  match levels.crossed with
  | none => ⟨levels, .live⟩
  | some reason => ⟨levels, .down reason⟩

section Replay

variable (hash : Levels → Option UInt32) (depth : Option Nat)

def act (v : View) : SyncAction → View
  | .ignore => v
  | .forward _ => v
  | .desync reason => { v with status := .down reason }
  | .verify expected =>
    if v.status = .live then
      match hash v.levels with
      | none => v
      | some computed =>
        if computed = expected then v
        else { v with status := .down (.checksumMismatch expected computed) }
    else v
  | .snapshot bids asks => judged ((Levels.snapshot bids asks).prune depth)
  | .delta bids asks =>
    if v.status = .live then judged ((v.levels.delta bids asks).prune depth) else v

def replay (v : View) (actions : List SyncAction) : View := actions.foldl (act hash depth) v

end Replay

def statusOf : BookState → Status
  | .uninitialized => .blank
  | .live .. => .live
  | .desynced _ reason => .down reason

def viewOf (b : Book) : View := ⟨b.levels, statusOf b.state⟩

variable {hash : Levels → Option UInt32} {depth : Option Nat} {v : View}

@[simp] theorem statusOf_live {s : BookState} : statusOf s = .live ↔ s.isLive = true := by
  cases s <;> simp [statusOf, BookState.isLive]

@[simp] theorem replay_nil : replay hash depth v [] = v := rfl

@[simp] theorem replay_cons {a : SyncAction} {actions : List SyncAction} :
    replay hash depth v (a :: actions) = replay hash depth (act hash depth v a) actions := rfl

@[simp] theorem replay_append {actions more : List SyncAction} :
    replay hash depth v (actions ++ more) =
      replay hash depth (replay hash depth v actions) more := List.foldl_append

theorem judged_levels (levels : Levels) : (judged levels).levels = levels := by
  rw [judged]
  split <;> rfl

theorem judged_view (now : IngestTime) {b : Book} {levels : Levels} {state : BookState}
    (hl : b.levels = levels) (live : state.isLive = true)
    (hs : b.state = match levels.crossed with
      | none => state
      | some reason => .desynced now reason) : viewOf b = judged levels := by
  rw [viewOf, judged]
  rw [hl, hs]
  cases levels.crossed with
  | none => simp [statusOf_live.mpr live]
  | some reason => rfl

/-- One action on the book is that action on its view. -/
theorem view_applyAction (integrity : Integrity) (now : IngestTime) (b : Book) (a : SyncAction) :
    viewOf (applyAction hash integrity now b a).1 = act hash b.maxDepth (viewOf b) a := by
  cases a with
  | ignore => rfl
  | forward kind => rfl
  | desync reason => rfl
  | snapshot bids asks =>
    exact judged_view now applySnapshot_levels rfl applySnapshot_state
  | delta bids asks =>
    cases live : b.state.isLive with
    | true =>
      obtain ⟨_, levels, state⟩ := applyDelta_live bids asks now live
      rw [applyAction_delta, judged_view now levels live state]
      simp [act, viewOf, live]
    | false => simp [applyDelta_down live, act, viewOf, live]
  | verify expected =>
    cases live : b.state.isLive with
    | false => simp [applyAction, verify, act, viewOf, live]
    | true =>
      simp only [applyAction, verify, act, viewOf, live, if_true, statusOf_live.mpr live]
      cases hash b.levels with
      | none => simp [statusOf_live.mpr live]
      | some computed =>
        by_cases same : computed = expected
        · simp [same, live]
        · simp [same, statusOf]

@[simp] theorem applyAction_maxDepth (integrity : Integrity) (now : IngestTime) (b : Book)
    (a : SyncAction) : (applyAction hash integrity now b a).1.maxDepth = b.maxDepth := by
  cases a with
  | delta bids asks => simp
  | snapshot bids asks => exact applySnapshot_maxDepth
  | verify expected =>
    simp only [applyAction, verify]
    split
    · split
      · rfl
      · split
        · exact markVerified_maxDepth
        · rfl
    · rfl
  | _ => rfl

@[simp] theorem applyActions_maxDepth (integrity : Integrity) (now : IngestTime) (b : Book)
    (actions : List SyncAction) :
    (applyActions hash integrity now b actions).1.maxDepth = b.maxDepth := by
  induction actions generalizing b with
  | nil => rfl
  | cons a actions ih => simp [applyActions, ih]

/-- The book's model follows the abstract one, whatever the times. -/
theorem view_applyActions (integrity : Integrity) (now : IngestTime) (b : Book)
    (actions : List SyncAction) :
    viewOf (applyActions hash integrity now b actions).1 =
      replay hash b.maxDepth (viewOf b) actions := by
  induction actions generalizing b with
  | nil => rfl
  | cons a actions ih => simp [applyActions, ih, view_applyAction]

theorem view_applyIngested {σ : Type u} {v : VenueSync σ} (vb : VenueBook σ)
    (ingested : Ingested) (now : IngestTime) :
    viewOf (vb.applyIngested v ingested now).2.book =
      replay (v.checksum vb.sync) vb.book.maxDepth (viewOf vb.book) ingested.actions :=
  view_applyActions ..

section Rebuild

/-- A snapshot of both sides, or an update to them. -/
abbrev Sides := List Level × List Level

def rebuildFrom (depth : Option Nat) (levels : Levels) (updates : List Sides) : Levels :=
  updates.foldl (fun l u => (l.delta u.1 u.2).prune depth) levels

/-- The levels that a snapshot and the updates after it describe. -/
def rebuild (depth : Option Nat) (snapshot : Sides) (updates : List Sides) : Levels :=
  rebuildFrom depth ((Levels.snapshot snapshot.1 snapshot.2).prune depth) updates

def deltas (updates : List Sides) : List SyncAction := updates.map (fun u => .delta u.1 u.2)

@[simp] theorem rebuild_append {snapshot : Sides} {updates more : List Sides} :
    rebuild depth snapshot (updates ++ more) =
      rebuildFrom depth (rebuild depth snapshot updates) more := List.foldl_append

/-- Being live after an action: a snapshot did it, or it was live and the action kept it. -/
theorem act_live {a : SyncAction} (h : (act hash depth v a).status = .live) :
    (∃ bids asks, a = .snapshot bids asks ∧
        (act hash depth v a).levels = (Levels.snapshot bids asks).prune depth) ∨
      (v.status = .live ∧ ∃ bids asks, a = .delta bids asks ∧
        (act hash depth v a).levels = (v.levels.delta bids asks).prune depth) ∨
      (v.status = .live ∧ (∀ bids asks, a ≠ .snapshot bids asks ∧ a ≠ .delta bids asks) ∧
        (∀ reason, a ≠ .desync reason) ∧ act hash depth v a = v) := by
  cases a with
  | ignore => exact .inr (.inr ⟨h, by simp, by simp, rfl⟩)
  | forward kind => exact .inr (.inr ⟨h, by simp, by simp, rfl⟩)
  | desync reason => cases h
  | snapshot bids asks => exact .inl ⟨bids, asks, rfl, judged_levels _⟩
  | delta bids asks =>
    by_cases live : v.status = .live
    · refine .inr (.inl ⟨live, bids, asks, rfl, ?_⟩)
      simp [act, live, judged_levels]
    · simp [act, live] at h
  | verify expected =>
    by_cases live : v.status = .live
    · refine .inr (.inr ⟨live, by simp, by simp, ?_⟩)
      cases hashed : hash v.levels with
      | none => simp [act, live, hashed]
      | some computed =>
        by_cases same : computed = expected
        · simp [act, live, hashed, same]
        · simp [act, live, hashed, same] at h
    · simp [act, live] at h

/-- The levels are the last snapshot among the actions and every update after it. -/
def Describes (depth : Option Nat) (actions : List SyncAction) (levels : Levels) : Prop :=
  ∃ earlier snapshot updates,
    actions = earlier ++ .snapshot snapshot.1 snapshot.2 :: deltas updates ∧
      levels = rebuild depth snapshot updates

theorem describes_act {carried : List SyncAction} {a : SyncAction} (book : a.isBook = true)
    (before : v.status = .live → Describes depth carried v.levels)
    (h : (act hash depth v a).status = .live) :
    Describes depth (carried ++ [a]) (act hash depth v a).levels := by
  rcases act_live h with ⟨bids, asks, rfl, levels⟩ | ⟨live, bids, asks, rfl, levels⟩ |
    ⟨_, other, _⟩
  · exact ⟨carried, (bids, asks), [], rfl, levels⟩
  · obtain ⟨earlier, snapshot, updates, split, was⟩ := before live
    refine ⟨earlier, snapshot, updates ++ [(bids, asks)], by simp [split, deltas], ?_⟩
    rw [levels, was, rebuild_append]
    rfl
  · cases a with
    | snapshot bids asks => exact absurd rfl (other bids asks).1
    | delta bids asks => exact absurd rfl (other bids asks).2
    | _ => cases book

theorem describes_replay {carried actions : List SyncAction} (book : ∀ a ∈ actions, a.isBook = true)
    (before : v.status = .live → Describes depth carried v.levels)
    (h : (replay hash depth v actions).status = .live) :
    Describes depth (carried ++ actions) (replay hash depth v actions).levels := by
  induction actions generalizing v carried with
  | nil => simpa using before h
  | cons a actions ih =>
    have rest := ih (fun b mem => book b (List.mem_cons_of_mem _ mem))
      (describes_act (book a List.mem_cons_self) before) h
    simpa using rest

theorem Describes.weaken {actions : List SyncAction} {levels : Levels}
    (h : Describes depth actions levels) (earlier : List SyncAction) :
    Describes depth (earlier ++ actions) levels := by
  obtain ⟨before, snapshot, updates, split, same⟩ := h
  exact ⟨earlier ++ before, snapshot, updates, by simp [split], same⟩

theorem deltas_injective {updates more : List Sides} (h : deltas updates = deltas more) :
    updates = more := by
  refine List.map_injective_iff.mpr ?_ h
  rintro ⟨bids, asks⟩ ⟨bids', asks'⟩ same
  obtain ⟨rfl, rfl⟩ := SyncAction.delta.inj same
  rfl

theorem snapshot_notMem_deltas {updates : List Sides} {bids asks : List Level} :
    .snapshot bids asks ∉ deltas updates := by
  intro mem
  obtain ⟨u, _, same⟩ := List.mem_map.mp mem
  cases same

/-- Updates after a snapshot hold no other snapshot. -/
theorem snapshot_deltas_unique {between : List SyncAction} {snapshot other : Sides}
    {updates more : List Sides}
    (h : .snapshot snapshot.1 snapshot.2 :: deltas updates =
      between ++ .snapshot other.1 other.2 :: deltas more) :
    snapshot = other ∧ updates = more := by
  cases between with
  | nil =>
    obtain ⟨opens, followed⟩ := List.cons.inj h
    obtain ⟨bids, asks⟩ := SyncAction.snapshot.inj opens
    exact ⟨Prod.ext bids asks, deltas_injective followed⟩
  | cons first between =>
    have mem : .snapshot other.1 other.2 ∈ deltas updates := by
      rw [(List.cons.inj h).2]
      simp
    exact absurd mem snapshot_notMem_deltas

/-- The last snapshot in a list is one, so the described levels are determined. -/
theorem Describes.unique {actions : List SyncAction} {levels other : Levels}
    (h : Describes depth actions levels) (h' : Describes depth actions other) :
    levels = other := by
  obtain ⟨earlier, snapshot, updates, split, rfl⟩ := h
  obtain ⟨earlier', snapshot', updates', split', rfl⟩ := h'
  rcases List.append_eq_append_iff.mp (split.symm.trans split') with
    ⟨between, _, same⟩ | ⟨between, _, same⟩
  · obtain ⟨rfl, rfl⟩ := snapshot_deltas_unique same
    rfl
  · obtain ⟨rfl, rfl⟩ := snapshot_deltas_unique same
    rfl

/-- After a snapshot among the actions nothing before it matters. -/
theorem describes_snapshot {actions : List SyncAction} (book : ∀ a ∈ actions, a.isBook = true)
    {bids asks : List Level} (mem : .snapshot bids asks ∈ actions)
    (h : (replay hash depth v actions).status = .live) :
    Describes depth actions (replay hash depth v actions).levels := by
  obtain ⟨before, later, rfl⟩ := List.append_of_mem mem
  rw [replay_append, replay_cons] at h ⊢
  have taken : Describes depth (before ++ [.snapshot bids asks])
      (judged ((Levels.snapshot bids asks).prune depth)).levels :=
    ⟨before, (bids, asks), [], rfl, judged_levels _⟩
  have described := describes_replay
    (fun a h => book a (List.mem_append_right _ (List.mem_cons_of_mem _ h))) (fun _ => taken) h
  rw [List.append_assoc, List.singleton_append] at described
  exact described

theorem replay_passive {actions : List SyncAction} (passive : ∀ a ∈ actions, a.isPassive = true) :
    replay hash depth v actions = v := by
  induction actions generalizing v with
  | nil => rfl
  | cons a actions ih =>
    have still : act hash depth v a = v := by
      have h := passive a List.mem_cons_self
      cases a with
      | ignore => rfl
      | forward kind => rfl
      | _ => cases h
    rw [replay_cons, still]
    exact ih (fun b mem => passive b (List.mem_cons_of_mem _ mem))

end Rebuild

end TrustedReplay

import MarketAggregator.DepthAudit
import MarketAggregator.GuardedRuns
import MarketAggregator.PersistentFaults

/-!
# The streak of audits behind a desync

The trail is a streak of faults, where a fault is a price that disagrees. What it reports has
disagreed in as many audits as it says. A price that keeps disagreeing is reported in time
unless the streak it joined behind another price breaks first.
-/

namespace AuditStreaks

open Decimals DepthAudit GuardedRuns MarketEvents OrderBook OrderedMaps PersistentFaults

inductive TrailOp where
  | observe (outcome : AuditOutcome)
  | reset

def step (policy : AuditPolicy) (t : AuditTrail) : TrailOp → AuditTrail
  | .observe outcome => (t.observe outcome policy).2
  | .reset => t.reset

/-- The findings of the mismatches since the last match or reset, newest first. -/
def recent (past : List (List AuditFinding)) : TrailOp → List (List AuditFinding)
  | .observe (.mismatch findings _) => findings :: past
  | .observe .inconclusive => past
  | _ => []

def sinceClear (ops : List TrailOp) : List (List AuditFinding) := ops.foldl recent []

/-- The price is among the findings. -/
def Names (findings : List AuditFinding) (price : Price) : Prop :=
  ∃ f ∈ findings, Price.cmp f.price price = .eq

instance (findings : List AuditFinding) (price : Price) : Decidable (Names findings price) :=
  inferInstanceAs (Decidable (∃ f ∈ findings, Price.cmp f.price price = .eq))

/-- The values at which findings disagree. -/
def values (findings : List AuditFinding) : Set Int :=
  {u | ∃ f ∈ findings, f.price.decimal.units = u}

def streakOf (t : AuditTrail) : Streak Int :=
  ⟨t.consecutive, {u | ∃ e ∈ t.suspect.entries, e.1.decimal.units = u}⟩

section Observe

variable {t : AuditTrail} {policy : AuditPolicy} {findings : List AuditFinding} {compared : Nat}
  {price : Price}

theorem names_iff : Names findings price ↔ price.decimal.units ∈ values findings := by
  constructor
  · rintro ⟨f, mem, same⟩
    exact ⟨f, mem, Price.cmp_eq.mp same⟩
  · rintro ⟨f, mem, same⟩
    exact ⟨f, mem, Price.cmp_eq.mpr same⟩

theorem prices_found :
    ((AuditOutcome.mismatch findings compared).prices.find? price).isSome = true ↔
      price.decimal.units ∈ values findings := by
  rw [AuditOutcome.prices, OrderedSet.isSome_ofKeys]
  constructor
  · rintro ⟨p, mem, same⟩
    obtain ⟨f, there, rfl⟩ := List.mem_map.mp mem
    exact ⟨f, there, (Price.cmp_eq.mp same).symm⟩
  · rintro ⟨f, there, same⟩
    exact ⟨f.price, List.mem_map_of_mem there, Price.cmp_eq.mpr same.symm⟩

theorem prices_values (findings : List AuditFinding) (compared : Nat) :
    {u | ∃ e ∈ (AuditOutcome.mismatch findings compared).prices.entries, e.1.decimal.units = u} =
      values findings := by
  ext u
  constructor
  · rintro ⟨e, mem, rfl⟩
    have self : Price.cmp e.1 e.1 = .eq := Std.ReflCmp.compare_self
    exact prices_found.mp (OrderedMap.isSome_find?.mpr ⟨e, mem, self⟩)
  · rintro ⟨f, mem, rfl⟩
    have found : ((AuditOutcome.mismatch findings compared).prices.find? f.price).isSome = true :=
      prices_found.mpr ⟨f, mem, rfl⟩
    obtain ⟨e, there, same⟩ := OrderedMap.isSome_find?.mp found
    exact ⟨e, there, (Price.cmp_eq.mp same).symm⟩

/-- The suspects that disagree again. -/
def kept (t : AuditTrail) (findings : List AuditFinding) (compared : Nat) : PriceSet :=
  t.suspect.restrict
    (fun p => ((AuditOutcome.mismatch findings compared).prices.find? p).isSome)

theorem kept_values (t : AuditTrail) (findings : List AuditFinding) (compared : Nat) :
    {u | ∃ e ∈ (kept t findings compared).entries, e.1.decimal.units = u} =
      (streakOf t).common ∩ values findings := by
  ext u
  constructor
  · rintro ⟨e, mem, rfl⟩
    obtain ⟨before, again⟩ := List.mem_filter.mp mem
    exact ⟨⟨e, before, rfl⟩, prices_found.mp again⟩
  · rintro ⟨⟨e, before, rfl⟩, again⟩
    exact ⟨e, List.mem_filter.mpr ⟨before, prices_found.mpr again⟩, rfl⟩

theorem kept_empty : (kept t findings compared).size = 0 ↔
    (streakOf t).common ∩ values findings = ∅ := by
  rw [← kept_values t findings compared, OrderedMap.size, List.length_eq_zero_iff]
  constructor
  · intro none
    rw [none]
    exact Set.eq_empty_iff_forall_notMem.mpr fun u ⟨e, mem, _⟩ => List.not_mem_nil mem
  · intro none
    apply List.eq_nil_iff_forall_not_mem.mpr
    intro e mem
    exact Set.eq_empty_iff_forall_notMem.mp none e.1.decimal.units ⟨e, mem, rfl⟩

/-- A mismatch that breaks the streak starts it over and returns nothing. -/
theorem observe_broken (broken : (streakOf t).Breaks (values findings)) :
    (t.observe (.mismatch findings compared) policy).1 = none ∧
      streakOf (t.observe (.mismatch findings compared) policy).2 = ⟨1, values findings⟩ := by
  rw [AuditTrail.observe]
  dsimp only
  by_cases first : t.consecutive = 0
  · rw [if_pos first]
    exact ⟨rfl, congrArg (Streak.mk 1) (prices_values findings compared)⟩
  · have none : (kept t findings compared).size = 0 := by
      rcases broken with zero | apart
      · exact False.elim (first zero)
      · exact kept_empty.mpr apart
    rw [if_neg first, kept] at *
    rw [if_pos none]
    exact ⟨rfl, congrArg (Streak.mk 1) (prices_values findings compared)⟩

/-- A mismatch that does not lengthens it, and returns a price that all of it disagrees on. -/
theorem observe_unbroken (unbroken : ¬ (streakOf t).Breaks (values findings)) :
    (t.observe (.mismatch findings compared) policy).1 =
        (if t.consecutive + 1 < policy.consecutiveBeforeDesync then none
        else (kept t findings compared).first?.map
          (fun e => .auditMismatch e.1 (t.consecutive + 1))) ∧
      streakOf (t.observe (.mismatch findings compared) policy).2 =
        ⟨t.consecutive + 1, (streakOf t).common ∩ values findings⟩ := by
  have first : ¬ t.consecutive = 0 := fun zero => unbroken (.inl zero)
  have some : ¬ (kept t findings compared).size = 0 := fun none =>
    unbroken (.inr (kept_empty.mp none))
  have common := kept_values t findings compared
  rw [AuditTrail.observe]
  dsimp only
  rw [kept] at *
  rw [if_neg first, if_neg some]
  split
  · exact ⟨rfl, congrArg (Streak.mk _) common⟩
  · exact ⟨rfl, congrArg (Streak.mk _) common⟩

theorem streak_mismatch : streakOf (t.observe (.mismatch findings compared) policy).2 =
    (streakOf t).extend (values findings) := by
  by_cases broken : (streakOf t).Breaks (values findings)
  · rw [Streak.extend_broken broken, (observe_broken broken).2]
  · rw [Streak.extend_unbroken broken, (observe_unbroken broken).2]
    rfl

theorem reports_mismatch : (t.observe (.mismatch findings compared) policy).1 ≠ none ↔
    (streakOf t).Reports policy.consecutiveBeforeDesync (values findings) := by
  by_cases broken : (streakOf t).Breaks (values findings)
  · constructor
    · intro some
      exact False.elim (some (observe_broken broken).1)
    · rintro ⟨unbroken, _⟩
      exact False.elim (unbroken broken)
  · rw [(observe_unbroken broken).1]
    constructor
    · intro some
      refine ⟨broken, ?_⟩
      by_contra short
      exact some (if_pos (Nat.lt_of_not_le short))
    · rintro ⟨_, long⟩
      have enough : ¬ t.consecutive + 1 < policy.consecutiveBeforeDesync := Nat.not_lt_of_le long
      rw [if_neg enough]
      intro none
      have nothing : (kept t findings compared).entries = [] :=
        List.head?_eq_none_iff.mp (Option.map_eq_none_iff.mp none)
      have size : (kept t findings compared).size = 0 := congrArg List.length nothing
      exact broken (.inr (kept_empty.mp size))

/-- The reported price is a suspect that disagrees again. -/
theorem reason_mismatch {count : Nat}
    (h : (t.observe (.mismatch findings compared) policy).1 = some (.auditMismatch price count)) :
    count = t.consecutive + 1 ∧ 1 ≤ t.consecutive ∧ policy.consecutiveBeforeDesync ≤ count ∧
      price.decimal.units ∈ (streakOf t).common ∩ values findings := by
  have some : (t.observe (.mismatch findings compared) policy).1 ≠ none := by
    rw [h]
    exact Option.some_ne_none _
  obtain ⟨unbroken, long⟩ := reports_mismatch.mp some
  have enough : ¬ t.consecutive + 1 < policy.consecutiveBeforeDesync := Nat.not_lt_of_le long
  rw [(observe_unbroken unbroken).1, if_neg enough] at h
  obtain ⟨e, first, same⟩ := Option.map_eq_some_iff.mp h
  cases same
  have mem : e ∈ (kept t findings compared).entries := List.mem_of_mem_head? first
  have started : t.consecutive ≠ 0 := fun zero => unbroken (.inl zero)
  have common := kept_values t findings compared
  refine ⟨rfl, by omega, long, ?_⟩
  rw [← common]
  exact ⟨e, mem, rfl⟩

theorem reason_outcome {outcome : AuditOutcome} {reason : DesyncReason}
    (h : (t.observe outcome policy).1 = some reason) :
    ∃ findings compared, outcome = .mismatch findings compared := by
  cases outcome with
  | mismatch findings compared => exact ⟨findings, compared, rfl⟩
  | _ => cases h

end Observe

section Runs

variable {policy : AuditPolicy}

/-- What the trail holds has disagreed in every audit of its streak. -/
theorem backed_run (policy : AuditPolicy) (ops : List TrailOp) :
    (streakOf (exec (step policy) .fresh ops)).Backed ((sinceClear ops).map values) := by
  induction ops using List.reverseRecOn with
  | nil => exact Streak.backed_none rfl
  | append_singleton ops op ih =>
    rw [exec_append, sinceClear, List.foldl_append]
    cases op with
    | reset => exact Streak.backed_none rfl
    | observe outcome =>
      cases outcome with
      | inconclusive => exact ih
      | agreed compared => exact Streak.backed_none rfl
      | mismatch findings compared =>
        have next := Streak.backed_extend ih (values findings)
        have streak : streakOf (step policy (exec (step policy) .fresh ops)
            (.observe (.mismatch findings compared))) = _ := streak_mismatch
        rw [← streak] at next
        exact next

theorem sinceClear_length (ops : List TrailOp) : (sinceClear ops).length ≤ ops.length := by
  induction ops using List.reverseRecOn with
  | nil => exact Nat.le_refl 0
  | append_singleton ops op ih =>
    rw [sinceClear, List.foldl_append, List.length_append]
    change (recent (sinceClear ops) op).length ≤ ops.length + 1
    cases op with
    | reset => exact Nat.zero_le _
    | observe outcome =>
      cases outcome with
      | inconclusive => exact Nat.le_succ_of_le ih
      | agreed compared => exact Nat.zero_le _
      | mismatch findings compared => exact Nat.succ_le_succ ih

theorem consecutive_le (policy : AuditPolicy) (ops : List TrailOp) :
    (exec (step policy) .fresh ops).consecutive ≤ ops.length := by
  obtain ⟨within, -⟩ := backed_run policy ops
  rw [List.length_map] at within
  exact Nat.le_trans within (sinceClear_length ops)

/-- The trail with its counter cut to 32 bits. -/
def wrapped (t : AuditTrail) : AuditTrail := { t with consecutive := t.consecutive % 2 ^ 32 }

/-- A counter of 32 bits is the counter of a run of fewer than 2^32 calls. -/
theorem wrapped_run (policy : AuditPolicy) (ops : List TrailOp) (few : ops.length < 2 ^ 32) :
    exec (fun t op => wrapped (step policy t op)) .fresh ops = exec (step policy) .fresh ops := by
  induction ops using List.reverseRecOn with
  | nil => rfl
  | append_singleton ops op ih =>
    have short := consecutive_le policy (ops ++ [op])
    rw [List.length_append, List.length_singleton] at few
    rw [exec_append, ih (by omega)]
    rw [exec_append, List.length_append] at short
    rw [exec_append]
    have fits : (step policy (exec (step policy) .fresh ops) op).consecutive < 2 ^ 32 := by
      simp only [exec_cons, exec_nil, List.length_singleton] at short
      omega
    simp only [exec_cons, exec_nil, wrapped, Nat.mod_eq_of_lt fits]

/-- A reported price is among the findings of the last audits that disagreed, as many as the
report counts, with no audit that agreed and no reset since. -/
theorem desync_backed (policy : AuditPolicy) (ops : List TrailOp) (outcome : AuditOutcome)
    (price : Price) (count : Nat)
    (h : ((exec (step policy) .fresh ops).observe outcome policy).1 =
      some (.auditMismatch price count)) :
    2 ≤ count ∧ policy.consecutiveBeforeDesync ≤ count ∧
      count ≤ (sinceClear (ops ++ [.observe outcome])).length ∧
      ∀ findings ∈ (sinceClear (ops ++ [.observe outcome])).take count, Names findings price := by
  obtain ⟨findings, compared, rfl⟩ := reason_outcome h
  obtain ⟨counted, started, long, suspect⟩ := reason_mismatch h
  obtain ⟨within, before⟩ := backed_run policy ops
  have next : sinceClear (ops ++ [.observe (.mismatch findings compared)]) =
      findings :: sinceClear ops := by
    rw [sinceClear, List.foldl_append]
    rfl
  rw [List.length_map] at within
  have streak : (streakOf (exec (step policy) .fresh ops)).count =
      (exec (step policy) .fresh ops).consecutive := rfl
  rw [next, counted]
  refine ⟨by omega, by omega, by rw [List.length_cons]; omega, ?_⟩
  intro found mem
  rcases List.mem_cons.mp mem with rfl | mem
  · exact names_iff.mpr suspect.2
  · refine names_iff.mpr (before (values found) ?_ suspect.1)
    rw [← List.map_take]
    exact List.mem_map_of_mem mem

/-- What a call returns. -/
def returned (policy : AuditPolicy) (t : AuditTrail) : TrailOp → Option DesyncReason
  | .observe outcome => (t.observe outcome policy).1
  | .reset => none

/-- Some call of a list returns a reason. -/
def ReportedWithin (policy : AuditPolicy) : AuditTrail → List TrailOp → Prop
  | _, [] => False
  | t, op :: rest => (returned policy t op).isSome ∨ ReportedWithin policy (step policy t op) rest

/-- The findings of the audits that disagreed, oldest first. -/
def mismatches (window : List TrailOp) : List (List AuditFinding) :=
  window.filterMap (fun op => match op with
    | .observe (.mismatch findings _) => some findings
    | _ => none)

/-- Audits in a row, none of which agrees, whose findings all name a price. -/
structure Persists (price : Price) (many : Nat) (window : List TrailOp) : Prop where
  unbroken : ∀ op ∈ window, op ≠ .reset ∧ ∀ compared, op ≠ .observe (.agreed compared)
  many : (mismatches window).length = many
  named : ∀ findings ∈ mismatches window, Names findings price

/-- No price of the streak under way disagrees in the first audit that disagrees. -/
def Begins (t : AuditTrail) (window : List TrailOp) : Prop :=
  ∀ first ∈ (mismatches window).head?, (streakOf t).Breaks (values first)

instance reportedWithinDecidable (policy : AuditPolicy) :
    ∀ t window, Decidable (ReportedWithin policy t window)
  | _, [] => .isFalse id
  | t, op :: rest =>
    have := reportedWithinDecidable policy (step policy t op) rest
    inferInstanceAs (Decidable ((returned policy t op).isSome ∨
      ReportedWithin policy (step policy t op) rest))

theorem reportedWithin_iff {t : AuditTrail} {window : List TrailOp}
    (unbroken : ∀ op ∈ window, op ≠ .reset ∧ ∀ compared, op ≠ .observe (.agreed compared)) :
    ReportedWithin policy t window ↔ (streakOf t).ReportsIn policy.consecutiveBeforeDesync
      ((mismatches window).map values) := by
  induction window generalizing t with
  | nil => exact Iff.rfl
  | cons op rest ih =>
    obtain ⟨clear, agreed⟩ := unbroken op List.mem_cons_self
    have next := fun t => ih (t := t) fun op mem => unbroken op (List.mem_cons_of_mem _ mem)
    rw [ReportedWithin, next]
    cases op with
    | reset => exact False.elim (clear rfl)
    | observe outcome =>
      cases outcome with
      | agreed compared => exact False.elim (agreed compared rfl)
      | inconclusive => exact or_iff_right Bool.false_ne_true
      | mismatch findings compared =>
        rw [step, streak_mismatch, returned, ← Option.ne_none_iff_isSome, reports_mismatch]
        exact Iff.rfl

/-- A price that disagrees in as many audits in a row as the policy asks for is reported by the
last of them exactly if it begins a streak and the policy asks for two at least, or the streak
that it joins keeps a price until it is long enough. -/
theorem reported_in_time_iff (policy : AuditPolicy) (past window : List TrailOp) (price : Price)
    (positive : 1 ≤ policy.consecutiveBeforeDesync)
    (persists : Persists price policy.consecutiveBeforeDesync window) :
    ReportedWithin policy (exec (step policy) .fresh past) window ↔
      (Begins (exec (step policy) .fresh past) window ∧ 2 ≤ policy.consecutiveBeforeDesync) ∨
        (¬ Begins (exec (step policy) .fresh past) window ∧
          (streakOf (exec (step policy) .fresh past)).Lasts policy.consecutiveBeforeDesync
            ((mismatches window).map values)) := by
  obtain ⟨unbroken, many, named⟩ := persists
  rw [reportedWithin_iff unbroken, Begins]
  cases found : mismatches window with
  | nil =>
    rw [found, List.length_nil] at many
    omega
  | cons first rest =>
    rw [found] at many named
    have again : ∀ f ∈ values first :: rest.map values, price.decimal.units ∈ f := by
      intro f mem
      obtain ⟨findings, there, rfl⟩ := List.mem_map.mp (List.map_cons ▸ mem)
      exact names_iff.mp (named findings there)
    have size : (rest.map values).length + 1 = policy.consecutiveBeforeDesync := by
      rw [List.length_map]
      exact many
    rw [List.map_cons, Streak.reportsIn_iff size again]
    simp

end Runs

section Sample

def priceOf (n : Fin (2 ^ 96)) : Price := ⟨.whole n⟩

/-- An audit that finds our level where the venue has none. -/
def disagreement (prices : List Price) : TrailOp :=
  .observe (.mismatch (prices.map fun p => ⟨.bid, p, some ⟨.whole 1, nofun⟩, none⟩) prices.length)

theorem desync_backed_twice :
    2 ≤ 2 ∧ AuditPolicy.default.consecutiveBeforeDesync ≤ 2 ∧
      2 ≤ (sinceClear ([disagreement [priceOf 5, priceOf 7]] ++ [disagreement [priceOf 7]])).length ∧
      ∀ findings ∈ (sinceClear
        ([disagreement [priceOf 5, priceOf 7]] ++ [disagreement [priceOf 7]])).take 2,
        Names findings (priceOf 7) :=
  desync_backed .default [disagreement [priceOf 5, priceOf 7]] _ (priceOf 7) 2 (by decide)

/-- One price disagrees after another. -/
def laterDrift : List TrailOp :=
  [disagreement [priceOf 5], .observe .inconclusive, disagreement [priceOf 5]]

theorem laterDrift_persists : Persists (priceOf 5) 2 laterDrift := by
  constructor
  · intro op mem
    simp only [laterDrift, List.mem_cons, List.not_mem_nil, or_false] at mem
    rcases mem with rfl | rfl | rfl <;> exact ⟨nofun, nofun⟩
  · rfl
  · decide

theorem reported_in_time_twice :
    ReportedWithin .default (exec (step .default) .fresh [disagreement [priceOf 7]]) laterDrift ↔
      (Begins (exec (step .default) .fresh [disagreement [priceOf 7]]) laterDrift ∧
        2 ≤ AuditPolicy.default.consecutiveBeforeDesync) ∨
        (¬ Begins (exec (step .default) .fresh [disagreement [priceOf 7]]) laterDrift ∧
          (streakOf (exec (step .default) .fresh [disagreement [priceOf 7]])).Lasts
            AuditPolicy.default.consecutiveBeforeDesync ((mismatches laterDrift).map values)) :=
  reported_in_time_iff .default [disagreement [priceOf 7]] laterDrift (priceOf 5) (by decide)
    laterDrift_persists

/-- The second price disagrees three times in a row, first beside the price whose streak it
joined. -/
def driftBehind : List TrailOp :=
  [disagreement [priceOf 5, priceOf 7], disagreement [priceOf 7], disagreement [priceOf 7]]

theorem persistent_price_not_reported :
    Persists (priceOf 7) 3 driftBehind ∧
      ¬ ReportedWithin ⟨10, 500, 3⟩ .fresh (disagreement [priceOf 5] :: driftBehind) ∧
      Persists (priceOf 7) 1 [disagreement [priceOf 7]] ∧
      ¬ ReportedWithin ⟨10, 500, 1⟩ .fresh [disagreement [priceOf 7]] := by
  refine ⟨?_, by decide, ?_, by decide⟩
  · constructor
    · intro op mem
      simp only [driftBehind, List.mem_cons, List.not_mem_nil, or_false] at mem
      rcases mem with rfl | rfl | rfl <;> exact ⟨nofun, nofun⟩
    · rfl
    · decide
  · constructor
    · intro op mem
      obtain rfl := List.mem_singleton.mp mem
      exact ⟨nofun, nofun⟩
    · rfl
    · decide

end Sample

end AuditStreaks

import Mathlib.Data.Set.Basic

/-!
# Faults that persist under noise

Each observation finds a set of faults. A streak keeps what its observations have in common,
and an observation that leaves nothing in common starts a new streak with what it found. A
streak that is long enough reports.
-/

namespace PersistentFaults

universe u

variable {α : Type u}

structure Streak (α : Type u) where
  count : Nat
  common : Set α

namespace Streak

/-- Nothing is under way, or nothing of it was found again. -/
def Breaks (s : Streak α) (found : Set α) : Prop := s.count = 0 ∨ s.common ∩ found = ∅

open Classical in
noncomputable def extend (s : Streak α) (found : Set α) : Streak α :=
  if s.Breaks found then ⟨1, found⟩ else ⟨s.count + 1, s.common ∩ found⟩

/-- The observation makes the streak long enough. One observation alone never does. -/
def Reports (limit : Nat) (s : Streak α) (found : Set α) : Prop :=
  ¬ s.Breaks found ∧ limit ≤ s.count + 1

/-- Some observation of a list reports. -/
def ReportsIn (limit : Nat) : Streak α → List (Set α) → Prop
  | _, [] => False
  | s, found :: rest => s.Reports limit found ∨ (s.extend found).ReportsIn limit rest

/-- Something is common to the streak and to a list of observations. -/
def Survives (s : Streak α) (founds : List (Set α)) : Prop :=
  ∃ x ∈ s.common, ∀ found ∈ founds, x ∈ found

/-- What the streak holds in common was found by the last observations, newest first. -/
structure Backed (s : Streak α) (past : List (Set α)) : Prop where
  long : s.count ≤ past.length
  found : ∀ f ∈ past.take s.count, s.common ⊆ f

variable {s : Streak α} {found : Set α} {past rest : List (Set α)} {x : α} {limit : Nat}

theorem extend_broken (broken : s.Breaks found) : s.extend found = ⟨1, found⟩ := if_pos broken

theorem extend_unbroken (unbroken : ¬ s.Breaks found) :
    s.extend found = ⟨s.count + 1, s.common ∩ found⟩ := if_neg unbroken

theorem mem_extend : x ∈ (s.extend found).common ↔ x ∈ found ∧ (s.Breaks found ∨ x ∈ s.common) := by
  by_cases broken : s.Breaks found
  · rw [extend_broken broken]
    exact ⟨fun mem => ⟨mem, .inl broken⟩, And.left⟩
  · rw [extend_unbroken broken]
    constructor
    · rintro ⟨before, again⟩
      exact ⟨again, .inr before⟩
    · rintro ⟨again, broken' | before⟩
      · exact False.elim (broken broken')
      · exact ⟨before, again⟩

theorem extend_started : 1 ≤ (s.extend found).count := by
  by_cases broken : s.Breaks found
  · rw [extend_broken broken]
  · rw [extend_unbroken broken]
    exact Nat.le_add_left 1 s.count

theorem breaks_iff (started : 1 ≤ s.count) : s.Breaks found ↔ ¬ s.Survives [found] := by
  constructor
  · rintro (none | apart) ⟨x, common, again⟩
    · omega
    · have both : x ∈ s.common ∩ found := ⟨common, again found (List.mem_singleton_self _)⟩
      rw [apart] at both
      exact both
  · intro lost
    refine .inr (Set.eq_empty_iff_forall_notMem.mpr ?_)
    rintro x ⟨common, again⟩
    refine lost ⟨x, common, ?_⟩
    intro f mem
    exact List.mem_singleton.mp mem ▸ again

theorem not_breaks (started : 1 ≤ s.count) (common : x ∈ s.common) (again : x ∈ found) :
    ¬ s.Breaks found := by
  rintro (none | apart)
  · omega
  · exact Set.eq_empty_iff_forall_notMem.mp apart x ⟨common, again⟩

/-- No streak needs no past. -/
theorem backed_none (none : s.count = 0) : Backed s past := by
  constructor
  · rw [none]
    exact Nat.zero_le _
  · intro f mem
    rw [none] at mem
    cases mem

theorem backed_extend (backed : Backed s past) (found : Set α) :
    Backed (s.extend found) (found :: past) := by
  obtain ⟨long, before⟩ := backed
  by_cases broken : s.Breaks found
  · rw [extend_broken broken]
    constructor
    · exact Nat.le_add_left 1 past.length
    · intro f mem
      exact List.mem_singleton.mp mem ▸ subset_refl found
  · rw [extend_unbroken broken]
    constructor
    · exact Nat.succ_le_succ long
    · intro f mem
      rcases List.mem_cons.mp mem with rfl | mem
      · exact Set.inter_subset_right
      · exact Set.inter_subset_left.trans (before f mem)

/-- A streak with something that every observation finds again only grows. -/
theorem reportsIn_common {founds : List (Set α)} (started : 1 ≤ s.count) (common : x ∈ s.common)
    (again : ∀ f ∈ founds, x ∈ f) :
    s.ReportsIn limit founds ↔ founds ≠ [] ∧ limit ≤ s.count + founds.length := by
  induction founds generalizing s with
  | nil => simp [ReportsIn]
  | cons found rest ih =>
    have here := again found List.mem_cons_self
    have later := fun f mem => again f (List.mem_cons_of_mem _ mem)
    have unbroken := not_breaks started common here
    have next : (⟨s.count + 1, s.common ∩ found⟩ : Streak α).ReportsIn limit rest ↔
        rest ≠ [] ∧ limit ≤ s.count + 1 + rest.length :=
      ih (Nat.le_add_left 1 _) ⟨common, here⟩ later
    rw [ReportsIn, extend_unbroken unbroken, next, Reports, List.length_cons]
    constructor
    · rintro (⟨_, enough⟩ | ⟨_, enough⟩)
      · exact ⟨List.cons_ne_nil _ _, by omega⟩
      · exact ⟨List.cons_ne_nil _ _, by omega⟩
    · rintro ⟨_, enough⟩
      by_cases first : limit ≤ s.count + 1
      · exact .inl ⟨unbroken, first⟩
      · refine .inr ⟨?_, by omega⟩
        rintro rfl
        rw [List.length_nil] at enough
        omega

theorem reportsIn_new (here : x ∈ found) (again : ∀ f ∈ rest, x ∈ f) :
    (⟨1, found⟩ : Streak α).ReportsIn limit rest ↔ rest ≠ [] ∧ limit ≤ 1 + rest.length :=
  reportsIn_common (Nat.le_refl 1) here again

theorem survives_cons : s.Survives (found :: rest) ↔
    (⟨s.count + 1, s.common ∩ found⟩ : Streak α).Survives rest := by
  constructor
  · rintro ⟨x, common, again⟩
    refine ⟨x, ⟨common, again found List.mem_cons_self⟩, ?_⟩
    intro f mem
    exact again f (List.mem_cons_of_mem _ mem)
  · rintro ⟨x, ⟨common, here⟩, again⟩
    refine ⟨x, common, ?_⟩
    intro f mem
    rcases List.mem_cons.mp mem with rfl | mem
    · exact here
    · exact again f mem

/-- The streak survives every observation until it is long enough to report. -/
def Lasts (limit : Nat) (s : Streak α) (founds : List (Set α)) : Prop :=
  ∀ j, 1 ≤ j → s.count + j ≤ limit → s.Survives (founds.take j)

theorem lasts_cons (first : s.Survives [found]) :
    s.Lasts limit (found :: rest) ↔
      (⟨s.count + 1, s.common ∩ found⟩ : Streak α).Lasts limit rest := by
  constructor
  · intro lasts j positive within
    have size : s.count + 1 + j ≤ limit := within
    exact survives_cons.mp (lasts (j + 1) (by omega) (by omega))
  · intro lasts j positive within
    cases j with
    | zero => omega
    | succ j =>
      rw [List.take_succ_cons]
      by_cases only : j = 0
      · subst only
        exact first
      · have size : s.count + 1 + j ≤ limit := by omega
        exact survives_cons.mpr (lasts j (by omega) size)

theorem lasts_of_last (first : s.Survives [found]) (last : limit ≤ s.count + 1) :
    s.Lasts limit (found :: rest) := by
  intro j positive within
  obtain rfl : j = 1 := by omega
  exact first

/-- Where the first observation joins the streak, it is the others that have to be looked at. -/
theorem reportsIn_joined (unbroken : ¬ s.Breaks found) (started : 1 ≤ s.count)
    (next : ¬ limit ≤ s.count + 1 →
      ((⟨s.count + 1, s.common ∩ found⟩ : Streak α).ReportsIn limit rest ↔
        (⟨s.count + 1, s.common ∩ found⟩ : Streak α).Lasts limit rest)) :
    s.ReportsIn limit (found :: rest) ↔ s.Lasts limit (found :: rest) := by
  have first : s.Survives [found] := by
    by_contra lost
    exact unbroken ((breaks_iff started).mpr lost)
  rw [ReportsIn, extend_unbroken unbroken]
  by_cases last : limit ≤ s.count + 1
  · constructor
    · intro _
      exact lasts_of_last first last
    · intro _
      exact .inl ⟨unbroken, last⟩
  · rw [next last, lasts_cons first]
    constructor
    · rintro (⟨_, long⟩ | lasts)
      · exact False.elim (last long)
      · exact lasts
    · exact .inr

/-- A streak under way that is too short so far: it reports exactly if it lasts, because the
streak that would follow it has too few observations left. -/
theorem reportsIn_iff_lasts {founds : List (Set α)} (started : 1 ≤ s.count)
    (short : s.count < limit) (few : founds.length < limit)
    (enough : limit ≤ s.count + founds.length) (again : ∀ f ∈ founds, x ∈ f) :
    s.ReportsIn limit founds ↔ s.Lasts limit founds := by
  induction founds generalizing s with
  | nil =>
    rw [List.length_nil] at enough
    omega
  | cons found rest ih =>
    rw [List.length_cons] at few enough
    have later := fun f mem => again f (List.mem_cons_of_mem _ mem)
    by_cases broken : s.Breaks found
    · rw [ReportsIn, extend_broken broken, reportsIn_new (again found List.mem_cons_self) later]
      constructor
      · rintro (⟨unbroken, _⟩ | ⟨_, long⟩)
        · exact False.elim (unbroken broken)
        · omega
      · intro lasts
        exact False.elim ((breaks_iff started).mp broken (lasts 1 (Nat.le_refl 1) short))
    · apply reportsIn_joined broken started
      intro last
      have size : (⟨s.count + 1, s.common ∩ found⟩ : Streak α).count = s.count + 1 := rfl
      exact ih (by omega) (by omega) (by omega) (by omega) later

/-- When a fault is found by as many observations in a row as a report takes: it is reported
exactly if it begins a streak, or joins one that lasts. -/
theorem reportsIn_iff (many : rest.length + 1 = limit) (again : ∀ f ∈ found :: rest, x ∈ f) :
    s.ReportsIn limit (found :: rest) ↔
      (s.Breaks found ∧ 2 ≤ limit) ∨ (¬ s.Breaks found ∧ s.Lasts limit (found :: rest)) := by
  have later := fun f mem => again f (List.mem_cons_of_mem _ mem)
  by_cases broken : s.Breaks found
  · rw [ReportsIn, extend_broken broken, reportsIn_new (again found List.mem_cons_self) later]
    constructor
    · rintro (⟨unbroken, _⟩ | ⟨more, _⟩)
      · exact False.elim (unbroken broken)
      · have positive := List.length_pos_iff.mpr more
        exact .inl ⟨broken, by omega⟩
    · rintro (⟨_, two⟩ | ⟨unbroken, _⟩)
      · exact .inr ⟨List.length_pos_iff.mp (by omega), by omega⟩
      · exact False.elim (unbroken broken)
  · have started : 1 ≤ s.count := by
      by_contra none
      exact broken (.inl (by omega))
    have joined : s.ReportsIn limit (found :: rest) ↔ s.Lasts limit (found :: rest) := by
      apply reportsIn_joined broken started
      intro last
      have size : (⟨s.count + 1, s.common ∩ found⟩ : Streak α).count = s.count + 1 := rfl
      exact reportsIn_iff_lasts (by omega) (by omega) (by omega) (by omega) later
    rw [joined]
    constructor
    · exact fun lasts => .inr ⟨broken, lasts⟩
    · rintro (⟨yes, _⟩ | ⟨_, lasts⟩)
      · exact False.elim (broken yes)
      · exact lasts

end Streak

end PersistentFaults

import MarketAggregator.GuardedRuns
import Mathlib.Data.List.Basic

/-!
# Runs over lanes

An action belongs to one lane or is common to all. Where actions of two lanes commute, a run
is what every lane sees of it: its own actions and the common ones, in their order.
-/

namespace LaneOrders

open GuardedRuns

universe u v w x z

variable {S : Type u} {A : Type v} {O : Type w} {X : Type x}

/-- The actions of a lane, and the common ones. -/
def seen [DecidableEq X] (lane : A → Option X) (x : X) (acts : List A) : List A :=
  acts.filter (fun a => (lane a).all (fun y => decide (y = x)))

/-- What a step puts out for a lane: its own actions and the common ones do. -/
def told [DecidableEq X] (lane : A → Option X) (out : S → A → List O) (x : X) (s : S) (a : A) :
    List O :=
  if (lane a).all (fun y => decide (y = x)) = true then out s a else []

/-- Actions of two lanes commute, and none changes what the other puts out. -/
structure Independent (step : S → A → S) (out : S → A → List O) (lane : A → Option X) : Prop where
  commute : ∀ s a b x y, lane a = some x → lane b = some y → x ≠ y →
    step (step s a) b = step (step s b) a
  undisturbed : ∀ s a b x y, lane a = some x → lane b = some y → x ≠ y →
    out (step s b) a = out s a

/-- A part of the state that other lanes leave alone, and what it puts out. -/
structure Local {V : Type z} (step : S → A → S) (out : S → A → List O) (lane : A → Option X) (x : X)
    (view : S → V) : Prop where
  foreign : ∀ s a y, lane a = some y → y ≠ x → view (step s a) = view s ∧ out s a = []
  determined : ∀ s t a, lane a = some x ∨ lane a = none → view s = view t →
    view (step s a) = view (step t a) ∧ out s a = out t a

section Lanes

variable [DecidableEq X] {step : S → A → S} {out : S → A → List O} {lane : A → Option X}
  {x y z : X} {a b : A} {s : S} {acts others pre post : List A}

theorem told_other (own : lane a = some x) (other : x ≠ z) : told lane out z s a = [] := by
  simp [told, own, other]

/-- Two actions of different lanes put out the same in either order, for every lane. -/
theorem told_swap (independent : Independent step out lane) (lane_a : lane a = some x)
    (lane_b : lane b = some y) (apart : x ≠ y) :
    told lane out z s a ++ told lane out z (step s a) b =
      told lane out z s b ++ told lane out z (step s b) a := by
  have kept_a : told lane out z (step s b) a = told lane out z s a := by
    rw [told, told, independent.undisturbed s a b x y lane_a lane_b apart]
  have kept_b : told lane out z (step s a) b = told lane out z s b := by
    rw [told, told, independent.undisturbed s b a y x lane_b lane_a apart.symm]
  rw [kept_a, kept_b]
  by_cases same : x = z
  · have silent : told lane out z s b = [] := told_other lane_b fun h => apart (same.trans h.symm)
    rw [silent, List.nil_append, List.append_nil]
  · have silent : told lane out z s a = [] := told_other lane_a same
    rw [silent, List.nil_append, List.append_nil]

/-- An action moves before the actions of other lanes. -/
theorem forward (independent : Independent step out lane) (own : lane a = some x)
    (foreign : ∀ b ∈ pre, ∃ y, lane b = some y ∧ y ≠ x) :
    exec step s (pre ++ a :: post) = exec step s (a :: (pre ++ post)) ∧
      ∀ z, outputs step (told lane out z) s (pre ++ a :: post) =
        outputs step (told lane out z) s (a :: (pre ++ post)) := by
  induction pre generalizing s with
  | nil => exact ⟨rfl, fun _ => rfl⟩
  | cons b pre ih =>
    obtain ⟨⟨y, lane_b, other⟩, rest⟩ := List.forall_mem_cons.mp foreign
    obtain ⟨run, shown⟩ := ih (s := step s b) rest
    have swap : step (step s b) a = step (step s a) b :=
      independent.commute s b a y x lane_b own other
    constructor
    · calc exec step s (b :: pre ++ a :: post)
          = exec step (step s b) (a :: (pre ++ post)) := run
        _ = exec step s (a :: (b :: pre ++ post)) := congrArg (exec step · (pre ++ post)) swap
    · intro z
      have first := told_swap (z := z) (s := s) independent lane_b own other
      calc outputs step (told lane out z) s (b :: pre ++ a :: post)
          = told lane out z s b ++ outputs step (told lane out z) (step s b) (a :: (pre ++ post)) :=
            congrArg (told lane out z s b ++ ·) (shown z)
        _ = told lane out z s a ++ told lane out z (step s a) b ++
              outputs step (told lane out z) (step (step s a) b) (pre ++ post) := by
            rw [outputs, ← List.append_assoc, first, swap]
        _ = outputs step (told lane out z) s (a :: (b :: pre ++ post)) := List.append_assoc ..

theorem seen_cons_own (own : lane a = some x) :
    seen lane x (a :: acts) = a :: seen lane x acts := by
  simp [seen, own]

theorem seen_cons_other (own : lane a = some y) (other : y ≠ x) :
    seen lane x (a :: acts) = seen lane x acts := by
  simp [seen, own, other]

theorem seen_cons_common (common : lane a = none) :
    seen lane x (a :: acts) = a :: seen lane x acts := by
  simp [seen, common]

theorem seen_append : seen lane x (pre ++ post) = seen lane x pre ++ seen lane x post :=
  List.filter_append ..

/-- Everything that a lane does not see belongs to other lanes. -/
theorem foreign_of_unseen (unseen : seen lane x pre = []) :
    ∀ b ∈ pre, ∃ y, lane b = some y ∧ y ≠ x := by
  intro b mem
  have hidden := List.filter_eq_nil_iff.mp unseen b mem
  cases owned : lane b with
  | none => simp [owned] at hidden
  | some y => exact ⟨y, rfl, by simpa [owned] using hidden⟩

/-- Two runs of which every lane sees the same end alike, and every lane is told the same. -/
theorem same_of_seen [Nonempty X] (independent : Independent step out lane)
    (alike : ∀ x, seen lane x acts = seen lane x others) :
    exec step s acts = exec step s others ∧
      ∀ x, outputs step (told lane out x) s acts = outputs step (told lane out x) s others := by
  induction acts generalizing s others with
  | nil =>
    cases others with
    | nil => exact ⟨rfl, fun _ => rfl⟩
    | cons b others =>
      cases owned : lane b with
      | none =>
        have first := alike (Classical.arbitrary X)
        rw [seen_cons_common owned] at first
        cases first
      | some y =>
        have first := alike y
        rw [seen_cons_own owned] at first
        cases first
  | cons a acts ih =>
    cases owned : lane a with
    | none =>
      -- A common action is the next one of every lane, so nothing can stand before it.
      cases others with
      | nil =>
        have first := alike (Classical.arbitrary X)
        rw [seen_cons_common owned] at first
        cases first
      | cons b others =>
        have same : a = b := by
          cases lane_b : lane b with
          | none =>
            have first := alike (Classical.arbitrary X)
            rw [seen_cons_common owned, seen_cons_common lane_b] at first
            exact (List.cons.inj first).1
          | some y =>
            have first := alike y
            rw [seen_cons_common owned, seen_cons_own lane_b] at first
            exact (List.cons.inj first).1
        subst same
        have rest : ∀ x, seen lane x acts = seen lane x others := by
          intro x
          have both := alike x
          rw [seen_cons_common owned, seen_cons_common owned] at both
          exact (List.cons.inj both).2
        obtain ⟨run, shown⟩ := ih (s := step s a) rest
        exact ⟨run, fun x => congrArg (told lane out x s a ++ ·) (shown x)⟩
    | some x =>
      have first := alike x
      rw [seen_cons_own owned] at first
      obtain ⟨pre, post, rfl, unseen, -, -⟩ := List.filter_eq_cons_iff.mp first.symm
      have hidden : seen lane x pre = [] := List.filter_eq_nil_iff.mpr unseen
      have foreign := foreign_of_unseen hidden
      have rest : ∀ y, seen lane y acts = seen lane y (pre ++ post) := by
        intro y
        have both := alike y
        rw [seen_append] at both ⊢
        by_cases same : x = y
        · subst same
          rw [seen_cons_own owned, seen_cons_own owned, hidden, List.nil_append] at both
          rw [hidden, List.nil_append]
          exact (List.cons.inj both).2
        · rw [seen_cons_other owned same, seen_cons_other owned same] at both
          exact both
      obtain ⟨run, shown⟩ := ih (s := step s a) rest
      obtain ⟨moved, heard⟩ : exec step s (pre ++ a :: post) =
          exec step s (a :: (pre ++ post)) ∧ _ := forward independent owned foreign
      refine ⟨run.trans moved.symm, fun y => ?_⟩
      exact (congrArg (told lane out y s a ++ ·) (shown y)).trans (heard y).symm

/-- What a lane does not see changes neither its part of the state nor what it puts out. -/
theorem Local.alone {V : Type z} {view : S → V} {t : S} (own : Local step out lane x view)
    (same : view s = view t) (acts : List A) :
    view (exec step s acts) = view (exec step t (seen lane x acts)) ∧
      outputs step out s acts = outputs step out t (seen lane x acts) := by
  induction acts generalizing s t with
  | nil => exact ⟨same, rfl⟩
  | cons a acts ih =>
    cases owned : lane a with
    | none =>
      obtain ⟨next, put⟩ := own.determined s t a (.inr owned) same
      obtain ⟨rest, more⟩ := ih next
      rw [seen_cons_common owned, outputs, outputs, put, more]
      exact ⟨rest, rfl⟩
    | some y =>
      by_cases mine : y = x
      · subst mine
        obtain ⟨next, put⟩ := own.determined s t a (.inl owned) same
        obtain ⟨rest, more⟩ := ih next
        rw [seen_cons_own owned, outputs, outputs, put, more]
        exact ⟨rest, rfl⟩
      · obtain ⟨kept, silent⟩ := own.foreign s a y owned mine
        obtain ⟨rest, more⟩ := ih (kept.trans same)
        rw [seen_cons_other owned mine, outputs, silent, List.nil_append]
        exact ⟨rest, more⟩

end Lanes

end LaneOrders

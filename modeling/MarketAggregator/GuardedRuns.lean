import Mathlib.Data.List.Basic
import Mathlib.Data.List.Induction

/-!
# Runs of a step function and conditions on their steps

A run is a list of actions executed from the left by a total step function. A
disabled action is a step that changes nothing. `Meets` says that a condition on
the state before a step and on the action holds at every step of a run.
-/

namespace GuardedRuns

universe u v w

variable {S : Type u} {A : Type v}

def exec (step : S → A → S) (s : S) (acts : List A) : S := acts.foldl step s

@[simp] theorem exec_nil (step : S → A → S) (s : S) : exec step s [] = s := rfl

@[simp] theorem exec_cons (step : S → A → S) (s : S) (a : A) (acts : List A) :
    exec step s (a :: acts) = exec step (step s a) acts := rfl

@[simp] theorem exec_append (step : S → A → S) (s : S) (acts more : List A) :
    exec step s (acts ++ more) = exec step (exec step s acts) more :=
  List.foldl_append

/-- Every step of the run satisfies the condition in the state it starts from. -/
def Meets (step : S → A → S) (ok : S → A → Prop) : S → List A → Prop
  | _, [] => True
  | s, a :: acts => ok s a ∧ Meets step ok (step s a) acts

instance meetsDecidable (step : S → A → S) (ok : S → A → Prop)
    [∀ s a, Decidable (ok s a)] : ∀ s acts, Decidable (Meets step ok s acts)
  | _, [] => .isTrue trivial
  | s, a :: acts =>
    have := meetsDecidable step ok (step s a) acts
    inferInstanceAs (Decidable (ok s a ∧ Meets step ok (step s a) acts))

@[simp] theorem meets_append {step : S → A → S} {ok : S → A → Prop} {s : S}
    {acts more : List A} :
    Meets step ok s (acts ++ more) ↔
      Meets step ok s acts ∧ Meets step ok (exec step s acts) more := by
  induction acts generalizing s with
  | nil => simp [Meets]
  | cons a acts ih => simp [Meets, ih, and_assoc]

theorem Meets.mono {step : S → A → S} {ok weak : S → A → Prop}
    (imp : ∀ s a, ok s a → weak s a) {s : S} {acts : List A}
    (h : Meets step ok s acts) : Meets step weak s acts := by
  induction acts generalizing s with
  | nil => trivial
  | cons a acts ih => exact ⟨imp s a h.1, ih h.2⟩

/-- A run that meets a condition meets what an invariant adds to it. -/
theorem Meets.strengthen {step : S → A → S} {ok strong : S → A → Prop} {Inv : S → Prop}
    (kept : ∀ s a, Inv s → ok s a → Inv (step s a)) (imp : ∀ s a, Inv s → ok s a → strong s a)
    {s : S} {acts : List A} (start : Inv s) (h : Meets step ok s acts) :
    Meets step strong s acts := by
  induction acts generalizing s with
  | nil => trivial
  | cons a acts ih => exact ⟨imp s a start h.1, ih (kept s a start h.1) h.2⟩

theorem Meets.and {step : S → A → S} {ok other : S → A → Prop} {s : S} {acts : List A}
    (h : Meets step ok s acts) (k : Meets step other s acts) :
    Meets step (fun s a => ok s a ∧ other s a) s acts := by
  induction acts generalizing s with
  | nil => trivial
  | cons a acts ih => exact ⟨⟨h.1, k.1⟩, ih h.2 k.2⟩

theorem meets_of_forall {step : S → A → S} {p : A → Prop} {s : S} {acts : List A}
    (h : ∀ a ∈ acts, p a) : Meets step (fun _ => p) s acts := by
  induction acts generalizing s with
  | nil => trivial
  | cons a acts ih =>
    exact ⟨h a List.mem_cons_self, ih fun b mem => h b (List.mem_cons_of_mem _ mem)⟩

/-- What the steps of a run put out, in order. -/
def outputs {B : Type w} (step : S → A → S) (out : S → A → List B) : S → List A → List B
  | _, [] => []
  | s, a :: acts => out s a ++ outputs step out (step s a) acts

/-- All outputs have a property when every step's have it. -/
theorem forall_outputs {B : Type w} {step : S → A → S} {out : S → A → List B} {p : B → Prop}
    {s : S} {acts : List A} :
    (∀ b ∈ outputs step out s acts, p b) ↔ Meets step (fun s a => ∀ b ∈ out s a, p b) s acts := by
  induction acts generalizing s with
  | nil => simp [outputs, Meets]
  | cons a acts ih => rw [outputs, List.forall_mem_append, ih, Meets]

/-- A property kept by every step that meets the condition holds after the run. -/
theorem exec_invariant {step : S → A → S} {ok : S → A → Prop} {Inv : S → Prop}
    (kept : ∀ s a, Inv s → ok s a → Inv (step s a)) {s : S} {acts : List A}
    (start : Inv s) (h : Meets step ok s acts) : Inv (exec step s acts) := by
  induction acts generalizing s with
  | nil => exact start
  | cons a acts ih => exact ih (kept s a start h.1) h.2

/-- The unconditional form: a property kept by every step holds after every run. -/
theorem exec_keeps {step : S → A → S} {Inv : S → Prop}
    (kept : ∀ s a, Inv s → Inv (step s a)) {s : S} (start : Inv s) (acts : List A) :
    Inv (exec step s acts) := by
  induction acts generalizing s with
  | nil => exact start
  | cons a acts ih => exact ih (kept s a start)

/-- A property of the state and of the actions so far, kept by appending a step. -/
theorem exec_history {step : S → A → S} {ok : S → A → Prop} {s : S}
    {Inv : List A → S → Prop}
    (kept : ∀ past t a, Inv past t → ok t a → Inv (past ++ [a]) (step t a))
    (start : Inv [] s) {acts : List A} (h : Meets step ok s acts) :
    Inv acts (exec step s acts) := by
  induction acts using List.reverseRecOn with
  | nil => exact start
  | append_singleton acts a ih =>
    have parts := meets_append.mp h
    have last : ok (exec step s acts) a := parts.2.1
    simpa using kept acts _ a (ih parts.1) last

/-- A condition holds at every step exactly when it holds after every prefix. -/
theorem meets_iff_prefixes {step : S → A → S} {ok : S → A → Prop} {s : S} {acts : List A} :
    Meets step ok s acts ↔
      ∀ past a rest, acts = past ++ a :: rest → ok (exec step s past) a := by
  constructor
  · rintro h past a rest rfl
    exact (meets_append.mp h).2.1
  · induction acts generalizing s with
    | nil => exact fun _ => trivial
    | cons a acts ih =>
      intro h
      refine ⟨h [] a acts rfl, ih ?_⟩
      intro past b rest he
      exact h (a :: past) b rest (by rw [he]; rfl)

/-- Conditions that agree under an invariant hold along the same runs. -/
theorem meets_iff_of_invariant {step : S → A → S} {ok other : S → A → Prop} {Inv : S → Prop}
    (kept : ∀ s a, Inv s → Inv (step s a)) (same : ∀ s a, Inv s → (ok s a ↔ other s a))
    {s : S} (start : Inv s) (acts : List A) : Meets step ok s acts ↔ Meets step other s acts := by
  induction acts generalizing s with
  | nil => exact Iff.rfl
  | cons a acts ih => exact and_congr (same s a start) (ih (kept s a start))

/-- A property that a step keeps exactly under a condition holds in every state that a run
reaches exactly when every step meets the condition. -/
theorem holds_iff_meets {step : S → A → S} {ok : S → A → Prop} {Inv : S → Prop}
    (kept : ∀ s a, Inv s → (Inv (step s a) ↔ ok s a)) {s : S} (start : Inv s) (acts : List A) :
    (∀ past rest, past ++ rest = acts → Inv (exec step s past)) ↔ Meets step ok s acts := by
  constructor
  · intro h
    refine meets_iff_prefixes.mpr ?_
    rintro past a rest rfl
    refine (kept _ a (h past (a :: rest) rfl)).mp ?_
    simpa using h (past ++ [a]) rest (by simp)
  · rintro h past rest rfl
    exact exec_invariant (fun t a inv met => (kept t a inv).mpr met) start (meets_append.mp h).1

/-- The same of a weaker property, which a step that breaks the condition always loses. -/
theorem follows_iff_meets {step : S → A → S} {ok : S → A → Prop} {Inv Weak : S → Prop}
    (weak : ∀ s, Inv s → Weak s) (kept : ∀ s a, Inv s → ok s a → Inv (step s a))
    (lost : ∀ s a, Inv s → Weak (step s a) → ok s a) {s : S} (start : Inv s) (acts : List A) :
    (∀ past rest, past ++ rest = acts → Weak (exec step s past)) ↔ Meets step ok s acts := by
  constructor
  · induction acts generalizing s with
    | nil => exact fun _ => trivial
    | cons a acts ih =>
      intro h
      have first : ok s a := lost s a start (h [a] acts rfl)
      refine ⟨first, ih (kept s a start first) ?_⟩
      intro past rest split
      exact h (a :: past) rest (congrArg (a :: ·) split)
  · rintro h past rest rfl
    exact weak _ (exec_invariant kept start (meets_append.mp h).1)

theorem exec_grows {step : S → A → S} {f : S → Nat} (grows : ∀ s a, f s ≤ f (step s a)) (s : S)
    (acts : List A) : f s ≤ f (exec step s acts) := by
  induction acts generalizing s with
  | nil => exact Nat.le_refl _
  | cons a acts ih => exact Nat.le_trans (grows s a) (ih (step s a))

/-- A number that no step lowers and that a run leaves alone is left alone by every step. -/
theorem meets_of_flat {step : S → A → S} {f : S → Nat} (grows : ∀ s a, f s ≤ f (step s a)) {s : S}
    {acts : List A} (flat : f (exec step s acts) = f s) :
    Meets step (fun s a => f (step s a) = f s) s acts := by
  induction acts generalizing s with
  | nil => trivial
  | cons a acts ih =>
    have first := grows s a
    have rest := exec_grows grows (step s a) acts
    rw [exec_cons] at flat
    exact ⟨by omega, ih (by omega)⟩

end GuardedRuns

import Mathlib.Data.List.Induction
import Mathlib.Data.List.Pairwise
import Mathlib.Order.Compare

/-!
# The greatest element of a list under a comparison

The scan keeps the later of two elements that compare equal. A greatest element
does not depend on elements it was not compared with, so two lists that contain
each other's greatest element agree on it whenever the comparison is lawful.
-/

namespace BestElement

universe u

variable {A : Type u} {cmp : A → A → Ordering}

def better (cmp : A → A → Ordering) (best x : A) : A :=
  if cmp best x = .gt then best else x

def maxBy (cmp : A → A → Ordering) : List A → Option A
  | [] => none
  | a :: rest => some (rest.foldl (better cmp) a)

/-- Nothing in the list beats the element. -/
def Dominates (cmp : A → A → Ordering) (m : A) (l : List A) : Prop :=
  ∀ x ∈ l, (cmp x m).isLE = true

theorem better_eq (cmp : A → A → Ordering) (a x : A) :
    better cmp a x = a ∨ better cmp a x = x := by
  rw [better]
  split
  · exact .inl rfl
  · exact .inr rfl

theorem isLE_self [Std.TransCmp cmp] (a : A) : (cmp a a).isLE = true := by
  have h : cmp a a = .eq := Std.ReflCmp.compare_self
  rw [h]
  rfl

theorem isLE_better_left [Std.TransCmp cmp] (a x : A) : (cmp a (better cmp a x)).isLE = true := by
  rw [better]
  split
  · exact isLE_self a
  · rename_i h
    cases hax : cmp a x with
    | lt => rfl
    | eq => rfl
    | gt => exact False.elim (h hax)

theorem isLE_better_right [Std.TransCmp cmp] (a x : A) : (cmp x (better cmp a x)).isLE = true := by
  rw [better]
  split
  · rename_i h
    rw [Std.OrientedCmp.lt_of_gt h]
    rfl
  · exact isLE_self x

theorem foldl_better_mem (l : List A) (a : A) : l.foldl (better cmp) a ∈ a :: l := by
  induction l generalizing a with
  | nil => exact List.mem_cons_self
  | cons x rest ih =>
    have h := ih (better cmp a x)
    rcases List.mem_cons.mp h with he | hr
    · rw [List.foldl_cons, he]
      rcases better_eq cmp a x with hb | hb
      · rw [hb]
        exact List.mem_cons_self
      · rw [hb]
        exact List.mem_cons_of_mem _ List.mem_cons_self
    · exact List.mem_cons_of_mem _ (List.mem_cons_of_mem _ hr)

theorem foldl_better_dominates [Std.TransCmp cmp] (l : List A) (a : A) :
    Dominates cmp (l.foldl (better cmp) a) (a :: l) := by
  induction l generalizing a with
  | nil =>
    intro x hx
    rw [List.mem_singleton.mp hx]
    exact isLE_self a
  | cons y rest ih =>
    have top := ih (better cmp a y)
    have hb := top _ List.mem_cons_self
    intro x hx
    rcases List.mem_cons.mp hx with rfl | hx
    · exact Std.TransCmp.isLE_trans (isLE_better_left x y) hb
    · rcases List.mem_cons.mp hx with rfl | hx
      · exact Std.TransCmp.isLE_trans (isLE_better_right a x) hb
      · exact top x (List.mem_cons_of_mem _ hx)

theorem maxBy_mem {l : List A} {m : A} (h : maxBy cmp l = some m) : m ∈ l := by
  cases l with
  | nil => cases h
  | cons a rest =>
    obtain rfl := Option.some.inj h
    exact foldl_better_mem rest a

theorem maxBy_dominates [Std.TransCmp cmp] {l : List A} {m : A} (h : maxBy cmp l = some m) :
    Dominates cmp m l := by
  cases l with
  | nil => cases h
  | cons a rest =>
    obtain rfl := Option.some.inj h
    exact foldl_better_dominates rest a

/-- Two lists whose greatest elements occur in each other agree on them. -/
theorem maxBy_agree [Std.TransCmp cmp] [Std.LawfulEqCmp cmp] {l l' : List A} {m m' : A}
    (h : maxBy cmp l = some m) (h' : maxBy cmp l' = some m') (hm : m ∈ l') (hm' : m' ∈ l) :
    m = m' := by
  have hle := maxBy_dominates h' m hm
  have hge := maxBy_dominates h m' hm'
  exact Std.LawfulEqCmp.eq_of_compare (Std.OrientedCmp.isLE_antisymm hle hge)

/-- The other scan: it keeps the earlier of two elements with the same key. -/
def pickFirst (key : A → Int) (best : Option A) (x : A) : Option A :=
  match best with
  | none => some x
  | some b => if key b < key x then some x else some b

/-- What the scan keeps was kept before or is new. -/
theorem pickFirst_from {key : A → Int} {best : Option A} {x m : A}
    (found : pickFirst key best x = some m) : best = some m ∨ m = x := by
  cases best with
  | none => exact .inr (Option.some.inj found).symm
  | some b =>
    rw [pickFirst] at found
    split at found
    · exact .inr (Option.some.inj found).symm
    · exact .inl found

/-- The first element with the greatest key. -/
def FirstMax (key : A → Int) (l : List A) (m : A) : Prop :=
  ∃ before after, l = before ++ m :: after ∧ (∀ x ∈ before, key x < key m) ∧
    ∀ x ∈ after, key x ≤ key m

theorem FirstMax.greatest {key : A → Int} {l : List A} {m : A} (h : FirstMax key l m) :
    ∀ x ∈ l, key x ≤ key m := by
  obtain ⟨before, after, rfl, below, least⟩ := h
  intro x mem
  rcases List.mem_append.mp mem with mem | mem
  · exact Int.le_of_lt (below x mem)
  · rcases List.mem_cons.mp mem with rfl | mem
    · exact Int.le_refl _
    · exact least x mem

theorem firstMax_append {key : A → Int} {l : List A} {m x : A} (h : FirstMax key l m) :
    ∃ m', pickFirst key (some m) x = some m' ∧ FirstMax key (l ++ [x]) m' := by
  rw [pickFirst]
  by_cases beaten : key m < key x
  · refine ⟨x, if_pos beaten, l, [], rfl, ?_, nofun⟩
    intro y mem
    exact Int.lt_of_le_of_lt (h.greatest y mem) beaten
  · obtain ⟨before, after, rfl, below, least⟩ := h
    refine ⟨m, if_neg beaten, before, after ++ [x], by simp, below, ?_⟩
    intro y mem
    rcases List.mem_append.mp mem with mem | mem
    · exact least y mem
    · rw [List.mem_singleton.mp mem]
      exact Int.not_lt.mp beaten

theorem foldl_pickFirst (key : A → Int) (l : List A) :
    (l = [] ∧ l.foldl (pickFirst key) none = none) ∨
      ∃ m, l.foldl (pickFirst key) none = some m ∧ FirstMax key l m := by
  induction l using List.reverseRecOn with
  | nil => exact .inl ⟨rfl, rfl⟩
  | append_singleton l x ih =>
    rw [List.foldl_append]
    right
    rcases ih with ⟨rfl, empty⟩ | ⟨m, scanned, first⟩
    · exact ⟨x, rfl, [], [], rfl, nofun, nofun⟩
    · rw [scanned]
      exact firstMax_append first

end BestElement

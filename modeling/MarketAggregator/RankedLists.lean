import Mathlib.Data.List.Count
import Mathlib.Data.List.Pairwise
import Mathlib.Data.Set.Card

/-!
# The first elements of a list by rank

The rank of an element is how many elements of a list precede it. It does not depend on the
order of the list, and the first elements of an ordered list are those of small rank.
-/

namespace RankedLists

universe u

variable {α : Type u} (R : α → α → Prop) [DecidableRel R]

def rank (l : List α) (a : α) : Nat := l.countP (fun b => R b a)

/-- The elements with fewer than `n` before them. -/
def Top (n : Nat) (l : List α) (a : α) : Prop := a ∈ l ∧ rank R l a < n

variable {R} {l m : List α} {a b : α} {n : Nat}

theorem rank_perm (same : l.Perm m) (a : α) : rank R l a = rank R m a := same.countP_eq _

theorem top_perm (same : l.Perm m) : Top R n l a ↔ Top R n m a := by
  rw [Top, Top, rank_perm same, same.mem_iff]

theorem rank_zero (none : ∀ b ∈ l, ¬ R b a) : rank R l a = 0 :=
  List.countP_eq_zero.mpr fun b mem => by simpa using none b mem

theorem rank_cons_of_before (before : R b a) : rank R (b :: l) a = rank R l a + 1 := by
  rw [rank, List.countP_cons_of_pos (by simpa using before), rank]

theorem mem_take_iff (asymm : ∀ a b, R a b → ¬ R b a) (sorted : l.Pairwise R) :
    a ∈ l.take n ↔ Top R n l a := by
  induction l generalizing n with
  | nil => simp [Top]
  | cons first rest ih =>
    obtain ⟨before, sorted⟩ := List.pairwise_cons.mp sorted
    have irrefl : ¬ R first first := fun h => asymm first first h h
    cases n with
    | zero => simp [Top]
    | succ n =>
      rw [List.take_succ_cons, List.mem_cons, ih sorted]
      constructor
      · rintro (rfl | ⟨mem, small⟩)
        · refine ⟨List.mem_cons_self, ?_⟩
          have none : ∀ b ∈ a :: rest, ¬ R b a := by
            intro b mem
            rcases List.mem_cons.mp mem with rfl | mem
            · exact irrefl
            · exact asymm a b (before b mem)
          rw [rank_zero none]
          omega
        · refine ⟨List.mem_cons_of_mem _ mem, ?_⟩
          rw [rank_cons_of_before (before a mem)]
          omega
      · rintro ⟨mem, small⟩
        rcases List.mem_cons.mp mem with rfl | mem
        · exact .inl rfl
        · rw [rank_cons_of_before (before a mem)] at small
          exact .inr ⟨mem, by omega⟩

omit [DecidableRel R] in
theorem nodup_of_asymm (asymm : ∀ a b, R a b → ¬ R b a) (sorted : l.Pairwise R) : l.Nodup := by
  refine sorted.imp ?_
  rintro a b before rfl
  exact asymm a a before before

/-- In a list without repetition the rank is the number of elements before. -/
theorem ncard_before (distinct : l.Nodup) (a : α) : {b | b ∈ l ∧ R b a}.ncard = rank R l a := by
  classical
  have same : {b | b ∈ l ∧ R b a} = ((l.filter (fun b => R b a)).toFinset : Set α) := by
    ext b
    simp
  rw [same, Set.ncard_coe_finset, List.toFinset_card_of_nodup (distinct.filter _), rank,
    List.countP_eq_length_filter]

/-- Before by a number. -/
def Ahead (key : α → Int) (a b : α) : Prop := key a < key b

instance (key : α → Int) : DecidableRel (Ahead key) := fun a b =>
  inferInstanceAs (Decidable (key a < key b))

section Keys

variable {key : α → Int}

theorem ahead_asymm (a b : α) (h : Ahead key a b) : ¬ Ahead key b a := Int.lt_asymm h

theorem ahead_nodup (sorted : l.Pairwise (Ahead key)) : l.Nodup :=
  nodup_of_asymm ahead_asymm sorted

theorem eq_of_key (sorted : l.Pairwise (Ahead key)) (here : a ∈ l) (there : b ∈ l)
    (same : key a = key b) : a = b := by
  have apart : l.Pairwise (fun x y => key x ≠ key y) := sorted.imp Int.ne_of_lt
  have symm : Std.Symm (fun x y => key x ≠ key y) := ⟨fun _ _ => Ne.symm⟩
  by_contra other
  exact apart.forall here there other same

/-- What is before a first element is among the first. -/
theorem mem_take_of_ahead (sorted : l.Pairwise (Ahead key)) (first : a ∈ l.take n) (mem : b ∈ l)
    (before : Ahead key b a) : b ∈ l.take n := by
  rw [← List.take_append_drop n l] at sorted mem
  rcases List.mem_append.mp mem with mem | mem
  · exact mem
  · have after := (List.pairwise_append.mp sorted).2.2 a first b mem
    exact False.elim (ahead_asymm a b after before)

/-- A list that has the first elements of another, and no key that the other lacks, has the same
first elements. -/
theorem take_of_covers (sorted : l.Pairwise (Ahead key)) (ordered : m.Pairwise (Ahead key))
    (covers : ∀ a ∈ l.take n, a ∈ m) (known : ∀ b ∈ m, ∃ a ∈ l, key a = key b) :
    m.take n = l.take n := by
  have irrefl : Std.Irrefl (Ahead key) := ⟨fun a => Int.lt_irrefl (key a)⟩
  have antisymm : Std.Antisymm (Ahead key) :=
    ⟨fun a b before after => False.elim (ahead_asymm a b before after)⟩
  have forward : ∀ a ∈ l.take n, a ∈ m.take n := by
    intro a first
    obtain ⟨_, small⟩ := (mem_take_iff ahead_asymm sorted).mp first
    refine (mem_take_iff ahead_asymm ordered).mpr ⟨covers a first, ?_⟩
    have fewer : m.filter (fun b => Ahead key b a) ⊆ l.filter (fun b => Ahead key b a) := by
      intro b mem
      obtain ⟨listed, before⟩ := List.mem_filter.mp mem
      obtain ⟨c, there, same⟩ := known b listed
      have ahead : Ahead key c a := by
        rw [Ahead, same]
        exact of_decide_eq_true before
      have among := mem_take_of_ahead sorted first there ahead
      obtain rfl := eq_of_key ordered (covers c among) listed same
      exact List.mem_filter.mpr ⟨there, before⟩
    have shorter := (((ahead_nodup ordered).filter _).subperm fewer).length_le
    rw [RankedLists.rank, List.countP_eq_length_filter] at small ⊢
    omega
  refine List.Pairwise.eq_of_mem_iff (ordered.sublist (List.take_sublist n m))
    (sorted.sublist (List.take_sublist n l)) fun b => ⟨?_, forward b⟩
  intro first
  obtain ⟨listed, small⟩ := (mem_take_iff ahead_asymm ordered).mp first
  obtain ⟨a, there, same⟩ := known b listed
  by_cases among : a ∈ l.take n
  · obtain rfl := eq_of_key ordered (covers a among) listed same
    exact among
  · exfalso
    -- All of the first elements of the other list are before it.
    have many : n ≤ RankedLists.rank (Ahead key) l a := by
      by_contra less
      exact among ((mem_take_iff ahead_asymm sorted).mpr ⟨there, Nat.lt_of_not_le less⟩)
    have whole : (l.take n).length = n := by
      rw [List.length_take]
      exact Nat.min_eq_left (Nat.le_trans many List.countP_le_length)
    have ahead : l.take n ⊆ m.filter (fun c => Ahead key c b) := by
      intro c early
      refine List.mem_filter.mpr ⟨covers c early, decide_eq_true ?_⟩
      rw [← List.take_append_drop n l] at sorted there
      rcases List.mem_append.mp there with there | there
      · exact False.elim (among there)
      · have before := (List.pairwise_append.mp sorted).2.2 c early a there
        rw [Ahead, ← same]
        exact before
    have longer := (((ahead_nodup sorted).sublist (List.take_sublist n l)).subperm ahead).length_le
    rw [RankedLists.rank, List.countP_eq_length_filter] at small
    omega

end Keys

end RankedLists

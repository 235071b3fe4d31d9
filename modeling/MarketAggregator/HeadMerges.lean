import MarketAggregator.Interleavings
import Mathlib.Data.List.Chain
import Mathlib.Data.Prod.Lex
import Mathlib.Order.MinMax

/-!
# Merges by the least head

A merge takes the head with the least key, and of several the one of the first list. Lists
that are not in the order of their keys are merged too. What comes out is in the order of
the greatest key that an element's own list has had by then, its peak.
-/

namespace HeadMerges

open Interleavings

universe u v w

variable {T : Type u} {S : Type v} {K : Type w} [LinearOrder K]

inductive Merged (key : T → K) : List (List T) → List T → Prop where
  | done {ls : List (List T)} (empty : ∀ l ∈ ls, l = []) : Merged key ls []
  | take {ls : List (List T)} {i : Nat} {a : T} {rest out : List T}
      (head : ls[i]? = some (a :: rest))
      (least : ∀ (j : Nat) (b : T) (more : List T), ls[j]? = some (b :: more) →
        toLex (key a, i) ≤ toLex (key b, j))
      (tail : Merged key (ls.set i rest) out) : Merged key ls (a :: out)

section Merges

variable {key peak : T → K} {home : T → Nat} {ls : List (List T)} {out l rest : List T}
  {bound : Option (K ×ₗ Nat)} {i j : Nat} {a b : T}

theorem Merged.interleaved (h : Merged key ls out) : Interleaved ls out := by
  induction h with
  | done empty => exact .done empty
  | take head _ _ ih => exact .take head ih

/-- Labels on the lists carry over to the merge. -/
theorem Merged.lift {f : S → T} {labelled : List (List S)}
    (h : Merged key (labelled.map (List.map f)) out) :
    ∃ labels, Merged (fun s => key (f s)) labelled labels ∧ labels.map f = out := by
  generalize plain : labelled.map (List.map f) = ls at h
  induction h generalizing labelled with
  | done empty =>
    refine ⟨[], .done fun l mem => ?_, rfl⟩
    exact List.map_eq_nil_iff.mp (empty _ (plain ▸ List.mem_map_of_mem mem))
  | @take ls i a rest out head least _ ih =>
    have first := head
    rw [← plain, List.getElem?_map] at first
    obtain ⟨l, own, shape⟩ := Option.map_eq_some_iff.mp first
    obtain ⟨b, more, rfl, rfl, rfl⟩ := List.map_eq_cons_iff.mp shape
    have left : (labelled.set i more).map (List.map f) = ls.set i (more.map f) := by
      rw [← plain, List.map_set]
    obtain ⟨labels, tail, same⟩ := ih left
    refine ⟨b :: labels, .take own ?_ tail, by rw [List.map_cons, same]⟩
    intro j c others there
    refine least j (f c) (others.map f) ?_
    rw [← plain, List.getElem?_map, there]
    rfl

variable (key peak home) in
/-- What a list can still give after the element with the rank `bound`. -/
structure Lane (bound : Option (K ×ₗ Nat)) (j : Nat) (l : List T) : Prop where
  homes : ∀ a ∈ l, home a = j
  below : ∀ a ∈ l, key a ≤ peak a
  climbs : l.IsChain (fun a b => peak b = max (peak a) (key b))
  above : ∀ p, bound = some p → ∀ a ∈ l, p ≤ toLex (peak a, j)
  head : ∀ a, l.head? = some a → peak a = key a ∨ bound = some (toLex (peak a, j))

theorem peak_climbs (climbs : (a :: l).IsChain (fun a b => peak b = max (peak a) (key b)))
    (mem : b ∈ l) : peak a ≤ peak b := by
  induction l generalizing a with
  | nil => cases mem
  | cons c l ih =>
    obtain ⟨next, climbs⟩ := List.isChain_cons_cons.mp climbs
    have up : peak a ≤ peak c := by
      rw [next]
      exact le_max_left _ _
    rcases List.mem_cons.mp mem with rfl | mem
    · exact up
    · exact up.trans (ih climbs mem)

/-- No element of another list comes before the least head. -/
theorem Lane.rank_le (own : Lane key peak home bound i (a :: rest))
    (other : Lane key peak home bound j l)
    (least : ∀ b, l.head? = some b → toLex (key a, i) ≤ toLex (key b, j)) :
    ∀ b ∈ l, toLex (peak a, i) ≤ toLex (peak b, j) := by
  intro b mem
  rcases own.head a rfl with low | last
  · cases l with
    | nil => cases mem
    | cons c l =>
      have climb : peak c ≤ peak b := by
        rcases List.mem_cons.mp mem with rfl | mem
        · exact le_rfl
        · exact peak_climbs other.climbs mem
      have first := least c rfl
      have below := (other.below c List.mem_cons_self).trans climb
      rw [Prod.Lex.toLex_le_toLex] at first ⊢
      rw [low]
      rcases first with first | ⟨same, order⟩
      · exact .inl (first.trans_le below)
      · rcases (same.le.trans below).lt_or_eq with less | equal
        · exact .inl less
        · exact .inr ⟨equal, order⟩
  · exact other.above _ last b mem

/-- The rest of a list after its head was taken. -/
theorem Lane.tail (own : Lane key peak home bound i (a :: rest)) :
    Lane key peak home (some (toLex (peak a, i))) i rest where
  homes := fun b mem => own.homes b (List.mem_cons_of_mem a mem)
  below := fun b mem => own.below b (List.mem_cons_of_mem a mem)
  climbs := own.climbs.tail
  above := by
    rintro _ ⟨⟩ b mem
    refine Prod.Lex.toLex_le_toLex.mpr ?_
    rcases (peak_climbs own.climbs mem).lt_or_eq with less | equal
    · exact .inl less
    · exact .inr ⟨equal, le_rfl⟩
  head := by
    intro b first
    obtain ⟨more, rfl⟩ := List.head?_eq_some_iff.mp first
    have next := (List.isChain_cons_cons.mp own.climbs).1
    rcases max_choice (peak a) (key b) with old | new
    · exact .inr (by rw [next, old])
    · exact .inl (next.trans new)

/-- Another list after a head was taken. -/
theorem Lane.other (own : Lane key peak home bound i (a :: rest))
    (other : Lane key peak home bound j l) (different : i ≠ j)
    (least : ∀ b, l.head? = some b → toLex (key a, i) ≤ toLex (key b, j)) :
    Lane key peak home (some (toLex (peak a, i))) j l where
  homes := other.homes
  below := other.below
  climbs := other.climbs
  above := by
    rintro _ ⟨⟩
    exact own.rank_le other least
  head := by
    intro b first
    rcases other.head b first with low | last
    · exact .inl low
    · -- the last element taken was of list `j`, so no head of list `i` precedes its peak
      have after := own.above _ last a List.mem_cons_self
      have before := own.rank_le other least b (List.mem_of_head? first)
      exact absurd (congrArg (fun p => (ofLex p).2) (le_antisymm before after)) different

theorem Merged.ranked_after (h : Merged key ls out)
    (lanes : ∀ j l, ls[j]? = some l → Lane key peak home bound j l) :
    out.Pairwise (fun a b => toLex (peak a, home a) ≤ toLex (peak b, home b)) := by
  induction h generalizing bound with
  | done => exact .nil
  | @take ls i a rest out head least tail ih =>
    have own := lanes i _ head
    have inside := (List.getElem?_eq_some_iff.mp head).1
    have next : ∀ j l, (ls.set i rest)[j]? = some l →
        Lane key peak home (some (toLex (peak a, i))) j l := by
      intro j l there
      by_cases same : i = j
      · subst same
        rw [List.getElem?_set_self inside] at there
        obtain rfl := Option.some.inj there
        exact own.tail
      · rw [List.getElem?_set_ne same] at there
        refine own.other (lanes j l there) same fun b first => ?_
        obtain ⟨more, rfl⟩ := List.head?_eq_some_iff.mp first
        exact least j b more there
    refine List.pairwise_cons.mpr ⟨fun b mem => ?_, ih next⟩
    obtain ⟨l, on, holds⟩ := List.mem_flatten.mp (tail.interleaved.perm.mem_iff.mp mem)
    obtain ⟨j, at_j⟩ := List.mem_iff_getElem?.mp on
    rw [own.homes a List.mem_cons_self, (next j l at_j).homes b holds]
    exact (next j l at_j).above _ rfl b holds

/-- What is merged comes out in the order of the peaks and then of the lists. -/
theorem Merged.ranked (h : Merged key ls out)
    (lanes : ∀ j l, ls[j]? = some l → Lane key peak home none j l) :
    out.Pairwise (fun a b => toLex (peak a, home a) ≤ toLex (peak b, home b)) :=
  h.ranked_after lanes

/-- In lists that are in the order of their keys every key is its own peak. -/
theorem lane_sorted (homes : ∀ a ∈ l, home a = j) (sorted : l.Pairwise (fun a b => key a ≤ key b)) :
    Lane key key home none j l where
  homes := homes
  below := fun _ _ => le_rfl
  climbs := sorted.isChain.imp fun _ _ order => (max_eq_right order).symm
  above := nofun
  head := fun _ _ => .inl rfl

end Merges

section Peaks

variable {key : T → K} {home : T → Nat} {l : List T} {m p : K} {a : T} {j : Nat}

variable (key) in
def peaksFrom (m : K) : List T → List (K × T)
  | [] => []
  | a :: l => (max m (key a), a) :: peaksFrom (max m (key a)) l

variable (key) in
/-- The elements of a list with the greatest key up to each of them. -/
def peaks : List T → List (K × T)
  | [] => []
  | a :: l => (key a, a) :: peaksFrom key (key a) l

theorem peaksFrom_snd : (peaksFrom key m l).map Prod.snd = l := by
  induction l generalizing m with
  | nil => rfl
  | cons a l ih => rw [peaksFrom, List.map_cons, ih]

theorem peaks_snd : (peaks key l).map Prod.snd = l := by
  cases l with
  | nil => rfl
  | cons a l => rw [peaks, List.map_cons, peaksFrom_snd]

theorem peaksFrom_climbs :
    ((m, a) :: peaksFrom key m l).IsChain (fun a b => b.1 = max a.1 (key b.2)) := by
  induction l generalizing m a with
  | nil => exact .singleton _
  | cons b l ih => exact .cons_cons rfl ih

theorem peaksFrom_below : ∀ x ∈ peaksFrom key m l, key x.2 ≤ x.1 := by
  induction l generalizing m with
  | nil => exact nofun
  | cons a l ih => exact List.forall_mem_cons.mpr ⟨le_max_right _ _, ih⟩

/-- A peak is the greatest key up to its element, and of one of these. -/
theorem peaksFrom_spec (mem : (p, a) ∈ peaksFrom key m l) : ∃ before after,
    l = before ++ a :: after ∧ m ≤ p ∧ (∀ b ∈ before ++ [a], key b ≤ p) ∧
      (p = m ∨ ∃ b ∈ before ++ [a], key b = p) := by
  induction l generalizing m with
  | nil => cases mem
  | cons b l ih =>
    rcases List.mem_cons.mp mem with here | mem
    · obtain ⟨rfl, rfl⟩ := Prod.mk.inj here
      refine ⟨[], l, rfl, le_max_left _ _, ?_, ?_⟩
      · exact List.forall_mem_singleton.mpr (le_max_right _ _)
      · rcases max_choice m (key a) with old | new
        · exact .inl old
        · exact .inr ⟨a, List.mem_singleton.mpr rfl, new.symm⟩
    · obtain ⟨before, after, rfl, high, below, own⟩ := ih mem
      refine ⟨b :: before, after, rfl, (le_max_left _ _).trans high, ?_, ?_⟩
      · exact List.forall_mem_cons.mpr ⟨(le_max_right _ _).trans high, below⟩
      · rcases own with rfl | ⟨c, on, same⟩
        · rcases max_choice m (key b) with old | new
          · exact .inl old
          · exact .inr ⟨b, List.mem_cons_self, new.symm⟩
        · exact .inr ⟨c, List.mem_cons_of_mem b on, same⟩

theorem peaks_spec (mem : (p, a) ∈ peaks key l) : ∃ before after, l = before ++ a :: after ∧
    (∀ b ∈ before ++ [a], key b ≤ p) ∧ ∃ b ∈ before ++ [a], key b = p := by
  cases l with
  | nil => cases mem
  | cons b l =>
    rcases List.mem_cons.mp mem with here | mem
    · obtain ⟨rfl, rfl⟩ := Prod.mk.inj here
      exact ⟨[], l, rfl, List.forall_mem_singleton.mpr le_rfl, a, List.mem_singleton.mpr rfl, rfl⟩
    · obtain ⟨before, after, rfl, high, below, own⟩ := peaksFrom_spec mem
      refine ⟨b :: before, after, rfl, List.forall_mem_cons.mpr ⟨high, below⟩, ?_⟩
      rcases own with rfl | ⟨c, on, same⟩
      · exact ⟨b, List.mem_cons_self, rfl⟩
      · exact ⟨c, List.mem_cons_of_mem b on, same⟩

/-- A list with its peaks is ready to be merged. -/
theorem lane_peaks (homes : ∀ a ∈ l, home a = j) :
    Lane (fun x : K × T => key x.2) Prod.fst (fun x => home x.2) none j (peaks key l) := by
  have homes : ∀ x ∈ peaks key l, home x.2 = j := by
    intro x mem
    have same : (peaks key l).map Prod.snd = l := peaks_snd
    refine homes x.2 ?_
    rw [← same]
    exact List.mem_map_of_mem mem
  cases l with
  | nil => exact ⟨homes, nofun, .nil, nofun, nofun⟩
  | cons a l =>
    refine ⟨homes, List.forall_mem_cons.mpr ⟨le_rfl, peaksFrom_below⟩, peaksFrom_climbs, nofun, ?_⟩
    rintro _ ⟨⟩
    exact .inl rfl

end Peaks

/-- In a list that is in order, what holds of every pair of the order holds along the list. -/
theorem pairwise_iff_of_order {Q R : T → T → Prop} {l : List T} (order : l.Pairwise Q)
    (asymm : ∀ a b, Q a b → ¬ Q b a) :
    l.Pairwise R ↔ ∀ a ∈ l, ∀ b ∈ l, Q a b → R a b := by
  constructor
  · intro pairs
    induction l with
    | nil => exact nofun
    | cons c l ih =>
      obtain ⟨first, order⟩ := List.pairwise_cons.mp order
      obtain ⟨own, pairs⟩ := List.pairwise_cons.mp pairs
      intro a mem b mem' before
      rcases List.mem_cons.mp mem with rfl | inside
      · rcases List.mem_cons.mp mem' with rfl | inside'
        · exact absurd before (asymm _ _ before)
        · exact own b inside'
      · rcases List.mem_cons.mp mem' with rfl | inside'
        · exact absurd before (asymm _ _ (first a inside))
        · exact ih order pairs a inside b inside' before
  · intro all
    refine (List.Pairwise.and_mem.mp order).imp ?_
    rintro a b ⟨mem, mem', before⟩
    exact all a mem b mem' before

end HeadMerges

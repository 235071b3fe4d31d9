import Mathlib.Data.List.Basic
import Mathlib.Data.List.Perm.Basic

/-!
# Lists taken head by head from several lists

An interleaving takes the head of any of its lists until all are empty. It is a
permutation of their concatenation, and what only one of them holds comes out in the
order of that one.
-/

namespace Interleavings

universe u v

variable {T : Type u} {S : Type v} {ls : List (List T)} {out : List T}

inductive Interleaved : List (List T) → List T → Prop where
  | done {ls : List (List T)} (empty : ∀ l ∈ ls, l = []) : Interleaved ls []
  | take {ls : List (List T)} {i : Nat} {a : T} {rest out : List T}
      (head : ls[i]? = some (a :: rest)) (tail : Interleaved (ls.set i rest) out) :
      Interleaved ls (a :: out)

theorem flatten_perm_set {i : Nat} {a : T} {rest : List T} (head : ls[i]? = some (a :: rest)) :
    ls.flatten.Perm (a :: (ls.set i rest).flatten) := by
  induction ls generalizing i with
  | nil => cases head
  | cons l ls ih =>
    cases i with
    | zero =>
      obtain rfl := Option.some.inj head
      exact .refl _
    | succ i =>
      have inner := (ih (i := i) head).append_left l
      exact inner.trans List.perm_middle

theorem Interleaved.perm (h : Interleaved ls out) : out.Perm ls.flatten := by
  induction h with
  | done empty => rw [List.flatten_eq_nil_iff.mpr empty]
  | take head _ ih => exact (ih.cons _).trans (flatten_perm_set head).symm

/-- What no other list holds comes out in the order of its own list. -/
theorem Interleaved.filter {p : T → Bool} {i : Nat} {l : List T} (h : Interleaved ls out)
    (own : ls[i]? = some l)
    (only : ∀ j m, j ≠ i → ls[j]? = some m → ∀ a ∈ m, p a = false) :
    out.filter p = l.filter p := by
  induction h generalizing l with
  | done empty =>
    rw [empty l (List.mem_of_getElem? own)]
  | @take ls j a rest out head _ ih =>
    by_cases same : j = i
    · subst same
      obtain rfl := Option.some.inj (own.symm.trans head)
      have next := ih (l := rest) (List.getElem?_set_self (List.getElem?_eq_some_iff.mp head).1)
        (fun k m other there => only k m other (by
          rwa [List.getElem?_set_ne (Ne.symm other)] at there))
      rw [List.filter_cons, List.filter_cons, next]
    · have foreign := only j _ same head a List.mem_cons_self
      have next := ih (l := l) (by rwa [List.getElem?_set_ne same]) (by
        intro k m other there b mem
        by_cases here : j = k
        · subst here
          rw [List.getElem?_set_self (List.getElem?_eq_some_iff.mp head).1] at there
          obtain rfl := Option.some.inj there
          exact only j _ other head b (List.mem_cons_of_mem _ mem)
        · rw [List.getElem?_set_ne here] at there
          exact only k m other there b mem)
      rw [List.filter_cons, foreign, next]
      rfl

/-- Elements of one list come out in its order. -/
theorem Interleaved.within {R : T → T → Prop} {home : T → Nat} (h : Interleaved ls out)
    (ordered : ∀ l ∈ ls, l.Pairwise R) (homes : ∀ j l, ls[j]? = some l → ∀ a ∈ l, home a = j) :
    out.Pairwise (fun a b => home a = home b → R a b) := by
  induction h with
  | done => exact .nil
  | @take ls i a rest out head tail ih =>
    have inside := (List.getElem?_eq_some_iff.mp head).1
    have own := ordered _ (List.mem_of_getElem? head)
    have homes' : ∀ j l, (ls.set i rest)[j]? = some l → ∀ b ∈ l, home b = j := by
      intro j l there b mem
      by_cases same : i = j
      · subst same
        rw [List.getElem?_set_self inside] at there
        obtain rfl := Option.some.inj there
        exact homes i _ head b (List.mem_cons_of_mem a mem)
      · rw [List.getElem?_set_ne same] at there
        exact homes j l there b mem
    have ordered' : ∀ l ∈ ls.set i rest, l.Pairwise R := by
      intro l mem
      rcases List.mem_or_eq_of_mem_set mem with old | rfl
      · exact ordered l old
      · exact own.tail
    refine List.pairwise_cons.mpr ⟨fun b mem same => ?_, ih ordered' homes'⟩
    obtain ⟨l, on, holds⟩ := List.mem_flatten.mp (tail.perm.mem_iff.mp mem)
    obtain ⟨j, at_j⟩ := List.mem_iff_getElem?.mp on
    have here : i = j := by
      rw [← homes i _ head a List.mem_cons_self, same, homes' j l at_j b holds]
    subst here
    rw [List.getElem?_set_self inside] at at_j
    obtain rfl := Option.some.inj at_j
    exact List.rel_of_pairwise_cons own holds

/-- Labels on the lists carry over to the interleaving. -/
theorem Interleaved.lift {f : S → T} {labelled : List (List S)}
    (h : Interleaved (labelled.map (List.map f)) out) :
    ∃ labels, Interleaved labelled labels ∧ labels.map f = out := by
  generalize plain : labelled.map (List.map f) = ls at h
  induction h generalizing labelled with
  | done empty =>
    refine ⟨[], .done fun l mem => ?_, rfl⟩
    exact List.map_eq_nil_iff.mp (empty _ (plain ▸ List.mem_map_of_mem mem))
  | @take ls i a rest out head _ ih =>
    rw [← plain, List.getElem?_map] at head
    obtain ⟨l, own, shape⟩ := Option.map_eq_some_iff.mp head
    obtain ⟨b, more, rfl, rfl, rfl⟩ := List.map_eq_cons_iff.mp shape
    have left : (labelled.set i more).map (List.map f) = ls.set i (more.map f) := by
      rw [← plain, List.map_set]
    obtain ⟨labels, tail, same⟩ := ih left
    exact ⟨b :: labels, .take own tail, by rw [List.map_cons, same]⟩

end Interleavings

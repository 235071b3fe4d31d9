import Mathlib.Data.List.Forall2
import Mathlib.Data.List.Induction
import Mathlib.Data.List.Pairwise
import Mathlib.Order.Compare

/-!
# Maps kept as strictly ordered association lists

A map carries the proof that its keys strictly increase, so two maps with the
same entries are equal. Keys are compared, never tested for identity: a
comparison may equate different keys, and an insertion that meets an equal key
replaces the value and leaves the stored key alone.
-/

namespace OrderedMaps

universe u v w

variable {K : Type u} {V : Type v} {cmp : K → K → Ordering}

/-- Strictly increasing entries under one comparison. -/
structure OrderedMap (K : Type u) (V : Type v) (cmp : K → K → Ordering) where
  entries : List (K × V)
  sorted : entries.Pairwise (fun a b => cmp a.1 b.1 = .lt)

/-- Insertion into an increasing list; an equal key keeps its stored form. -/
def insertEntry (cmp : K → K → Ordering) (k : K) (v : V) : List (K × V) → List (K × V)
  | [] => [(k, v)]
  | e :: rest => match cmp k e.1 with
    | .lt => (k, v) :: e :: rest
    | .eq => (e.1, v) :: rest
    | .gt => e :: insertEntry cmp k v rest

theorem insertEntry_keys [Std.TransCmp cmp] (k : K) (v : V) (l : List (K × V)) (low : K)
    (hk : cmp low k = .lt) (hl : ∀ e ∈ l, cmp low e.1 = .lt) :
    ∀ e ∈ insertEntry cmp k v l, cmp low e.1 = .lt := by
  induction l with
  | nil => simpa [insertEntry] using hk
  | cons e rest ih =>
    have he := hl e List.mem_cons_self
    have hrest : ∀ e ∈ rest, cmp low e.1 = .lt := fun e h => hl e (List.mem_cons_of_mem _ h)
    intro x hx
    rw [insertEntry] at hx
    split at hx
    · rcases List.mem_cons.mp hx with rfl | hx
      · exact hk
      · exact hl x hx
    · rcases List.mem_cons.mp hx with rfl | hx
      · exact he
      · exact hrest x hx
    · rcases List.mem_cons.mp hx with rfl | hx
      · exact he
      · exact ih hrest x hx

theorem insertEntry_sorted [Std.TransCmp cmp] (k : K) (v : V) (l : List (K × V))
    (h : l.Pairwise (fun a b => cmp a.1 b.1 = .lt)) :
    (insertEntry cmp k v l).Pairwise (fun a b => cmp a.1 b.1 = .lt) := by
  induction l with
  | nil => simp [insertEntry]
  | cons e rest ih =>
    obtain ⟨he, hrest⟩ := List.pairwise_cons.mp h
    rw [insertEntry]
    split
    · rename_i hlt
      refine List.pairwise_cons.mpr ⟨?_, h⟩
      intro x hx
      rcases List.mem_cons.mp hx with rfl | hx
      · exact hlt
      · exact Std.TransCmp.lt_trans hlt (he x hx)
    · exact List.pairwise_cons.mpr ⟨he, hrest⟩
    · rename_i hgt
      exact List.pairwise_cons.mpr
        ⟨insertEntry_keys k v rest e.1 (Std.OrientedCmp.lt_of_gt hgt) he, ih hrest⟩

namespace OrderedMap

@[ext] theorem ext {m n : OrderedMap K V cmp} (h : m.entries = n.entries) : m = n := by
  cases m
  cases n
  cases h
  rfl

instance [DecidableEq K] [DecidableEq V] : DecidableEq (OrderedMap K V cmp) := fun m n =>
  decidable_of_iff (m.entries = n.entries) ⟨ext, fun h => h ▸ rfl⟩

def empty : OrderedMap K V cmp := ⟨[], .nil⟩

def insert [Std.TransCmp cmp] (m : OrderedMap K V cmp) (k : K) (v : V) : OrderedMap K V cmp :=
  ⟨insertEntry cmp k v m.entries, insertEntry_sorted k v m.entries m.sorted⟩

def remove (m : OrderedMap K V cmp) (k : K) : OrderedMap K V cmp :=
  ⟨m.entries.filter (fun e => cmp k e.1 != .eq), m.sorted.sublist List.filter_sublist⟩

def find? (m : OrderedMap K V cmp) (k : K) : Option V :=
  (m.entries.find? (fun e => cmp k e.1 == .eq)).map Prod.snd

def size (m : OrderedMap K V cmp) : Nat := m.entries.length

def first? (m : OrderedMap K V cmp) : Option (K × V) := m.entries.head?

def last? (m : OrderedMap K V cmp) : Option (K × V) := m.entries.getLast?

/-- Keep the `n` greatest keys. -/
def keepLast (m : OrderedMap K V cmp) (n : Nat) : OrderedMap K V cmp :=
  ⟨m.entries.drop (m.size - n), m.sorted.sublist (List.drop_sublist _ _)⟩

/-- Keep the `n` least keys. -/
def keepFirst (m : OrderedMap K V cmp) (n : Nat) : OrderedMap K V cmp :=
  ⟨m.entries.take n, m.sorted.sublist (List.take_sublist _ _)⟩

/-- The entries whose keys pass a test, in order. -/
def restrict (m : OrderedMap K V cmp) (p : K → Bool) : OrderedMap K V cmp :=
  ⟨m.entries.filter (fun e => p e.1), m.sorted.sublist List.filter_sublist⟩

/-- Every value replaced, under the same keys. -/
def mapValues {W : Type w} (m : OrderedMap K V cmp) (f : K → V → W) : OrderedMap K W cmp :=
  ⟨m.entries.map (fun e => (e.1, f e.1 e.2)), List.pairwise_map.mpr m.sorted⟩

/-- One more value at the end of the list of its key. -/
def push [Std.TransCmp cmp] (m : OrderedMap K (List V) cmp) (entry : K × V) :
    OrderedMap K (List V) cmp :=
  m.insert entry.1 ((m.find? entry.1).getD [] ++ [entry.2])

/-- The values of every key, in the order of the list. -/
def grouped [Std.TransCmp cmp] (l : List (K × V)) : OrderedMap K (List V) cmp :=
  l.foldl push empty

def ofList [Std.TransCmp cmp] (l : List (K × V)) : OrderedMap K V cmp :=
  l.foldl (fun m e => m.insert e.1 e.2) empty

@[simp] theorem entries_empty : (empty : OrderedMap K V cmp).entries = [] := rfl

@[simp] theorem entries_insert [Std.TransCmp cmp] (m : OrderedMap K V cmp) (k : K) (v : V) :
    (m.insert k v).entries = insertEntry cmp k v m.entries := rfl

/-- An insertion adds one entry at most, up to the form of its key. -/
theorem mem_insertEntry_lawful [Std.LawfulEqCmp cmp] {k : K} {v : V} {l : List (K × V)}
    {e : K × V} (h : e ∈ insertEntry cmp k v l) : e = (k, v) ∨ e ∈ l := by
  induction l with
  | nil => exact .inl (List.mem_singleton.mp h)
  | cons first rest ih =>
    rw [insertEntry] at h
    split at h
    · exact List.mem_cons.mp h
    · rename_i heq
      rw [← Std.LawfulEqCmp.eq_of_compare heq] at h
      exact (List.mem_cons.mp h).imp id (List.mem_cons_of_mem _)
    · rcases List.mem_cons.mp h with rfl | h
      · exact .inr List.mem_cons_self
      · exact (ih h).imp id (List.mem_cons_of_mem _)

/-- An insertion adds an entry under the new key or under the equal one that is stored, and the
others stay. -/
theorem mem_insertEntry_cases [Std.TransCmp cmp] {k : K} {v : V} {l : List (K × V)} {e : K × V}
    (sorted : l.Pairwise (fun a b => cmp a.1 b.1 = .lt)) (h : e ∈ insertEntry cmp k v l) :
    e = (k, v) ∨ (∃ s ∈ l, cmp k s.1 = .eq ∧ e = (s.1, v)) ∨ (e ∈ l ∧ cmp k e.1 ≠ .eq) := by
  induction l with
  | nil => exact .inl (List.mem_singleton.mp h)
  | cons first rest ih =>
    obtain ⟨before, sorted⟩ := List.pairwise_cons.mp sorted
    rw [insertEntry] at h
    split at h
    · rename_i lt
      rcases List.mem_cons.mp h with rfl | mem
      · exact .inl rfl
      · refine .inr (.inr ⟨mem, ?_⟩)
        rcases List.mem_cons.mp mem with rfl | later
        · rw [lt]
          decide
        · rw [Std.TransCmp.lt_trans lt (before e later)]
          decide
    · rename_i same
      rcases List.mem_cons.mp h with rfl | later
      · exact .inr (.inl ⟨first, List.mem_cons_self, same, rfl⟩)
      · refine .inr (.inr ⟨List.mem_cons_of_mem _ later, ?_⟩)
        rw [Std.TransCmp.congr_left same, before e later]
        decide
    · rename_i gt
      rcases List.mem_cons.mp h with rfl | later
      · refine .inr (.inr ⟨List.mem_cons_self, ?_⟩)
        rw [gt]
        decide
      · rcases ih sorted later with new | ⟨s, mem, same, stored⟩ | ⟨mem, other⟩
        · exact .inl new
        · exact .inr (.inl ⟨s, List.mem_cons_of_mem _ mem, same, stored⟩)
        · exact .inr (.inr ⟨List.mem_cons_of_mem _ mem, other⟩)

theorem mem_of_ofList [Std.TransCmp cmp] [Std.LawfulEqCmp cmp] {l : List (K × V)} {e : K × V}
    (h : e ∈ (ofList l : OrderedMap K V cmp).entries) : e ∈ l := by
  have general : ∀ m : OrderedMap K V cmp,
      e ∈ (l.foldl (fun m e => m.insert e.1 e.2) m).entries → e ∈ l ∨ e ∈ m.entries := by
    clear h
    induction l with
    | nil => exact fun m h => .inr h
    | cons first rest ih =>
      intro m h
      rcases ih _ h with h | h
      · exact .inl (List.mem_cons_of_mem _ h)
      · rcases mem_insertEntry_lawful h with rfl | h
        · exact .inl List.mem_cons_self
        · exact .inr h
  simpa using general empty h

theorem find?_insertEntry [Std.TransCmp cmp] (k j : K) (v : V) (l : List (K × V)) :
    ((insertEntry cmp k v l).find? (fun e => cmp j e.1 == .eq)).map Prod.snd =
      if cmp j k = .eq then some v
      else (l.find? (fun e => cmp j e.1 == .eq)).map Prod.snd := by
  induction l with
  | nil => by_cases h : cmp j k = .eq <;> simp [insertEntry, h]
  | cons e rest ih =>
    rw [insertEntry]
    split
    · by_cases h : cmp j k = .eq <;> simp [h]
    · rename_i hke
      have he : cmp j k = cmp j e.1 := Std.TransCmp.congr_right hke
      by_cases h : cmp j e.1 = .eq <;> simp [he, h]
    · rename_i hke
      by_cases h : cmp j k = .eq
      · have he : cmp j e.1 = .gt := (Std.TransCmp.congr_left h).trans hke
        simpa [List.find?_cons, he, h] using ih
      · by_cases hj : cmp j e.1 = .eq
        · simp [hj, h]
        · simpa [List.find?_cons, hj, h] using ih

theorem find?_insert [Std.TransCmp cmp] (m : OrderedMap K V cmp) (k j : K) (v : V) :
    (m.insert k v).find? j = if cmp j k = .eq then some v else m.find? j :=
  find?_insertEntry k j v m.entries

theorem find?_filter_other [Std.TransCmp cmp] (k j : K) (l : List (K × V)) :
    (l.filter (fun e => cmp k e.1 != .eq)).find? (fun e => cmp j e.1 == .eq) =
      if cmp j k = .eq then none else l.find? (fun e => cmp j e.1 == .eq) := by
  induction l with
  | nil => simp
  | cons e rest ih =>
    by_cases hk : cmp k e.1 = .eq
    · have same : cmp j k = cmp j e.1 := Std.TransCmp.congr_right hk
      by_cases hj : cmp j e.1 = .eq
      · simpa [List.filter_cons, hk, hj, same] using ih
      · simpa [List.filter_cons, hk, hj, same] using ih
    · by_cases hj : cmp j e.1 = .eq
      · have hne : cmp j k ≠ .eq := fun h =>
          hk ((Std.TransCmp.congr_left h).symm.trans hj)
        simp [hk, hj, hne]
      · simpa [List.filter_cons, hk, hj] using ih

theorem find?_remove [Std.TransCmp cmp] (m : OrderedMap K V cmp) (k j : K) :
    (m.remove k).find? j = if cmp j k = .eq then none else m.find? j := by
  rw [find?, remove]
  rw [find?_filter_other]
  split <;> rfl

theorem find?_mapValues [Std.LawfulEqCmp cmp] {W : Type w} (m : OrderedMap K V cmp)
    (f : K → V → W) (k : K) : (m.mapValues f).find? k = (m.find? k).map (f k) := by
  obtain ⟨entries, sorted⟩ := m
  rw [find?, find?, mapValues]
  dsimp only
  rw [List.find?_map, Option.map_map, Option.map_map]
  cases found : entries.find? (fun e => cmp k e.1 == .eq) with
  | none =>
    have other : entries.find? ((fun e => cmp k e.1 == .eq) ∘ fun e => (e.1, f e.1 e.2)) = none :=
      found
    rw [other]
    rfl
  | some e =>
    have same : cmp k e.1 = .eq := by simpa using List.find?_some found
    obtain rfl := Std.LawfulEqCmp.eq_of_compare same
    have own : entries.find? ((fun x => cmp e.1 x.1 == .eq) ∘ fun x => (x.1, f x.1 x.2)) = some e :=
      found
    rw [own]
    rfl

/-- A group is a sublist, and there is none that is empty. -/
theorem find?_grouped [Std.TransCmp cmp] [Std.LawfulEqCmp cmp] [DecidableEq K]
    (l : List (K × V)) (k : K) : (grouped l : OrderedMap K (List V) cmp).find? k =
      if l.filter (fun e => e.1 = k) = [] then none
      else some ((l.filter (fun e => e.1 = k)).map Prod.snd) := by
  induction l using List.reverseRecOn with
  | nil => rfl
  | append_singleton l e ih =>
    rw [grouped, List.foldl_append, List.foldl_cons, List.foldl_nil, push, find?_insert]
    by_cases own : k = e.1
    · subst own
      have group : (l ++ [e]).filter (fun x => x.1 = e.1) = l.filter (fun x => x.1 = e.1) ++ [e] := by
        simp
      have self : cmp e.1 e.1 = .eq := Std.ReflCmp.compare_self
      rw [if_pos self, group, if_neg (by simp)]
      rw [grouped] at ih
      rw [ih, List.map_append]
      split
      · rename_i empty
        rw [empty]
        rfl
      · rfl
    · have other : cmp k e.1 ≠ .eq := fun same => own (Std.LawfulEqCmp.eq_of_compare same)
      have group : (l ++ [e]).filter (fun x => x.1 = k) = l.filter (fun x => x.1 = k) := by
        have alone : ¬ e.1 = k := fun same => own same.symm
        simp [alone]
      rw [if_neg other, group]
      exact ih

theorem find?_grouped_map {A : Type w} [Std.TransCmp cmp] [Std.LawfulEqCmp cmp] [DecidableEq K]
    (l : List A) (key : A → K) (value : A → V) (k : K) :
    (grouped (l.map (fun a => (key a, value a))) : OrderedMap K (List V) cmp).find? k =
      if l.filter (fun a => key a = k) = [] then none
      else some ((l.filter (fun a => key a = k)).map value) := by
  rw [find?_grouped, List.filter_map, List.map_map]
  simp only [Function.comp_def, List.map_eq_nil_iff]

theorem getD_grouped_map {A : Type w} [Std.TransCmp cmp] [Std.LawfulEqCmp cmp] [DecidableEq K]
    (l : List A) (key : A → K) (value : A → V) (k : K) :
    ((grouped (l.map (fun a => (key a, value a))) : OrderedMap K (List V) cmp).find? k).getD [] =
      (l.filter (fun a => key a = k)).map value := by
  rw [find?_grouped_map]
  split_ifs with none
  · rw [none]
    rfl
  · rfl

theorem mem_remove {m : OrderedMap K V cmp} {k : K} {e : K × V}
    (h : e ∈ (m.remove k).entries) : e ∈ m.entries :=
  (List.mem_filter.mp h).1

theorem mem_keepLast {m : OrderedMap K V cmp} {n : Nat} {e : K × V}
    (h : e ∈ (m.keepLast n).entries) : e ∈ m.entries :=
  List.mem_of_mem_drop h

theorem mem_keepFirst {m : OrderedMap K V cmp} {n : Nat} {e : K × V}
    (h : e ∈ (m.keepFirst n).entries) : e ∈ m.entries :=
  List.mem_of_mem_take h

theorem length_insertEntry_le (k : K) (v : V) (l : List (K × V)) :
    (insertEntry cmp k v l).length ≤ l.length + 1 := by
  induction l with
  | nil => exact Nat.le_refl 1
  | cons e rest ih =>
    rw [insertEntry]
    split
    · exact Nat.le_refl _
    · exact Nat.le_succ _
    · exact Nat.succ_le_succ ih

/-- Equal keys share an entry, so there may be fewer entries than were listed. -/
theorem size_ofList_le [Std.TransCmp cmp] (l : List (K × V)) :
    (ofList l : OrderedMap K V cmp).size ≤ l.length := by
  have general : ∀ m : OrderedMap K V cmp,
      (l.foldl (fun m e => m.insert e.1 e.2) m).size ≤ m.size + l.length := by
    induction l with
    | nil => exact fun m => Nat.le_refl _
    | cons e rest ih =>
      intro m
      have first : (m.insert e.1 e.2).size ≤ m.size + 1 := length_insertEntry_le e.1 e.2 m.entries
      have more := ih (m.insert e.1 e.2)
      rw [List.length_cons, List.foldl_cons]
      omega
  have none : (empty : OrderedMap K V cmp).size = 0 := rfl
  have whole := general empty
  rwa [none, Nat.zero_add] at whole

/-- Two lists of related values under the same keys give related maps. -/
theorem rel_ofList {A : Type w} {W : Type v} [Std.TransCmp cmp] {R : V → W → Prop} (l : List A)
    (key : A → K) {f : A → V} {g : A → W} (related : ∀ a, R (f a) (g a)) (k : K) :
    Option.Rel R ((ofList (l.map (fun a => (key a, f a))) : OrderedMap K V cmp).find? k)
      ((ofList (l.map (fun a => (key a, g a))) : OrderedMap K W cmp).find? k) := by
  have general : ∀ (m : OrderedMap K V cmp) (n : OrderedMap K W cmp),
      (∀ k, Option.Rel R (m.find? k) (n.find? k)) →
      Option.Rel R
        (((l.map (fun a => (key a, f a))).foldl (fun m e => m.insert e.1 e.2) m).find? k)
        (((l.map (fun a => (key a, g a))).foldl (fun m e => m.insert e.1 e.2) n).find? k) := by
    induction l with
    | nil => exact fun m n alike => alike k
    | cons a l ih =>
      intro m n alike
      refine ih _ _ fun j => ?_
      rw [find?_insert, find?_insert]
      split_ifs
      · exact .some (related a)
      · exact alike j
  exact general empty empty fun _ => .none

theorem size_keepLast (m : OrderedMap K V cmp) (n : Nat) : (m.keepLast n).size ≤ n := by
  have dropped : (m.keepLast n).size = m.size - (m.size - n) := List.length_drop
  omega

theorem size_keepFirst (m : OrderedMap K V cmp) (n : Nat) : (m.keepFirst n).size ≤ n := by
  have taken : (m.keepFirst n).size = min n m.size := List.length_take
  omega

theorem find?_mem {m : OrderedMap K V cmp} {k : K} {v : V} (h : m.find? k = some v) :
    ∃ key, (key, v) ∈ m.entries ∧ cmp k key = .eq := by
  obtain ⟨⟨key, w⟩, he, rfl⟩ := Option.map_eq_some_iff.mp h
  refine ⟨key, List.mem_of_find?_eq_some he, ?_⟩
  simpa using List.find?_some he

theorem mem_find? [Std.TransCmp cmp] {m : OrderedMap K V cmp} {k : K} {v : V}
    (h : (k, v) ∈ m.entries) : m.find? k = some v := by
  obtain ⟨entries, sorted⟩ := m
  rw [find?]
  induction entries with
  | nil => cases h
  | cons e rest ih =>
    obtain ⟨he, hrest⟩ := List.pairwise_cons.mp sorted
    rcases List.mem_cons.mp h with rfl | h
    · have same : cmp k k = .eq := Std.ReflCmp.compare_self
      simp [same]
    · have lt := he _ h
      have gt : cmp k e.1 = .gt := Std.OrientedCmp.gt_of_lt lt
      simpa [List.find?_cons, gt] using ih hrest h

theorem isSome_find? {m : OrderedMap K V cmp} {k : K} :
    (m.find? k).isSome = true ↔ ∃ e ∈ m.entries, cmp k e.1 = .eq := by
  rw [find?, Option.isSome_map, List.find?_isSome]
  simp

theorem find?_congr [Std.TransCmp cmp] {m : OrderedMap K V cmp} {j k : K} (same : cmp j k = .eq) :
    m.find? j = m.find? k := by
  have alike : (fun e : K × V => cmp j e.1 == .eq) = fun e => cmp k e.1 == .eq := by
    funext e
    rw [Std.TransCmp.congr_left same]
  rw [find?, find?, alike]

theorem keys_nodup [Std.TransCmp cmp] (m : OrderedMap K V cmp) :
    (m.entries.map Prod.fst).Nodup := by
  refine List.pairwise_map.mpr (m.sorted.imp fun {a b} lt same => ?_)
  have equal : cmp a.1 b.1 = .eq := same ▸ Std.ReflCmp.compare_self
  exact absurd (lt.symm.trans equal) (by decide)

/-- An insertion of a new key adds its entry. -/
theorem insertEntry_perm {k : K} {v : V} {l : List (K × V)} (new : ∀ e ∈ l, cmp k e.1 ≠ .eq) :
    (insertEntry cmp k v l).Perm ((k, v) :: l) := by
  induction l with
  | nil => exact .refl _
  | cons e rest ih =>
    rw [insertEntry]
    split
    · exact .refl _
    · rename_i same
      exact absurd same (new e List.mem_cons_self)
    · have inner := ih fun e mem => new e (List.mem_cons_of_mem _ mem)
      exact (inner.cons e).trans (.swap _ _ _)

/-- A map filled from a list with distinct keys holds exactly the list. -/
theorem ofList_perm [Std.TransCmp cmp] {l : List (K × V)}
    (distinct : l.Pairwise (fun a b => cmp a.1 b.1 ≠ .eq)) :
    (ofList l : OrderedMap K V cmp).entries.Perm l := by
  have general : ∀ m : OrderedMap K V cmp, (∀ a ∈ l, ∀ e ∈ m.entries, cmp a.1 e.1 ≠ .eq) →
      (l.foldl (fun m e => m.insert e.1 e.2) m).entries.Perm (l ++ m.entries) := by
    induction l with
    | nil => exact fun m _ => .refl _
    | cons a rest ih =>
      obtain ⟨apart, distinct⟩ := List.pairwise_cons.mp distinct
      intro m new
      have added : (m.insert a.1 a.2).entries.Perm (a :: m.entries) :=
        insertEntry_perm (new a List.mem_cons_self)
      have later : ∀ b ∈ rest, ∀ e ∈ (m.insert a.1 a.2).entries, cmp b.1 e.1 ≠ .eq := by
        intro b mem e there
        rcases List.mem_cons.mp (added.mem_iff.mp there) with rfl | there
        · exact fun same => apart b mem (Std.OrientedCmp.eq_symm same)
        · exact new b (List.mem_cons_of_mem _ mem) e there
      exact (ih distinct _ later).trans ((added.append_left rest).trans List.perm_middle)
  have filled := general empty fun a _ e mem => absurd mem List.not_mem_nil
  rwa [entries_empty, List.append_nil] at filled

theorem find?_cons_of_ne {k : K} {e : K × V} {rest : List (K × V)} (other : cmp k e.1 ≠ .eq) :
    (e :: rest).find? (fun x => cmp k x.1 == .eq) = rest.find? (fun x => cmp k x.1 == .eq) := by
  rw [List.find?_cons_of_neg (by simpa using other)]

theorem find?_head [Std.ReflCmp cmp] {e : K × V} {rest : List (K × V)} :
    (e :: rest).find? (fun x => cmp e.1 x.1 == .eq) = some e := by
  rw [List.find?_cons_of_pos (by simp [Std.ReflCmp.compare_self])]

/-- A key below all entries is not found. -/
theorem find?_below {k : K} {l : List (K × V)} (below : ∀ e ∈ l, cmp k e.1 = .lt) :
    l.find? (fun x => cmp k x.1 == .eq) = none := by
  refine List.find?_eq_none.mpr ?_
  intro e mem
  simp [below e mem]

/-- The entries of one key are the one that is found. -/
theorem filter_key [Std.TransCmp cmp] [Std.LawfulEqCmp cmp] [DecidableEq K]
    (m : OrderedMap K V cmp) (k : K) :
    m.entries.filter (fun e => e.1 = k) = ((m.find? k).map (fun v => (k, v))).toList := by
  obtain ⟨entries, sorted⟩ := m
  rw [find?]
  induction entries with
  | nil => rfl
  | cons e rest ih =>
    obtain ⟨he, hrest⟩ := List.pairwise_cons.mp sorted
    by_cases own : e.1 = k
    · subst own
      have alone : rest.filter (fun x => x.1 = e.1) = [] := by
        refine List.filter_eq_nil_iff.mpr ?_
        intro x mem same
        have lt := he x mem
        have self : cmp e.1 e.1 = .eq := Std.ReflCmp.compare_self
        rw [of_decide_eq_true same, self] at lt
        cases lt
      rw [find?_head, List.filter_cons_of_pos (by simp), alone]
      rfl
    · have other : cmp k e.1 ≠ .eq := fun same => own (Std.LawfulEqCmp.eq_of_compare same).symm
      rw [find?_cons_of_ne other, List.filter_cons_of_neg (by simpa using own)]
      exact ih hrest

theorem le_head_of_found [Std.TransCmp cmp] {e : K × V} {rest : List (K × V)} {k : K}
    (sorted : (e :: rest).Pairwise (fun a b => cmp a.1 b.1 = .lt))
    (found : ((e :: rest).find? (fun x => cmp k x.1 == .eq)).isSome = true) :
    cmp k e.1 ≠ .lt := by
  intro lt
  have below : ∀ x ∈ e :: rest, cmp k x.1 = .lt := by
    intro x mem
    rcases List.mem_cons.mp mem with rfl | mem
    · exact lt
    · exact Std.TransCmp.lt_trans lt ((List.pairwise_cons.mp sorted).1 x mem)
  rw [find?_below below] at found
  cases found

/-- Lists that answer every key alike are alike entry by entry. -/
theorem forall₂_entries {W : Type w} [Std.TransCmp cmp] [Std.LawfulEqCmp cmp] {R : V → W → Prop}
    {l : List (K × V)} {r : List (K × W)}
    (hl : l.Pairwise (fun a b => cmp a.1 b.1 = .lt)) (hr : r.Pairwise (fun a b => cmp a.1 b.1 = .lt))
    (alike : ∀ k, Option.Rel R ((l.find? (fun x => cmp k x.1 == .eq)).map Prod.snd)
      ((r.find? (fun x => cmp k x.1 == .eq)).map Prod.snd)) :
    List.Forall₂ (fun a b => a.1 = b.1 ∧ R a.2 b.2) l r := by
  induction l generalizing r with
  | nil =>
    cases r with
    | nil => exact .nil
    | cons b r =>
      have first := alike b.1
      rw [find?_head] at first
      cases first
  | cons a l ih =>
    cases r with
    | nil =>
      have first := alike a.1
      rw [find?_head] at first
      cases first
    | cons b r =>
      have first := alike a.1
      have second := alike b.1
      rw [find?_head] at first
      rw [find?_head] at second
      have low : cmp a.1 b.1 ≠ .lt := by
        refine le_head_of_found hr ?_
        cases found : (b :: r).find? (fun x => cmp a.1 x.1 == .eq) with
        | none =>
          rw [found] at first
          cases first
        | some x => rfl
      have high : cmp b.1 a.1 ≠ .lt := by
        refine le_head_of_found hl ?_
        cases found : (a :: l).find? (fun x => cmp b.1 x.1 == .eq) with
        | none =>
          rw [found] at second
          cases second
        | some x => rfl
      have level : cmp a.1 b.1 = .eq := by
        cases order : cmp a.1 b.1 with
        | lt => exact absurd order low
        | gt => exact absurd (Std.OrientedCmp.lt_of_gt order) high
        | eq => rfl
      have same : a.1 = b.1 := Std.LawfulEqCmp.eq_of_compare level
      obtain ⟨hl₁, hl₂⟩ := List.pairwise_cons.mp hl
      obtain ⟨hr₁, hr₂⟩ := List.pairwise_cons.mp hr
      refine .cons ⟨same, ?_⟩ (ih hl₂ hr₂ ?_)
      · rw [same, find?_head] at first
        cases first with
        | some related => exact related
      · intro k
        by_cases own : cmp k a.1 = .eq
        · obtain rfl := Std.LawfulEqCmp.eq_of_compare own
          rw [find?_below hl₁, find?_below (same ▸ hr₁)]
          exact .none
        · have rest := alike k
          rw [find?_cons_of_ne own, find?_cons_of_ne (same ▸ own)] at rest
          exact rest

theorem forall₂_of_find? {W : Type w} [Std.TransCmp cmp] [Std.LawfulEqCmp cmp] {R : V → W → Prop}
    {m : OrderedMap K V cmp} {n : OrderedMap K W cmp}
    (alike : ∀ k, Option.Rel R (m.find? k) (n.find? k)) :
    List.Forall₂ (fun a b => a.1 = b.1 ∧ R a.2 b.2) m.entries n.entries :=
  forall₂_entries m.sorted n.sorted alike

/-- Maps that answer every key alike are equal. -/
theorem eq_of_find? [Std.TransCmp cmp] [Std.LawfulEqCmp cmp] {m n : OrderedMap K V cmp}
    (alike : ∀ k, m.find? k = n.find? k) : m = n := by
  have entries : List.Forall₂ (fun a b => a.1 = b.1 ∧ a.2 = b.2) m.entries n.entries := by
    refine forall₂_of_find? fun k => ?_
    rw [alike k]
    cases n.find? k with
    | none => exact .none
    | some v => exact .some rfl
  refine ext (List.forall₂_eq_eq_eq ▸ entries.imp fun a b same => ?_)
  exact Prod.ext same.1 same.2

section Parts

variable {J : Type w} {small : J → J → Ordering}

/-- Keys embedded among others in their order, and the way back. -/
structure KeyEmbedding (J : Type w) (K : Type u) (small : J → J → Ordering)
    (cmp : K → K → Ordering) where
  embed : J → K
  back : K → Option J
  back_eq_some : ∀ {k j}, back k = some j ↔ embed j = k
  ordered : ∀ i j, cmp (embed i) (embed j) = small i j

/-- The entries with embedded keys, each under its own key. -/
def part (e : KeyEmbedding J K small cmp) (m : OrderedMap K V cmp) : OrderedMap J V small where
  entries := m.entries.filterMap (fun entry => (e.back entry.1).map (fun j => (j, entry.2)))
  sorted := by
    refine List.pairwise_filterMap.mpr (m.sorted.imp fun {a b} less => ?_)
    rintro ⟨i, v⟩ left ⟨j, v'⟩ right
    obtain ⟨i, own, ⟨⟩⟩ := Option.map_eq_some_iff.mp left
    obtain ⟨j, other, ⟨⟩⟩ := Option.map_eq_some_iff.mp right
    rw [← e.ordered, e.back_eq_some.mp own, e.back_eq_some.mp other]
    exact less

variable {e : KeyEmbedding J K small cmp} {m : OrderedMap K V cmp} {j : J} {k : K} {v : V}

theorem mem_part : (j, v) ∈ (m.part e).entries ↔ (e.embed j, v) ∈ m.entries := by
  rw [part, List.mem_filterMap]
  constructor
  · rintro ⟨⟨k, v'⟩, mem, own⟩
    obtain ⟨i, named, ⟨⟩⟩ := Option.map_eq_some_iff.mp own
    rw [e.back_eq_some.mp named]
    exact mem
  · intro mem
    exact ⟨_, mem, Option.map_eq_some_iff.mpr ⟨j, e.back_eq_some.mpr rfl, rfl⟩⟩

variable [Std.TransCmp cmp] [Std.LawfulEqCmp cmp] [Std.TransCmp small] [Std.LawfulEqCmp small]

theorem find?_eq_some : m.find? k = some v ↔ (k, v) ∈ m.entries := by
  constructor
  · intro found
    obtain ⟨key, mem, same⟩ := find?_mem found
    rwa [Std.LawfulEqCmp.eq_of_compare same]
  · exact mem_find?

theorem find?_part : (m.part e).find? j = m.find? (e.embed j) := by
  refine Option.ext fun v => ?_
  rw [find?_eq_some, find?_eq_some, mem_part]

theorem part_insert : (m.insert (e.embed j) v).part e = (m.part e).insert j v := by
  refine eq_of_find? fun i => ?_
  rw [find?_part, find?_insert, find?_insert, find?_part, e.ordered]

theorem part_remove : (m.remove (e.embed j)).part e = (m.part e).remove j := by
  refine eq_of_find? fun i => ?_
  rw [find?_part, find?_remove, find?_remove, find?_part, e.ordered]

/-- An entry under another key is in no part. -/
theorem part_insert_other (other : e.back k = none) : (m.insert k v).part e = m.part e := by
  refine eq_of_find? fun i => ?_
  have apart : cmp (e.embed i) k ≠ .eq := by
    intro same
    rw [e.back_eq_some.mpr (Std.LawfulEqCmp.eq_of_compare same)] at other
    cases other
  rw [find?_part, find?_part, find?_insert, if_neg apart]

theorem part_remove_other (other : e.back k = none) : (m.remove k).part e = m.part e := by
  refine eq_of_find? fun i => ?_
  have apart : cmp (e.embed i) k ≠ .eq := by
    intro same
    rw [e.back_eq_some.mpr (Std.LawfulEqCmp.eq_of_compare same)] at other
    cases other
  rw [find?_part, find?_part, find?_remove, if_neg apart]

end Parts

end OrderedMap

/-- A set of keys is a map to the unit type. -/
abbrev OrderedSet (K : Type u) (cmp : K → K → Ordering) := OrderedMap K Unit cmp

namespace OrderedSet

def members (s : OrderedSet K cmp) : List K := s.entries.map Prod.fst

def ofKeys (cmp : K → K → Ordering) [Std.TransCmp cmp] (l : List K) : OrderedSet K cmp :=
  l.foldl (fun s k => s.insert k ()) OrderedMap.empty

@[simp] theorem members_empty : members (OrderedMap.empty : OrderedSet K cmp) = [] := rfl

theorem mem_insertEntry [Std.LawfulEqCmp cmp] {k j : K} {l : List (K × Unit)} :
    j ∈ (insertEntry cmp k () l).map Prod.fst ↔ j = k ∨ j ∈ l.map Prod.fst := by
  induction l with
  | nil => simp [insertEntry]
  | cons e rest ih =>
    rw [insertEntry]
    split
    · simp
    · rename_i heq
      have he : k = e.1 := Std.LawfulEqCmp.eq_of_compare heq
      simp [he]
    · rw [List.map_cons, List.mem_cons, ih, List.map_cons, List.mem_cons]
      exact or_left_comm

theorem mem_foldl_insert [Std.TransCmp cmp] [Std.LawfulEqCmp cmp] {j : K} (l : List K)
    (s : OrderedSet K cmp) :
    j ∈ members (l.foldl (fun s k => s.insert k ()) s) ↔ j ∈ l ∨ j ∈ members s := by
  induction l generalizing s with
  | nil => simp
  | cons k rest ih =>
    have hk : j ∈ members (s.insert k ()) ↔ j = k ∨ j ∈ members s := mem_insertEntry
    rw [List.foldl_cons, ih, hk, List.mem_cons, or_assoc]
    exact or_left_comm

theorem mem_ofKeys [Std.TransCmp cmp] [Std.LawfulEqCmp cmp] {j : K} {l : List K} :
    j ∈ members (ofKeys cmp l) ↔ j ∈ l := by
  simp [ofKeys, mem_foldl_insert]

/-- A key is found in a set of keys exactly if it equals one of them. -/
theorem isSome_ofKeys [Std.TransCmp cmp] {l : List K} {j : K} :
    ((ofKeys cmp l).find? j).isSome = true ↔ ∃ k ∈ l, cmp j k = .eq := by
  have general : ∀ s : OrderedSet K cmp,
      ((l.foldl (fun s k => s.insert k ()) s).find? j).isSome = true ↔
        (∃ k ∈ l, cmp j k = .eq) ∨ (s.find? j).isSome = true := by
    induction l with
    | nil => simp
    | cons k rest ih =>
      intro s
      rw [List.foldl_cons, ih, OrderedMap.find?_insert]
      by_cases here : cmp j k = .eq
      · simp [here]
      · simp [here]
  have nothing : ((OrderedMap.empty : OrderedSet K cmp).find? j).isSome = false := rfl
  rw [ofKeys, general, nothing]
  simp

theorem members_pairwise (s : OrderedSet K cmp) :
    s.members.Pairwise (fun a b => cmp a b = .lt) :=
  List.pairwise_map.mpr s.sorted

end OrderedSet
end OrderedMaps

import MarketAggregator.DepthAudit
import MarketAggregator.BookInvariants
import MarketAggregator.RankedLists
import Mathlib.Data.List.Infix

/-!
# What a comparison of depths says

Two windows of levels are compared over the prices that both cover. A window is told by its
levels alone: those at or beyond the edge with few enough levels before them. A level that
differs there is a mismatch, and nothing to compare is inconclusive. A book agrees with its
own best levels.
-/

namespace AuditComparison

open BookInvariants Decimals DepthAudit GuardedRuns MarketEvents OrderBook OrderedMaps RankedLists
  VenueStreams

/-- Quantities by value at prices by value. -/
abbrev Window := Int → Int → Prop

/-- The value is in the price range of a window. -/
def Within (w : Window) (u : Int) : Prop :=
  (∃ low q, w low q ∧ low ≤ u) ∧ ∃ high q, w high q ∧ u ≤ high

/-- A value in the range of both windows that one of them holds. -/
def Compared (w z : Window) (u : Int) : Prop :=
  Within w u ∧ Within z u ∧ ((∃ q, w u q) ∨ ∃ q, z u q)

/-- One of them holds a quantity there that the other does not. -/
def Differs (w z : Window) (u : Int) : Prop :=
  Within w u ∧ Within z u ∧ ∃ q, ¬ (w u q ↔ z u q)

/-- A level of a map, by values. -/
def At (m : PriceMap) : Window :=
  fun u q => ∃ e ∈ m.entries, e.1.decimal.units = u ∧ e.2.decimal.units = q

section Maps

variable {m n : PriceMap} {p : Price} {u q : Int}

theorem find?_at {held : Qty} (found : m.find? p = some held) :
    At m p.decimal.units held.decimal.units := by
  obtain ⟨key, mem, same⟩ := OrderedMap.find?_mem found
  exact ⟨(key, held), mem, (Price.cmp_eq.mp same).symm, rfl⟩

theorem at_find? (held : At m p.decimal.units q) :
    ∃ found, m.find? p = some found ∧ found.decimal.units = q := by
  obtain ⟨e, mem, same, rfl⟩ := held
  have alike : Price.cmp p e.1 = .eq := Price.cmp_eq.mpr same.symm
  refine ⟨e.2, ?_, rfl⟩
  rw [OrderedMap.find?_congr alike]
  exact OrderedMap.mem_find? mem

theorem at_unique {r : Int} (h : At m u q) (k : At m u r) : q = r := by
  obtain ⟨e, mem, rfl, rfl⟩ := h
  have first : At m e.1.decimal.units e.2.decimal.units := ⟨e, mem, rfl, rfl⟩
  obtain ⟨held, found, rfl⟩ := at_find? k
  obtain ⟨again, there, same⟩ := at_find? first
  rw [found] at there
  cases there
  exact same.symm

theorem sameQty_iff : sameQty (m.find? p) (n.find? p) = true ↔
    ∀ q, At m p.decimal.units q ↔ At n p.decimal.units q := by
  constructor
  · intro same q
    constructor
    · intro held
      obtain ⟨ours, found, rfl⟩ := at_find? held
      cases there : n.find? p with
      | none => simp [sameQty, found, there] at same
      | some theirs =>
        rw [found, there] at same
        have value : ours.decimal.units = theirs.decimal.units := of_decide_eq_true same
        exact value ▸ find?_at there
    · intro held
      obtain ⟨theirs, found, rfl⟩ := at_find? held
      cases here : m.find? p with
      | none => simp [sameQty, found, here] at same
      | some ours =>
        rw [found, here] at same
        have value : ours.decimal.units = theirs.decimal.units := of_decide_eq_true same
        exact value ▸ find?_at here
  · intro alike
    cases here : m.find? p with
    | none =>
      cases there : n.find? p with
      | none => rfl
      | some theirs =>
        obtain ⟨_, found, _⟩ := at_find? ((alike _).mpr (find?_at there))
        rw [here] at found
        cases found
    | some ours =>
      obtain ⟨theirs, there, value⟩ := at_find? ((alike _).mp (find?_at here))
      rw [there]
      exact decide_eq_true value.symm

theorem first?_least {e : Price × Qty} (first : m.first? = some e) :
    e ∈ m.entries ∧ ∀ f ∈ m.entries, e.1.decimal.units ≤ f.1.decimal.units := by
  obtain ⟨rest, split⟩ : ∃ rest, m.entries = e :: rest := by
    cases entries : m.entries with
    | nil => simp [OrderedMap.first?, entries] at first
    | cons f rest =>
      rw [OrderedMap.first?, entries] at first
      cases first
      exact ⟨rest, rfl⟩
  have sorted := m.sorted
  rw [split] at sorted ⊢
  refine ⟨List.mem_cons_self, ?_⟩
  intro f mem
  rcases List.mem_cons.mp mem with rfl | mem
  · exact Int.le_refl _
  · exact Int.le_of_lt (Price.cmp_lt.mp ((List.pairwise_cons.mp sorted).1 f mem))

theorem last?_greatest {e : Price × Qty} (last : m.last? = some e) :
    e ∈ m.entries ∧ ∀ f ∈ m.entries, f.1.decimal.units ≤ e.1.decimal.units := by
  obtain ⟨rest, split⟩ := List.getLast?_eq_some_iff.mp last
  have sorted := m.sorted
  rw [split] at sorted ⊢
  refine ⟨List.mem_append_right _ (List.mem_singleton_self _), ?_⟩
  intro f mem
  rcases List.mem_append.mp mem with mem | mem
  · have below := (List.pairwise_append.mp sorted).2.2 f mem e (List.mem_singleton_self _)
    exact Int.le_of_lt (Price.cmp_lt.mp below)
  · exact List.mem_singleton.mp mem ▸ Int.le_refl _

/-- The range of a map is from its first to its last price. -/
theorem within_iff {first last : Price × Qty} (head : m.first? = some first)
    (tail : m.last? = some last) :
    Within (At m) u ↔ first.1.decimal.units ≤ u ∧ u ≤ last.1.decimal.units := by
  obtain ⟨here, least⟩ := first?_least head
  obtain ⟨there, greatest⟩ := last?_greatest tail
  constructor
  · rintro ⟨⟨_, _, ⟨e, mem, rfl, _⟩, low⟩, _, _, ⟨f, there, rfl, _⟩, high⟩
    have below := least e mem
    have above := greatest f there
    omega
  · rintro ⟨low, high⟩
    exact ⟨⟨_, _, ⟨first, here, rfl, rfl⟩, low⟩, _, _, ⟨last, there, rfl, rfl⟩, high⟩

/-- A map has both ends or no entry. -/
theorem ends (m : PriceMap) : (m.entries = [] ∧ m.first? = none ∧ m.last? = none) ∨
    ∃ first last, m.first? = some first ∧ m.last? = some last := by
  cases entries : m.entries with
  | nil =>
    rw [OrderedMap.first?, OrderedMap.last?, entries]
    exact .inl ⟨rfl, rfl, rfl⟩
  | cons e rest =>
    rw [OrderedMap.first?, OrderedMap.last?, entries]
    exact .inr ⟨e, _, rfl, List.getLast?_eq_some_getLast (List.cons_ne_nil e rest)⟩

theorem not_within (empty : m.entries = []) : ¬ Within (At m) u := by
  rintro ⟨⟨_, _, ⟨e, mem, _⟩, _⟩, _⟩
  rw [empty] at mem
  cases mem

end Maps

section Overlap

/-- The prices of both maps in the range of both, ascending. -/
def comparedPrices (ours theirs : PriceMap) : List Price :=
  match ours.first?, theirs.first?, ours.last?, theirs.last? with
  | some ourLow, some theirLow, some ourHigh, some theirHigh =>
    let lo := if Price.cmp ourLow.1 theirLow.1 = .gt then ourLow.1 else theirLow.1
    let hi := if Price.cmp ourHigh.1 theirHigh.1 = .gt then theirHigh.1 else ourHigh.1
    if Price.cmp lo hi = .gt then []
    else
      let within := fun p => Price.cmp lo p ≠ .gt ∧ Price.cmp p hi ≠ .gt
      (OrderedSet.ofKeys Price.cmp
        (((ours.restrict within).entries ++ (theirs.restrict within).entries).map Prod.fst)).members
  | _, _, _, _ => []

/-- All findings of a side, before any is dropped. -/
def disagreements (side : Side) (ours theirs : PriceMap) : List AuditFinding :=
  (comparedPrices ours theirs).filterMap (fun p =>
    if sameQty (ours.find? p) (theirs.find? p) then none
    else some ⟨side, p, ours.find? p, theirs.find? p⟩)

variable {side : Side} {ours theirs : PriceMap} {u : Int}

theorem compareWindows_eq (side : Side) (ours theirs : PriceMap) :
    compareWindows side ours theirs =
      ((disagreements side ours theirs).take maxFindings, (comparedPrices ours theirs).length) := by
  rw [compareWindows, disagreements, comparedPrices]
  rcases ends ours with ⟨_, none, _⟩ | ⟨ourLow, ourHigh, ourFirst, ourLast⟩
  · rw [none]
    rfl
  · rcases ends theirs with ⟨_, none, _⟩ | ⟨theirLow, theirHigh, theirFirst, theirLast⟩
    · rw [ourFirst, none]
      rfl
    · rw [ourFirst, ourLast, theirFirst, theirLast]
      dsimp only
      generalize (if Price.cmp ourLow.1 theirLow.1 = .gt then ourLow.1 else theirLow.1) = lo
      generalize (if Price.cmp ourHigh.1 theirHigh.1 = .gt then theirHigh.1 else ourHigh.1) = hi
      split <;> rfl

theorem members_units {l : List Price} :
    (∃ p ∈ (OrderedSet.ofKeys Price.cmp l).members, p.decimal.units = u) ↔
      ∃ p ∈ l, p.decimal.units = u := by
  constructor
  · rintro ⟨p, mem, rfl⟩
    obtain ⟨e, there, rfl⟩ := List.mem_map.mp mem
    have self : Price.cmp e.1 e.1 = .eq := Std.ReflCmp.compare_self
    obtain ⟨k, given, same⟩ := OrderedSet.isSome_ofKeys.mp
      (OrderedMap.isSome_find?.mpr ⟨e, there, self⟩)
    exact ⟨k, given, (Price.cmp_eq.mp same).symm⟩
  · rintro ⟨p, mem, rfl⟩
    have self : Price.cmp p p = .eq := Std.ReflCmp.compare_self
    obtain ⟨e, there, same⟩ := OrderedMap.isSome_find?.mp
      (OrderedSet.isSome_ofKeys.mpr ⟨p, mem, self⟩)
    exact ⟨e.1, List.mem_map_of_mem there, (Price.cmp_eq.mp same).symm⟩

theorem cmp_le {p q : Price} : Price.cmp p q ≠ .gt ↔ p.decimal.units ≤ q.decimal.units := by
  rw [ne_eq, Price.cmp_gt, Int.not_lt]

/-- The greater of two lower ends and the lesser of two upper ends bound the overlap. -/
theorem overlap_low {p q : Price} :
    (if Price.cmp p q = .gt then p else q).decimal.units ≤ u ↔
      p.decimal.units ≤ u ∧ q.decimal.units ≤ u := by
  split
  · rename_i above
    have order := Price.cmp_gt.mp above
    omega
  · rename_i below
    have order := cmp_le.mp below
    omega

theorem overlap_high {p q : Price} :
    u ≤ (if Price.cmp p q = .gt then q else p).decimal.units ↔
      u ≤ p.decimal.units ∧ u ≤ q.decimal.units := by
  split
  · rename_i above
    have order := Price.cmp_gt.mp above
    omega
  · rename_i below
    have order := cmp_le.mp below
    omega

theorem comparedPrices_iff :
    (∃ p ∈ comparedPrices ours theirs, p.decimal.units = u) ↔ Compared (At ours) (At theirs) u := by
  rw [comparedPrices]
  rcases ends ours with ⟨empty, none, _⟩ | ⟨ourLow, ourHigh, ourFirst, ourLast⟩
  · rw [none]
    constructor
    · rintro ⟨p, mem, _⟩
      cases mem
    · rintro ⟨inside, _⟩
      exact False.elim (not_within empty inside)
  rcases ends theirs with ⟨empty, none, _⟩ | ⟨theirLow, theirHigh, theirFirst, theirLast⟩
  · rw [ourFirst, none]
    constructor
    · rintro ⟨p, mem, _⟩
      cases mem
    · rintro ⟨_, inside, _⟩
      exact False.elim (not_within empty inside)
  rw [Compared, within_iff ourFirst ourLast, within_iff theirFirst theirLast, ourFirst, ourLast,
    theirFirst, theirLast]
  dsimp only
  have low := fun u => overlap_low (u := u) (p := ourLow.1) (q := theirLow.1)
  have high := fun u => overlap_high (u := u) (p := ourHigh.1) (q := theirHigh.1)
  generalize (if Price.cmp ourLow.1 theirLow.1 = .gt then ourLow.1 else theirLow.1) = lo at *
  generalize (if Price.cmp ourHigh.1 theirHigh.1 = .gt then theirHigh.1 else ourHigh.1) = hi at *
  split
  · rename_i apart
    have order := Price.cmp_gt.mp apart
    constructor
    · rintro ⟨p, mem, _⟩
      cases mem
    · rintro ⟨⟨fromOurs, toOurs⟩, ⟨fromTheirs, toTheirs⟩, _⟩
      have above := (low u).mpr ⟨fromOurs, fromTheirs⟩
      have below := (high u).mpr ⟨toOurs, toTheirs⟩
      omega
  · rw [members_units]
    constructor
    · rintro ⟨p, mem, rfl⟩
      obtain ⟨e, there, rfl⟩ := List.mem_map.mp mem
      rcases List.mem_append.mp there with here | here
      · obtain ⟨held, inside⟩ := List.mem_filter.mp here
        obtain ⟨above, below⟩ := of_decide_eq_true inside
        obtain ⟨fromOurs, fromTheirs⟩ := (low _).mp (cmp_le.mp above)
        obtain ⟨toOurs, toTheirs⟩ := (high _).mp (cmp_le.mp below)
        exact ⟨⟨fromOurs, toOurs⟩, ⟨fromTheirs, toTheirs⟩, .inl ⟨_, e, held, rfl, rfl⟩⟩
      · obtain ⟨held, inside⟩ := List.mem_filter.mp here
        obtain ⟨above, below⟩ := of_decide_eq_true inside
        obtain ⟨fromOurs, fromTheirs⟩ := (low _).mp (cmp_le.mp above)
        obtain ⟨toOurs, toTheirs⟩ := (high _).mp (cmp_le.mp below)
        exact ⟨⟨fromOurs, toOurs⟩, ⟨fromTheirs, toTheirs⟩, .inr ⟨_, e, held, rfl, rfl⟩⟩
    · rintro ⟨⟨fromOurs, toOurs⟩, ⟨fromTheirs, toTheirs⟩, held⟩
      have above := (low u).mpr ⟨fromOurs, fromTheirs⟩
      have below := (high u).mpr ⟨toOurs, toTheirs⟩
      rcases held with ⟨_, e, mem, rfl, _⟩ | ⟨_, e, mem, rfl, _⟩
      · refine ⟨e.1, List.mem_map_of_mem (List.mem_append_left _ ?_), rfl⟩
        exact List.mem_filter.mpr ⟨mem, decide_eq_true ⟨cmp_le.mpr above, cmp_le.mpr below⟩⟩
      · refine ⟨e.1, List.mem_map_of_mem (List.mem_append_right _ ?_), rfl⟩
        exact List.mem_filter.mpr ⟨mem, decide_eq_true ⟨cmp_le.mpr above, cmp_le.mpr below⟩⟩

/-- The findings are at the values that differ. -/
theorem disagreements_iff :
    (∃ f ∈ disagreements side ours theirs, f.price.decimal.units = u) ↔
      Differs (At ours) (At theirs) u := by
  constructor
  · rintro ⟨f, mem, rfl⟩
    obtain ⟨p, compared, made⟩ := List.mem_filterMap.mp mem
    split at made
    · cases made
    · rename_i other
      cases made
      obtain ⟨inOurs, inTheirs, _⟩ := comparedPrices_iff.mp ⟨p, compared, rfl⟩
      refine ⟨inOurs, inTheirs, ?_⟩
      by_contra alike
      exact other (sameQty_iff.mpr fun q => by_contra fun differs => alike ⟨q, differs⟩)
  · rintro ⟨inOurs, inTheirs, q, differs⟩
    have held : (∃ q, At ours u q) ∨ ∃ q, At theirs u q := by
      by_cases ours_q : At ours u q
      · exact .inl ⟨q, ours_q⟩
      · by_cases theirs_q : At theirs u q
        · exact .inr ⟨q, theirs_q⟩
        · exact False.elim (differs ⟨fun h => False.elim (ours_q h), fun h => False.elim (theirs_q h)⟩)
    obtain ⟨p, compared, rfl⟩ := comparedPrices_iff.mpr ⟨inOurs, inTheirs, held⟩
    have other : ¬ sameQty (ours.find? p) (theirs.find? p) = true :=
      fun same => differs (sameQty_iff.mp same q)
    refine ⟨⟨side, p, ours.find? p, theirs.find? p⟩, ?_, rfl⟩
    exact List.mem_filterMap.mpr ⟨p, compared, if_neg other⟩

end Overlap

section Windows

/-- Nearer to the touch. -/
def Nearer (side : Side) (a b : Level) : Prop :=
  match side with
  | .bid => b.price.decimal.units < a.price.decimal.units
  | .ask => a.price.decimal.units < b.price.decimal.units

instance (side : Side) : DecidableRel (Nearer side) := fun a b =>
  match side with
  | .bid => inferInstanceAs (Decidable (b.price.decimal.units < a.price.decimal.units))
  | .ask => inferInstanceAs (Decidable (a.price.decimal.units < b.price.decimal.units))

/-- Prices that differ by value. -/
def Distinct (levels : List Level) : Prop :=
  levels.Pairwise (fun a b => Price.cmp a.price b.price ≠ .eq)

/-- The first levels at or beyond the edge, in whatever order they are listed. -/
def Shows (side : Side) (edge : Price) (maxLevels : Nat) (levels : List Level) : Window :=
  fun u q => ∃ l, Top (Nearer side) maxLevels (levels.filter (fun l => beyond side edge l.price)) l ∧
    l.price.decimal.units = u ∧ l.qty.decimal.units = q

variable {side : Side} {edge : Price} {maxLevels : Nat} {levels more : List Level}

theorem nearer_asymm (a b : Level) (h : Nearer side a b) : ¬ Nearer side b a := by
  cases side <;> exact Int.lt_asymm h

theorem distinct_of_nearer (sorted : levels.Pairwise (Nearer side)) : Distinct levels := by
  refine sorted.imp ?_
  intro a b nearer same
  have value := Price.cmp_eq.mp same
  cases side with
  | bid => exact absurd nearer (by rw [Nearer]; omega)
  | ask => exact absurd nearer (by rw [Nearer]; omega)

theorem shows_perm (same : levels.Perm more) :
    Shows side edge maxLevels levels = Shows side edge maxLevels more := by
  funext u q
  apply propext
  constructor
  · rintro ⟨l, top, value⟩
    exact ⟨l, (top_perm (same.filter _)).mp top, value⟩
  · rintro ⟨l, top, value⟩
    exact ⟨l, (top_perm (same.filter _)).mpr top, value⟩

/-- The levels of a list, by values. -/
def Listed (levels : List Level) : Window :=
  fun u q => ∃ l ∈ levels, l.price.decimal.units = u ∧ l.qty.decimal.units = q

theorem shows_sorted (sorted : levels.Pairwise (Nearer side)) :
    Shows side edge maxLevels levels =
      Listed ((levels.filter (fun l => beyond side edge l.price)).take maxLevels) := by
  funext u q
  apply propext
  constructor
  · rintro ⟨l, top, value⟩
    exact ⟨l, (mem_take_iff nearer_asymm (sorted.filter _)).mpr top, value⟩
  · rintro ⟨l, mem, value⟩
    exact ⟨l, (mem_take_iff nearer_asymm (sorted.filter _)).mp mem, value⟩

/-- A window of ordered levels holds what its levels show. -/
theorem at_window (sorted : levels.Pairwise (Nearer side)) :
    At (window side edge maxLevels levels) = Shows side edge maxLevels levels := by
  have kept : ((levels.filter (fun l => beyond side edge l.price)).take maxLevels).Pairwise
      (Nearer side) := (sorted.filter _).sublist (List.take_sublist _ _)
  have apart : (((levels.filter (fun l => beyond side edge l.price)).take maxLevels).map
      (fun l => (l.price, l.qty))).Pairwise (fun a b => Price.cmp a.1 b.1 ≠ .eq) :=
    List.pairwise_map.mpr (distinct_of_nearer kept)
  have entries : (window side edge maxLevels levels).entries.Perm _ := OrderedMap.ofList_perm apart
  rw [shows_sorted sorted]
  funext u q
  apply propext
  constructor
  · rintro ⟨e, mem, price, qty⟩
    obtain ⟨l, there, rfl⟩ := List.mem_map.mp (entries.mem_iff.mp mem)
    exact ⟨l, there, price, qty⟩
  · rintro ⟨l, mem, price, qty⟩
    exact ⟨(l.price, l.qty), entries.mem_iff.mpr (List.mem_map_of_mem mem), price, qty⟩

/-- A window and one that stops short of it agree where both reach. -/
theorem not_differs_prefix {z rest : List Level} (sorted : (z ++ rest).Pairwise (Nearer side))
    (u : Int) : ¬ Differs (Listed (z ++ rest)) (Listed z) u := by
  rintro ⟨_, ⟨⟨_, _, ⟨low, lowMem, rfl, _⟩, below⟩, _, _, ⟨high, highMem, rfl, _⟩, above⟩, q, differs⟩
  apply differs
  constructor
  · rintro ⟨l, mem, rfl, rfl⟩
    rcases List.mem_append.mp mem with mem | mem
    · exact ⟨l, mem, rfl, rfl⟩
    · have beyond := (List.pairwise_append.mp sorted).2.2
      cases side with
      | bid =>
        have past : l.price.decimal.units < low.price.decimal.units := beyond low lowMem l mem
        omega
      | ask =>
        have past : high.price.decimal.units < l.price.decimal.units := beyond high highMem l mem
        omega
  · rintro ⟨l, mem, value⟩
    exact ⟨l, List.mem_append_left _ mem, value⟩

theorem ranked_sorted (levels : Levels) (side : Side) :
    (levels.ranked side).Pairwise (Nearer side) := by
  cases side with
  | bid =>
    refine List.pairwise_map.mpr (List.pairwise_reverse.mpr (levels.bids.sorted.imp ?_))
    exact fun below => Price.cmp_lt.mp below
  | ask =>
    refine List.pairwise_map.mpr (levels.asks.sorted.imp ?_)
    exact fun below => Price.cmp_lt.mp below

theorem sortBest_perm (side : Side) (levels : List Level) : (sortBest side levels).Perm levels := by
  cases side <;> exact List.perm_insertionSort _ _

theorem sortBest_sorted (distinct : Distinct levels) :
    (sortBest side levels).Pairwise (Nearer side) := by
  have apart : Distinct (sortBest side levels) := by
    refine ((sortBest_perm side levels).pairwise_iff ?_).mpr distinct
    exact fun other same => other (Std.OrientedCmp.eq_symm same)
  cases side with
  | bid =>
    have total : Std.Total (fun a b : Level => Price.cmp b.price a.price ≠ .gt) := ⟨by
      intro a b
      rw [cmp_le, cmp_le]
      omega⟩
    have trans : IsTrans Level (fun a b => Price.cmp b.price a.price ≠ .gt) := ⟨by
      intro a b c
      rw [cmp_le, cmp_le, cmp_le]
      omega⟩
    refine (List.pairwise_insertionSort _ levels).imp₂ ?_ apart
    intro a b ordered other
    have order := cmp_le.mp ordered
    have value := mt Price.cmp_eq.mpr other
    exact Int.lt_iff_le_and_ne.mpr ⟨order, fun same => value same.symm⟩
  | ask =>
    have total : Std.Total (fun a b : Level => Price.cmp a.price b.price ≠ .gt) := ⟨by
      intro a b
      rw [cmp_le, cmp_le]
      omega⟩
    have trans : IsTrans Level (fun a b => Price.cmp a.price b.price ≠ .gt) := ⟨by
      intro a b c
      rw [cmp_le, cmp_le, cmp_le]
      omega⟩
    refine (List.pairwise_insertionSort _ levels).imp₂ ?_ apart
    intro a b ordered other
    exact Int.lt_iff_le_and_ne.mpr ⟨cmp_le.mp ordered, mt Price.cmp_eq.mpr other⟩

end Windows

section Audit

variable (arith : DecimalArith) (levels : Levels) (policy : AuditPolicy)

/-- The levels of a snapshot that delete nothing. -/
def standing (snapshot : List Level) : List Level := snapshot.filter (fun l => !l.qty.isDelete)

/-- A side of the book and of a snapshot, cut at the edge that our best level anchors. -/
def windowOf (side : Side) (shown : List Level) : Window := fun u q =>
  ∃ best, levels.best side = some best ∧
    Shows side (guardEdge arith best.price side policy.guardBps) policy.maxLevels shown u q

/-- Our window of a side. -/
def ours (side : Side) : Window := windowOf arith levels policy side (levels.ranked side)

/-- The snapshot's window of a side. -/
def theirs (side : Side) (snapshot : List Level) : Window :=
  windowOf arith levels policy side (standing snapshot)

variable {arith levels policy} {side : Side} {snapshot : List Level}

/-- Both windows of a side as the comparison reads them. -/
def ourMap (arith : DecimalArith) (levels : Levels) (policy : AuditPolicy) (side : Side)
    (best : Level) : PriceMap :=
  window side (guardEdge arith best.price side policy.guardBps) policy.maxLevels
    (levels.ranked side)

def theirMap (arith : DecimalArith) (policy : AuditPolicy) (side : Side) (best : Level)
    (snapshot : List Level) : PriceMap :=
  window side (guardEdge arith best.price side policy.guardBps) policy.maxLevels
    (sortBest side (standing snapshot))

/-- All findings of a side of an audit. -/
def sideFindings (arith : DecimalArith) (levels : Levels) (policy : AuditPolicy) (side : Side)
    (snapshot : List Level) : List AuditFinding :=
  match levels.best side with
  | none => []
  | some best => disagreements side (ourMap arith levels policy side best)
      (theirMap arith policy side best snapshot)

/-- The prices compared on a side of an audit. -/
def sidePrices (arith : DecimalArith) (levels : Levels) (policy : AuditPolicy) (side : Side)
    (snapshot : List Level) : List Price :=
  match levels.best side with
  | none => []
  | some best => comparedPrices (ourMap arith levels policy side best)
      (theirMap arith policy side best snapshot)

theorem auditSide_eq : auditSide arith levels side snapshot policy =
    ((sideFindings arith levels policy side snapshot).take maxFindings,
      (sidePrices arith levels policy side snapshot).length) := by
  rw [auditSide, sideFindings, sidePrices]
  cases levels.best side with
  | none => rfl
  | some best => exact compareWindows_eq ..

/-- Both windows, once there is a best level. -/
theorem windowOf_best {best : Level} (found : levels.best side = some best) (shown : List Level) :
    windowOf arith levels policy side shown =
      Shows side (guardEdge arith best.price side policy.guardBps) policy.maxLevels shown := by
  funext u q
  apply propext
  constructor
  · rintro ⟨other, there, shows⟩
    rw [found] at there
    cases there
    exact shows
  · intro shows
    exact ⟨best, found, shows⟩

theorem windowOf_none (none : levels.best side = none) (shown : List Level) (u : Int) :
    ¬ Within (windowOf arith levels policy side shown) u := by
  rintro ⟨⟨_, _, ⟨best, found, _⟩, _⟩, _⟩
  rw [none] at found
  cases found

theorem maps_windows (arith : DecimalArith) (policy : AuditPolicy)
    (distinct : Distinct (standing snapshot)) {best : Level} (found : levels.best side = some best) :
    At (ourMap arith levels policy side best) = ours arith levels policy side ∧
      At (theirMap arith policy side best snapshot) =
        theirs arith levels policy side snapshot := by
  constructor
  · rw [ourMap, at_window (ranked_sorted levels side), ours, windowOf_best found]
  · rw [theirMap, at_window (sortBest_sorted distinct), theirs, windowOf_best found]
    exact shows_perm (sortBest_perm side _)

theorem sideFindings_iff (distinct : Distinct (standing snapshot)) (u : Int) :
    (∃ f ∈ sideFindings arith levels policy side snapshot, f.price.decimal.units = u) ↔
      Differs (ours arith levels policy side) (theirs arith levels policy side snapshot) u := by
  rw [sideFindings]
  cases found : levels.best side with
  | none =>
    constructor
    · rintro ⟨f, mem, _⟩
      cases mem
    · rintro ⟨inside, _⟩
      exact False.elim (windowOf_none found _ u inside)
  | some best =>
    obtain ⟨our, their⟩ := maps_windows arith policy distinct found
    rw [← our, ← their]
    exact disagreements_iff

theorem sidePrices_iff (distinct : Distinct (standing snapshot)) (u : Int) :
    (∃ p ∈ sidePrices arith levels policy side snapshot, p.decimal.units = u) ↔
      Compared (ours arith levels policy side) (theirs arith levels policy side snapshot) u := by
  rw [sidePrices]
  cases found : levels.best side with
  | none =>
    constructor
    · rintro ⟨p, mem, _⟩
      cases mem
    · rintro ⟨inside, _⟩
      exact False.elim (windowOf_none found _ u inside)
  | some best =>
    obtain ⟨our, their⟩ := maps_windows arith policy distinct found
    rw [← our, ← their]
    exact comparedPrices_iff

/-- The findings that an audit carries, of both sides in a fixed order. -/
def carried (arith : DecimalArith) (levels : Levels) (policy : AuditPolicy)
    (bids asks : List Level) : List AuditFinding :=
  (sideFindings arith levels policy .bid bids ++ sideFindings arith levels policy .ask asks).take
    maxFindings

theorem audit_eq (bids asks : List Level) : audit arith levels bids asks policy =
    if carried arith levels policy bids asks ≠ [] then
      .mismatch (carried arith levels policy bids asks)
        ((sidePrices arith levels policy .bid bids).length +
          (sidePrices arith levels policy .ask asks).length)
    else if (sidePrices arith levels policy .bid bids).length +
        (sidePrices arith levels policy .ask asks).length = 0 then .inconclusive
    else .agreed ((sidePrices arith levels policy .bid bids).length +
        (sidePrices arith levels policy .ask asks).length) := by
  have cut : ∀ l m : List AuditFinding,
      (l.take maxFindings ++ m.take maxFindings).take maxFindings = (l ++ m).take maxFindings := by
    intro l m
    rw [List.take_append, List.take_append, List.take_take, List.take_take, List.length_take,
      Nat.min_self]
    have room : min (maxFindings - min maxFindings l.length) maxFindings =
        maxFindings - l.length := by omega
    rw [room]
  rw [audit, auditSide_eq, auditSide_eq]
  dsimp only
  rw [cut]
  rfl

theorem sideFindings_ne_nil (distinct : Distinct (standing snapshot)) :
    sideFindings arith levels policy side snapshot ≠ [] ↔
      ∃ u, Differs (ours arith levels policy side) (theirs arith levels policy side snapshot) u := by
  constructor
  · intro some
    obtain ⟨f, mem⟩ := List.exists_mem_of_ne_nil _ some
    exact ⟨_, (sideFindings_iff distinct _).mp ⟨f, mem, rfl⟩⟩
  · rintro ⟨u, differs⟩
    obtain ⟨f, mem, _⟩ := (sideFindings_iff distinct u).mpr differs
    exact List.ne_nil_of_mem mem

theorem sidePrices_length (distinct : Distinct (standing snapshot)) :
    (sidePrices arith levels policy side snapshot).length ≠ 0 ↔
      ∃ u, Compared (ours arith levels policy side)
        (theirs arith levels policy side snapshot) u := by
  rw [ne_eq, List.length_eq_zero_iff]
  constructor
  · intro some
    obtain ⟨p, mem⟩ := List.exists_mem_of_ne_nil _ some
    exact ⟨_, (sidePrices_iff distinct _).mp ⟨p, mem, rfl⟩⟩
  · rintro ⟨u, compared⟩
    obtain ⟨p, mem, _⟩ := (sidePrices_iff distinct u).mpr compared
    exact List.ne_nil_of_mem mem

/-- Dropping findings beyond the limit never drops them all. -/
theorem carried_ne_nil {bids asks : List Level} : carried arith levels policy bids asks ≠ [] ↔
    sideFindings arith levels policy .bid bids ≠ [] ∨
      sideFindings arith levels policy .ask asks ≠ [] := by
  rw [carried, ne_eq, List.take_eq_nil_iff, List.append_eq_nil_iff]
  have some : maxFindings ≠ 0 := by decide
  tauto

theorem not_differs_own (n : Nat) (snapshot : List Level)
    (own : (standing snapshot).Perm ((levels.ranked side).take n)) (u : Int) :
    ¬ Differs (ours arith levels policy side) (theirs arith levels policy side snapshot) u := by
  cases found : levels.best side with
  | none =>
    rintro ⟨inside, _⟩
    exact windowOf_none found _ u inside
  | some best =>
    have sorted := ranked_sorted levels side
    have part := sorted.sublist (List.take_sublist n _)
    rw [ours, theirs, windowOf_best found, windowOf_best found, shows_perm own,
      shows_sorted sorted, shows_sorted part]
    have shorter : ((levels.ranked side).take n).filter _ <+: (levels.ranked side).filter
        (fun l => beyond side (guardEdge arith best.price side policy.guardBps) l.price) :=
      (List.take_prefix n _).filter _
    obtain ⟨rest, whole⟩ := List.IsPrefix.take shorter policy.maxLevels
    have kept := (sorted.filter
      (fun l => beyond side (guardEdge arith best.price side policy.guardBps) l.price)).sublist
        (List.take_sublist policy.maxLevels _)
    rw [← whole] at kept ⊢
    exact not_differs_prefix kept u

/-- A book stores no deletion, so all of its levels stand. -/
theorem standing_own {n : Nat} (bids : Stocked levels.bids) (asks : Stocked levels.asks)
    (own : snapshot.Perm (levels.topLevels side n)) :
    (standing snapshot).Perm ((levels.ranked side).take n) := by
  have stand : standing (levels.topLevels side n) = levels.topLevels side n := by
    apply List.filter_eq_self.mpr
    intro l mem
    have ranked := List.mem_of_mem_take mem
    cases side with
    | bid =>
      obtain ⟨e, there, rfl⟩ := List.mem_map.mp ranked
      simp [bids e (List.mem_reverse.mp there)]
    | ask =>
      obtain ⟨e, there, rfl⟩ := List.mem_map.mp ranked
      simp [asks e there]
  have same : (standing snapshot).Perm (standing (levels.topLevels side n)) := own.filter _
  rw [stand] at same
  exact same

/-- The side of a snapshot. -/
def sideOf (bids asks : List Level) : Side → List Level
  | .bid => bids
  | .ask => asks

/-- An audit is a mismatch exactly if some value in the range of both windows of a side differs,
inconclusive exactly if nothing is compared, and otherwise a match. A book that the operations
reach never mismatches its own best levels. -/
theorem audit_compares (arith : DecimalArith) (venue : VenueId) (symbol : Symbol)
    (depth : Option Nat) (ops : List BookOp) (policy : AuditPolicy) :
    let levels := (exec step (start venue symbol depth) ops).levels
    (∀ bids asks, Distinct (standing bids) → Distinct (standing asks) →
      let outcome := audit arith levels bids asks policy
      let differs := ∃ side u, Differs (ours arith levels policy side)
        (theirs arith levels policy side (sideOf bids asks side)) u
      let compared := ∃ side u, Compared (ours arith levels policy side)
        (theirs arith levels policy side (sideOf bids asks side)) u
      ((∃ found n, outcome = .mismatch found n) ↔ differs) ∧
        (outcome = .inconclusive ↔ ¬ compared) ∧
        ((∃ n, outcome = .agreed n) ↔ ¬ differs ∧ compared)) ∧
    ∀ n m bids asks, bids.Perm (levels.topLevels .bid n) → asks.Perm (levels.topLevels .ask m) →
      ∀ found n, audit arith levels bids asks policy ≠ .mismatch found n := by
  intro levels
  constructor
  · intro bids asks distinctBids distinctAsks outcome differs compared
    have found : carried arith levels policy bids asks ≠ [] ↔ differs := by
      rw [carried_ne_nil, sideFindings_ne_nil distinctBids, sideFindings_ne_nil distinctAsks]
      constructor
      · rintro (⟨u, there⟩ | ⟨u, there⟩)
        · exact ⟨.bid, u, there⟩
        · exact ⟨.ask, u, there⟩
      · rintro ⟨side, u, there⟩
        cases side with
        | bid => exact .inl ⟨u, there⟩
        | ask => exact .inr ⟨u, there⟩
    have looked : (sidePrices arith levels policy .bid bids).length +
        (sidePrices arith levels policy .ask asks).length ≠ 0 ↔ compared := by
      constructor
      · intro some
        by_cases bid : (sidePrices arith levels policy .bid bids).length = 0
        · have ask : (sidePrices arith levels policy .ask asks).length ≠ 0 := by omega
          obtain ⟨u, there⟩ := (sidePrices_length distinctAsks).mp ask
          exact ⟨.ask, u, there⟩
        · obtain ⟨u, there⟩ := (sidePrices_length distinctBids).mp bid
          exact ⟨.bid, u, there⟩
      · rintro ⟨side, u, there⟩
        cases side with
        | bid =>
          have some := (sidePrices_length distinctBids).mpr ⟨u, there⟩
          omega
        | ask =>
          have some := (sidePrices_length distinctAsks).mpr ⟨u, there⟩
          omega
    have both : differs → compared := by
      rintro ⟨side, u, inOurs, inTheirs, q, other⟩
      refine ⟨side, u, inOurs, inTheirs, ?_⟩
      by_contra neither
      rw [not_or] at neither
      exact other ⟨fun h => False.elim (neither.1 ⟨q, h⟩), fun h => False.elim (neither.2 ⟨q, h⟩)⟩
    have value : outcome = _ := audit_eq bids asks
    rw [← found, ← looked] at both
    rw [← found, ← looked, value]
    generalize (sidePrices arith levels policy .bid bids).length +
      (sidePrices arith levels policy .ask asks).length = total at both
    split
    · rename_i some
      simpa [some] using both some
    · rename_i none
      split
      · rename_i zero
        simp [none, zero]
      · rename_i positive
        simp [none, positive]
  · intro n m bids asks bid_own ask_own found count
    have sound : Sound (exec step (start venue symbol depth) ops) :=
      exec_keeps sound_step (sound_start venue symbol depth) ops
    have quiet : ∀ side snapshot k, snapshot.Perm (levels.topLevels side k) →
        sideFindings arith levels policy side snapshot = [] := by
      intro side snapshot k own
      have kept := standing_own (n := k) sound.bids sound.asks own
      by_contra some
      have distinct : Distinct (standing snapshot) := by
        have part := (ranked_sorted levels side).sublist (List.take_sublist k _)
        refine (kept.pairwise_iff ?_).mpr (distinct_of_nearer part)
        exact fun other same => other (Std.OrientedCmp.eq_symm same)
      obtain ⟨u, differs⟩ := (sideFindings_ne_nil distinct).mp some
      exact not_differs_own k snapshot kept u differs
    have nothing : ¬ carried arith levels policy bids asks ≠ [] := by
      rw [carried_ne_nil]
      rintro (some | some)
      · exact some (quiet .bid bids n bid_own)
      · exact some (quiet .ask asks m ask_own)
    rw [audit_eq, if_neg nothing]
    split
    · exact AuditOutcome.noConfusion
    · exact AuditOutcome.noConfusion

end Audit

end AuditComparison

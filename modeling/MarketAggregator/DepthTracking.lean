import MarketAggregator.AuditComparison

/-!
# A book of limited depth on a feed of the same depth

A venue that sends its best levels only never deletes a level that others push out of them. A
book of that depth drops it by pruning, and misses nothing that comes back: after every update
it holds the best levels of the venue's full book.
-/

namespace DepthTracking

open AuditComparison BookInvariants Clocks Decimals DepthAudit GuardedRuns MarketEvents OrderBook
  OrderedMaps RankedLists VenueStreams

/-- A level by the values of its price and quantity. -/
def worth (l : Level) : Int × Int := (l.price.decimal.units, l.qty.decimal.units)

/-- The lesser, the nearer to the touch. -/
def reach (side : Side) (x : Int × Int) : Int :=
  match side with
  | .bid => -x.1
  | .ask => x.1

/-- A venue's own book: no empty level, and every bid below every ask. -/
structure FullBook where
  levels : Levels
  bids : Stocked levels.bids
  asks : Stocked levels.asks
  uncrossed : ∀ bid ∈ levels.bids.entries, ∀ ask ∈ levels.asks.entries,
    bid.1.decimal.units < ask.1.decimal.units

def sideMap (levels : Levels) : Side → PriceMap
  | .bid => levels.bids
  | .ask => levels.asks

/-- All levels of a side, best first. -/
def all (levels : Levels) (side : Side) : List (Int × Int) := (levels.ranked side).map worth

/-- The best levels of a side. -/
def top (depth : Nat) (f : FullBook) (side : Side) : List (Int × Int) :=
  (all f.levels side).take depth

/-- A message that shows the best levels of a side, in any order. -/
def Shown (depth : Nat) (f : FullBook) (side : Side) (listed : List Level) : Prop :=
  ∀ x, x ∈ listed.map worth ↔ x ∈ top depth f side

/-- A message that takes the best levels of a side from one full book to another. It lists what
is new among them, deletes those that the new book lost, and says nothing that is not so. -/
structure Reported (depth : Nat) (old new : FullBook) (side : Side) (listed : List Level) :
    Prop where
  changed : ∀ x ∈ top depth new side, x ∉ top depth old side → ∃ l ∈ listed, worth l = x
  gone : ∀ x ∈ top depth old side, (∀ y ∈ all new.levels side, y.1 ≠ x.1) →
    ∃ l ∈ listed, l.qty.isDelete = true ∧ l.price.decimal.units = x.1
  deleted : ∀ l ∈ listed, l.qty.isDelete = true →
    ∀ y ∈ all new.levels side, y.1 ≠ l.price.decimal.units
  current : ∀ l ∈ listed, l.qty.isDelete = false → worth l ∈ all new.levels side

section Sides

variable {m : PriceMap} {side : Side} {u q : Int} {p : Price} {x : Int × Int}

/-- All levels of a side's map, best first. -/
def rankedMap (m : PriceMap) : Side → List (Int × Int)
  | .bid => m.entries.reverse.map (fun e => (e.1.decimal.units, e.2.decimal.units))
  | .ask => m.entries.map (fun e => (e.1.decimal.units, e.2.decimal.units))

theorem all_eq (levels : Levels) (side : Side) :
    all levels side = rankedMap (sideMap levels side) side := by
  cases side with
  | bid => exact List.map_map
  | ask => exact List.map_map

theorem mem_rankedMap : x ∈ rankedMap m side ↔ At m x.1 x.2 := by
  have entry : (∃ e ∈ m.entries, (e.1.decimal.units, e.2.decimal.units) = x) ↔ At m x.1 x.2 := by
    constructor
    · rintro ⟨e, mem, rfl⟩
      exact ⟨e, mem, rfl, rfl⟩
    · rintro ⟨e, mem, price, qty⟩
      exact ⟨e, mem, Prod.ext price qty⟩
  rw [← entry]
  cases side with
  | bid => simp only [rankedMap, List.mem_map, List.mem_reverse]
  | ask => exact List.mem_map

theorem rankedMap_sorted (m : PriceMap) (side : Side) :
    (rankedMap m side).Pairwise (Ahead (reach side)) := by
  cases side with
  | bid =>
    refine List.pairwise_map.mpr (List.pairwise_reverse.mpr (m.sorted.imp ?_))
    exact fun below => Int.neg_lt_neg (Price.cmp_lt.mp below)
  | ask =>
    refine List.pairwise_map.mpr (m.sorted.imp ?_)
    exact fun below => Price.cmp_lt.mp below

theorem reach_eq {x y : Int × Int} : reach side x = reach side y ↔ x.1 = y.1 := by
  cases side with
  | bid => exact Int.neg_inj
  | ask => exact Iff.rfl

theorem at_iff_find? : At m u q ↔
    ∃ p held, m.find? p = some held ∧ p.decimal.units = u ∧ held.decimal.units = q := by
  constructor
  · rintro ⟨e, mem, price, qty⟩
    exact ⟨e.1, e.2, OrderedMap.mem_find? mem, price, qty⟩
  · rintro ⟨p, held, found, rfl, rfl⟩
    exact find?_at found

theorem at_insert {held : Qty} : At (m.insert p held) u q ↔
    if p.decimal.units = u then held.decimal.units = q else At m u q := by
  rw [at_iff_find?]
  split
  · rename_i here
    constructor
    · rintro ⟨r, found, there, price, rfl⟩
      have same : Price.cmp r p = .eq := Price.cmp_eq.mpr (price.trans here.symm)
      rw [OrderedMap.find?_insert, if_pos same] at there
      cases there
      rfl
    · intro value
      have self : Price.cmp p p = .eq := Std.ReflCmp.compare_self
      refine ⟨p, held, ?_, here, value⟩
      rw [OrderedMap.find?_insert, if_pos self]
  · rename_i away
    rw [at_iff_find?]
    have other : ∀ r : Price, r.decimal.units = u → ¬ Price.cmp r p = .eq :=
      fun r price same => away ((Price.cmp_eq.mp same).symm.trans price)
    constructor
    · rintro ⟨r, found, there, price, value⟩
      rw [OrderedMap.find?_insert, if_neg (other r price)] at there
      exact ⟨r, found, there, price, value⟩
    · rintro ⟨r, found, there, price, value⟩
      refine ⟨r, found, ?_, price, value⟩
      rw [OrderedMap.find?_insert, if_neg (other r price)]
      exact there

theorem at_remove : At (m.remove p) u q ↔ p.decimal.units ≠ u ∧ At m u q := by
  rw [at_iff_find?, at_iff_find?]
  constructor
  · rintro ⟨r, found, there, price, value⟩
    rw [OrderedMap.find?_remove] at there
    split at there
    · cases there
    · rename_i away
      exact ⟨fun here => away (Price.cmp_eq.mpr (price.trans here.symm)), r, found, there, price,
        value⟩
  · rintro ⟨away, r, found, there, price, value⟩
    have other : ¬ Price.cmp r p = .eq :=
      fun same => away ((Price.cmp_eq.mp same).symm.trans price)
    refine ⟨r, found, ?_, price, value⟩
    rw [OrderedMap.find?_remove, if_neg other]
    exact there

/-- What a listed level tells of a side that holds a window. -/
def Tells (w : Window) (l : Level) : Prop :=
  ∀ q, w l.price.decimal.units q ↔ l.qty.isDelete = false ∧ l.qty.decimal.units = q

/-- Listed prices are as the window has them, and the others are left alone. -/
theorem at_applyLevels {w : Window} {listed : List Level} (tells : ∀ l ∈ listed, Tells w l) :
    At (applyLevels m listed) u q ↔
      if ∃ l ∈ listed, l.price.decimal.units = u then w u q else At m u q := by
  induction listed using List.reverseRecOn with
  | nil => simp [applyLevels]
  | append_singleton before l ih =>
    have earlier := ih fun k mem => tells k (List.mem_append_left _ mem)
    have last := tells l (List.mem_append_right _ (List.mem_singleton_self l))
    have split : (∃ k ∈ before ++ [l], k.price.decimal.units = u) ↔
        (∃ k ∈ before, k.price.decimal.units = u) ∨ l.price.decimal.units = u := by
      simp only [List.mem_append, List.mem_singleton, or_and_right, exists_or, exists_eq_left]
    rw [applyLevels, List.foldl_append, List.foldl_cons, List.foldl_nil]
    rw [applyLevels] at earlier
    by_cases here : l.price.decimal.units = u
    · rw [if_pos (split.mpr (.inr here))]
      cases deletes : l.qty.isDelete with
      | true =>
        rw [if_pos rfl, at_remove, ← here, last q, deletes]
        simp
      | false =>
        rw [if_neg Bool.false_ne_true, at_insert, if_pos here, ← here, last q, deletes]
        simp
    · have same : (∃ k ∈ before ++ [l], k.price.decimal.units = u) ↔
          ∃ k ∈ before, k.price.decimal.units = u := by
        rw [split]
        exact or_iff_left here
      simp only [same]
      rw [← earlier]
      cases deletes : l.qty.isDelete with
      | true =>
        rw [if_pos rfl, at_remove]
        exact and_iff_right here
      | false =>
        rw [if_neg Bool.false_ne_true, at_insert, if_neg here]

variable {depth : Nat} {f : FullBook} {listed : List Level}

/-- A side that is told what the full book has, at every price where they may differ and every
best price that it lacks, is cut to the best levels. -/
theorem side_tracks (tells : ∀ l ∈ listed, Tells (At (sideMap f.levels side)) l)
    (covers : ∀ x ∈ top depth f side,
      (∃ l ∈ listed, l.price.decimal.units = x.1) ∨ At m x.1 x.2)
    (known : ∀ u q, At m u q → (∃ l ∈ listed, l.price.decimal.units = u) ∨
      ∃ y ∈ all f.levels side, y.1 = u) :
    (rankedMap (applyLevels m listed) side).take depth = top depth f side := by
  rw [top, all_eq]
  rw [top, all_eq] at covers
  rw [all_eq] at known
  refine take_of_covers (rankedMap_sorted _ side) (rankedMap_sorted _ side) ?_ ?_
  · intro x first
    have held := mem_rankedMap.mp (List.mem_of_mem_take first)
    rw [mem_rankedMap, at_applyLevels tells]
    split
    · exact held
    · rename_i silent
      rcases covers x first with told | before
      · exact False.elim (silent told)
      · exact before
  · intro y mem
    rw [mem_rankedMap, at_applyLevels tells] at mem
    split at mem
    · exact ⟨y, mem_rankedMap.mpr mem, rfl⟩
    · rename_i silent
      rcases known y.1 y.2 mem with told | ⟨x, there, same⟩
      · exact False.elim (silent told)
      · exact ⟨x, there, reach_eq.mpr same⟩

theorem isDelete_iff {qty : Qty} : qty.isDelete = true ↔ qty.decimal.units = 0 := by
  rw [Qty.isDelete, Decimal.isZero, decide_eq_true_iff, Decimal.units]
  split <;> simp

theorem full_stocked (f : FullBook) (held : At (sideMap f.levels side) u q) : q ≠ 0 := by
  obtain ⟨e, mem, _, rfl⟩ := held
  have kept : e.2.isDelete = false := by
    cases side with
    | bid => exact f.bids e mem
    | ask => exact f.asks e mem
  intro zero
  rw [isDelete_iff.mpr zero] at kept
  cases kept

/-- A current level tells what the full book has. -/
theorem tells_current {l : Level} (mem : worth l ∈ all f.levels side) :
    Tells (At (sideMap f.levels side)) l := by
  rw [all_eq] at mem
  have held : At (sideMap f.levels side) l.price.decimal.units l.qty.decimal.units :=
    mem_rankedMap.mp mem
  have kept : l.qty.isDelete = false := by
    by_contra deletes
    exact full_stocked f held (isDelete_iff.mp (Bool.eq_true_of_not_eq_false deletes))
  intro q
  rw [kept]
  constructor
  · intro other
    exact ⟨rfl, at_unique held other⟩
  · rintro ⟨_, rfl⟩
    exact held

theorem tells_of_reported {old : FullBook} (h : Reported depth old f side listed) :
    ∀ l ∈ listed, Tells (At (sideMap f.levels side)) l := by
  intro l mem
  cases deletes : l.qty.isDelete with
  | false => exact tells_current (h.current l mem deletes)
  | true =>
    have gone := h.deleted l mem deletes
    rw [all_eq] at gone
    intro q
    rw [deletes]
    constructor
    · intro held
      exact False.elim (gone (l.price.decimal.units, q) (mem_rankedMap.mpr held) rfl)
    · rintro ⟨kept, _⟩
      cases kept

/-- A side that holds the best levels of the old book holds those of the new one. -/
theorem reported_tracks {old : FullBook} (h : Reported depth old f side listed)
    (held : rankedMap m side = top depth old side) :
    (rankedMap (applyLevels m listed) side).take depth = top depth f side := by
  refine side_tracks (tells_of_reported h) ?_ ?_
  · intro x first
    by_cases before : x ∈ top depth old side
    · rw [← held] at before
      exact .inr (mem_rankedMap.mp before)
    · obtain ⟨l, mem, rfl⟩ := h.changed x first before
      exact .inl ⟨l, mem, rfl⟩
  · intro u q at_old
    have before : (u, q) ∈ top depth old side := held ▸ mem_rankedMap.mpr at_old
    by_cases still : ∃ y ∈ all f.levels side, y.1 = u
    · exact .inr still
    · have lost : ∀ y ∈ all f.levels side, y.1 ≠ u := fun y mem same => still ⟨y, mem, same⟩
      obtain ⟨l, mem, _, price⟩ := h.gone (u, q) before lost
      exact .inl ⟨l, mem, price⟩

/-- A snapshot without deletions is an update of an empty side. -/
theorem enterLevels_eq (kept : ∀ l ∈ listed, l.qty.isDelete = false) :
    enterLevels m listed = applyLevels m listed := by
  induction listed generalizing m with
  | nil => rfl
  | cons l rest ih =>
    have first := kept l List.mem_cons_self
    have later := fun k mem => kept k (List.mem_cons_of_mem _ mem)
    have rest := ih (m := m.insert l.price l.qty) later
    rw [enterLevels, applyLevels, List.foldl_cons, List.foldl_cons, first]
    exact rest

theorem shown_tracks (h : Shown depth f side listed) :
    (rankedMap (enterLevels OrderedMap.empty listed) side).take depth = top depth f side := by
  have tells : ∀ l ∈ listed, Tells (At (sideMap f.levels side)) l := by
    intro l mem
    exact tells_current (List.mem_of_mem_take ((h _).mp (List.mem_map_of_mem mem)))
  have kept : ∀ l ∈ listed, l.qty.isDelete = false := by
    intro l mem
    have current := List.mem_of_mem_take ((h _).mp (List.mem_map_of_mem mem))
    rw [all_eq] at current
    exact ((tells l mem _).mp (mem_rankedMap.mp current)).1
  rw [enterLevels_eq kept]
  refine side_tracks tells ?_ ?_
  · intro x first
    obtain ⟨l, mem, same⟩ := List.mem_map.mp ((h x).mpr first)
    exact .inl ⟨l, mem, congrArg Prod.fst same⟩
  · rintro u q ⟨e, mem, _⟩
    cases mem

end Sides

section Books

/-- Pruning keeps the best levels. -/
theorem all_prune (levels : Levels) (depth : Nat) (side : Side) :
    all (levels.prune (some depth)) side = (all levels side).take depth := by
  cases side with
  | bid =>
    rw [all, all, ← List.map_take]
    dsimp only [Levels.prune, Levels.ranked, OrderedMap.keepLast, OrderedMap.size]
    rw [← List.map_take, List.take_reverse]
  | ask =>
    rw [all, all, ← List.map_take]
    dsimp only [Levels.prune, Levels.ranked, OrderedMap.keepFirst]
    rw [← List.map_take]

theorem best_mem {levels : Levels} {side : Side} {l : Level} (h : levels.best side = some l) :
    worth l ∈ all levels side := by
  refine List.mem_map_of_mem ?_
  cases side with
  | bid =>
    obtain ⟨e, last, rfl⟩ := Option.map_eq_some_iff.mp h
    exact List.mem_map_of_mem (List.mem_reverse.mpr (List.mem_of_mem_getLast? last))
  | ask =>
    obtain ⟨e, first, rfl⟩ := Option.map_eq_some_iff.mp h
    exact List.mem_map_of_mem (List.mem_of_mem_head? first)

/-- Levels of a full book are not crossed. -/
theorem not_crossed {levels : Levels} {depth : Nat} {f : FullBook}
    (held : ∀ side, all levels side = top depth f side) : levels.crossed = none := by
  rw [Levels.crossed]
  split
  · rename_i bid ask bestBid bestAsk
    have bidHeld := List.mem_of_mem_take (held .bid ▸ best_mem bestBid)
    have askHeld := List.mem_of_mem_take (held .ask ▸ best_mem bestAsk)
    rw [all_eq] at bidHeld askHeld
    obtain ⟨e, bids, price, _⟩ := mem_rankedMap.mp bidHeld
    obtain ⟨g, asks, other, _⟩ := mem_rankedMap.mp askHeld
    have bidPrice : e.1.decimal.units = bid.price.decimal.units := price
    have askPrice : g.1.decimal.units = ask.price.decimal.units := other
    have apart := f.uncrossed e bids g asks
    rw [bidPrice, askPrice] at apart
    exact if_pos (Price.cmp_lt.mpr apart)
  · rfl

/-- A venue's full book, and ours. -/
structure Feed where
  full : FullBook
  book : Book

/-- What the full book becomes, and the message about it. -/
structure Change where
  full : FullBook
  bids : List Level
  asks : List Level
  now : IngestTime

def Feed.step (s : Feed) (c : Change) : Feed :=
  ⟨c.full, (s.book.applyDelta c.bids c.asks c.now).2⟩

def Follows (depth : Nat) (s : Feed) (c : Change) : Prop :=
  ∀ side, Reported depth s.full c.full side (sideOf c.bids c.asks side)

/-- Our book is live and holds the best levels of each side. -/
structure Tracks (depth : Nat) (s : Feed) : Prop where
  limit : s.book.maxDepth = some depth
  live : s.book.state.isLive = true
  levels : ∀ side, all s.book.levels side = top depth s.full side

variable {depth : Nat} {s : Feed} {c : Change}

theorem tracks_step (h : Tracks depth s) (follows : Follows depth s c) :
    Tracks depth (s.step c) := by
  obtain ⟨limit, live, held⟩ := h
  obtain ⟨_, levels, state⟩ := applyDelta_live c.bids c.asks c.now live
  have tracked : ∀ side, all ((s.book.levels.delta c.bids c.asks).prune (some depth)) side =
      top depth c.full side := by
    intro side
    have before := held side
    rw [all_eq] at before
    have after := reported_tracks (follows side) before
    rw [all_prune, all_eq]
    cases side with
    | bid => exact after
    | ask => exact after
  rw [limit] at levels state
  refine ⟨applyDelta_maxDepth.trans limit, ?_, ?_⟩
  · rw [Feed.step]
    dsimp only
    rw [state, not_crossed tracked]
    exact live
  · intro side
    rw [Feed.step]
    dsimp only
    rw [levels]
    exact tracked side

theorem tracks_snapshot {b : Book} (limit : b.maxDepth = some depth) {f : FullBook}
    {bids asks : List Level} (integrity : Integrity) (now : IngestTime)
    (shown : ∀ side, Shown depth f side (sideOf bids asks side)) :
    Tracks depth ⟨f, (b.applySnapshot bids asks integrity now).2⟩ := by
  have tracked : ∀ side, all ((Levels.snapshot bids asks).prune (some depth)) side =
      top depth f side := by
    intro side
    have after := shown_tracks (shown side)
    rw [all_prune, all_eq]
    cases side with
    | bid => exact after
    | ask => exact after
  refine ⟨applySnapshot_maxDepth.trans limit, ?_, ?_⟩
  · dsimp only
    rw [applySnapshot_state, limit, not_crossed tracked]
    rfl
  · intro side
    dsimp only
    rw [applySnapshot_levels, limit]
    exact tracked side

/-- After a snapshot of the best levels and any changes of which each message lists what it
must, a book of that depth is live and holds the best levels of the full book. -/
theorem tracks_full_book (depth : Nat) (b : Book) (limit : b.maxDepth = some depth)
    (f : FullBook) (bids asks : List Level) (integrity : Integrity) (now : IngestTime)
    (shown : ∀ side, Shown depth f side (sideOf bids asks side)) (changes : List Change)
    (follows : Meets Feed.step (Follows depth)
      ⟨f, (b.applySnapshot bids asks integrity now).2⟩ changes) :
    Tracks depth
      (exec Feed.step ⟨f, (b.applySnapshot bids asks integrity now).2⟩ changes) := by
  have kept : ∀ s c, Tracks depth s → Follows depth s c → Tracks depth (s.step c) :=
    fun _ _ tracks follows => tracks_step tracks follows
  exact exec_invariant kept (tracks_snapshot limit integrity now shown) follows

end Books

section Sample

def bookOf (bids asks : List Level) (stocked : Stocked (Levels.snapshot bids asks).bids ∧
      Stocked (Levels.snapshot bids asks).asks)
    (uncrossed : ∀ bid ∈ (Levels.snapshot bids asks).bids.entries,
      ∀ ask ∈ (Levels.snapshot bids asks).asks.entries,
        bid.1.decimal.units < ask.1.decimal.units) : FullBook :=
  ⟨Levels.snapshot bids asks, stocked.1, stocked.2, uncrossed⟩

instance (m : PriceMap) : Decidable (Stocked m) :=
  inferInstanceAs (Decidable (∀ entry ∈ m.entries, entry.2.isDelete = false))

def wider : FullBook := bookOf [.whole 100 1, .whole 99 2] [.whole 101 1, .whole 102 3]
  (by decide +kernel) (by decide +kernel)

/-- The best bid is gone, and a better ask pushes out the other. -/
def moved : FullBook := bookOf [.whole 99 2] [.whole 100 5, .whole 101 1] (by decide +kernel)
  (by decide +kernel)

def move : Change := ⟨moved, [.whole 100 0, .whole 99 2], [.whole 100 5], ⟨1, 1⟩⟩

def narrowBook : Book := (Book.new .kraken ⟨"BTC-USD"⟩).withMaxDepth 1

theorem tracks_move : Tracks 1 (exec Feed.step
    ⟨wider, (narrowBook.applySnapshot [.whole 100 1] [.whole 101 1] .verified ⟨0, 0⟩).2⟩ [move]) := by
  refine tracks_full_book 1 narrowBook rfl wider [.whole 100 1] [.whole 101 1] .verified ⟨0, 0⟩
    ?_ [move] ⟨?_, trivial⟩
  · intro side x
    cases side with
    | bid => exact Iff.rfl
    | ask => exact Iff.rfl
  · intro side
    cases side with
    | bid => exact ⟨by decide +kernel, by decide +kernel, by decide +kernel, by decide +kernel⟩
    | ask => exact ⟨by decide +kernel, by decide +kernel, by decide +kernel, by decide +kernel⟩

end Sample

end DepthTracking

import MarketAggregator.ArchiveKeys
import MarketAggregator.ArchiveRows
import MarketAggregator.BestElement
import MarketAggregator.HeadMerges
import MarketAggregator.OrderedMaps
import Mathlib.Data.List.Dedup

/-!
# Reading an archive

The files under some prefixes are grouped by partition, each group in the order of its
keys, and the groups are merged by wall clock. What is read is an interleaving of what
the groups hold, and reading ends with all of it if and only if every file is readable.
-/

namespace ArchiveReader

open ArchiveKeys ArchiveRows BestElement Decimals HeadMerges Interleavings OrderedMaps

abbrev Objects (B : Type) := OrderedMap Key B Key.cmp

/-- A file format that keeps rows in their order, in batches of its own choosing. -/
structure Parquet (B : Type) where
  encode : List (List Row) → B
  size : B → Nat
  load : B → Except ReadError (List (List Row))
  faithful : ∀ groups, ∃ batches, load (encode groups) = .ok batches ∧
    batches.flatten = groups.flatten

section Store

variable {B : Type} (objects : Objects B)

def Objects.get (key : Key) : Except ReadError B :=
  (objects.find? key).elim (.error (.store key)) .ok

/-- The keys that start with a text, in order. -/
def Objects.list (start : Key) : List Key := (objects.entries.map Prod.fst).filter start.isPrefixOf

theorem mem_list {start name : Key} : start ++ name ∈ Objects.list objects start ↔
    start ++ name ∈ objects.entries.map Prod.fst := by
  rw [Objects.list, List.mem_filter, List.isPrefixOf_iff_prefix]
  exact and_iff_left (List.prefix_append start name)

/-- The events of one file. -/
def contents (parquet : Parquet B) (text : DecimalText) (key : Key) :
    Except ReadError (List StoredEvent) := do
  let bytes ← Objects.get objects key
  let batches ← parquet.load bytes
  decode text batches

end Store

/-- One partition's files, and the events of the file that is being read. -/
structure Cursor where
  keys : List Key
  pending : List StoredEvent

abbrev Partitions := OrderedMap Key (OrderedSet Key Key.cmp) Key.cmp

def filesOf (m : Partitions) (partition : Key) : OrderedSet Key Key.cmp :=
  (m.find? partition).getD OrderedMap.empty

def addKey (m : Partitions) (key : Key) : Partitions :=
  m.insert (partitionOf key) ((filesOf m (partitionOf key)).insert key ())

def byPartition (keys : List Key) : Partitions := keys.foldl addKey OrderedMap.empty

def cursorsOf (keys : List Key) : List Cursor :=
  (byPartition keys).entries.map (fun e => ⟨e.2.members, []⟩)

/-- The files to read under a prefix. -/
def filesUnder {B : Type} (objects : Objects B) (start : Key) : List Key :=
  (Objects.list objects start).filter (".parquet".toList.isSuffixOf ·)

def openMany {B : Type} (objects : Objects B) (prefixes : List Key) : List Cursor :=
  cursorsOf (prefixes.flatMap (filesUnder objects))

def openReader {B : Type} (objects : Objects B) (start : Key) : List Cursor :=
  openMany objects [start]

section Reading

variable (contents : Key → Except ReadError (List StoredEvent))

/-- Read files until one has an event. -/
def load : List Key → Except ReadError Cursor
  | [] => .ok ⟨[], []⟩
  | key :: keys => do
    let events ← contents key
    if events = [] then load keys else .ok ⟨keys, events⟩

def fill (c : Cursor) : Except ReadError Cursor :=
  if c.pending = [] then load contents c.keys else .ok c

def fillAll : List Cursor → Except ReadError (List Cursor)
  | [] => .ok []
  | c :: cursors => do
    let filled ← fill contents c
    let rest ← fillAll cursors
    .ok (filled :: rest)

/-- A head is greater the earlier its wall reading, and then the lower its index. -/
def earlier (a b : Int × Nat) : Ordering :=
  compareLex (compareOn Prod.fst) (compareOn Prod.snd) b a

def heads (cursors : List Cursor) : List (Int × Nat) :=
  cursors.zipIdx.filterMap (fun c => c.1.pending.head?.map (fun e => (e.ingestWall, c.2)))

/-- The cursor whose head is earliest. -/
def pick (cursors : List Cursor) : Option Nat := (maxBy earlier (heads cursors)).map Prod.snd

/-- Take the head of a cursor. -/
def pop (cursors : List Cursor) (i : Nat) : Option StoredEvent × List Cursor :=
  (cursors[i]?).elim (none, cursors)
    (fun c => (c.pending.head?, cursors.set i { c with pending := c.pending.tail }))

def nextEvent (cursors : List Cursor) :
    Except ReadError (Option StoredEvent × List Cursor) := do
  let filled ← fillAll contents cursors
  .ok ((pick filled).elim (none, filled) (pop filled))

/-- Read to the end, in a number of steps. -/
def collect : Nat → List Cursor → Option (Except ReadError (List StoredEvent))
  | 0, _ => none
  | fuel + 1, cursors =>
    match nextEvent contents cursors with
    | .error e => some (.error e)
    | .ok (none, _) => some (.ok [])
    | .ok (some event, rest) => (collect fuel rest).map (·.map (event :: ·))

end Reading

/-- Reading the files under a prefix to the end gives these events. -/
def Reads {B : Type} (parquet : Parquet B) (text : DecimalText) (objects : Objects B) (start : Key)
    (out : List StoredEvent) : Prop :=
  ∃ fuel, collect (contents objects parquet text) fuel (openReader objects start) =
    some (.ok out)

section Grouping

variable {keys : List Key} {key other partition : Key} {m : Partitions}

theorem mem_addKey : key ∈ (filesOf (addKey m other) partition).members ↔
    key = other ∧ partitionOf other = partition ∨ key ∈ (filesOf m partition).members := by
  rw [filesOf, addKey, OrderedMap.find?_insert]
  by_cases same : partition = partitionOf other
  · have equal : Key.cmp partition (partitionOf other) = .eq :=
      Std.LawfulEqCmp.compare_eq_iff_eq.mpr same
    rw [if_pos equal, Option.getD_some, same]
    exact OrderedSet.mem_insertEntry.trans (or_congr_left (by simp))
  · have unequal : Key.cmp partition (partitionOf other) ≠ .eq :=
      fun equal => same (Std.LawfulEqCmp.eq_of_compare equal)
    rw [if_neg unequal, ← filesOf]
    exact ⟨.inr, fun h => h.elim (fun h => absurd h.2.symm same) id⟩

theorem mem_foldl_addKey : key ∈ (filesOf (keys.foldl addKey m) partition).members ↔
    key ∈ keys ∧ partitionOf key = partition ∨ key ∈ (filesOf m partition).members := by
  induction keys generalizing m with
  | nil => simp
  | cons first keys ih =>
    rw [List.foldl_cons, ih, mem_addKey, List.mem_cons]
    grind

theorem mem_byPartition :
    key ∈ (filesOf (byPartition keys) partition).members ↔
      key ∈ keys ∧ partitionOf key = partition :=
  mem_foldl_addKey.trans (or_iff_left (by rintro ⟨⟩))

theorem filesOf_entry {s : OrderedSet Key Key.cmp} (entry : (partition, s) ∈ m.entries) :
    filesOf m partition = s := by
  rw [filesOf, OrderedMap.mem_find? entry]
  rfl

theorem entry_of_mem (mem : key ∈ (filesOf m partition).members) :
    (partition, filesOf m partition) ∈ m.entries := by
  rw [filesOf] at mem ⊢
  cases found : m.find? partition with
  | none =>
    rw [found] at mem
    cases mem
  | some s =>
    obtain ⟨stored, entry, equal⟩ := OrderedMap.find?_mem found
    rwa [← Std.LawfulEqCmp.eq_of_compare equal] at entry

theorem entries_distinct {a b : Key × OrderedSet Key Key.cmp} {i k : Nat}
    (at_i : m.entries[i]? = some a) (at_k : m.entries[k]? = some b) (same : a.1 = b.1) :
    i = k := by
  have inside : i < (m.entries.map Prod.fst).length := by
    rw [List.length_map]
    exact (List.getElem?_eq_some_iff.mp at_i).1
  refine (List.getElem?_inj inside m.keys_nodup).mp ?_
  rw [List.getElem?_map, List.getElem?_map, at_i, at_k, Option.map_some, Option.map_some, same]

/-- A cursor's keys increase and are those of its partition. -/
theorem mem_cursorsOf {c : Cursor} (mem : c ∈ cursorsOf keys) :
    c.pending = [] ∧ c.keys.Pairwise (fun a b => Key.cmp a b = .lt) ∧
      ∃ partition, ∀ key, key ∈ c.keys ↔ key ∈ keys ∧ partitionOf key = partition := by
  obtain ⟨⟨partition, s⟩, entry, rfl⟩ := List.mem_map.mp mem
  refine ⟨rfl, s.members_pairwise, partition, fun key => ?_⟩
  rw [← mem_byPartition, filesOf_entry entry]

/-- Every key is on the cursor of its partition, and its partition on no other. -/
theorem cursor_of_mem (mem : key ∈ keys) : ∃ i c, (cursorsOf keys)[i]? = some c ∧
    (∀ j, j ∈ c.keys ↔ j ∈ keys ∧ partitionOf j = partitionOf key) ∧
    ∀ (k : Nat) (d : Cursor), k ≠ i → (cursorsOf keys)[k]? = some d →
      ∀ j ∈ d.keys, partitionOf j ≠ partitionOf key := by
  have entry := entry_of_mem (mem_byPartition.mpr ⟨mem, rfl⟩)
  obtain ⟨i, at_i⟩ := List.mem_iff_getElem?.mp entry
  refine ⟨i, ⟨(filesOf (byPartition keys) (partitionOf key)).members, []⟩, ?_,
    fun j => mem_byPartition, ?_⟩
  · rw [cursorsOf, List.getElem?_map, at_i]
    rfl
  intro k d elsewhere at_k j mem same
  rw [cursorsOf, List.getElem?_map] at at_k
  obtain ⟨⟨partition, s⟩, there, rfl⟩ := Option.map_eq_some_iff.mp at_k
  have own : partitionOf j = partition := by
    have inside : j ∈ (filesOf (byPartition keys) partition).members := by
      rwa [filesOf_entry (List.mem_of_getElem? there)]
    exact (mem_byPartition.mp inside).2
  exact elsewhere (entries_distinct there at_i (own.symm.trans same))

/-- The cursors share out the keys between them, each key once. -/
theorem keys_cursorsOf_dedup (keys : List Key) :
    ((cursorsOf keys).flatMap Cursor.keys).Perm keys.dedup := by
  refine (List.perm_ext_iff_of_nodup ?_ keys.nodup_dedup).mpr fun key => ?_
  · refine List.nodup_flatMap.mpr ⟨fun c mem => ?_, ?_⟩
    · refine (mem_cursorsOf mem).2.1.imp ?_
      rintro x y lt rfl
      exact absurd lt (by simp [Std.ReflCmp.compare_self])
    · refine List.pairwise_map.mpr ((List.Pairwise.and_mem.mp (byPartition keys).sorted).imp ?_)
      rintro ⟨a, s⟩ ⟨b, t⟩ ⟨first, second, lt⟩ key inFirst inSecond
      have onA := (mem_byPartition.mp ((filesOf_entry first).symm ▸ inFirst)).2
      have onB := (mem_byPartition.mp ((filesOf_entry second).symm ▸ inSecond)).2
      have same : a = b := onA.symm.trans onB
      subst same
      exact absurd lt (by simp [Std.ReflCmp.compare_self])
  · rw [List.mem_dedup]
    constructor
    · intro mem
      obtain ⟨c, on, inside⟩ := List.mem_flatMap.mp mem
      obtain ⟨-, -, partition, own⟩ := mem_cursorsOf on
      exact ((own key).mp inside).1
    · intro mem
      obtain ⟨i, c, at_i, own, -⟩ := cursor_of_mem mem
      exact List.mem_flatMap.mpr ⟨c, List.mem_of_getElem? at_i, (own key).mpr ⟨mem, rfl⟩⟩

theorem keys_cursorsOf (distinct : keys.Nodup) :
    ((cursorsOf keys).flatMap Cursor.keys).Perm keys := by
  have shared := keys_cursorsOf_dedup keys
  rwa [distinct.dedup] at shared

end Grouping

section Reading

variable {contents : Key → Except ReadError (List StoredEvent)} {keys : List Key}
  {cursors filled : List Cursor} {c d : Cursor} {ls : List (List StoredEvent)}
  {l out : List StoredEvent}

variable (contents) in
/-- What the files of some keys hold, one after the other. -/
def unread : List Key → Except ReadError (List StoredEvent)
  | [] => .ok []
  | key :: keys => do
    let events ← contents key
    let rest ← unread keys
    .ok (events ++ rest)

variable (contents) in
/-- What a cursor has still to give. -/
def Cursor.rest (c : Cursor) : Except ReadError (List StoredEvent) :=
  (unread contents c.keys).map (c.pending ++ ·)

/-- A cursor without an event has no files left. -/
def Cursor.Ready (c : Cursor) : Prop := c.pending = [] → c.keys = []

theorem unread_cons {key : Key} {events : List StoredEvent} (h : contents key = .ok events) :
    unread contents (key :: keys) = (unread contents keys).map (events ++ ·) := by
  rw [unread, h]
  cases unread contents keys <;> rfl

theorem rest_blank : Cursor.rest contents ⟨keys, []⟩ = unread contents keys := by
  rw [Cursor.rest]
  cases unread contents keys <;> rfl

theorem rest_load (h : load contents keys = .ok d) :
    d.rest contents = unread contents keys ∧ d.Ready := by
  induction keys with
  | nil =>
    obtain rfl := Except.ok.inj h
    exact ⟨rfl, fun _ => rfl⟩
  | cons key keys ih =>
    obtain ⟨events, first, next⟩ := bind_ok h
    by_cases empty : events = []
    · rw [if_pos empty] at next
      obtain ⟨same, ready⟩ := ih next
      refine ⟨?_, ready⟩
      rw [same, unread_cons first, empty]
      cases unread contents keys <;> rfl
    · rw [if_neg empty] at next
      obtain rfl := Except.ok.inj next
      exact ⟨(unread_cons first).symm, fun none => absurd none empty⟩

theorem load_ok (h : unread contents keys = .ok l) : ∃ d, load contents keys = .ok d := by
  induction keys generalizing l with
  | nil => exact ⟨_, rfl⟩
  | cons key keys ih =>
    obtain ⟨events, first, next⟩ := bind_ok h
    obtain ⟨rest, later, -⟩ := bind_ok next
    obtain ⟨d, loaded⟩ := ih later
    by_cases empty : events = []
    · exact ⟨d, by rw [load, first, ← loaded, empty]; rfl⟩
    · refine ⟨⟨keys, events⟩, ?_⟩
      rw [load, first]
      exact if_neg empty

theorem rest_fill (h : fill contents c = .ok d) :
    d.rest contents = c.rest contents ∧ d.Ready := by
  obtain ⟨keys, pending⟩ := c
  by_cases empty : pending = []
  · subst empty
    have loaded : load contents keys = .ok d := h
    obtain ⟨same, ready⟩ := rest_load loaded
    exact ⟨same.trans rest_blank.symm, ready⟩
  · rw [fill, if_neg empty] at h
    obtain rfl := Except.ok.inj h
    exact ⟨rfl, fun none => absurd none empty⟩

theorem fill_ok (h : c.rest contents = .ok l) : ∃ d, fill contents c = .ok d := by
  obtain ⟨keys, pending⟩ := c
  by_cases empty : pending = []
  · subst empty
    have whole : unread contents keys = .ok l := rest_blank.symm.trans h
    exact load_ok whole
  · exact ⟨_, if_neg empty⟩

theorem rest_fillAll (h : fillAll contents cursors = .ok filled) :
    filled.map (Cursor.rest contents) = cursors.map (Cursor.rest contents) ∧
      ∀ d ∈ filled, d.Ready := by
  induction cursors generalizing filled with
  | nil =>
    obtain rfl := Except.ok.inj h
    exact ⟨rfl, fun d mem => by cases mem⟩
  | cons c cursors ih =>
    obtain ⟨d, first, next⟩ := bind_ok h
    obtain ⟨ds, others, done⟩ := bind_ok next
    obtain rfl := Except.ok.inj done
    obtain ⟨same, ready⟩ := rest_fill first
    obtain ⟨sames, readies⟩ := ih others
    constructor
    · rw [List.map_cons, List.map_cons, same, sames]
    · exact List.forall_mem_cons.mpr ⟨ready, readies⟩

theorem fillAll_ok (whole : cursors.map (Cursor.rest contents) = ls.map .ok) :
    ∃ filled, fillAll contents cursors = .ok filled := by
  induction cursors generalizing ls with
  | nil => exact ⟨[], rfl⟩
  | cons c cursors ih =>
    cases ls with
    | nil => cases whole
    | cons l ls =>
      rw [List.map_cons, List.map_cons, List.cons.injEq] at whole
      obtain ⟨d, first⟩ := fill_ok whole.1
      obtain ⟨ds, others⟩ := ih whole.2
      exact ⟨d :: ds, by rw [fillAll, first, others]; rfl⟩

theorem mem_heads {i : Nat} {e : StoredEvent} (at_i : cursors[i]? = some c)
    (front : c.pending.head? = some e) : (e.ingestWall, i) ∈ heads cursors :=
  List.mem_filterMap.mpr ⟨(c, i), List.mem_zipIdx_iff_getElem?.mpr at_i, by rw [front]; rfl⟩

instance earlierTransCmp : Std.TransCmp earlier :=
  inferInstanceAs (Std.TransCmp fun a b : Int × Nat =>
    compareLex (compareOn Prod.fst) (compareOn Prod.snd) b a)

theorem earlier_isLE {a b : Int × Nat} (h : (earlier a b).isLE = true) : toLex b ≤ toLex a := by
  have first : compareOn Prod.fst b a = compare b.1 a.1 := rfl
  have second : compareOn Prod.snd b a = compare b.2 a.2 := rfl
  rw [earlier, compareLex, first, second] at h
  rw [Prod.Lex.toLex_le_toLex]
  cases walls : compare b.1 a.1 with
  | lt => exact .inl (compare_lt_iff_lt.mp walls)
  | gt =>
    rw [walls] at h
    cases h
  | eq =>
    rw [walls] at h
    exact .inr ⟨compare_eq_iff_eq.mp walls, compare_le_iff_le.mp (Ordering.isLE_iff_ne_gt.mp h)⟩

/-- The head that is picked is the least one. -/
theorem pick_some {i : Nat} (h : pick cursors = some i) :
    ∃ c e, cursors[i]? = some c ∧ c.pending.head? = some e ∧
      ∀ head ∈ heads cursors, toLex (e.ingestWall, i) ≤ toLex head := by
  obtain ⟨head, best, rfl⟩ := Option.map_eq_some_iff.mp h
  obtain ⟨⟨c, i⟩, mem, shape⟩ := List.mem_filterMap.mp (maxBy_mem best)
  obtain ⟨e, front, rfl⟩ := Option.map_eq_some_iff.mp shape
  exact ⟨c, e, List.mem_zipIdx_iff_getElem?.mp mem, front,
    fun head on => earlier_isLE (maxBy_dominates best head on)⟩

theorem pick_none (h : pick cursors = none) : ∀ c ∈ cursors, c.pending = [] := by
  intro c mem
  obtain ⟨i, at_i⟩ := List.mem_iff_getElem?.mp mem
  cases front : c.pending.head? with
  | none => exact List.head?_eq_none_iff.mp front
  | some e =>
    have head := mem_heads at_i front
    rw [pick] at h
    cases shape : heads cursors with
    | nil =>
      rw [shape] at head
      cases head
    | cons first rest =>
      rw [shape] at h
      cases h

theorem rest_cons {keys : List Key} {e : StoredEvent} {tail : List StoredEvent} :
    Cursor.rest contents ⟨keys, e :: tail⟩ =
      (Cursor.rest contents ⟨keys, tail⟩).map (e :: ·) := by
  rw [Cursor.rest, Cursor.rest]
  cases unread contents keys <;> rfl

theorem rest_set {i : Nat} {l : List StoredEvent} (own : d.rest contents = .ok l)
    (whole : cursors.map (Cursor.rest contents) = ls.map .ok) :
    (cursors.set i d).map (Cursor.rest contents) = (ls.set i l).map .ok := by
  rw [List.map_set, List.map_set, whole, own]

theorem next_filled (h : fillAll contents cursors = .ok filled) :
    nextEvent contents cursors = .ok ((pick filled).elim (none, filled) (pop filled)) := by
  rw [nextEvent, h]
  rfl

theorem pop_front {i : Nat} {keys : List Key} {e : StoredEvent} {tail : List StoredEvent}
    (at_i : cursors[i]? = some ⟨keys, e :: tail⟩) :
    pop cursors i = (some e, cursors.set i ⟨keys, tail⟩) := by
  rw [pop, at_i]
  rfl

/-- No head to pick means nothing left. -/
theorem rest_drained (ready : ∀ d ∈ cursors, d.Ready) (stop : pick cursors = none) :
    ∀ d ∈ cursors, d.rest contents = .ok [] := by
  rintro ⟨keys, pending⟩ mem
  have empty : pending = [] := pick_none stop _ mem
  have exhausted : keys = [] := ready _ mem empty
  subst empty exhausted
  rfl

theorem next_none (h : nextEvent contents cursors = .ok (none, filled)) :
    ∃ ls : List (List StoredEvent), cursors.map (Cursor.rest contents) = ls.map .ok ∧
      ∀ l ∈ ls, l = [] := by
  obtain ⟨ds, others, -⟩ := bind_ok h
  obtain ⟨same, ready⟩ := rest_fillAll others
  rw [next_filled others] at h
  cases chosen : pick ds with
  | none =>
    refine ⟨ds.map (fun _ => []), ?_, fun l mem => ?_⟩
    · rw [← same, List.map_map]
      exact List.map_congr_left (rest_drained ready chosen)
    · obtain ⟨d, -, rfl⟩ := List.mem_map.mp mem
      rfl
  | some i =>
    obtain ⟨⟨keys, pending⟩, e, at_i, front, -⟩ := pick_some chosen
    obtain ⟨tail, rfl⟩ := List.head?_eq_some_iff.mp front
    rw [chosen, Option.elim_some, pop_front at_i] at h
    cases h

theorem front_of_rest {b : StoredEvent} {more : List StoredEvent} (ready : c.Ready)
    (own : c.rest contents = .ok (b :: more)) : c.pending.head? = some b := by
  obtain ⟨keys, pending⟩ := c
  cases pending with
  | nil =>
    obtain rfl : keys = [] := ready rfl
    cases own
  | cons e tail =>
    rw [rest_cons] at own
    cases later : Cursor.rest contents ⟨keys, tail⟩ with
    | error wrong =>
      rw [later] at own
      cases own
    | ok rest =>
      rw [later] at own
      rw [(List.cons.inj (Except.ok.inj own)).1]
      rfl

/-- The event taken is the next one of some cursor, the earliest of all. -/
theorem next_some {e : StoredEvent} (h : nextEvent contents cursors = .ok (some e, filled))
    (whole : filled.map (Cursor.rest contents) = ls.map .ok) :
    ∃ i rest, ls[i]? = some rest ∧
      cursors.map (Cursor.rest contents) = (ls.set i (e :: rest)).map .ok ∧
        ∀ (j : Nat) (b : StoredEvent) (more : List StoredEvent),
          (ls.set i (e :: rest))[j]? = some (b :: more) →
            toLex (e.ingestWall, i) ≤ toLex (b.ingestWall, j) := by
  obtain ⟨ds, others, -⟩ := bind_ok h
  obtain ⟨same, ready⟩ := rest_fillAll others
  rw [next_filled others] at h
  cases chosen : pick ds with
  | none =>
    rw [chosen] at h
    cases h
  | some i =>
    obtain ⟨⟨keys, pending⟩, e, at_i, front, least⟩ := pick_some chosen
    obtain ⟨tail, rfl⟩ := List.head?_eq_some_iff.mp front
    rw [chosen, Option.elim_some, pop_front at_i] at h
    obtain ⟨taken, rfl⟩ := Prod.mk.inj (Except.ok.inj h)
    obtain rfl := Option.some.inj taken
    have inside : i < ds.length := (List.getElem?_eq_some_iff.mp at_i).1
    have own := congrArg (·[i]?) whole
    rw [List.getElem?_map, List.getElem?_map, List.getElem?_set_self inside] at own
    obtain ⟨rest, at_rest, held⟩ := Option.map_eq_some_iff.mp own.symm
    have front : Cursor.rest contents ⟨keys, e :: tail⟩ = .ok (e :: rest) := by
      rw [rest_cons, ← held]
      rfl
    have back := rest_set (i := i) front whole
    obtain ⟨_, stays⟩ := List.getElem?_eq_some_iff.mp at_i
    rw [List.set_set, ← stays, List.set_getElem_self] at back
    refine ⟨i, rest, at_rest, same.symm.trans back, fun j b more at_j => ?_⟩
    have there := congrArg (·[j]?) back
    rw [List.getElem?_map, List.getElem?_map, at_j] at there
    obtain ⟨d, at_d, own⟩ := Option.map_eq_some_iff.mp there
    exact least _ (mem_heads at_d (front_of_rest (ready d (List.mem_of_getElem? at_d)) own))

/-- While files can be read, the next event of some cursor is taken until all are empty. -/
theorem next_complete (whole : cursors.map (Cursor.rest contents) = ls.map .ok) :
    ((∀ l ∈ ls, l = []) ∧ ∃ ds, nextEvent contents cursors = .ok (none, ds)) ∨
      ∃ e i rest ds, ls[i]? = some (e :: rest) ∧ nextEvent contents cursors = .ok (some e, ds) ∧
        ds.map (Cursor.rest contents) = (ls.set i rest).map .ok := by
  obtain ⟨filled, others⟩ := fillAll_ok whole
  obtain ⟨same, ready⟩ := rest_fillAll others
  have still := same.trans whole
  cases chosen : pick filled with
  | none =>
    refine .inl ⟨fun l mem => ?_, filled, by rw [next_filled others, chosen]; rfl⟩
    have held : Except.ok l ∈ filled.map (Cursor.rest contents) := by
      rw [still]
      exact List.mem_map_of_mem mem
    obtain ⟨d, on, own⟩ := List.mem_map.mp held
    exact Except.ok.inj (own.symm.trans (rest_drained ready chosen d on))
  | some i =>
    obtain ⟨⟨keys, pending⟩, e, at_i, front, -⟩ := pick_some chosen
    obtain ⟨tail, rfl⟩ := List.head?_eq_some_iff.mp front
    have own := congrArg (·[i]?) still
    rw [List.getElem?_map, List.getElem?_map, at_i] at own
    obtain ⟨l, at_l, held⟩ := Option.map_eq_some_iff.mp own.symm
    rw [rest_cons] at held
    cases later : Cursor.rest contents ⟨keys, tail⟩ with
    | error wrong =>
      rw [later] at held
      cases held
    | ok rest =>
      rw [later] at held
      obtain rfl := Except.ok.inj held
      refine .inr ⟨e, i, rest, filled.set i ⟨keys, tail⟩, at_l, ?_, rest_set later still⟩
      rw [next_filled others, chosen, Option.elim_some, pop_front at_i]

/-- What was read to the end is a merge of what the cursors held. -/
theorem collect_merged {fuel : Nat} (h : collect contents fuel cursors = some (.ok out)) :
    ∃ ls : List (List StoredEvent), cursors.map (Cursor.rest contents) = ls.map .ok ∧
      Merged StoredEvent.ingestWall ls out := by
  induction fuel generalizing cursors out with
  | zero => cases h
  | succ fuel ih =>
    rw [collect] at h
    cases step : nextEvent contents cursors with
    | error e =>
      rw [step] at h
      cases h
    | ok taken =>
      obtain ⟨event, ds⟩ := taken
      rw [step] at h
      cases event with
      | none =>
        obtain rfl := Except.ok.inj (Option.some.inj h)
        obtain ⟨ls, whole, empty⟩ := next_none step
        exact ⟨ls, whole, .done empty⟩
      | some e =>
        obtain ⟨later, run, joined⟩ := Option.map_eq_some_iff.mp h
        cases later with
        | error wrong => cases joined
        | ok more =>
          obtain rfl := Except.ok.inj joined
          obtain ⟨ls, whole, tail⟩ := ih run
          obtain ⟨i, rest, at_i, before, least⟩ := next_some step whole
          obtain ⟨inside, stays⟩ := List.getElem?_eq_some_iff.mp at_i
          refine ⟨_, before, .take (i := i) (List.getElem?_set_self inside) least ?_⟩
          rwa [List.set_set, ← stays, List.set_getElem_self]

/-- What was read to the end is an interleaving of what the cursors held. -/
theorem collect_sound {fuel : Nat} (h : collect contents fuel cursors = some (.ok out)) :
    ∃ ls : List (List StoredEvent), cursors.map (Cursor.rest contents) = ls.map .ok ∧
      Interleaved ls out := by
  obtain ⟨ls, whole, merged⟩ := collect_merged h
  exact ⟨ls, whole, merged.interleaved⟩

/-- Cursors whose files can be read are read to the end. -/
theorem collect_complete (whole : cursors.map (Cursor.rest contents) = ls.map .ok) :
    ∃ fuel out, collect contents fuel cursors = some (.ok out) ∧ Interleaved ls out := by
  generalize size : ls.flatten.length = n
  induction n generalizing cursors ls with
  | zero =>
    rcases next_complete whole with ⟨empty, ds, stop⟩ | ⟨e, i, rest, ds, at_i, -, -⟩
    · exact ⟨1, [], by rw [collect, stop], .done empty⟩
    · have shrunk := (flatten_perm_set at_i).length_eq
      rw [size] at shrunk
      cases shrunk
  | succ n ih =>
    rcases next_complete whole with ⟨empty, ds, stop⟩ | ⟨e, i, rest, ds, at_i, step, left⟩
    · exact ⟨1, [], by rw [collect, stop], .done empty⟩
    · have shrunk := (flatten_perm_set at_i).length_eq
      rw [size, List.length_cons] at shrunk
      obtain ⟨fuel, out, run, merged⟩ := ih left (by omega)
      refine ⟨fuel + 1, e :: out, ?_, .take at_i merged⟩
      rw [collect, step]
      exact congrArg (Option.map (Except.map (e :: ·))) run

variable (contents) in
/-- The events of a file that can be read. -/
def held (key : Key) : List StoredEvent := (contents key).toOption.getD []

variable (contents) in
def Readable (key : Key) : Prop := contents key = .ok (held contents key)

theorem readable_of_ok {key : Key} (h : contents key = .ok l) : Readable contents key := by
  rw [Readable, held, h]
  rfl

theorem unread_readable (h : ∀ key ∈ keys, Readable contents key) :
    unread contents keys = .ok (keys.flatMap (held contents)) := by
  induction keys with
  | nil => rfl
  | cons key keys ih =>
    rw [unread_cons (h key List.mem_cons_self),
      ih fun key mem => h key (List.mem_cons_of_mem _ mem)]
    rfl

theorem readable_of_unread (h : unread contents keys = .ok l) :
    ∀ key ∈ keys, Readable contents key := by
  induction keys generalizing l with
  | nil => exact fun key mem => by cases mem
  | cons key keys ih =>
    obtain ⟨events, first, next⟩ := bind_ok h
    obtain ⟨rest, later, -⟩ := bind_ok next
    exact List.forall_mem_cons.mpr ⟨readable_of_ok first, ih later⟩

/-- What the cursors over some files hold. -/
theorem rest_cursorsOf (h : ∀ key ∈ keys, Readable contents key) :
    (cursorsOf keys).map (Cursor.rest contents) =
      ((cursorsOf keys).map (fun c => c.keys.flatMap (held contents))).map .ok := by
  rw [List.map_map]
  refine List.map_congr_left fun c mem => ?_
  obtain ⟨fresh, -, partition, own⟩ := mem_cursorsOf mem
  obtain ⟨inside, pending⟩ := c
  subst fresh
  exact rest_blank.trans (unread_readable fun key mem => h key ((own key).mp mem).1)

theorem readable_of_cursorsOf (whole : (cursorsOf keys).map (Cursor.rest contents) = ls.map .ok) :
    ∀ key ∈ keys, Readable contents key := by
  intro key mem
  obtain ⟨i, c, at_i, own, -⟩ := cursor_of_mem mem
  have shape := congrArg (·[i]?) whole
  rw [List.getElem?_map, List.getElem?_map, at_i] at shape
  obtain ⟨l, -, holds⟩ := Option.map_eq_some_iff.mp shape.symm
  obtain ⟨fresh, -, -⟩ := mem_cursorsOf (List.mem_of_getElem? at_i)
  obtain ⟨inside, pending⟩ := c
  subst fresh
  exact readable_of_unread (rest_blank.symm.trans holds.symm) key ((own key).mpr ⟨mem, rfl⟩)

end Reading

section Archive

variable {B : Type} {parquet : Parquet B} {text : DecimalText} {objects : Objects B} {start : Key}
  {out : List StoredEvent}

variable (objects start) in
theorem filesUnder_nodup : (filesUnder objects start).Nodup :=
  (objects.keys_nodup.filter _).filter _

theorem openReader_eq : openReader objects start = cursorsOf (filesUnder objects start) := by
  rw [openReader, openMany, List.flatMap_singleton]

theorem reads_readable (h : Reads parquet text objects start out) :
    ∀ key ∈ filesUnder objects start, Readable (contents objects parquet text) key := by
  obtain ⟨fuel, run⟩ := h
  rw [openReader_eq] at run
  obtain ⟨ls, whole, -⟩ := collect_sound run
  exact readable_of_cursorsOf whole

theorem reads_interleaved (h : Reads parquet text objects start out) :
    Interleaved ((cursorsOf (filesUnder objects start)).map
      (fun c => c.keys.flatMap (held (contents objects parquet text)))) out := by
  have readable := reads_readable h
  obtain ⟨fuel, run⟩ := h
  rw [openReader_eq] at run
  obtain ⟨ls, whole, merged⟩ := collect_sound run
  rw [rest_cursorsOf readable] at whole
  rwa [(List.map_inj_right fun _ _ => Except.ok.inj).mp whole]

/-- Reading ends with exactly the events of the files under the prefix. -/
theorem reads_perm (h : Reads parquet text objects start out) :
    out.Perm ((filesUnder objects start).flatMap (held (contents objects parquet text))) := by
  refine (reads_interleaved h).perm.trans ?_
  have keys := keys_cursorsOf (filesUnder_nodup objects start)
  have shared := keys.flatMap_right (held (contents objects parquet text))
  rwa [List.flatMap_assoc, List.flatMap_def] at shared

theorem reads_of_readable
    (h : ∀ key ∈ filesUnder objects start, Readable (contents objects parquet text) key) :
    ∃ out, Reads parquet text objects start out := by
  obtain ⟨fuel, out, run, -⟩ := collect_complete (rest_cursorsOf h)
  exact ⟨out, fuel, by rwa [openReader_eq]⟩

end Archive

end ArchiveReader

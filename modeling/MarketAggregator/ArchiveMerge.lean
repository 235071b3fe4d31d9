import MarketAggregator.ArchiveContents

/-!
# Several prefixes read as one stream

The files under any of the prefixes are read once each. An event is placed by its file and by
its position in it. Within a partition events come out in the order of their places, and
partitions whose wall readings never step back are merged into one stream that never does.
-/

namespace ArchiveMerge

open ArchiveKeys ArchiveReader ArchiveRows Decimals HeadMerges Interleavings OrderedMaps

/-- An event with the file that holds it and its position there. -/
structure Entry where
  key : Key
  position : Nat
  event : StoredEvent

namespace Entry

def partition (e : Entry) : Key := partitionOf e.key

def wall (e : Entry) : Int := e.event.ingestWall

/-- One event is placed before another, by its key and then by its position. -/
def Before (a b : Entry) : Prop :=
  Key.cmp a.key b.key = .lt ∨ a.key = b.key ∧ a.position < b.position

end Entry

section Store

variable {B : Type} (parquet : Parquet B) (text : DecimalText) (objects : Objects B)
  (prefixes : List Key)

/-- The files under some of the prefixes. -/
def listed : List Key := (prefixes.flatMap (filesUnder objects)).dedup

/-- Reading the files under all of the prefixes to the end gives these events. -/
def ReadsMany (out : List StoredEvent) : Prop :=
  ∃ fuel, collect (contents objects parquet text) fuel (openMany objects prefixes) =
    some (.ok out)

end Store

section Entries

variable (contents : Key → Except ReadError (List StoredEvent))

def entriesOf (key : Key) : List Entry :=
  (held contents key).zipIdx.map (fun e => ⟨key, e.2, e.1⟩)

/-- Every event of some files, by its place. -/
def archive (keys : List Key) : List Entry := keys.flatMap (entriesOf contents)

/-- What a cursor reads, by place. -/
def lanes (keys : List Key) : List (List Entry) :=
  (cursorsOf keys).map (fun c => c.keys.flatMap (entriesOf contents))

end Entries

/-- No wall reading of a partition is before an earlier one of it. -/
def WallsAscend (all : List Entry) : Prop :=
  ∀ a ∈ all, ∀ b ∈ all, a.partition = b.partition → a.Before b → a.wall ≤ b.wall

/-- The events are merged by wall reading and then by the name of the partition. -/
structure CorrectMerge (all merged : List Entry) : Prop where
  once : merged.Perm all
  distinct : all.Nodup
  inOrder : merged.Pairwise (fun a b => a.partition = b.partition → a.Before b)
  byWall : WallsAscend all → merged.Pairwise (fun a b =>
    a.wall < b.wall ∨ a.wall = b.wall ∧ (Key.cmp a.partition b.partition).isLE = true)

section Lanes

variable {contents : Key → Except ReadError (List StoredEvent)} {keys : List Key} {key : Key}
  {lane : List Entry} {e a b : Entry} {j : Nat}

theorem mem_entriesOf (mem : e ∈ entriesOf contents key) : e.key = key := by
  obtain ⟨x, -, rfl⟩ := List.mem_map.mp mem
  rfl

theorem entriesOf_events : (entriesOf contents key).map Entry.event = held contents key := by
  rw [entriesOf, List.map_map]
  exact List.zipIdx_map_fst ..

theorem entriesOf_before : (entriesOf contents key).Pairwise Entry.Before := by
  have positions : ((held contents key).zipIdx.map Prod.snd).Pairwise (· < ·) := by
    rw [List.zipIdx_map_snd]
    exact List.pairwise_lt_range'
  exact List.pairwise_map.mpr ((List.pairwise_map.mp positions).imp fun less => .inr ⟨rfl, less⟩)

theorem before_irrefl (a : Entry) : ¬ a.Before a := by
  rintro (less | ⟨-, less⟩)
  · exact absurd less (by simp [Std.ReflCmp.compare_self])
  · exact Nat.lt_irrefl _ less

theorem keys_before {files : List Key}
    (ascending : files.Pairwise (fun a b => Key.cmp a b = .lt)) :
    (files.flatMap (entriesOf contents)).Pairwise Entry.Before := by
  refine List.pairwise_flatMap.mpr ⟨fun key _ => entriesOf_before, ascending.imp ?_⟩
  intro first second less a mem b mem'
  rw [← mem_entriesOf mem, ← mem_entriesOf mem'] at less
  exact .inl less

/-- The partitions of some files, in their order. -/
def partitions (keys : List Key) : List Key := (byPartition keys).entries.map Prod.fst

def home (keys : List Key) (e : Entry) : Nat := (partitions keys).idxOf e.partition

theorem partitions_ascend : (partitions keys).Pairwise (fun a b => Key.cmp a b = .lt) :=
  List.pairwise_map.mpr (byPartition keys).sorted

/-- The entries of a lane are of one partition, in the order of their places. -/
theorem lane_partition (at_j : (lanes contents keys)[j]? = some lane) :
    lane.Pairwise Entry.Before ∧
      ∃ p, (partitions keys)[j]? = some p ∧ ∀ e ∈ lane, e.partition = p := by
  rw [lanes, cursorsOf, List.map_map, List.getElem?_map] at at_j
  obtain ⟨⟨p, s⟩, entry, rfl⟩ := Option.map_eq_some_iff.mp at_j
  have own := List.mem_of_getElem? entry
  refine ⟨keys_before s.members_pairwise, p, ?_, fun e mem => ?_⟩
  · rw [partitions, List.getElem?_map, entry]
    rfl
  · obtain ⟨key, inside, holds⟩ := List.mem_flatMap.mp mem
    have listed : key ∈ (filesOf (byPartition keys) p).members := by
      rwa [filesOf_entry own]
    rw [Entry.partition, mem_entriesOf holds]
    exact (mem_byPartition.mp listed).2

theorem lane_home (at_j : (lanes contents keys)[j]? = some lane) : ∀ e ∈ lane, home keys e = j := by
  obtain ⟨-, p, at_p, own⟩ := lane_partition at_j
  intro e mem
  obtain ⟨inside, rfl⟩ := List.getElem?_eq_some_iff.mp at_p
  rw [home, own e mem]
  exact (byPartition keys).keys_nodup.idxOf_getElem j inside

/-- The lanes hold every event of the files. -/
theorem lanes_perm : (lanes contents keys).flatten.Perm (archive contents keys.dedup) := by
  have shared := (keys_cursorsOf_dedup keys).flatMap_right (entriesOf contents)
  rwa [List.flatMap_assoc, List.flatMap_def] at shared

end Lanes

section Merging

variable {B : Type} {parquet : Parquet B} {text : DecimalText} {objects : Objects B}
  {prefixes : List Key} {out : List StoredEvent} {keys : List Key} {a b : Entry} {i j : Nat}
  {source : Key → Except ReadError (List StoredEvent)} {merged : List Entry}

theorem archive_nodup (distinct : keys.Nodup) : (archive source keys).Nodup := by
  refine List.nodup_flatMap.mpr ⟨fun key _ => entriesOf_before.imp ?_, distinct.imp ?_⟩
  · rintro a _ before rfl
    exact before_irrefl a before
  · intro first second different e mem mem'
    exact different ((mem_entriesOf mem).symm.trans (mem_entriesOf mem'))

theorem home_getElem? (mem : a ∈ archive source keys.dedup) :
    (partitions keys)[home keys a]? = some a.partition := by
  obtain ⟨lane, on, holds⟩ := List.mem_flatten.mp (lanes_perm.mem_iff.mpr mem)
  obtain ⟨j, at_j⟩ := List.mem_iff_getElem?.mp on
  obtain ⟨-, p, at_p, own⟩ := lane_partition at_j
  rw [lane_home at_j a holds, at_p, own a holds]

/-- Lanes are in the order of their partitions. -/
theorem home_le (mem : a ∈ archive source keys.dedup) (mem' : b ∈ archive source keys.dedup)
    (order : home keys a ≤ home keys b) : (Key.cmp a.partition b.partition).isLE = true := by
  obtain ⟨inside, own⟩ := List.getElem?_eq_some_iff.mp (home_getElem? mem)
  obtain ⟨inside', own'⟩ := List.getElem?_eq_some_iff.mp (home_getElem? mem')
  rcases order.lt_or_eq with less | same
  · have before := List.pairwise_iff_getElem.mp partitions_ascend _ _ inside inside' less
    rw [own, own'] at before
    rw [before]
    rfl
  · have equal : a.partition = b.partition := by
      rw [← own, ← own']
      simp only [same]
    have self : Key.cmp b.partition b.partition = .eq := Std.ReflCmp.compare_self
    rw [equal, self]
    rfl

theorem home_partition (mem : a ∈ archive source keys.dedup)
    (mem' : b ∈ archive source keys.dedup) :
    home keys a = home keys b ↔ a.partition = b.partition := by
  constructor
  · intro same
    have own := home_getElem? mem
    rw [same, home_getElem? mem'] at own
    exact (Option.some.inj own).symm
  · intro same
    rw [home, home, same]

/-- The events that are read are those of a merge of the lanes. -/
theorem readsMany_merged (reads : ReadsMany parquet text objects prefixes out)
    (readable : ∀ key ∈ listed objects prefixes, Readable (contents objects parquet text) key) :
    ∃ merged, merged.map Entry.event = out ∧
      Merged Entry.wall (lanes (contents objects parquet text)
        (prefixes.flatMap (filesUnder objects))) merged := by
  obtain ⟨fuel, run⟩ := reads
  obtain ⟨ls, whole, plain⟩ := collect_merged run
  have readable' : ∀ key ∈ prefixes.flatMap (filesUnder objects),
      Readable (contents objects parquet text) key :=
    fun key mem => readable key (List.mem_dedup.mpr mem)
  rw [openMany, rest_cursorsOf readable'] at whole
  have held_lanes := (List.map_inj_right fun _ _ => Except.ok.inj).mp whole
  have labels : (lanes (contents objects parquet text) (prefixes.flatMap (filesUnder objects))).map
      (List.map Entry.event) = ls := by
    rw [← held_lanes, lanes, List.map_map]
    refine List.map_congr_left fun c _ => ?_
    refine List.map_flatMap.trans (List.flatMap_congr fun key _ => ?_)
    exact entriesOf_events
  rw [← labels] at plain
  obtain ⟨merged, places, same⟩ := plain.lift
  exact ⟨merged, same, places⟩

/-- A merge of the lanes has every event of the archive in its place. -/
theorem merged_correct (h : Merged Entry.wall (lanes source keys) merged) :
    CorrectMerge (archive source keys.dedup) merged := by
  have once := h.interleaved.perm.trans lanes_perm
  have ordered : ∀ lane ∈ lanes source keys, lane.Pairwise Entry.Before := by
    intro lane mem
    obtain ⟨j, at_j⟩ := List.mem_iff_getElem?.mp mem
    exact (lane_partition at_j).1
  refine ⟨once, archive_nodup keys.nodup_dedup, ?_, fun ascend => ?_⟩
  · have within := h.interleaved.within ordered fun j lane => lane_home
    refine (List.Pairwise.and_mem.mp within).imp ?_
    rintro a b ⟨mem, mem', before⟩ same
    rw [once.mem_iff] at mem mem'
    exact before ((home_partition mem mem').mpr same)
  · have ranked : merged.Pairwise (fun a b => toLex (a.wall, home keys a) ≤
        toLex (b.wall, home keys b)) := by
      refine h.ranked fun j lane at_j => lane_sorted (lane_home at_j) ?_
      obtain ⟨before, p, -, own⟩ := lane_partition at_j
      refine (List.Pairwise.and_mem.mp before).imp ?_
      rintro a b ⟨mem, mem', before⟩
      have inside : ∀ e ∈ lane, e ∈ archive source keys.dedup := fun e holds =>
        lanes_perm.mem_iff.mp (List.mem_flatten.mpr ⟨lane, List.mem_of_getElem? at_j, holds⟩)
      exact ascend a (inside a mem) b (inside b mem') ((own a mem).trans (own b mem').symm) before
    refine (List.Pairwise.and_mem.mp ranked).imp ?_
    rintro a b ⟨mem, mem', order⟩
    rw [once.mem_iff] at mem mem'
    rcases Prod.Lex.toLex_le_toLex.mp order with less | ⟨same, homes⟩
    · exact .inl less
    · exact .inr ⟨same, home_le mem mem' homes⟩

/-- Files that can be read are read to the end. -/
theorem reads_all
    (readable : ∀ key ∈ listed objects prefixes, Readable (contents objects parquet text) key) :
    ∃ out, ReadsMany parquet text objects prefixes out := by
  obtain ⟨fuel, out, run, -⟩ := collect_complete (rest_cursorsOf fun key mem =>
    readable key (List.mem_dedup.mpr mem))
  exact ⟨out, fuel, run⟩

/-- Files that can be read are read to the end, as one merge of all their events. -/
theorem reads_merge
    (readable : ∀ key ∈ listed objects prefixes, Readable (contents objects parquet text) key) :
    (∃ out, ReadsMany parquet text objects prefixes out) ∧
      ∀ out, ReadsMany parquet text objects prefixes out →
        ∃ merged, merged.map Entry.event = out ∧
          CorrectMerge (archive (contents objects parquet text) (listed objects prefixes))
            merged := by
  refine ⟨reads_all readable, fun out reads => ?_⟩
  obtain ⟨merged, same, places⟩ := readsMany_merged reads readable
  exact ⟨merged, same, merged_correct places⟩

end Merging

open ArchiveContents (plainParquet)

/-- Two runs, of two symbols: the partitions have three files and one. -/
def sampleStore : Objects (List (List Row)) :=
  ArchiveContents.sampleRun (ArchiveContents.sampleRun .empty ArchiveContents.earlierEvents)
    ArchiveContents.sampleEvents

theorem reads_merge_sample :
    ((cursorsOf (listed sampleStore [[], "events".toList])).map (fun c => c.keys.length) = [3, 1]) ∧
      (∃ out, ReadsMany plainParquet DecimalText.plain sampleStore [[], "events".toList] out) ∧
      ∀ out, ReadsMany plainParquet DecimalText.plain sampleStore [[], "events".toList] out →
        ∃ merged, merged.map Entry.event = out ∧ CorrectMerge
          (archive (contents sampleStore plainParquet DecimalText.plain)
            (listed sampleStore [[], "events".toList])) merged := by
  refine ⟨by decide +kernel, reads_merge ?_⟩
  unfold Readable
  decide +kernel

end ArchiveMerge

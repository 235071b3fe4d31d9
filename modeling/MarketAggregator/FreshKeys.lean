import MarketAggregator.ArchiveContents
import MarketAggregator.ArchivePuts

/-!
# No file is overwritten

The part numbers of a directory only grow in the life of a writer, from a number that its
listing had not reached. Every put is therefore to a key of its own, and files that are
open together have different keys. A restart lists what the earlier writers stored.
-/

namespace FreshKeys

open ArchiveContents ArchiveKeys ArchivePuts ArchiveReader ArchiveRows ArchiveRuns ArchiveWriter
  Clocks GuardedRuns MarketEvents OrderedMaps

variable {B : Type}

def keysOf (objects : Objects B) : List Key := objects.entries.map Prod.fst

/-- A key that is stored, put or open has a number below the next one of its directory, and
no next number exceeds a limit. -/
structure Keyed (under : Key) (limit : Nat) (puts : List Key) (w : EventWriter B) : Prop where
  keyPrefix : w.keyPrefix = under
  small : PartsBelow limit (keysOf w.objects)
  parts : ∀ dir m, w.parts.find? dir = some m →
    m ≤ limit ∧ ∀ n, partKey dir n ∈ keysOf w.objects → n < m
  openKey : ∀ p file, w.opened.find? p = some file → Issued w under p file.key
  used : ∀ key ∈ puts, ∃ p, Issued w under p key
  idle : ∀ p file, w.opened.find? p = some file →
    file.key ∉ puts ∧ file.key ∉ keysOf w.objects

section Steps

variable {parquet : Parquet B} {refuses keeps : Nat → Bool} {under : Key} {limit : Nat}
  {puts : List Key} {w v : EventWriter B} {event : MarketEvent} {partition key : Key}
  {file : OpenFile} {bytes : B}

theorem mem_keysOf_insert {objects : Objects B} {k : Key} :
    k ∈ keysOf (objects.insert key bytes) ↔ k = key ∨ k ∈ keysOf objects := by
  have lookup : ∀ m : Objects B, k ∈ keysOf m ↔ (m.find? k).isSome = true := by
    intro m
    rw [keysOf, OrderedMap.isSome_find?, List.mem_map]
    constructor
    · rintro ⟨e, mem, rfl⟩
      exact ⟨e, mem, Std.LawfulEqCmp.compare_eq_iff_eq.mpr rfl⟩
    · rintro ⟨e, mem, same⟩
      exact ⟨e, mem, (Std.LawfulEqCmp.eq_of_compare same).symm⟩
  rw [lookup, lookup, OrderedMap.find?_insert]
  simp only [Std.LawfulEqCmp.compare_eq_iff_eq]
  by_cases same : k = key
  · simp [same]
  · simp [same]

/-- Only the prefix, the objects, the next parts and the keys of the open files matter. -/
theorem Keyed.congr (keyed : Keyed under limit puts w) (same : v.keyPrefix = w.keyPrefix)
    (objects : v.objects = w.objects) (parts : v.parts = w.parts)
    (opened : ∀ p later, v.opened.find? p = some later →
      ∃ file, w.opened.find? p = some file ∧ later.key = file.key) :
    Keyed under limit puts v := by
  have issued : ∀ p key, Issued w under p key → Issued v under p key := by
    rintro p key ⟨wall, n, m, named, known, below⟩
    exact ⟨wall, n, m, named, by rw [parts, known], below⟩
  constructor
  case keyPrefix => exact same.trans keyed.keyPrefix
  case small =>
    rw [objects]
    exact keyed.small
  case parts =>
    rw [objects, parts]
    exact keyed.parts
  case openKey =>
    intro p later there
    obtain ⟨file, found, key⟩ := opened p later there
    rw [key]
    exact issued p _ (keyed.openKey p file found)
  case used => exact fun key mem => (keyed.used key mem).imp fun p => issued p key
  case idle =>
    intro p later there
    obtain ⟨file, found, key⟩ := opened p later there
    rw [key, objects]
    exact keyed.idle p file found

/-- The file of a partition is closed, and its key is put. -/
theorem Keyed.issue (keyed : Keyed under limit puts w)
    (found : w.opened.find? partition = some file) (same : v.keyPrefix = w.keyPrefix)
    (objects : v.objects = w.objects) (parts : v.parts = w.parts)
    (opened : v.opened = w.opened.remove partition) :
    Keyed under limit (puts ++ [file.key]) v := by
  have still : ∀ p other, v.opened.find? p = some other →
      p ≠ partition ∧ w.opened.find? p = some other := by
    intro p other there
    rw [opened, OrderedMap.find?_remove] at there
    simp only [Std.LawfulEqCmp.compare_eq_iff_eq] at there
    split at there
    · cases there
    · rename_i other_partition
      exact ⟨other_partition, there⟩
  have kept : Keyed under limit puts v :=
    keyed.congr same objects parts fun p other there => ⟨other, (still p other there).2, rfl⟩
  have own : Issued v under partition file.key := by
    obtain ⟨wall, n, m, named, known, below⟩ := keyed.openKey partition file found
    exact ⟨wall, n, m, named, by rw [parts, known], below⟩
  constructor
  case keyPrefix => exact kept.keyPrefix
  case small => exact kept.small
  case parts => exact kept.parts
  case openKey => exact kept.openKey
  case used =>
    intro key mem
    rcases List.mem_append.mp mem with old | new
    · exact kept.used key old
    · obtain rfl := List.mem_singleton.mp new
      exact ⟨partition, own⟩
  case idle =>
    intro p other there
    refine ⟨fun mem => ?_, (kept.idle p other there).2⟩
    rcases List.mem_append.mp mem with old | new
    · exact (kept.idle p other there).1 old
    · have key := kept.openKey p other there
      rw [List.mem_singleton.mp new] at key
      exact (still p other there).1 (partition_of_issued key own)

/-- A key that was put can be stored. -/
theorem Keyed.store (keyed : Keyed under limit puts w) (room : limit ≤ u64Max)
    (mem : key ∈ puts) (same : v.keyPrefix = w.keyPrefix)
    (objects : v.objects = w.objects.insert key bytes) (parts : v.parts = w.parts)
    (opened : v.opened = w.opened) : Keyed under limit puts v := by
  obtain ⟨p, wall, k, m, rfl, known, below⟩ := keyed.used key mem
  have bounded := (keyed.parts _ m known).1
  have cases : ∀ other, other ∈ keysOf v.objects ↔
      other = partKey (dirFor under p wall) k ∨ other ∈ keysOf w.objects := by
    intro other
    rw [objects]
    exact mem_keysOf_insert
  constructor
  case keyPrefix => exact same.trans keyed.keyPrefix
  case small =>
    constructor
    · intro other mem n number
      rcases (cases other).mp mem with rfl | old
      · rw [partNumber_partKey (by omega)] at number
        obtain rfl := Option.some.inj number
        omega
      · exact keyed.small.read other old n number
    · intro dir n mem
      rcases (cases _).mp mem with new | old
      · obtain ⟨-, rfl⟩ := partKey_injective new
        omega
      · exact keyed.small.named dir n old
  case parts =>
    intro dir next there
    rw [parts] at there
    obtain ⟨most, all⟩ := keyed.parts dir next there
    refine ⟨most, fun n mem => ?_⟩
    rcases (cases _).mp mem with new | old
    · obtain ⟨rfl, rfl⟩ := partKey_injective new
      obtain rfl := Option.some.inj (known.symm.trans there)
      exact below
    · exact all n old
  case openKey =>
    intro q file there
    rw [opened] at there
    obtain ⟨wall', n, m', named, known', below'⟩ := keyed.openKey q file there
    exact ⟨wall', n, m', named, by rw [parts, known'], below'⟩
  case used =>
    intro other on
    obtain ⟨q, wall', n, m', named, known', below'⟩ := keyed.used other on
    exact ⟨q, wall', n, m', named, by rw [parts, known'], below'⟩
  case idle =>
    intro q file there
    rw [opened] at there
    obtain ⟨unput, absent⟩ := keyed.idle q file there
    refine ⟨unput, fun mem' => ?_⟩
    rcases (cases _).mp mem' with new | old
    · rw [new] at unput
      exact unput mem
    · exact absent old

/-- The next number of a directory is above all stored ones. -/
theorem Keyed.nextPartOf_new (keyed : Keyed under limit puts w) (room : limit ≤ u64Max) :
    nextPartOf w (dirOf w event) ≤ limit ∧
      ∀ n, partKey (dirOf w event) n ∈ keysOf w.objects → n < nextPartOf w (dirOf w event) := by
  rw [nextPartOf]
  cases known : w.parts.find? (dirOf w event) with
  | some next => exact keyed.parts _ next known
  | none =>
    constructor
    · exact nextPart_le keyed.small List.filter_sublist.subset
    · intro n mem
      exact part_lt_nextPart keyed.small room mem ((mem_list w.objects).mpr mem)

/-- The key of a new file is neither stored nor put. -/
theorem Keyed.started (keyed : Keyed under limit puts w) (room : limit ≤ u64Max) :
    Keyed under (limit + 1) puts (w.started event) := by
  have ⟨most, above⟩ : nextPartOf w (dirOf w event) ≤ limit ∧ _ := keyed.nextPartOf_new room
  have cases : ∀ p file, (w.started event).opened.find? p = some file →
      p = partitionFor event ∧ file = newFile w event ∨ w.opened.find? p = some file := by
    intro p file there
    rw [started_opened] at there
    by_cases same : p = partitionFor event
    · rw [if_pos same] at there
      exact .inl ⟨same, (Option.some.inj there).symm⟩
    · rw [if_neg same] at there
      exact .inr there
  constructor
  case keyPrefix => exact keyed.keyPrefix
  case small =>
    exact ⟨fun key mem n number => Nat.lt_succ_of_lt (keyed.small.read key mem n number),
      fun dir n mem => Nat.lt_succ_of_lt (keyed.small.named dir n mem)⟩
  case parts =>
    intro dir m known
    rw [started_parts] at known
    by_cases here : dir = dirOf w event
    · rw [if_pos here] at known
      obtain rfl := Option.some.inj known
      refine ⟨by omega, fun n mem => ?_⟩
      rw [here] at mem
      exact Nat.lt_succ_of_lt (above n mem)
    · rw [if_neg here] at known
      obtain ⟨bounded, all⟩ := keyed.parts dir m known
      exact ⟨by omega, all⟩
  case openKey =>
    intro p file there
    rcases cases p file there with ⟨rfl, rfl⟩ | before
    · refine ⟨event.ingestTs.wall, nextPartOf w (dirOf w event), _, ?_,
        (started_parts _).trans (if_pos ?_), Nat.lt_succ_self _⟩
      · rw [newFile, nextKey, dirOf, keyed.keyPrefix]
      · rw [dirOf, keyed.keyPrefix]
    · exact issued_started (keyed.openKey p file before)
  case used => exact fun key mem => (keyed.used key mem).imp fun p => issued_started
  case idle =>
    intro p file there
    rcases cases p file there with ⟨rfl, rfl⟩ | before
    · constructor
      · intro mem
        obtain ⟨q, wall, n, m, named, known, below⟩ := keyed.used _ mem
        obtain ⟨dirs, number⟩ := partKey_injective named
        rw [nextPartOf, dirs, known, Option.getD_some] at number
        omega
      · intro mem
        exact absurd (above _ mem) (Nat.lt_irrefl _)
    · exact keyed.idle p file before

theorem Keyed.widen (keyed : Keyed under limit puts w) : Keyed under (limit + 1) puts w where
  keyPrefix := keyed.keyPrefix
  small := ⟨fun key mem n number => Nat.lt_succ_of_lt (keyed.small.read key mem n number),
    fun dir n mem => Nat.lt_succ_of_lt (keyed.small.named dir n mem)⟩
  parts := fun dir m known => ⟨Nat.le_succ_of_le (keyed.parts dir m known).1,
    (keyed.parts dir m known).2⟩
  openKey := keyed.openKey
  used := keyed.used
  idle := keyed.idle

theorem Keyed.recount (keyed : Keyed under limit puts w) (n : Nat) :
    Keyed under limit puts { w with calls := n } :=
  keyed.congr rfl rfl rfl fun _ file there => ⟨file, there, rfl⟩

theorem Keyed.setFile (keyed : Keyed under limit puts w)
    (found : w.opened.find? partition = some file) {later : OpenFile}
    (key : later.key = file.key) (seq : Int) :
    Keyed under limit puts
      { w with eventSeq := seq, opened := w.opened.insert partition later } := by
  refine keyed.congr rfl rfl rfl fun p other there => ?_
  rw [show ({ w with eventSeq := seq, opened := w.opened.insert partition later } :
    EventWriter B).opened = w.opened.insert partition later from rfl,
    OrderedMap.find?_insert] at there
  simp only [Std.LawfulEqCmp.compare_eq_iff_eq] at there
  split at there
  · rename_i same
    obtain rfl := Option.some.inj there
    exact ⟨file, by rw [same, found], key⟩
  · exact ⟨other, there, rfl⟩

/-- Whether or not a file can be opened, the keys stay apart. -/
theorem Keyed.ensureOpen (keyed : Keyed under limit puts w) (room : limit ≤ u64Max) :
    Ends (ensureOpen refuses event) w (fun _ v => Keyed under (limit + 1) puts v)
      (Keyed under (limit + 1) puts) := by
  refine .bind (ends_get ?_)
  split
  · refine .bind (.bind (ends_ask (fun _ => ?_) fun _ => keyed.widen.recount _))
    refine .bind (ends_get (.bind (ends_nextPartIn.mono ?_ ?_)))
    · rintro part v ⟨rfl, n, rfl⟩
      refine .bind (ends_modify (ends_pure ?_))
      refine .bind (ends_get (ends_modify ?_))
      exact (keyed.started room).congr rfl rfl rfl fun p file there => ⟨file, there, rfl⟩
    · rintro v ⟨n, rfl⟩
      exact keyed.widen.recount n
  · exact ends_pure keyed.widen

/-- An open file that grows keeps its key. -/
theorem Keyed.extend (keyed : Keyed under limit puts w) (base : IngestTime) :
    Ends (extend refuses event base) w (fun _ v => Keyed under limit puts v)
      (Keyed under limit puts) := by
  refine .bind (ends_modify (.bind (ends_get ?_)))
  cases found : w.opened.find? (partitionFor event) with
  | none => exact ends_pure (keyed.congr rfl rfl rfl fun p file there => ⟨file, there, rfl⟩)
  | some file =>
    have grown := keyed.setFile found
      (show (file.add (flatten event (w.eventSeq + 1) base)).key = file.key from rfl)
      (w.eventSeq + 1)
    refine .bind (ends_modify ?_)
    split
    · refine .bind (ends_flush.mono ?_ ?_)
      · rintro flushed v ⟨rfl, n, rfl⟩
        refine ends_modify ?_
        refine (grown.recount n).setFile ?_ written_key (w.eventSeq + 1)
        exact (OrderedMap.find?_insert ..).trans
          (if_pos (Std.LawfulEqCmp.compare_eq_iff_eq.mpr rfl))
      · rintro v ⟨n, rfl⟩
        exact grown.recount n
    · exact ends_pure grown

def putKeys (put : Option (Put B)) : List Key := (put.map Put.key).toList

/-- A step keeps the keys apart, and its put is to a new key. -/
structure Sound (keeps : Nat → Bool) (under : Key) (limit : Nat) (puts : List Key)
    (put : Option (Put B)) (v : EventWriter B) : Prop where
  keyed : Keyed under limit (puts ++ putKeys put) (settled keeps v put)
  new : ∀ x, put = some x → x.key ∉ puts ∧ x.key ∉ keysOf x.found

theorem sound_none (keyed : Keyed under limit puts w) : Sound keeps under limit puts none w where
  keyed := by
    rw [show putKeys (none : Option (Put B)) = [] from rfl, List.append_nil]
    exact keyed
  new := nofun

theorem calm_none (x : Put B) (none_is : none = some x) : x.failed = false := by cases none_is

theorem Keyed.taken (keyed : Keyed under limit puts w) (n : Nat) :
    Keyed under limit puts (taken w partition n) := by
  refine keyed.congr rfl rfl rfl fun p other there => ⟨other, ?_, rfl⟩
  rw [ArchivePuts.taken, OrderedMap.find?_remove] at there
  split at there
  · cases there
  · exact there

/-- A roll that succeeds has had a put that did not fail, or none. -/
theorem Keyed.roll (keyed : Keyed under limit puts w) (room : limit ≤ u64Max) :
    Ends (roll parquet refuses partition) w
      (fun _ v => (∀ x, putOf parquet refuses w partition = some x → x.failed = false) ∧
        Sound keeps under limit puts (putOf parquet refuses w partition) v)
      (Sound keeps under limit puts (putOf parquet refuses w partition)) := by
  rw [roll_eq]
  have finished : Ends (finish refuses partition) w _ _ := ends_finish
  refine .bind ?_
  rw [Ends] at finished ⊢
  rw [putOf]
  cases outcome : finish refuses partition w with
  | mk result u =>
    rw [outcome] at finished
    cases result with
    | error e =>
      obtain ⟨file, n, found, rfl⟩ := finished
      exact sound_none (keyed.taken n)
    | ok out =>
      rcases finished with ⟨-, rfl, rfl⟩ | ⟨file, n, found, rfl, rfl⟩
      · exact ends_pure ⟨calm_none, sound_none keyed⟩
      · have unused := keyed.idle partition file found
        have issued : Keyed under limit (puts ++ [file.key]) (ArchivePuts.taken w partition n) :=
          keyed.issue found rfl rfl rfl rfl
        have own : file.key ∈ puts ++ [file.key] := List.mem_append_right _ List.mem_cons_self
        have new : file.written.key ∉ puts ∧ file.written.key ∉ keysOf w.objects := by
          rwa [written_key]
        refine .bind (ends_ask (fun taken => ends_modify ⟨?_, ?_, ?_⟩) fun refused => ⟨?_, ?_⟩)
        · rintro x ⟨⟩
          exact taken
        · change Keyed _ _ (puts ++ [file.written.key]) (settle keeps _ _)
          rw [settle, if_neg (by simp [taken]), written_key]
          exact issued.store room own rfl rfl rfl rfl
        · rintro x ⟨⟩
          exact new
        · change Keyed _ _ (puts ++ [file.written.key]) (settle keeps _ _)
          rw [settle, written_key]
          split
          · exact issued.store room own rfl rfl rfl rfl
          · exact issued.recount _
        · rintro x ⟨⟩
          exact new

theorem Sound.widen {put : Option (Put B)} (sound : Sound keeps under limit puts put v) :
    Sound keeps under (limit + 1) puts put v := ⟨sound.keyed.widen, sound.new⟩

theorem settled_calm {put : Option (Put B)} (calm : ∀ x, put = some x → x.failed = false) :
    settled keeps v put = v := by
  cases put with
  | none => rfl
  | some x =>
    have good := calm x rfl
    exact if_neg (by simp [good])

/-- What follows a put that did not fail keeps the keys apart. -/
theorem Sound.later {put : Option (Put B)} {limit' : Nat}
    (sound : Sound keeps under limit puts put v) (calm : ∀ x, put = some x → x.failed = false)
    {u : EventWriter B} (keyed : Keyed under limit' (puts ++ putKeys put) u) :
    Sound keeps under limit' puts put u where
  keyed := by rwa [settled_calm calm]
  new := sound.new

/-- An append takes at most one number. -/
theorem Keyed.append (keyed : Keyed under limit puts w) (room : limit ≤ u64Max) :
    Ends (append parquet refuses event) w
      (fun _ => Sound keeps under (limit + 1) puts ((Move.append event).put parquet refuses w))
      (Sound keeps under (limit + 1) puts ((Move.append event).put parquet refuses w)) := by
  have based : Keyed under limit puts (w.based event) :=
    keyed.congr rfl rfl rfl fun p file there => ⟨file, there, rfl⟩
  have rest : ∀ (put : Option (Put B)) (v : EventWriter B) base,
      Keyed under limit (puts ++ putKeys put) v →
      Ends (ArchiveWriter.ensureOpen refuses event >>= fun _ =>
          ArchiveWriter.extend refuses event base) v
        (fun _ => Keyed under (limit + 1) (puts ++ putKeys put))
        (Keyed under (limit + 1) (puts ++ putKeys put)) := by
    intro put v base keyed
    exact .bind ((keyed.ensureOpen room).mono (fun _ u opened => opened.extend base)
      fun u failed => failed)
  have rotated : Ends (rotate parquet refuses event) (w.based event)
      (fun _ v => (∀ x, (Move.append event).put parquet refuses w = some x → x.failed = false) ∧
        Sound keeps under limit puts ((Move.append event).put parquet refuses w) v)
      (Sound keeps under limit puts ((Move.append event).put parquet refuses w)) := by
    refine .bind (ends_get ?_)
    rw [Move.put]
    change Ends (if (w.opened.find? (partitionFor event)).any (mustRotate w.config event) = true
      then _ else _) _ _ _
    split
    · exact based.roll room
    · exact ends_pure ⟨calm_none, sound_none based⟩
  refine .bind (ends_get (.bind (ends_modify (.bind (rotated.mono ?_ ?_)))))
  · rintro _ v ⟨calm, sound⟩
    have before := sound.keyed
    rw [settled_calm calm] at before
    exact (rest _ v _ before).mono (fun _ u keyed => sound.later calm keyed)
      fun u keyed => sound.later calm keyed
  · exact fun v sound => sound.widen

end Steps

section Sessions

variable {parquet : Parquet B} {refuses keeps : Nat → Bool} {under raw : Key} {limit : Nat}
  {puts : List Key} {w v : EventWriter B} {s : Progress B} {start : Objects B}

/-- How many numbers a move may take. -/
def Move.cost : Move → Nat
  | .append _ => 1
  | .roll _ => 0

theorem settled_counters (put : Option (Put B)) (counters : ArchiveCounters) :
    settled keeps { w with counters := counters } put =
      { settled keeps w put with counters := counters } := by
  cases put with
  | none => rfl
  | some x =>
    simp only [settled, Option.elim_some, settle]
    split <;> rfl

/-- Counting a failure changes no key. -/
theorem sound_attempt {x : Writing B Unit} {put : Option (Put B)}
    (ends : Ends x w (fun _ => Sound keeps under limit puts put)
      (Sound keeps under limit puts put)) :
    Sound keeps under limit puts put (attempt x w).2 := by
  refine Ends.attempt (ends.mono (fun _ _ sound => sound) fun u sound => ⟨?_, sound.new⟩)
  rw [settled_counters]
  exact sound.keyed.congr rfl rfl rfl fun p file there => ⟨file, there, rfl⟩

theorem Keyed.move (keyed : Keyed under limit puts w) (m : Move)
    (room : limit ≤ u64Max) : Sound keeps under (limit + Move.cost m) puts
      (m.put parquet refuses w) (m.next parquet refuses w) := by
  cases m with
  | append event => exact sound_attempt (keyed.append room)
  | roll partition =>
    exact sound_attempt ((keyed.roll room).mono (fun _ _ done => done.2) fun _ failed => failed)

/-- No put so far found its key in the store or used it before, and open files have
different keys. -/
structure Tidy (s : Progress B) : Prop where
  found : ∀ put ∈ s.puts, put.key ∉ keysOf put.found
  apart : (s.puts.map Put.key).Nodup
  opened : ∀ p q file other, s.writer.opened.find? p = some file →
    s.writer.opened.find? q = some other → file.key = other.key → p = q

structure Kept (under : Key) (limit : Nat) (s : Progress B) : Prop where
  keyed : Keyed under limit (s.puts.map Put.key) s.writer
  found : ∀ put ∈ s.puts, put.key ∉ keysOf put.found
  apart : (s.puts.map Put.key).Nodup

theorem Kept.tidy (kept : Kept under limit s) : Tidy s where
  found := kept.found
  apart := kept.apart
  opened := by
    intro p q file other here there same
    have own := kept.keyed.openKey p file here
    rw [same] at own
    exact partition_of_issued own (kept.keyed.openKey q other there)

theorem Kept.act (kept : Kept under limit s) (m : Move) (room : limit ≤ u64Max) :
    Kept under (limit + Move.cost m) (s.act parquet refuses keeps m) := by
  have sound : Sound keeps under (limit + Move.cost m) _ (m.put parquet refuses s.writer)
      (m.next parquet refuses s.writer) := kept.keyed.move m room
  rw [Progress.act]
  cases issued : m.put parquet refuses s.writer with
  | none =>
    rw [issued] at sound
    have keyed := sound.keyed
    rw [show putKeys (none : Option (Put B)) = [] from rfl, List.append_nil] at keyed
    rw [Option.toList_none, List.append_nil]
    exact ⟨keyed, kept.found, kept.apart⟩
  | some put =>
    rw [issued] at sound
    obtain ⟨unput, absent⟩ := sound.new put rfl
    rw [Option.toList_some]
    constructor
    case keyed =>
      rw [List.map_append]
      exact sound.keyed
    case found =>
      intro x mem
      rcases List.mem_append.mp mem with old | new
      · exact kept.found x old
      · rwa [List.mem_singleton.mp new]
    case apart =>
      rw [List.map_append]
      refine List.nodup_append.mpr ⟨kept.apart, List.nodup_singleton _, ?_⟩
      rintro key old other new rfl
      rw [List.mem_singleton.mp new] at old
      exact unput old

theorem Kept.rolls (partitions : List Key) (kept : Kept under limit s) (room : limit ≤ u64Max) :
    Kept under limit
      (exec (Progress.act parquet refuses keeps) s (partitions.map .roll)) := by
  induction partitions generalizing s with
  | nil => exact kept
  | cons partition partitions ih => exact ih (kept.act (.roll partition) room)

/-- Only an append takes a number. -/
theorem Kept.perform (kept : Kept under limit s) (a : Action) (room : limit ≤ u64Max) :
    Kept under (limit + a.appends) (s.perform parquet refuses keeps a) := by
  cases a with
  | append event => exact kept.act (.append event) room
  | close => exact kept.rolls _ room

theorem Kept.run (actions : List Action) (kept : Kept under limit s)
    (room : limit + (actions.map Action.appends).sum ≤ u64Max) :
    Kept under (limit + (actions.map Action.appends).sum)
      (exec (Progress.perform parquet refuses keeps) s actions) := by
  induction actions generalizing s limit with
  | nil => exact kept
  | cons a actions ih =>
    rw [List.map_cons, List.sum_cons] at room ⊢
    rw [← Nat.add_assoc] at room ⊢
    exact ih (kept.perform a (by omega)) room

/-- A writer that is started has issued no key and reads every stored one. -/
theorem kept_opening (small : PartsBelow limit (keysOf start)) (config : WriterConfig)
    (counters : ArchiveCounters) :
    Kept (intoPrefix raw) limit ⟨opening start raw config counters, []⟩ where
  keyed :=
    { keyPrefix := rfl
      small := small
      parts := nofun
      openKey := nofun
      used := nofun
      idle := nofun }
  found := nofun
  apart := List.nodup_nil

theorem Session.kept (session : Session) (small : PartsBelow limit (keysOf start))
    (room : limit + session.appends ≤ u64Max) :
    Kept (intoPrefix raw) (limit + session.appends)
      (session.after parquet raw start session.actions) :=
  (kept_opening small session.config session.counters).run session.actions room

theorem small_leftBy (sessions : List Session) (small : PartsBelow limit (keysOf start))
    (room : limit + (sessions.map Session.appends).sum ≤ u64Max) :
    PartsBelow (limit + (sessions.map Session.appends).sum)
      (keysOf (leftBy parquet raw start sessions)) := by
  induction sessions generalizing start limit with
  | nil => exact small
  | cons session sessions ih =>
    rw [List.map_cons, List.sum_cons] at room ⊢
    rw [← Nat.add_assoc] at room ⊢
    exact ih (Session.kept session small (by omega)).keyed.small room

/-- After any earlier sessions, and whatever a session has done, no file was overwritten. -/
theorem never_overwrites {earlier : List Session} {session : Session}
    (small : PartsBelow (2 ^ 63) (keysOf start))
    (few : ((earlier ++ [session]).map Session.appends).sum < 2 ^ 63) :
    Tidy (session.after parquet raw (leftBy parquet raw start earlier) session.actions) := by
  rw [List.map_append, List.sum_append, List.map_singleton, List.sum_singleton] at few
  have most : u64Max = 2 ^ 64 - 1 := rfl
  have left : PartsBelow _ (keysOf (leftBy parquet raw start earlier)) :=
    small_leftBy earlier small (by omega)
  exact (Session.kept session left (by omega)).tidy

end Sessions

section Examples

def beat : MarketEvent where
  venue := .kraken
  symbol := ⟨"BTC-USD"⟩
  venueTs := none
  ingestTs := ⟨0, 0⟩
  kind := .heartbeat none

/-- A writer that appends one event and is closed, and no call of it fails. -/
def single : Session where
  config := .default
  counters := .zero
  refuses := fun _ => false
  keeps := fun _ => false
  actions := [.append beat, .close]

def beatDir : Key := dirFor "events".toList "BTC-USD".toList 0

/-- A store with one object. -/
def holding (part : Nat) : Objects (List (List Row)) :=
  OrderedMap.empty.insert (partKey beatDir part) []

theorem holding_small {part : Nat} (small : part < 2 ^ 63) :
    PartsBelow (2 ^ 63) (keysOf (holding part)) := by
  refine partsBelow_of_named (by decide) fun key mem => ?_
  exact ⟨_, _, _, part, (mem_keysOf_insert.mp mem).resolve_right List.not_mem_nil, small⟩

theorem never_overwrites_sample :
    Tidy (single.after plainParquet "events".toList
      (leftBy plainParquet "events".toList (holding 7) [single, single]) single.actions) :=
  never_overwrites (holding_small (by decide)) (by decide)

/-- The key that a single writer puts its file under. -/
def singleKey (objects : Objects (List (List Row))) : Key :=
  partKey beatDir (nextPart (Objects.list objects beatDir))

theorem single_left (objects : Objects (List (List Row))) :
    single.left plainParquet "events".toList objects =
      objects.insert (singleKey objects) [flatten beat 1 ⟨0, 0⟩] := rfl

theorem single_puts (objects : Objects (List (List Row))) :
    (single.after plainParquet "events".toList objects single.actions).puts =
      [⟨5, objects, singleKey objects, [flatten beat 1 ⟨0, 0⟩], false⟩] := rfl

/-- The store after a number of single writers. -/
def leftBySingles (n : Nat) : Objects (List (List Row)) :=
  leftBy plainParquet "events".toList (holding (2 ^ 63 - 1)) (List.replicate n single)

theorem leftBySingles_succ (n : Nat) : leftBySingles (n + 1) =
    (leftBySingles n).insert (singleKey (leftBySingles n)) [flatten beat 1 ⟨0, 0⟩] := by
  rw [leftBySingles, List.replicate_succ', leftBy, exec, List.foldl_append, ← single_left]
  rfl

/-- The numbers grow by one until they are at their largest. -/
theorem singles_part (n : Nat) :
    min (2 ^ 63 + n) u64Max ≤ nextPart (Objects.list (leftBySingles n) beatDir) := by
  have most : u64Max = 2 ^ 64 - 1 := rfl
  induction n with
  | zero =>
    have there : partKey beatDir (2 ^ 63 - 1) ∈ keysOf (leftBySingles 0) :=
      mem_keysOf_insert.mpr (.inl rfl)
    have past := nextPart_past ((mem_list _).mpr there) (partNumber_partKey (by omega))
    omega
  | succ n ih =>
    have fits := nextPart_le_max (Objects.list (leftBySingles n) beatDir)
    have there : singleKey (leftBySingles n) ∈ keysOf (leftBySingles (n + 1)) := by
      rw [leftBySingles_succ]
      exact mem_keysOf_insert.mpr (.inl rfl)
    have past := nextPart_past ((mem_list _).mpr there) (partNumber_partKey (by omega))
    omega

/-- The largest number is given twice. -/
theorem singles_full {n : Nat} (full : u64Max ≤ 2 ^ 63 + n) :
    singleKey (leftBySingles (n + 1)) ∈ keysOf (leftBySingles (n + 1)) := by
  have numbered : ∀ m, n ≤ m → singleKey (leftBySingles m) = partKey beatDir u64Max := by
    intro m later
    have fits := nextPart_le_max (Objects.list (leftBySingles m) beatDir)
    have past := singles_part m
    rw [singleKey, show nextPart (Objects.list (leftBySingles m) beatDir) = u64Max by omega]
  have there : singleKey (leftBySingles n) ∈ keysOf (leftBySingles (n + 1)) := by
    rw [leftBySingles_succ]
    exact mem_keysOf_insert.mpr (.inl rfl)
  rwa [numbered n le_rfl, ← numbered (n + 1) (by omega)] at there

theorem single_overwrites {n : Nat} (full : u64Max ≤ 2 ^ 63 + n) :
    ∃ put ∈ (single.after plainParquet "events".toList (leftBySingles (n + 1))
      single.actions).puts, put.key ∈ keysOf put.found := by
  rw [single_puts]
  exact ⟨_, List.mem_singleton_self _, singles_full full⟩

/-- With 2^63 writers before it, a writer overwrites the last of their files. -/
theorem overwrites_last : PartsBelow (2 ^ 63) (keysOf (holding (2 ^ 63 - 1))) ∧
    ∃ put ∈ (single.after plainParquet "events".toList
        (leftBy plainParquet "events".toList (holding (2 ^ 63 - 1))
          (List.replicate (2 ^ 63 - 1 + 1) single)) single.actions).puts,
      put.key ∈ keysOf put.found :=
  ⟨holding_small (by decide), single_overwrites (by decide)⟩

end Examples

end FreshKeys

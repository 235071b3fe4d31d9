import MarketAggregator.ArchiveReader
import MarketAggregator.DirectoryTrees
import MarketAggregator.RegistryFiles

/-!
# A directory as a store of objects

A key is a path below the root. Its bytes are written to another name in the same directory and
renamed, so several writers at work, and writers that die at any step, leave partial files under
names of their own. A listing walks the directories, in whatever order they are read, and hides
these names. What remains to be seen is an object store in which every put happens at once.
-/

namespace LocalStore

open ArchiveKeys DirectoryTrees GuardedRuns OrderedMaps RegistryFiles
open ArchiveReader (Objects)

abbrev Bytes := List UInt8

/-- The names on the way from the root. -/
abbrev Path := List Key

def Path.cmp : Path → Path → Ordering := compare

instance pathTransCmp : Std.TransCmp Path.cmp := inferInstanceAs (Std.TransOrd (List (List Char)))

instance pathLawfulEqCmp : Std.LawfulEqCmp Path.cmp :=
  inferInstanceAs (Std.LawfulEqOrd (List (List Char)))

inductive StoreError where
  | io (key : Key)
  | rejected (key : Key) (message : String)
  deriving DecidableEq

/-- The path of a key. Empty parts and inner dots are no components. -/
def resolve (key : Key) : Except StoreError Path :=
  if key = [] then .error (.rejected key "empty key")
  else if key.head? = some '/' then
    .error (.rejected key "absolute keys would escape the store root")
  else
    let parts := key.splitOn '/'
    if parts.head? = some ['.'] ∨ ∃ part ∈ parts, part = ['.', '.'] then
      .error (.rejected key "key contains a traversal or root component")
    else .ok (parts.filter (fun part => part ≠ [] ∧ part ≠ ['.']))

/-- A path as it is listed. -/
def keyOf (path : Path) : Key :=
  (['/'].intercalate path).map (fun c => if c = '\\' then '/' else c)

/-- The last name with another extension. -/
def staging (path : Path) : Path :=
  match path.getLast? with
  | none => path
  | some name => path.dropLast ++ [(withExtension (String.ofList name) "partial").toList]

def isPartial (path : Path) : Bool :=
  path.getLast?.any (fun name => extension (String.ofList name) = some "partial")

abbrev Files := Tree Key Bytes Path.cmp

/-- Create a file, or empty it. -/
def openFile (tree : Files) (path : Path) : Option Files :=
  match tree.find? path.dropLast, tree.find? path with
  | some .dir, some .dir => none
  | some .dir, _ => some (tree.insert path (.file []))
  | _, _ => none

def renameFile (tree : Files) (source target : Path) : Option Files :=
  match tree.find? source, tree.find? target with
  | some (.file _), some .dir => none
  | some (.file content), _ => some ((tree.remove source).insert target (.file content))
  | _, _ => none

/-- How far a put has come. -/
inductive Phase where
  | making
  | ready
  | writing (written : Nat)
  deriving DecidableEq

structure Put where
  path : Path
  body : Bytes
  phase : Phase
  deriving DecidableEq

structure Disk where
  tree : Files
  puts : OrderedMap Nat Put compare

namespace Disk

def empty : Disk := ⟨OrderedMap.empty, OrderedMap.empty⟩

/-- A put reaches a phase. -/
def move (disk : Disk) (id : Nat) (put : Put) : Disk :=
  { disk with puts := disk.puts.insert id put }

/-- A put fails, ends or dies. -/
def drop (disk : Disk) (id : Nat) : Disk := { disk with puts := disk.puts.remove id }

end Disk

/-- One system call of one put. -/
inductive Act where
  | start (id : Nat) (key : Key) (body : Bytes)
  | mkdir (id : Nat)
  | create (id : Nat)
  | write (id : Nat) (count : Nat)
  | rename (id : Nat)
  | crash (id : Nat)

/-- The first directory that is not there, on the way from one that leads to another. -/
def missingFrom (tree : Files) (dir : Path) : Path → Option Path
  | [] => if tree.find? dir = some .dir then none else some dir
  | name :: rest =>
    if tree.find? dir = some .dir then missingFrom tree (dir ++ [name]) rest else some dir

def missing (tree : Files) (dir : Path) : Option Path := missingFrom tree [] dir

def step (disk : Disk) : Act → Disk
  | .start id key body => match resolve key with
    | .error _ => disk
    | .ok path => disk.move id ⟨path, body, .making⟩
  | .mkdir id => match disk.puts.find? id with
    | some ⟨path, body, .making⟩ => match missing disk.tree path.dropLast with
      | none => disk.move id ⟨path, body, .ready⟩
      | some dir => match disk.tree.find? dir with
        | none => { disk with tree := disk.tree.insert dir .dir }
        | some _ => disk.drop id
    | _ => disk
  | .create id => match disk.puts.find? id with
    | some ⟨path, body, .ready⟩ => match openFile disk.tree (staging path) with
      | none => disk.drop id
      | some tree => { disk with tree }.move id ⟨path, body, .writing 0⟩
    | _ => disk
  | .write id count => match disk.puts.find? id with
    | some ⟨path, body, .writing written⟩ =>
      let reached := min (written + count) body.length
      { disk with tree := disk.tree.insert (staging path) (.file (body.take reached)) }.move id
        ⟨path, body, .writing reached⟩
    | _ => disk
  | .rename id => match disk.puts.find? id with
    | some ⟨path, body, .writing written⟩ =>
      if written = body.length then
        match renameFile disk.tree (staging path) path with
        | none => disk.drop id
        | some tree => { disk with tree }.drop id
      else disk
    | _ => disk
  | .crash id => disk.drop id

/-- The object that a rename brings into being. -/
def published (disk : Disk) : Act → List (Key × Bytes)
  | .rename id => match disk.puts.find? id with
    | some ⟨path, body, .writing written⟩ =>
      if written = body.length ∧ (renameFile disk.tree (staging path) path).isSome = true then
        [(keyOf path, body)]
      else []
    | _ => []
  | _ => []

def get (tree : Files) (key : Key) : Except StoreError Bytes :=
  match resolve key with
  | .error e => .error e
  | .ok path => match tree.find? path with
    | some (.file content) => .ok content
    | _ => .error (.io key)

/-- The key of a file, unless it is half written or does not begin as asked. -/
def listedKey (start : Key) (path : Path) (_ : Bytes) : Option Key :=
  if isPartial path then none
  else if start.isPrefixOf (keyOf path) then some (keyOf path) else none

def walk (readDir : Path → Option (List (Key × Node Bytes))) (start : Key) (fuel : Nat) :
    Option (List Key) :=
  visit readDir (listedKey start) fuel [[]] []

def keyLE (a b : Key) : Bool := (Key.cmp a b).isLE

def list (readDir : Path → Option (List (Key × Node Bytes))) (start : Key) (fuel : Nat) :
    Option (List Key) :=
  (walk readDir start fuel).map (fun keys => keys.mergeSort keyLE)

/-- A key whose file is listed under the key's own characters. -/
def Proper (key : Key) : Prop :=
  '\\' ∉ key ∧ ∃ path, resolve key = .ok path ∧ isPartial path = false

/-- A put starts under a new number, and no other at work writes to its file. -/
def Apart (disk : Disk) : Act → Prop
  | .start id key _ => Proper key ∧ disk.puts.find? id = none ∧
    ∀ path, resolve key = .ok path →
      ∀ e ∈ disk.puts.entries, staging e.2.path ≠ staging path
  | _ => True

example : resolve "events//part-0.parquet".toList =
    .ok ["events".toList, "part-0.parquet".toList] := by decide +kernel

example : staging ["events".toList, "part-0.parquet".toList] =
    ["events".toList, "part-0.partial".toList] := by decide +kernel

section Names

variable {a b path : Path} {key name : Key} {c : Char}

/-- A name that a listing shows as it is. -/
def CleanName (name : Key) : Prop := name ≠ [] ∧ '/' ∉ name ∧ '\\' ∉ name

def Clean (path : Path) : Prop := ∀ name ∈ path, CleanName name

theorem splitOn_chars (key : Key) : ∀ part ∈ key.splitOn c, ∀ d ∈ part, d ∈ key ∧ d ≠ c := by
  induction key with
  | nil => simp
  | cons x key ih =>
    rw [List.splitOn_cons_eq_if_modifyHead]
    cases parts : key.splitOn c with
    | nil => exact absurd parts (List.splitOn_ne_nil c key)
    | cons first others =>
      rw [parts] at ih
      obtain ⟨own, rest⟩ := List.forall_mem_cons.mp ih
      have kept : ∀ part ∈ first :: others, ∀ d ∈ part, d ∈ x :: key ∧ d ≠ c := fun part mem d on =>
        ⟨List.mem_cons_of_mem _ (ih part mem d on).1, (ih part mem d on).2⟩
      by_cases stop : x = c
      · rw [if_pos (beq_iff_eq.mpr stop)]
        exact List.forall_mem_cons.mpr ⟨fun d on => absurd on List.not_mem_nil, kept⟩
      · rw [if_neg (by simpa using stop)]
        refine List.forall_mem_cons.mpr ⟨fun d on => ?_, fun part mem => kept part
          (List.mem_cons_of_mem _ mem)⟩
        rcases List.mem_cons.mp on with rfl | on
        · exact ⟨List.mem_cons_self, stop⟩
        · exact kept first List.mem_cons_self d on

theorem splitOn_head (other : name.head? ≠ some c) (named : name ≠ []) :
    ∃ first others, name.splitOn c = first :: others ∧ first ≠ [] := by
  cases name with
  | nil => exact absurd rfl named
  | cons x rest =>
    have go : (x == c) = false := by simpa using other
    rw [List.splitOn_cons_eq_if_modifyHead, go]
    cases parts : rest.splitOn c with
    | nil => exact absurd parts (List.splitOn_ne_nil c rest)
    | cons first others => exact ⟨x :: first, others, rfl, List.cons_ne_nil x first⟩

theorem resolve_clean (plain : '\\' ∉ key) (resolved : resolve key = .ok path) :
    Clean path ∧ path ≠ [] := by
  rw [resolve] at resolved
  split at resolved
  · cases resolved
  · rename_i named
    split at resolved
    · cases resolved
    · rename_i relative
      dsimp only at resolved
      split at resolved
      · cases resolved
      · rename_i normal
        obtain rfl := Except.ok.inj resolved
        constructor
        · intro part mem
          obtain ⟨on, kept⟩ := List.mem_filter.mp mem
          have chars := splitOn_chars key part on
          refine ⟨(of_decide_eq_true kept).1, fun slash => (chars '/' slash).2 rfl, fun back => ?_⟩
          exact plain (chars '\\' back).1
        · obtain ⟨first, others, parts, some_char⟩ := splitOn_head relative named
          rw [parts] at normal ⊢
          have dotless : first ≠ ['.'] := fun dot => normal (.inl (congrArg some dot))
          exact List.ne_nil_of_mem
            (List.mem_filter.mpr ⟨List.mem_cons_self, decide_eq_true ⟨some_char, dotless⟩⟩)

theorem backslash_notMem (clean : Clean path) : '\\' ∉ ['/'].intercalate path := by
  intro mem
  induction path with
  | nil => simp at mem
  | cons name path ih =>
    obtain ⟨own, rest⟩ := List.forall_mem_cons.mp clean
    cases path with
    | nil =>
      rw [List.intercalate_singleton] at mem
      exact own.2.2 mem
    | cons next path =>
      rw [List.intercalate_cons_cons, List.mem_append, List.mem_append] at mem
      rcases mem with (mem | mem) | mem
      · exact own.2.2 mem
      · simp at mem
      · exact ih rest mem

theorem keyOf_clean (clean : Clean path) : keyOf path = ['/'].intercalate path := by
  have plain : ∀ c ∈ ['/'].intercalate path, (if c = '\\' then '/' else c) = c := by
    rintro c mem
    refine if_neg ?_
    rintro rfl
    exact backslash_notMem clean mem
  rw [keyOf]
  exact (List.map_congr_left plain).trans (List.map_id _)

/-- Different files are listed under different keys. -/
theorem keyOf_injective (clean : Clean a) (clean' : Clean b) (inner : a ≠ []) (inner' : b ≠ [])
    (same : keyOf a = keyOf b) : a = b := by
  rw [keyOf_clean clean, keyOf_clean clean'] at same
  have back := congrArg (List.splitOn '/') same
  rwa [List.splitOn_intercalate '/' (fun l mem => (clean l mem).2.1) inner,
    List.splitOn_intercalate '/' (fun l mem => (clean' l mem).2.1) inner'] at back

/-- Before its extension a name has something, and nothing of its own. -/
theorem fileStem_chars (named : name ≠ []) :
    (fileStem (String.ofList name)).toList ≠ [] ∧
      (fileStem (String.ofList name)).toList ⊆ name := by
  rw [fileStem]
  cases known : extension (String.ofList name) with
  | none =>
    simp only [Option.isNone_none, if_true, String.toList_ofList]
    exact ⟨named, List.Subset.refl name⟩
  | some ext =>
    rw [if_neg (by simp), String.toList_ofList, String.toList_ofList]
    rw [extension, String.toList_ofList] at known
    have sub : name.reverse.dropWhile (· ≠ '.') ⊆ name := fun c mem =>
      List.mem_reverse.mp ((List.dropWhile_suffix _).subset mem)
    split at known
    · cases known
    · cases known
    · rename_i dot c rest split
      rw [split] at sub ⊢
      refine ⟨by simp, fun d mem => sub (List.mem_cons_of_mem _ ?_)⟩
      exact List.mem_reverse.mp mem

/-- A staged name ends in the extension of half-written files. -/
theorem staged_name (name : Key) :
    withExtension (String.ofList name) "partial" =
      String.ofList ((fileStem (String.ofList name)).toList ++ '.' :: "partial".toList) := by
  refine String.toList_injective ?_
  rw [withExtension, String.toList_append, String.toList_append, String.toList_ofList,
    List.append_assoc]
  simp

theorem extension_staged (named : name ≠ []) :
    extension (withExtension (String.ofList name) "partial") = some "partial" := by
  have dotless : ∀ c ∈ "partial".toList, c ≠ '.' := by simp
  rw [staged_name name, extension_dotted dotless (by simp), if_neg (fileStem_chars named).1,
    String.ofList_toList]

theorem cleanName_staged (clean : CleanName name) :
    CleanName (withExtension (String.ofList name) "partial").toList := by
  obtain ⟨named, slashless, backless⟩ := clean
  have sub := (fileStem_chars named).2
  rw [staged_name name, String.toList_ofList]
  refine ⟨by simp, fun mem => ?_, fun mem => ?_⟩
  · rcases List.mem_append.mp mem with stem | ext
    · exact slashless (sub stem)
    · simp at ext
  · rcases List.mem_append.mp mem with stem | ext
    · exact backless (sub stem)
    · simp at ext

/-- A staged file lies beside its target, under a clean name that listings hide. -/
theorem staging_spec (clean : Clean path) (inner : path ≠ []) :
    (staging path).dropLast = path.dropLast ∧ Clean (staging path) ∧ staging path ≠ [] ∧
      isPartial (staging path) = true := by
  have last : path.getLast? = some (path.getLast inner) := List.getLast?_eq_some_getLast inner
  have own : CleanName (path.getLast inner) := clean _ (List.getLast_mem inner)
  rw [staging, last]
  dsimp only
  refine ⟨by simp, fun name mem => ?_, by simp, ?_⟩
  · rcases List.mem_append.mp mem with above | here
    · exact clean name (List.dropLast_subset path above)
    · rw [List.mem_singleton.mp here]
      exact cleanName_staged own
  · rw [isPartial, List.getLast?_append, List.getLast?_singleton]
    simp [String.ofList_toList, extension_staged own.1]

end Names

section Disks

variable {tree : Files} {puts : OrderedMap Nat Put compare} {objects : Objects Bytes} {put : Put}
  {path dir rest : Path} {node : Node Bytes} {content : Bytes} {id : Nat}

/-- The files that a listing does not hide are the objects. -/
structure Stored (tree : Files) (objects : Objects Bytes) : Prop where
  rooted : Rooted tree
  root : ∀ content, tree.find? [] ≠ some (.file content)
  clean : ∀ path node, tree.find? path = some node → Clean path
  shown : ∀ path content, tree.find? path = some (.file content) → isPartial path = false →
    objects.find? (keyOf path) = some content
  held : ∀ key content, objects.find? key = some content → ∃ path, path ≠ [] ∧
    isPartial path = false ∧ keyOf path = key ∧ tree.find? path = some (.file content)

/-- A put that is writing has its file to itself. -/
structure AtWork (tree : Files) (put : Put) : Prop where
  clean : Clean put.path
  inner : put.path ≠ []
  shown : isPartial put.path = false
  above : put.phase ≠ .making → tree.find? put.path.dropLast = some .dir
  written : ∀ count, put.phase = .writing count → count ≤ put.body.length ∧
    tree.find? (staging put.path) = some (.file (put.body.take count))

structure Working (tree : Files) (puts : OrderedMap Nat Put compare) : Prop where
  each : ∀ id put, puts.find? id = some put → AtWork tree put
  apart : ∀ i j p q, i ≠ j → puts.find? i = some p → puts.find? j = some q →
    staging p.path ≠ staging q.path

theorem missingFrom_some (above : dir ≠ [] → tree.find? dir.dropLast = some .dir)
    (first : missingFrom tree dir rest = some path) :
    path <+: dir ++ rest ∧ tree.find? path ≠ some .dir ∧
      (path ≠ [] → tree.find? path.dropLast = some .dir) := by
  induction rest generalizing dir with
  | nil =>
    rw [missingFrom] at first
    split at first
    · cases first
    · rename_i gone
      obtain rfl := Option.some.inj first
      exact ⟨List.prefix_append dir [], gone, above⟩
  | cons name rest ih =>
    rw [missingFrom] at first
    split at first
    · rename_i there
      have next := ih (fun _ => by rwa [List.dropLast_concat]) first
      rwa [List.append_assoc] at next
    · rename_i gone
      obtain rfl := Option.some.inj first
      exact ⟨List.prefix_append dir _, gone, above⟩

theorem missingFrom_none (none : missingFrom tree dir rest = none) :
    tree.find? (dir ++ rest) = some .dir := by
  induction rest generalizing dir with
  | nil =>
    rw [missingFrom] at none
    split at none
    · rwa [List.append_nil]
    · cases none
  | cons name rest ih =>
    rw [missingFrom] at none
    split at none
    · have all := ih none
      rwa [List.append_assoc] at all
    · cases none

theorem Clean.start {whole : Path} (clean : Clean whole) (start : path <+: whole) : Clean path :=
  fun name mem => clean name (start.subset mem)

/-- The objects stay what they are while the files that are listed do. -/
theorem Stored.kept {other : Files} (stored : Stored tree objects) (rooted : Rooted other)
    (clean : ∀ path node, other.find? path = some node → Clean path)
    (same : ∀ path content, isPartial path = false →
      (other.find? path = some (.file content) ↔ tree.find? path = some (.file content))) :
    Stored other objects where
  rooted := rooted
  root := fun content found => stored.root content ((same [] content rfl).mp found)
  clean := clean
  shown := fun path content found visible =>
    stored.shown path content ((same path content visible).mp found) visible
  held := fun key content found =>
    have ⟨path, inner, visible, named, there⟩ := stored.held key content found
    ⟨path, inner, visible, named, (same path content visible).mpr there⟩

theorem Stored.clean_placed (stored : Stored tree objects) (clean : Clean path) (other : Path)
    (inner : Node Bytes) (found : (tree.insert path node).find? other = some inner) :
    Clean other := by
  rw [find?_placed] at found
  split at found
  · rename_i here
    exact here ▸ clean
  · exact stored.clean other inner found

theorem Stored.made (stored : Stored tree objects) (gone : tree.find? path = none)
    (above : path ≠ [] → tree.find? path.dropLast = some .dir) (clean : Clean path) :
    Stored (tree.insert path .dir) objects := by
  refine stored.kept (stored.rooted.placed above fun _ => rfl) (stored.clean_placed clean) ?_
  intro other content _
  rw [find?_placed]
  split
  · rename_i here
    rw [here, gone]
    simp
  · rfl

/-- A hidden file may be written at will. -/
theorem Stored.staged (stored : Stored tree objects) (hidden : isPartial path = true)
    (above : tree.find? path.dropLast = some .dir) (free : tree.find? path ≠ some .dir)
    (clean : Clean path) (content : Bytes) :
    Stored (tree.insert path (.file content)) objects := by
  refine stored.kept (stored.rooted.placed (fun _ => above) fun is_dir => absurd is_dir free)
    (stored.clean_placed clean) ?_
  intro other content visible
  have elsewhere : other ≠ path := by
    rintro rfl
    rw [hidden] at visible
    cases visible
  rw [find?_placed, if_neg elsewhere]

theorem Stored.unstaged (stored : Stored tree objects) (hidden : isPartial path = true)
    (leaf : tree.find? path = some (.file content)) : Stored (tree.remove path) objects := by
  refine stored.kept (stored.rooted.removed leaf) (fun other node found => ?_) ?_
  · rw [find?_removed] at found
    split at found
    · cases found
    · exact stored.clean other node found
  · intro other content visible
    have elsewhere : other ≠ path := by
      rintro rfl
      rw [hidden] at visible
      cases visible
    rw [find?_removed, if_neg elsewhere]

theorem find?_object (key other : Key) (content : Bytes) :
    (objects.insert key content).find? other =
      if other = key then some content else objects.find? other := by
  simp only [OrderedMap.find?_insert, Std.LawfulEqCmp.compare_eq_iff_eq]

/-- A file that is put in its place is an object. -/
theorem Stored.published (stored : Stored tree objects) (inner : path ≠ [])
    (visible : isPartial path = false) (above : tree.find? path.dropLast = some .dir)
    (free : tree.find? path ≠ some .dir) (clean : Clean path) (content : Bytes) :
    Stored (tree.insert path (.file content)) (objects.insert (keyOf path) content) where
  rooted := stored.rooted.placed (fun _ => above) fun is_dir => absurd is_dir free
  root := by
    intro content
    rw [find?_placed, if_neg inner.symm]
    exact stored.root content
  clean := stored.clean_placed clean
  shown := by
    intro q other found seen
    rw [find?_placed] at found
    rw [find?_object]
    split at found
    · rename_i here
      cases found
      rw [here, if_pos rfl]
    · rename_i elsewhere
      have own := stored.clean q _ found
      have some_name : q ≠ [] := fun root => stored.root other (root ▸ found)
      rw [if_neg fun same => elsewhere (keyOf_injective own clean some_name inner same)]
      exact stored.shown q other found seen
  held := by
    intro key other found
    rw [find?_object] at found
    split at found
    · rename_i here
      cases found
      exact ⟨path, inner, visible, here.symm, by rw [find?_placed, if_pos rfl]⟩
    · rename_i elsewhere
      obtain ⟨q, some_name, seen, named, there⟩ := stored.held key other found
      refine ⟨q, some_name, seen, named, ?_⟩
      rw [find?_placed, if_neg, there]
      rintro rfl
      exact elsewhere named.symm

/-- No put minds an entry that is neither a directory nor its own file. -/
theorem AtWork.placed (work : AtWork tree put) (free : tree.find? path ≠ some .dir)
    (other : ∀ count, put.phase = .writing count → path ≠ staging put.path) :
    AtWork (tree.insert path node) put where
  clean := work.clean
  inner := work.inner
  shown := work.shown
  above := by
    intro past
    have there := work.above past
    rw [find?_placed, if_neg, there]
    rintro here
    rw [here] at there
    exact free there
  written := by
    intro count reached
    obtain ⟨within, there⟩ := work.written count reached
    refine ⟨within, ?_⟩
    rw [find?_placed, if_neg (other count reached).symm, there]

theorem AtWork.removed (work : AtWork tree put) (leaf : tree.find? path = some (.file content))
    (other : ∀ count, put.phase = .writing count → path ≠ staging put.path) :
    AtWork (tree.remove path) put where
  clean := work.clean
  inner := work.inner
  shown := work.shown
  above := by
    intro past
    have there := work.above past
    rw [find?_removed, if_neg, there]
    rintro here
    rw [here, leaf] at there
    cases there
  written := by
    intro count reached
    obtain ⟨within, there⟩ := work.written count reached
    refine ⟨within, ?_⟩
    rw [find?_removed, if_neg (other count reached).symm, there]

theorem find?_put (puts : OrderedMap Nat Put compare) (id other : Nat) (put : Put) :
    (puts.insert id put).find? other = if other = id then some put else puts.find? other := by
  simp only [OrderedMap.find?_insert, Std.LawfulEqCmp.compare_eq_iff_eq]

theorem find?_dropped (puts : OrderedMap Nat Put compare) (id other : Nat) :
    (puts.remove id).find? other = if other = id then none else puts.find? other := by
  simp only [OrderedMap.find?_remove, Std.LawfulEqCmp.compare_eq_iff_eq]

/-- One put reaches a phase while the others go on. -/
theorem Working.moved {other : Files} (working : Working tree puts)
    (others : ∀ j q, j ≠ id → puts.find? j = some q → AtWork other q) (work : AtWork other put)
    (apart : ∀ j q, j ≠ id → puts.find? j = some q → staging put.path ≠ staging q.path) :
    Working other (puts.insert id put) where
  each := by
    intro j q found
    rw [find?_put] at found
    split at found
    · cases found
      exact work
    · rename_i elsewhere
      exact others j q elsewhere found
  apart := by
    intro i j p q different found found'
    rw [find?_put] at found found'
    split at found
    · rename_i here
      cases found
      rw [if_neg fun same => different (here.trans same.symm)] at found'
      exact apart j q (fun same => different (here.trans same.symm)) found'
    · rename_i elsewhere
      split at found'
      · cases found'
        exact (apart i p elsewhere found).symm
      · exact working.apart i j p q different found found'

theorem Working.dropped {other : Files} (working : Working tree puts)
    (others : ∀ j q, j ≠ id → puts.find? j = some q → AtWork other q) :
    Working other (puts.remove id) where
  each := by
    intro j q found
    rw [find?_dropped] at found
    split at found
    · cases found
    · rename_i elsewhere
      exact others j q elsewhere found
  apart := by
    intro i j p q different found found'
    rw [find?_dropped] at found found'
    split at found
    · cases found
    · split at found'
      · cases found'
      · exact working.apart i j p q different found found'

end Disks

section Runs

variable {disk : Disk} {objects : Objects Bytes} {act : Act} {id : Nat} {path : Path} {body : Bytes}
  {phase : Phase}

/-- Objects entered one after another. -/
def entered (objects : Objects Bytes) (new : List (Key × Bytes)) : Objects Bytes :=
  new.foldl (fun objects e => objects.insert e.1 e.2) objects

/-- What every step keeps. -/
def Sound (disk : Disk) (objects : Objects Bytes) : Prop :=
  Stored disk.tree objects ∧ Working disk.tree disk.puts

theorem Sound.drop (sound : Sound disk objects) (id : Nat) : Sound (disk.drop id) objects :=
  ⟨sound.1, sound.2.dropped fun j q _ => sound.2.each j q⟩

/-- A put goes on where it is. -/
theorem Sound.goesOn (sound : Sound disk objects)
    (found : disk.puts.find? id = some ⟨path, body, phase⟩) {next : Phase}
    (work : AtWork disk.tree ⟨path, body, next⟩) :
    Sound (disk.move id ⟨path, body, next⟩) objects := by
  refine ⟨sound.1, sound.2.moved (fun j q _ => sound.2.each j q) work fun j q other at_work => ?_⟩
  exact sound.2.apart id j ⟨path, body, phase⟩ q other.symm found at_work

/-- An entry that is neither a directory nor a file of a put is no matter for the puts. -/
theorem Working.placed {tree : Files} {puts : OrderedMap Nat Put compare} {node : Node Bytes}
    (working : Working tree puts) (free : tree.find? path ≠ some .dir)
    (other : ∀ id put count, puts.find? id = some put → put.phase = .writing count →
      path ≠ staging put.path) : Working (tree.insert path node) puts where
  each := fun id put found => (working.each id put found).placed free fun count reached =>
    other id put count found reached
  apart := working.apart

theorem sound_start {key : Key} (sound : Sound disk objects) (apart : Apart disk (.start id key body)) :
    Sound (step disk (.start id key body)) objects := by
  obtain ⟨⟨plain, path, resolved, visible⟩, -, alone⟩ := apart
  obtain ⟨clean, inner⟩ := resolve_clean plain resolved
  rw [step, resolved]
  refine ⟨sound.1, sound.2.moved (fun j q _ => sound.2.each j q)
    ⟨clean, inner, visible, fun past => absurd rfl past, nofun⟩ ?_⟩
  intro j q _ at_work
  obtain ⟨key, mem, -⟩ := OrderedMap.find?_mem at_work
  exact (alone path resolved _ mem).symm

theorem sound_mkdir (sound : Sound disk objects) : Sound (step disk (.mkdir id)) objects := by
  rw [step]
  split
  · rename_i path body found
    have work := sound.2.each id _ found
    split
    · rename_i all
      exact sound.goesOn found ⟨work.clean, work.inner, work.shown,
        fun _ => missingFrom_none all, nofun⟩
    · rename_i dir first
      obtain ⟨start, absent, above⟩ := missingFrom_some (fun h => absurd rfl h) first
      split
      · rename_i gone
        have clean : Clean dir := Clean.start work.clean (start.trans (List.dropLast_prefix path))
        refine ⟨sound.1.made gone above clean, sound.2.placed absent ?_⟩
        rintro j q count at_work reached rfl
        rw [((sound.2.each j q at_work).written count reached).2] at gone
        cases gone
      · exact sound.drop id
  · exact sound

theorem openFile_some {tree opened : Files} (done : openFile tree path = some opened) :
    tree.find? path.dropLast = some .dir ∧ tree.find? path ≠ some .dir ∧
      opened = tree.insert path (.file []) := by
  rw [openFile] at done
  split at done
  · cases done
  · rename_i above free
    exact ⟨above, fun is_dir => free is_dir, (Option.some.inj done).symm⟩
  · cases done

/-- A put writes to its own file. -/
theorem Sound.writes (sound : Sound disk objects)
    (found : disk.puts.find? id = some ⟨path, body, phase⟩)
    (above : disk.tree.find? path.dropLast = some .dir)
    (free : disk.tree.find? (staging path) ≠ some .dir) {count : Nat} (within : count ≤ body.length) :
    Sound ({ disk with tree := disk.tree.insert (staging path) (.file (body.take count)) }.move id
      ⟨path, body, .writing count⟩) objects := by
  have work := sound.2.each id _ found
  obtain ⟨beside, clean, inner, hidden⟩ := staging_spec work.clean work.inner
  have apart : ∀ j q, j ≠ id → disk.puts.find? j = some q → staging path ≠ staging q.path :=
    fun j q other at_work => sound.2.apart id j _ q other.symm found at_work
  refine ⟨sound.1.staged hidden (beside ▸ above) free clean _, sound.2.moved ?_ ?_ apart⟩
  · intro j q other at_work
    exact (sound.2.each j q at_work).placed free fun _ _ => apart j q other at_work
  · refine ⟨work.clean, work.inner, work.shown, fun _ => ?_, fun n reached => ?_⟩
    · dsimp only [Disk.move]
      rw [find?_placed, if_neg, above]
      intro same
      rw [same] at above
      exact free above
    · obtain rfl := Phase.writing.inj reached
      dsimp only [Disk.move]
      exact ⟨within, by rw [find?_placed, if_pos rfl]⟩

theorem sound_create (sound : Sound disk objects) : Sound (step disk (.create id)) objects := by
  rw [step]
  split
  · rename_i path body found
    split
    · exact sound.drop id
    · rename_i tree opened
      obtain ⟨-, free, rfl⟩ := openFile_some opened
      have above := (sound.2.each id _ found).above nofun
      exact sound.writes found above free (Nat.zero_le body.length)
  · exact sound

theorem sound_write {count : Nat} (sound : Sound disk objects) :
    Sound (step disk (.write id count)) objects := by
  rw [step]
  split
  · rename_i path body written found
    have work := sound.2.each id _ found
    have held := (work.written written rfl).2
    refine sound.writes found (work.above nofun) (fun is_dir => ?_) (Nat.min_le_right _ _)
    rw [held] at is_dir
    cases is_dir
  · exact sound

theorem renameFile_some {tree renamed : Files} {source target : Path} {content : Bytes}
    (held : tree.find? source = some (.file content))
    (done : renameFile tree source target = some renamed) :
    tree.find? target ≠ some .dir ∧
      renamed = (tree.remove source).insert target (.file content) := by
  rw [renameFile, held] at done
  split at done
  · cases done
  · rename_i c same free
    cases same
    exact ⟨fun is_dir => free is_dir, (Option.some.inj done).symm⟩
  · cases done

/-- A rename makes the whole body an object, or leaves everything but the put as it is. -/
theorem sound_rename (sound : Sound disk objects) :
    Sound (step disk (.rename id)) (entered objects (published disk (.rename id))) := by
  rw [step, published]
  split
  · rename_i path body written found
    by_cases whole : written = body.length
    · subst whole
      have work := sound.2.each id _ found
      obtain ⟨beside, clean, inner, hidden⟩ := staging_spec work.clean work.inner
      have held := (work.written _ rfl).2
      rw [List.take_length] at held
      cases done : renameFile disk.tree (staging path) path with
      | none =>
        simp only [if_true, Option.isSome_none, Bool.false_eq_true, and_false, if_false]
        exact sound.drop id
      | some tree =>
        obtain ⟨free, rfl⟩ := renameFile_some held done
        simp only [if_true, Option.isSome_some, and_self]
        have elsewhere : path ≠ staging path := by
          intro same
          have visible := work.shown
          rw [same, hidden] at visible
          cases visible
        have above : (disk.tree.remove (staging path)).find? path.dropLast = some .dir := by
          have there := work.above (by intro stage; cases stage)
          rw [find?_removed, if_neg, there]
          intro same
          rw [same, held] at there
          cases there
        have free' : (disk.tree.remove (staging path)).find? path ≠ some .dir := by
          rwa [find?_removed, if_neg elsewhere]
        refine ⟨(sound.1.unstaged hidden held).published work.inner work.shown above free'
          work.clean body, sound.2.dropped fun j q other at_work => ?_⟩
        have theirs := sound.2.each j q at_work
        have apart := sound.2.apart id j _ q other.symm found at_work
        refine (theirs.removed held fun _ _ => apart).placed free' fun _ _ same => ?_
        have hidden' := (staging_spec theirs.clean theirs.inner).2.2.2
        have visible := work.shown
        rw [same, hidden'] at visible
        cases visible
    · simp only [whole, if_false, false_and]
      exact sound
  · exact sound

theorem sound_step (sound : Sound disk objects) (apart : Apart disk act) :
    Sound (step disk act) (entered objects (published disk act)) := by
  cases act with
  | start id key body => exact sound_start sound apart
  | mkdir id => exact sound_mkdir sound
  | create id => exact sound_create sound
  | write id count => exact sound_write sound
  | rename id => exact sound_rename sound
  | crash id => exact sound.drop id

end Runs

section Reading

variable {tree : Files} {objects : Objects Bytes} {key start : Key} {path : Path}
  {readDir : Path → Option (List (Key × Node Bytes))}

/-- Directories are read whole, in any order, and nothing is read where there is none. -/
structure Honest (readDir : Path → Option (List (Key × Node Bytes))) (tree : Files) : Prop where
  whole : ∀ dir, tree.find? dir = some .dir →
    ∃ entries, readDir dir = some entries ∧ entries.Perm (children tree dir)
  gone : ∀ dir, tree.find? dir = none → readDir dir = none

theorem objects_sorted {B : Type} {objects : Objects B} :
    (Objects.list objects start).Pairwise (fun a b => keyLE a b = true) := by
  refine List.Pairwise.filter _ (List.pairwise_map.mpr (objects.sorted.imp fun {a b} less => ?_))
  rw [keyLE, less]
  rfl

end Reading

section Plain

variable {a b key base : Key} {n : Nat} {wall : Int}

/-- A key whose parts are the names of its file and of the directories above. -/
def Plain (key : Key) : Prop :=
  ∀ part ∈ key.splitOn '/', CleanName part ∧ part ≠ ['.'] ∧ part ≠ ['.', '.']

theorem plain_name (clean : CleanName a) (one : a ≠ ['.']) (two : a ≠ ['.', '.']) : Plain a := by
  have whole : a.splitOn '/' = [a] := List.splitOn_eq_singleton clean.2.1
  rw [Plain, whole]
  exact List.forall_mem_singleton.mpr ⟨clean, one, two⟩

theorem splitOn_slash (a b : Key) :
    (a ++ '/' :: b).splitOn '/' = a.splitOn '/' ++ b.splitOn '/' :=
  List.splitOnP_append_cons a b (beq_self_eq_true '/')

theorem Plain.append (plain : Plain a) (plain' : Plain b) : Plain (a ++ '/' :: b) := by
  rw [Plain, splitOn_slash]
  exact List.forall_mem_append.mpr ⟨plain, plain'⟩

/-- A plain key is listed as it is. -/
theorem resolve_plain (plain : Plain key) :
    resolve key = .ok (key.splitOn '/') ∧ keyOf (key.splitOn '/') = key ∧ '\\' ∉ key := by
  have clean : Clean (key.splitOn '/') := fun part mem => (plain part mem).1
  have whole : ['/'].intercalate (key.splitOn '/') = key := List.intercalate_splitOn '/'
  have listed := keyOf_clean clean
  have backless := backslash_notMem clean
  rw [whole] at listed backless
  refine ⟨?_, listed, backless⟩
  have named : key ≠ [] := by
    rintro rfl
    exact (clean [] List.mem_cons_self).1 rfl
  have relative : key.head? ≠ some '/' := by
    cases key with
    | nil => nofun
    | cons c rest =>
      rintro slash
      obtain rfl := Option.some.inj slash
      have first : ([] : Key) ∈ ('/' :: rest).splitOn '/' := by
        rw [List.splitOn_cons_eq_if_modifyHead]
        exact List.mem_cons_self
      exact (clean [] first).1 rfl
  have normal : ¬((key.splitOn '/').head? = some ['.'] ∨
      ∃ part ∈ key.splitOn '/', part = ['.', '.']) := by
    rintro (dot | ⟨part, dots, rfl⟩)
    · exact (plain _ (List.mem_of_head? dot)).2.1 rfl
    · exact (plain _ dots).2.2 rfl
  have all : (key.splitOn '/').filter (fun part => part ≠ [] ∧ part ≠ ['.']) = key.splitOn '/' := by
    refine List.filter_eq_self.mpr fun part mem => decide_eq_true ?_
    exact ⟨(plain part mem).1.1, (plain part mem).2.1⟩
  simp only [resolve, if_neg named, if_neg relative, if_neg normal, all]

theorem partitionName_chars {symbol : String} :
    ∀ c ∈ partitionName symbol, c ≠ '/' ∧ c ≠ '\\' := by
  intro c mem
  simp only [partitionName] at mem
  split at mem
  · constructor <;> rintro rfl <;> simp at mem
  · obtain ⟨d, -, same⟩ := List.mem_map.mp mem
    split at same
    · rename_i safe
      subst same
      constructor <;> rintro rfl <;> simp at safe
    · subst same
      decide

theorem dateHour_chars : ∀ c ∈ (dateHour wall).1, c ≠ '\\' := by
  intro c mem
  simp only [dateHour, List.mem_append, List.mem_cons] at mem
  rintro rfl
  rcases mem with (year | dash | month) | dash | day
  · exact absurd (padded_digits _ year) (by decide)
  · exact absurd dash (by decide)
  · exact absurd (padded_digits _ month) (by decide)
  · exact absurd dash (by decide)
  · exact absurd (padded_digits _ day) (by decide)

/-- A name that begins with letters is no dots. -/
theorem plain_labelled {c : Char} (label value : Key) (letter : c ≠ '.')
    (slashless : '/' ∉ c :: label ++ value) (backless : '\\' ∉ c :: label ++ value) :
    Plain (c :: label ++ value) := by
  refine plain_name ⟨List.cons_ne_nil _ _, slashless, backless⟩ ?_ ?_
  · exact fun dot => letter (List.cons.inj dot).1
  · exact fun dots => letter (List.cons.inj dots).1

theorem partName_plain : Plain (partName n) := by
  have backless : '\\' ∉ partName n := by
    intro mem
    rw [partName_eq, List.mem_append, List.mem_append] at mem
    rcases mem with (mem | mem) | mem
    · exact absurd mem (by decide)
    · exact absurd (padded_digits _ mem) (by decide)
    · exact absurd mem (by decide)
  have slashless : '/' ∉ partName n := fun mem => partName_slashless '/' mem rfl
  exact plain_labelled ("art-".toList ++ padded 5 n) ".parquet".toList (by decide) slashless
    backless

theorem stem_plain {symbol : String} (plain : Plain base) :
    Plain (stem base (partitionName symbol) wall) := by
  have symbols : Plain ("symbol=".toList ++ partitionName symbol) := by
    refine plain_labelled "ymbol=".toList (partitionName symbol) (by decide) ?_ ?_ <;>
      refine fun mem => (List.mem_append.mp mem).elim (by decide) fun own => ?_
    · exact (partitionName_chars _ own).1 rfl
    · exact (partitionName_chars _ own).2 rfl
  have dates : Plain ("date=".toList ++ (dateHour wall).1) := by
    refine plain_labelled "ate=".toList (dateHour wall).1 (by decide) ?_ ?_ <;>
      refine fun mem => (List.mem_append.mp mem).elim (by decide) fun own => ?_
    · exact dateHour_slashless _ own rfl
    · exact dateHour_chars _ own rfl
  have hours : Plain ("hour=".toList ++ padded 2 (dateHour wall).2) := by
    refine plain_labelled "our=".toList (padded 2 (dateHour wall).2) (by decide) ?_ ?_ <;>
      refine fun mem => (List.mem_append.mp mem).elim (by decide) fun own => ?_
    · exact slash_not_digit _ own rfl
    · exact absurd (padded_digits _ own) (by decide)
  have whole := ((plain.append symbols).append dates).append hours
  simp only [List.append_assoc, List.cons_append] at whole
  simp only [stem, List.append_assoc]
  exact whole

/-- The files of an archive are stored and listed under the keys that the writer gives them. -/
theorem archived_proper {symbol : String} (plain : Plain base) :
    Proper (partKey (dirFor base (partitionName symbol) wall) n) := by
  have whole : Plain (stem base (partitionName symbol) wall ++ '/' :: partName n) :=
    (stem_plain plain).append partName_plain
  rw [partKey_dirFor]
  obtain ⟨resolved, -, backless⟩ := resolve_plain whole
  refine ⟨backless, _, resolved, ?_⟩
  have dotless : ∀ c ∈ "parquet".toList, c ≠ '.' := by simp
  have file : partName n = ("part-".toList ++ padded 5 n) ++ '.' :: "parquet".toList := by
    rw [partName_eq]
    rfl
  have alone : (partName n).splitOn '/' = [partName n] :=
    List.splitOn_eq_singleton fun mem => partName_slashless '/' mem rfl
  rw [isPartial, splitOn_slash, alone, List.getLast?_append, List.getLast?_singleton,
    Option.some_or, Option.any_some, file, extension_dotted dotless (by simp), if_neg (by simp)]
  simp

end Plain

section Atomicity

variable {disk : Disk} {act : Act} {acts : List Act} {id : Nat} {put : Put} {path : Path}
  {body : Bytes} {phase : Phase} {e : Key × Bytes}

/-- A put was started with its body, under a key of its path. -/
def Started (acts : List Act) (id : Nat) (path : Path) (body : Bytes) : Prop :=
  ∃ key, .start id key body ∈ acts ∧ resolve key = .ok path

def AllStarted (acts : List Act) (puts : OrderedMap Nat Put compare) : Prop :=
  ∀ id put, puts.find? id = some put → Started acts id put.path put.body

theorem AllStarted.later (all : AllStarted acts disk.puts) :
    AllStarted (acts ++ [act]) disk.puts := fun id put found =>
  have ⟨key, mem, resolved⟩ := all id put found
  ⟨key, List.mem_append_left _ mem, resolved⟩

theorem AllStarted.moved {puts : OrderedMap Nat Put compare} (all : AllStarted acts puts)
    (own : Started acts id put.path put.body) : AllStarted acts (puts.insert id put) := by
  intro j q found
  rw [find?_put] at found
  split at found
  · rename_i here
    obtain rfl := Option.some.inj found
    exact here ▸ own
  · exact all j q found

theorem AllStarted.dropped {puts : OrderedMap Nat Put compare} (all : AllStarted acts puts) :
    AllStarted acts (puts.remove id) := by
  intro j q found
  rw [find?_dropped] at found
  split at found
  · cases found
  · exact all j q found

end Atomicity

end LocalStore

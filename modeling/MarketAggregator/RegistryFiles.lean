import MarketAggregator.GuardedRuns
import MarketAggregator.LeaseSteps

/-!
# A directory as the registry of leases

A node's record is one file, named after the node by a sanitiser that replaces every
character outside a small set. Files are written under another extension and renamed,
and the members are the files with the extension of a record. The in-process registry
keys its records by the node itself.
-/

namespace RegistryFiles

open GuardedRuns LeaseSteps OrderedMaps StreamAssignment

def safeChar (c : Char) : Char :=
  if c.isAlphanum ∨ c = '-' ∨ c = '_' then c else '_'

def safeName (node : NodeId) : List Char := node.text.toList.map safeChar

def recordName (node : NodeId) : String := String.ofList (safeName node ++ ".json".toList)

/-- The text after the last dot, unless that dot begins the name. -/
def extension (name : String) : Option String :=
  let reversed := name.toList.reverse
  match reversed.dropWhile (· ≠ '.') with
  | [] => none
  | [_] => none
  | _ :: _ :: _ =>
    if name = ".." then none else some (String.ofList (reversed.takeWhile (· ≠ '.')).reverse)

/-- The text before the last dot, or the whole name if it has no extension. -/
def fileStem (name : String) : String :=
  if (extension name).isNone then name
  else String.ofList ((name.toList.reverse.dropWhile (· ≠ '.')).drop 1).reverse

def withExtension (name extension : String) : String := fileStem name ++ "." ++ extension

/-- The files of a directory, by name. -/
abbrev Files (B : Type) := OrderedMap String B compare

/-- The JSON text of a lease, which reads back as the lease. -/
structure LeaseJson (B : Type) where
  encode : Lease → B
  decode : B → Except String Lease
  faithful : ∀ lease, decode (encode lease) = .ok lease

def rename {B : Type} (files : Files B) (source target : String) : Files B :=
  match files.find? source with
  | none => files
  | some body => (files.remove source).insert target body

/-- A directory that may not have been created yet. -/
abbrev DirRegistry (B : Type) := Option (Files B)

namespace DirRegistry

variable {B : Type} (json : LeaseJson B)

def announce (dir : DirRegistry B) (lease : Lease) : DirRegistry B :=
  let path := recordName lease.node
  let tmp := withExtension path "tmp"
  some (rename ((dir.getD OrderedMap.empty).insert tmp (json.encode lease)) tmp path)

def withdraw (dir : DirRegistry B) (node : NodeId) : DirRegistry B :=
  dir.map (fun files => files.remove (recordName node))

def readRecord (entry : String × B) : Except RegistryError Lease :=
  match json.decode entry.2 with
  | .ok lease => .ok lease
  | .error error => .error (.malformed entry.1 error)

/-- Every file with the extension of a record; a missing directory has no members. -/
def members (dir : DirRegistry B) : Except RegistryError (List Lease) :=
  match dir with
  | none => .ok []
  | some files =>
    (files.entries.filter (fun entry => extension entry.1 = some "json")).mapM (readRecord json)

end DirRegistry

abbrev MemoryRegistry := OrderedMap NodeId Lease NodeId.cmp

namespace MemoryRegistry

def announce (leases : MemoryRegistry) (lease : Lease) : MemoryRegistry :=
  leases.insert lease.node lease

def withdraw (leases : MemoryRegistry) (node : NodeId) : MemoryRegistry := leases.remove node

def members (leases : MemoryRegistry) : List Lease := leases.entries.map Prod.snd

end MemoryRegistry

/-- The two registries under the same operations. -/
structure Registries (B : Type) where
  dir : DirRegistry B
  memory : MemoryRegistry

inductive RegistryOp where
  | announce (lease : Lease)
  | withdraw (node : NodeId)
  deriving DecidableEq

def Registries.start {B : Type} : Registries B := ⟨none, OrderedMap.empty⟩

section Model

variable {B : Type} (json : LeaseJson B)

def step (s : Registries B) : RegistryOp → Registries B
  | .announce lease => ⟨s.dir.announce json lease, s.memory.announce lease⟩
  | .withdraw node => ⟨s.dir.withdraw node, s.memory.withdraw node⟩

def SameMembers (s : Registries B) : Prop :=
  ∃ leases, s.dir.members json = .ok leases ∧ ∀ lease, lease ∈ leases ↔ lease ∈ s.memory.members

end Model

/-- No other member's file has the name of this node's. -/
def Unshared (memory : MemoryRegistry) (node : NodeId) : Prop :=
  ∀ lease ∈ memory.members, recordName lease.node = recordName node → lease.node = node

/-- An announced node has a name of its own; a withdrawing one removes no other's file. -/
def OwnFile {B : Type} (s : Registries B) : RegistryOp → Prop
  | .announce lease => lease.node.text ≠ "" ∧ Unshared s.memory lease.node
  | .withdraw node => Unshared s.memory node

section Names

variable {node other : NodeId}

theorem extension_dotted {stem ext : List Char} (dotless : ∀ c ∈ ext, c ≠ '.')
    (named : ext ≠ []) : extension (String.ofList (stem ++ '.' :: ext)) =
      if stem = [] then none else some (String.ofList ext) := by
  have reversed : (stem ++ '.' :: ext).reverse = ext.reverse ++ '.' :: stem.reverse := by simp
  have dots : ∀ c ∈ ext.reverse, decide (c ≠ '.') = true := by simpa using dotless
  have special : String.ofList (stem ++ '.' :: ext) ≠ ".." := by
    intro same
    have chars : stem ++ '.' :: ext = "..".toList := by rw [← same, String.toList_ofList]
    rw [chars] at reversed
    cases last : ext.reverse with
    | nil => exact named (List.reverse_eq_nil_iff.mp last)
    | cons c rest =>
      rw [last] at reversed
      have dot : '.' = c := List.head_eq_of_cons_eq reversed
      exact dotless c (List.mem_reverse.mp (last ▸ List.mem_cons_self)) dot.symm
  have drop : (ext.reverse ++ '.' :: stem.reverse).dropWhile (· ≠ '.') = '.' :: stem.reverse := by
    rw [List.dropWhile_append_of_pos dots]
    rfl
  have take : (ext.reverse ++ '.' :: stem.reverse).takeWhile (· ≠ '.') = ext.reverse := by
    rw [List.takeWhile_append_of_pos dots]
    simp
  simp only [extension, String.toList_ofList, reversed, drop, take, special, if_false,
    List.reverse_reverse]
  cases stem using List.reverseRecOn <;> simp

/-- A record has its extension unless its node has no name, when the name is a hidden one. -/
theorem extension_recordName (node : NodeId) : extension (recordName node) =
    if node.text = "" then none else some "json" := by
  have empty : safeName node = [] ↔ node.text = "" := by
    rw [safeName, List.map_eq_nil_iff, String.toList_eq_nil_iff]
  have dotted : extension (String.ofList (safeName node ++ '.' :: "json".toList)) = _ :=
    extension_dotted (by simp) (by simp)
  rw [String.ofList_toList] at dotted
  simp only [empty] at dotted
  exact dotted

/-- The file that is renamed never has the name of a record. -/
theorem tmp_ne_recordName : withExtension (recordName node) "tmp" ≠ recordName other := by
  intro same
  have chars : ((fileStem (recordName node)).toList ++ ['.'] ++ ['t', 'm', 'p']).getLast? =
      (safeName other ++ ".json".toList).getLast? := by
    rw [← String.toList_ofList (l := safeName other ++ ".json".toList)]
    change _ = (recordName other).toList.getLast?
    rw [← same, withExtension, String.toList_append, String.toList_append]
    rfl
  simp at chars

end Names

section Contents

variable {B : Type} {json : LeaseJson B} {dir : DirRegistry B} {s : Registries B} {lease : Lease}
  {node : NodeId} {name : String} {bytes : B}

theorem mapM_ok_mem {A E B : Type} {f : A → Except E B} {l : List A} {out : List B}
    (h : l.mapM f = .ok out) {b : B} : b ∈ out ↔ ∃ a ∈ l, f a = .ok b := by
  induction l generalizing out with
  | nil =>
    cases h
    simp
  | cons a l ih =>
    rw [List.mapM_cons] at h
    cases first : f a with
    | error e =>
      rw [first] at h
      cases h
    | ok c =>
      cases rest : l.mapM f with
      | error e =>
        rw [first, rest] at h
        cases h
      | ok cs =>
        rw [first, rest] at h
        cases h
        simp [ih rest, first, eq_comm]

theorem mapM_total {A E B : Type} {f : A → Except E B} {l : List A}
    (h : ∀ a ∈ l, ∃ b, f a = .ok b) : ∃ out, l.mapM f = .ok out := by
  induction l with
  | nil => exact ⟨[], rfl⟩
  | cons a l ih =>
    obtain ⟨b, first⟩ := h a List.mem_cons_self
    obtain ⟨out, rest⟩ := ih fun c mem => h c (List.mem_cons_of_mem _ mem)
    exact ⟨b :: out, by rw [List.mapM_cons, first, rest]; rfl⟩

theorem find?_text {files : Files B} : files.find? name = some bytes ↔
    (name, bytes) ∈ files.entries := by
  constructor
  · intro found
    obtain ⟨key, mem, same⟩ := OrderedMap.find?_mem found
    rwa [Std.LawfulEqOrd.eq_of_compare same]
  · exact OrderedMap.mem_find?

/-- The files of a directory, of which a missing one has none. -/
def fileOf (dir : DirRegistry B) (name : String) : Option B := (dir.getD OrderedMap.empty).find? name

theorem fileOf_announce : fileOf (dir.announce json lease) name =
    if name = recordName lease.node then some (json.encode lease)
    else if name = withExtension (recordName lease.node) "tmp" then none
    else fileOf dir name := by
  simp only [DirRegistry.announce, rename, OrderedMap.find?_insert, fileOf, Option.getD_some,
    OrderedMap.find?_remove, Std.LawfulEqOrd.compare_eq_iff_eq, if_true]
  split
  · rfl
  · split
    · rfl
    · rfl

theorem fileOf_withdraw : fileOf (dir.withdraw node) name =
    if name = recordName node then none else fileOf dir name := by
  cases dir with
  | none => simp [fileOf, DirRegistry.withdraw, OrderedMap.find?, OrderedMap.empty]
  | some files =>
    simp only [fileOf, DirRegistry.withdraw, Option.map_some, Option.getD_some,
      OrderedMap.find?_remove, Std.LawfulEqOrd.compare_eq_iff_eq]

/-- What the directory answers is every readable record among its files. -/
theorem mem_dirMembers {leases : List Lease} (h : dir.members json = .ok leases) :
    lease ∈ leases ↔ ∃ name bytes, fileOf dir name = some bytes ∧ extension name = some "json" ∧
      json.decode bytes = .ok lease := by
  cases dir with
  | none =>
    cases h
    simp [fileOf, OrderedMap.find?, OrderedMap.empty]
  | some files =>
    rw [mapM_ok_mem h]
    constructor
    · rintro ⟨⟨name, bytes⟩, mem, read⟩
      obtain ⟨held, json_file⟩ := List.mem_filter.mp mem
      refine ⟨name, bytes, find?_text.mpr held, of_decide_eq_true json_file, ?_⟩
      cases decoded : json.decode bytes with
      | ok l => simpa [DirRegistry.readRecord, decoded] using read
      | error e => simp [DirRegistry.readRecord, decoded] at read
    · rintro ⟨name, bytes, held, json_file, decoded⟩
      refine ⟨(name, bytes), List.mem_filter.mpr ⟨find?_text.mp held, decide_eq_true json_file⟩, ?_⟩
      simp [DirRegistry.readRecord, decoded]

variable (json) in
/-- The directory holds one file for each member, and nothing else. -/
structure Agree (s : Registries B) : Prop where
  keyed : ∀ node lease, s.memory.find? node = some lease → lease.node = node
  named : ∀ node lease, s.memory.find? node = some lease → node.text ≠ ""
  files : ∀ name bytes, fileOf s.dir name = some bytes ↔ ∃ node lease,
    s.memory.find? node = some lease ∧ recordName node = name ∧ json.encode lease = bytes

theorem node_cmp {a b : NodeId} : NodeId.cmp a b = .eq ↔ a = b :=
  Std.LawfulEqCmp.compare_eq_iff_eq

theorem mem_members {memory : MemoryRegistry} : lease ∈ memory.members ↔
    ∃ node, memory.find? node = some lease := by
  constructor
  · intro mem
    obtain ⟨⟨node, l⟩, held, rfl⟩ := List.mem_map.mp mem
    exact ⟨node, OrderedMap.mem_find? held⟩
  · rintro ⟨node, found⟩
    obtain ⟨key, held, -⟩ := OrderedMap.find?_mem found
    exact List.mem_map.mpr ⟨_, held, rfl⟩

theorem agree_start : Agree json .start where
  keyed := by simp [Registries.start, OrderedMap.find?, OrderedMap.empty]
  named := by simp [Registries.start, OrderedMap.find?, OrderedMap.empty]
  files := by simp [Registries.start, fileOf, OrderedMap.find?, OrderedMap.empty]

theorem Agree.sameMembers (h : Agree json s) : SameMembers json s := by
  have readable : ∃ leases, s.dir.members json = .ok leases := by
    cases dir : s.dir with
    | none => exact ⟨[], rfl⟩
    | some files =>
      refine mapM_total fun entry mem => ?_
      have held : fileOf s.dir entry.1 = some entry.2 := by
        rw [dir]
        exact find?_text.mpr (List.mem_filter.mp mem).1
      obtain ⟨node, lease, -, -, encoded⟩ := (h.files _ _).mp held
      exact ⟨lease, by rw [DirRegistry.readRecord, ← encoded, json.faithful]⟩
  obtain ⟨leases, answer⟩ := readable
  refine ⟨leases, answer, fun lease => ?_⟩
  rw [mem_dirMembers answer, mem_members]
  constructor
  · rintro ⟨name, bytes, held, -, decoded⟩
    obtain ⟨node, other, found, -, rfl⟩ := (h.files _ _).mp held
    rw [json.faithful] at decoded
    cases decoded
    exact ⟨node, found⟩
  · rintro ⟨node, found⟩
    refine ⟨recordName node, json.encode lease, ?_, ?_, json.faithful lease⟩
    · exact (h.files _ _).mpr ⟨node, lease, found, rfl, rfl⟩
    · rw [extension_recordName, if_neg (h.named node lease found)]

theorem Agree.unshared (h : Agree json s) : Unshared s.memory node ↔
    ∀ other lease, s.memory.find? other = some lease → recordName other = recordName node →
      other = node := by
  constructor
  · intro own other lease found same
    have key := h.keyed other lease found
    rw [← key] at same ⊢
    exact own lease (mem_members.mpr ⟨other, found⟩) same
  · intro own lease mem same
    obtain ⟨other, found⟩ := mem_members.mp mem
    have key := h.keyed other lease found
    rw [key] at same ⊢
    exact own other lease found same

theorem Agree.announce (h : Agree json s) (some_name : lease.node.text ≠ "")
    (own : Unshared s.memory lease.node) : Agree json (step json s (.announce lease)) := by
  have own := h.unshared.mp own
  have now : ∀ node, (s.memory.announce lease).find? node =
      if node = lease.node then some lease else s.memory.find? node := by
    intro node
    simp only [MemoryRegistry.announce, OrderedMap.find?_insert, node_cmp]
  constructor
  · intro node l found
    rw [step, now] at found
    split at found
    · rename_i same
      cases found
      exact same.symm
    · exact h.keyed node l found
  · intro node l found
    rw [step, now] at found
    split at found
    · rename_i same
      rwa [same]
    · exact h.named node l found
  · intro name bytes
    simp only [step, fileOf_announce, now]
    by_cases mine : name = recordName lease.node
    · subst mine
      simp only [if_true]
      constructor
      · rintro ⟨⟩
        exact ⟨lease.node, lease, by simp, rfl, rfl⟩
      · rintro ⟨node, l, found, same, rfl⟩
        by_cases here : node = lease.node
        · rw [if_pos here] at found
          cases found
          rfl
        · rw [if_neg here] at found
          exact False.elim (here (own node l found same))
    · have old : (∃ node l, (if node = lease.node then some lease else s.memory.find? node) =
          some l ∧ recordName node = name ∧ json.encode l = bytes) ↔
            fileOf s.dir name = some bytes := by
        rw [h.files]
        constructor
        · rintro ⟨node, l, found, rfl, rfl⟩
          by_cases here : node = lease.node
          · exact False.elim (mine (congrArg recordName here))
          · rw [if_neg here] at found
            exact ⟨node, l, found, rfl, rfl⟩
        · rintro ⟨node, l, found, rfl, rfl⟩
          have other : node ≠ lease.node := fun here => mine (congrArg recordName here)
          exact ⟨node, l, by rw [if_neg other]; exact found, rfl, rfl⟩
      rw [old, if_neg mine]
      split
      · rename_i tmp
        constructor
        · rintro ⟨⟩
        · intro held
          obtain ⟨node, l, -, same, -⟩ := (h.files _ _).mp held
          exact False.elim (tmp_ne_recordName (same.trans tmp).symm)
      · rfl

theorem Agree.withdraw (h : Agree json s) (own : Unshared s.memory node) :
    Agree json (step json s (.withdraw node)) := by
  have own := h.unshared.mp own
  have now : ∀ other, (s.memory.withdraw node).find? other =
      if other = node then none else s.memory.find? other := by
    intro other
    simp only [MemoryRegistry.withdraw, OrderedMap.find?_remove, node_cmp]
  constructor
  · intro other l found
    rw [step, now] at found
    split at found
    · cases found
    · exact h.keyed other l found
  · intro other l found
    rw [step, now] at found
    split at found
    · cases found
    · exact h.named other l found
  · intro name bytes
    simp only [step, fileOf_withdraw, now]
    by_cases mine : name = recordName node
    · rw [if_pos mine]
      constructor
      · rintro ⟨⟩
      · rintro ⟨other, l, found, same, -⟩
        split at found
        · cases found
        · rename_i here
          exact False.elim (here (own other l found (same.trans mine)))
    · rw [if_neg mine, h.files]
      constructor
      · rintro ⟨other, l, found, rfl, rfl⟩
        have here : other ≠ node := fun same => mine (congrArg recordName same)
        exact ⟨other, l, by rw [if_neg here]; exact found, rfl, rfl⟩
      · rintro ⟨other, l, found, rfl, rfl⟩
        split at found
        · cases found
        · exact ⟨other, l, found, rfl, rfl⟩

/-- An answer of the same members holds a readable record of each of them. -/
theorem SameMembers.recorded (same : SameMembers json s) (mem : lease ∈ s.memory.members) :
    ∃ name bytes, fileOf s.dir name = some bytes ∧ extension name = some "json" ∧
      json.decode bytes = .ok lease := by
  obtain ⟨leases, answer, equal⟩ := same
  exact (mem_dirMembers answer).mp ((equal lease).mpr mem)

/-- A record among the files of an agreeing directory is a member's. -/
theorem Agree.recorded (h : Agree json s) (held : fileOf s.dir name = some bytes)
    (decoded : json.decode bytes = .ok lease) :
    s.memory.find? lease.node = some lease ∧ name = recordName lease.node := by
  obtain ⟨node, other, found, rfl, rfl⟩ := (h.files _ _).mp held
  rw [json.faithful] at decoded
  cases decoded
  have key := h.keyed node lease found
  rw [key]
  exact ⟨found, rfl⟩

theorem announce_lost (h : Agree json s) (same : SameMembers json (step json s (.announce lease))) :
    lease.node.text ≠ "" ∧ Unshared s.memory lease.node := by
  have now : ∀ node, (s.memory.announce lease).find? node =
      if node = lease.node then some lease else s.memory.find? node := by
    intro node
    simp only [MemoryRegistry.announce, OrderedMap.find?_insert, node_cmp]
  constructor
  · intro nameless
    have mem : lease ∈ (s.memory.announce lease).members :=
      mem_members.mpr ⟨lease.node, by rw [now, if_pos rfl]⟩
    obtain ⟨name, bytes, held, json_file, decoded⟩ := same.recorded mem
    simp only [step, fileOf_announce] at held
    split at held
    · rename_i mine
      rw [mine, extension_recordName, if_pos nameless] at json_file
      cases json_file
    · split at held
      · cases held
      · obtain ⟨found, -⟩ := h.recorded held decoded
        exact h.named _ _ found nameless
  · refine h.unshared.mpr fun other l found shared => ?_
    by_cases here : other = lease.node
    · exact here
    · have mem : l ∈ (s.memory.announce lease).members :=
        mem_members.mpr ⟨other, by rw [now, if_neg here]; exact found⟩
      have key := h.keyed other l found
      obtain ⟨name, bytes, held, -, decoded⟩ := same.recorded mem
      simp only [step, fileOf_announce] at held
      split at held
      · cases held
        rw [json.faithful] at decoded
        cases decoded
        exact key.symm
      · rename_i elsewhere
        split at held
        · cases held
        · obtain ⟨-, named⟩ := h.recorded held decoded
          rw [key, shared] at named
          exact False.elim (elsewhere named)

theorem withdraw_lost (h : Agree json s) (same : SameMembers json (step json s (.withdraw node))) :
    Unshared s.memory node := by
  refine h.unshared.mpr fun other l found shared => ?_
  by_cases here : other = node
  · exact here
  · have mem : l ∈ (s.memory.withdraw node).members := by
      refine mem_members.mpr ⟨other, ?_⟩
      simp only [MemoryRegistry.withdraw, OrderedMap.find?_remove, node_cmp, if_neg here]
      exact found
    obtain ⟨name, bytes, held, -, decoded⟩ := same.recorded mem
    simp only [step, fileOf_withdraw] at held
    split at held
    · cases held
    · rename_i elsewhere
      obtain ⟨-, named⟩ := h.recorded held decoded
      rw [h.keyed other l found, shared] at named
      exact False.elim (elsewhere named)

theorem step_lost (h : Agree json s) (op : RegistryOp) (same : SameMembers json (step json s op)) :
    OwnFile s op := by
  cases op with
  | announce lease => exact announce_lost h same
  | withdraw node => exact withdraw_lost h same

theorem agree_step (h : Agree json s) (op : RegistryOp) (own : OwnFile s op) :
    Agree json (step json s op) := by
  cases op with
  | announce lease => exact h.announce own.1 own.2
  | withdraw node => exact h.withdraw own

end Contents

/-- The directory always has the members of the in-process registry exactly when no operation
names a file that is another member's, and no node without a name is announced. -/
theorem registries_agree_iff {B : Type} (json : LeaseJson B) (ops : List RegistryOp) :
    (∀ past rest, past ++ rest = ops → SameMembers json (exec (step json) .start past)) ↔
      Meets (step json) OwnFile .start ops := by
  have weak : ∀ s, Agree json s → SameMembers json s := fun _ h => h.sameMembers
  exact follows_iff_meets weak (fun _ op h own => agree_step h op own)
    (fun _ op h same => step_lost h op same) agree_start ops

def plainJson : LeaseJson Lease := ⟨id, .ok, fun _ => rfl⟩

/-- Two nodes whose names differ in a character that the sanitiser replaces. -/
def sharedName : List RegistryOp :=
  [.announce ⟨⟨"a.b"⟩, 1000, 15000⟩, .announce ⟨⟨"a_b"⟩, 2000, 15000⟩]

theorem second_node_hides_first :
    ¬ ∀ (B : Type) (json : LeaseJson B) (ops : List RegistryOp),
      SameMembers json (exec (step json) .start ops) := by
  intro claim
  obtain ⟨leases, answer, equal⟩ := claim Lease plainJson sharedName
  have listed : leases = [⟨⟨"a_b"⟩, 2000, 15000⟩] := by
    have known : DirRegistry.members plainJson (exec (step plainJson) .start sharedName).dir =
        .ok [⟨⟨"a_b"⟩, 2000, 15000⟩] := by decide +kernel
    exact Except.ok.inj (answer.symm.trans known)
  have first := (equal ⟨⟨"a.b"⟩, 1000, 15000⟩).mpr (by decide +kernel)
  rw [listed] at first
  exact absurd first (by decide)

end RegistryFiles

import MarketAggregator.OrderedMaps
import Mathlib.Data.List.Dedup
import Mathlib.Data.List.Perm.Basic

/-!
# Trees of directories, and walks through them

A tree is a map from paths. Every entry lies in a directory, so an entry is beneath a directory
exactly if the path says so. A walk keeps a stack of directories and reads them one at a time,
in any order of their entries, and ends with every file.
-/

namespace DirectoryTrees

open OrderedMaps

universe u v w

inductive Node (B : Type v) where
  | dir
  | file (content : B)
  deriving DecidableEq

abbrev Tree (N : Type u) (B : Type v) (cmp : List N → List N → Ordering) :=
  OrderedMap (List N) (Node B) cmp

/-- Every entry but the root lies in a directory. -/
def Rooted {N : Type u} {B : Type v} {cmp : List N → List N → Ordering} (tree : Tree N B cmp) :
    Prop :=
  ∀ path name node, tree.find? (path ++ [name]) = some node → tree.find? path = some .dir

section Model

variable {N : Type u} {B : Type v} {K : Type w} {cmp : List N → List N → Ordering} [DecidableEq N]

/-- The name of an entry in a directory. -/
def nameIn (dir path : List N) : Option N := if path.dropLast = dir then path.getLast? else none

def children (tree : Tree N B cmp) (dir : List N) : List (N × Node B) :=
  tree.entries.filterMap (fun e => (nameIn dir e.1).map (fun name => (name, e.2)))

/-- A directory and everything beneath it. -/
def beneath (tree : Tree N B cmp) (dir : List N) : List (List N × Node B) :=
  tree.entries.filter (fun e => dir.isPrefixOf e.1)

def dirsOf (dir : List N) (entries : List (N × Node B)) : List (List N) :=
  entries.filterMap fun e => match e.2 with
    | .dir => some (dir ++ [e.1])
    | .file _ => none

def pickFile (pick : List N → B → Option K) (path : List N) : Node B → Option K
  | .dir => none
  | .file content => pick path content

def filesOf (pick : List N → B → Option K) (dir : List N) (entries : List (N × Node B)) : List K :=
  entries.filterMap (fun e => pickFile pick (dir ++ [e.1]) e.2)

/-- Read directories from a stack until it is empty or one of them is gone. -/
def visit (readDir : List N → Option (List (N × Node B))) (pick : List N → B → Option K) :
    Nat → List (List N) → List K → Option (List K)
  | 0, _, _ => none
  | _ + 1, [], out => some out
  | fuel + 1, dir :: stack, out =>
    match readDir dir with
    | none => some out
    | some entries =>
      visit readDir pick fuel ((dirsOf dir entries).reverse ++ stack)
        (out ++ filesOf pick dir entries)

end Model

section Entries

variable {N : Type u} {B : Type v} {cmp : List N → List N → Ordering} {tree : Tree N B cmp}
  {path rest : List N} {node : Node B}

variable [Std.TransCmp cmp]

variable [Std.LawfulEqCmp cmp]

theorem find?_placed [DecidableEq N] (tree : Tree N B cmp) (path other : List N) (node : Node B) :
    (tree.insert path node).find? other = if other = path then some node else tree.find? other := by
  simp only [OrderedMap.find?_insert, Std.LawfulEqCmp.compare_eq_iff_eq]

theorem find?_removed [DecidableEq N] (tree : Tree N B cmp) (path other : List N) :
    (tree.remove path).find? other = if other = path then none else tree.find? other := by
  simp only [OrderedMap.find?_remove, Std.LawfulEqCmp.compare_eq_iff_eq]

/-- An entry is placed in a directory, and no directory is replaced by a file. -/
theorem Rooted.placed [DecidableEq N] (rooted : Rooted tree)
    (above : path ≠ [] → tree.find? path.dropLast = some .dir)
    (free : tree.find? path = some .dir → node = .dir) : Rooted (tree.insert path node) := by
  intro dir name inner found
  have held : tree.find? dir = some .dir := by
    rw [find?_placed] at found
    split at found
    · rename_i here
      have parent := above (here ▸ List.append_ne_nil_of_right_ne_nil dir (List.cons_ne_nil name []))
      rwa [← here, List.dropLast_concat] at parent
    · exact rooted dir name inner found
  rw [find?_placed]
  split
  · rename_i here
    rw [free (here ▸ held)]
  · exact held

theorem Rooted.removed [DecidableEq N] (rooted : Rooted tree) {content : B}
    (leaf : tree.find? path = some (.file content)) : Rooted (tree.remove path) := by
  intro dir name inner found
  rw [find?_removed] at found ⊢
  split at found
  · cases found
  · have held := rooted dir name inner found
    rw [if_neg, held]
    rintro rfl
    rw [leaf] at held
    cases held

end Entries

section Trees

variable {N : Type u} {B : Type v} {K : Type w} {cmp : List N → List N → Ordering} [DecidableEq N]
  [Std.TransCmp cmp] [Std.LawfulEqCmp cmp] {tree : Tree N B cmp} {dir path : List N} {name : N}
  {node : Node B}

end Trees

end DirectoryTrees

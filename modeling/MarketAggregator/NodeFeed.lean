import MarketAggregator.LossyText
import MarketAggregator.TextLines
import Mathlib.Data.List.Induction

/-!
# A node's event feed

Every chunk of a response is decoded by itself and appended to a buffer, from which events
are taken up to each blank line. The data of snapshot events are handed on.
-/

namespace NodeFeed

open LossyText TextLines Utf8Text

/-- The most bytes that a feed may keep without the end of an event. -/
def maxEventBytes : Nat := 16 * 1024 * 1024

/-- A node sent this many bytes with no event boundary. -/
inductive FeedError where
  | noBoundary (bytes : Nat)
  deriving DecidableEq

def FeedError.message : FeedError → String
  | .noBoundary bytes =>
    "node sent " ++ toString bytes ++ " bytes with no event boundary; dropping the connection"

/-- A text up to its first blank line, and what follows it. -/
def splitBlank : List Char → Option (List Char × List Char)
  | [] => none
  | c :: rest =>
    if c = newline ∧ rest.head? = some newline then some ([c, newline], rest.tail)
    else (splitBlank rest).map (fun parts => (c :: parts.1, parts.2))

theorem splitBlank_shorter {buffer block rest : List Char}
    (found : splitBlank buffer = some (block, rest)) : rest.length < buffer.length := by
  induction buffer generalizing block with
  | nil => cases found
  | cons c buffer ih =>
    rw [splitBlank] at found
    split at found
    · obtain ⟨-, rfl⟩ := Prod.mk.inj (Option.some.inj found)
      rw [List.length_tail, List.length_cons]
      omega
    · obtain ⟨⟨head, tail⟩, later, same⟩ := Option.map_eq_some_iff.mp found
      obtain ⟨-, rfl⟩ := Prod.mk.inj same
      exact Nat.lt_succ_of_lt (ih later)

/-- The blocks of a buffer that end with a blank line, and what is left of it. -/
def blocks (buffer : List Char) : List (List Char) × List Char :=
  match _found : splitBlank buffer with
  | none => ([], buffer)
  | some (block, rest) => (block :: (blocks rest).1, (blocks rest).2)
  termination_by buffer.length
  decreasing_by all_goals exact splitBlank_shorter _found

def eventField : List Char := "event:".toList

def dataField : List Char := "data:".toList

/-- Only one leading space is not part of the data. -/
def stripSpace (rest : List Char) : List Char :=
  if rest.head? = some ' ' then rest.tail else rest

def addData (data rest : List Char) : List Char :=
  (if data = [] then [] else data ++ [newline]) ++ stripSpace rest

/-- The event name and the data of a block so far, with one more line. -/
def parseLine (parsed : Option (List Char) × List Char) (line : List Char) :
    Option (List Char) × List Char :=
  match eventField.isPrefixOf? line with
  | some rest => (some (rest.dropWhile isWhiteSpace), parsed.2)
  | none => match dataField.isPrefixOf? line with
    | some rest => (parsed.1, addData parsed.2 rest)
    | none => parsed

/-- A block without data has no meaning. -/
def parseBlock (block : List Char) : Option (Option (List Char) × List Char) :=
  let parsed := (linesFrom [] block).foldl parseLine (none, [])
  if parsed.2 = [] then none else some parsed

/-- The payload of a block, if it is a snapshot. -/
def payload (block : List Char) : Option (List Char) :=
  (parseBlock block).bind fun parsed =>
    if parsed.1 = some "snapshot".toList then some parsed.2 else none

/-- What a session has handed on, and how it ended. -/
structure Reception where
  payloads : List (List Char)
  ending : Except FeedError Unit

/-- A session reads the chunks of a response one by one. -/
def session (buffer : List Char) : List (List UInt8) → Reception
  | [] => ⟨[], .ok ()⟩
  | chunk :: chunks =>
    let drained := blocks (buffer ++ lossy chunk)
    let own := drained.1.filterMap payload
    if maxEventBytes < byteLen drained.2 then ⟨own, .error (.noBoundary (byteLen drained.2))⟩
    else
      let later := session drained.2 chunks
      ⟨own ++ later.payloads, later.ending⟩

section Fields

variable {block : List Char} {line d : List Char}

/-- What follows the name of a field in each of its lines. -/
def restsOf (field block : List Char) : List (List Char) :=
  (linesFrom [] block).filterMap field.isPrefixOf?

theorem not_data (named : (eventField.isPrefixOf? line).isSome = true) :
    dataField.isPrefixOf? line = none := by
  cases line with
  | nil => rfl
  | cons c line =>
    by_cases same : c = 'd'
    · rw [same] at named
      cases named
    · have other : ('d' == c) = false := by simpa using Ne.symm same
      change (if 'd' == c then _ else none) = none
      rw [other]
      rfl

/-- The last event line names the block, and all data lines are joined. -/
theorem foldl_parseLine (lines : List (List Char)) (parsed : Option (List Char) × List Char) :
    lines.foldl parseLine parsed =
      (((lines.filterMap eventField.isPrefixOf?).getLast?.map (·.dropWhile isWhiteSpace)).or
        parsed.1, (lines.filterMap dataField.isPrefixOf?).foldl addData parsed.2) := by
  induction lines generalizing parsed with
  | nil => rfl
  | cons line lines ih =>
    rw [List.foldl_cons, ih, parseLine]
    cases named : eventField.isPrefixOf? line with
    | some rest =>
      rw [List.filterMap_cons_some named, List.filterMap_cons_none (not_data (by rw [named]; rfl)),
        List.getLast?_cons]
      cases (lines.filterMap eventField.isPrefixOf?).getLast? <;> rfl
    | none =>
      rw [List.filterMap_cons_none named]
      cases valued : dataField.isPrefixOf? line with
      | some rest =>
        rw [List.filterMap_cons_some valued]
        rfl
      | none => rw [List.filterMap_cons_none valued]

theorem payload_iff : payload block = some d ↔
    (restsOf dataField block).foldl addData [] = d ∧ d ≠ [] ∧
      ∃ name, (restsOf eventField block).getLast? = some name ∧
        name.dropWhile isWhiteSpace = "snapshot".toList := by
  rw [payload, parseBlock, foldl_parseLine, ← restsOf, ← restsOf]
  generalize (restsOf dataField block).foldl addData [] = data
  generalize (restsOf eventField block).getLast? = last, "snapshot".toList = wanted
  by_cases none : data = []
  · rw [if_pos none, Option.bind_none]
    exact ⟨nofun, fun ⟨same, some_data, _⟩ => absurd (same.symm.trans none) some_data⟩
  · rw [if_neg none, Option.bind_some]
    cases last with
    | none => exact ⟨nofun, fun ⟨_, _, name, same, _⟩ => nomatch same⟩
    | some name =>
      change (if some (name.dropWhile isWhiteSpace) = some wanted then some data else .none) = _ ↔ _
      split
      · rename_i named
        rw [Option.some_inj]
        exact ⟨fun same => ⟨same, same ▸ none, name, rfl, Option.some.inj named⟩, And.left⟩
      · rename_i unnamed
        refine ⟨nofun, ?_⟩
        rintro ⟨-, -, other, same, named⟩
        rw [← Option.some.inj same] at named
        exact absurd (congrArg some named) unnamed

end Fields

section Blocks

/-- What a scan has found: blocks, the rest, and whether the rest ends with a newline. -/
structure Scan where
  blocks : List (List Char)
  rest : List Char
  atLine : Bool

def Scan.push (s : Scan) (c : Char) : Scan :=
  if c = newline ∧ s.atLine = true then ⟨s.blocks ++ [s.rest ++ [c]], [], false⟩
  else ⟨s.blocks, s.rest ++ [c], c = newline⟩

def Scan.run (s : Scan) (t : List Char) : Scan := t.foldl Scan.push s

def Scan.start : Scan := ⟨[], [], false⟩

variable {s : Scan} {t u : List Char} {c : Char}

theorem run_append : s.run (t ++ u) = (s.run t).run u := List.foldl_append ..

theorem run_cons : s.run (c :: t) = (s.push c).run t := rfl

/-- Blocks that were found do not matter for what follows. -/
theorem run_blocks (found : List (List Char)) (rest : List Char) (atLine : Bool) :
    Scan.run ⟨found, rest, atLine⟩ t =
      { Scan.run ⟨[], rest, atLine⟩ t with
        blocks := found ++ (Scan.run ⟨[], rest, atLine⟩ t).blocks } := by
  induction t using List.reverseRecOn with
  | nil => rw [Scan.run, Scan.run, List.foldl_nil, List.foldl_nil, List.append_nil]
  | append_singleton t c ih =>
    rw [run_append, ih, run_append]
    simp only [Scan.run, List.foldl_cons, List.foldl_nil, Scan.push]
    split
    · rw [List.append_assoc]
    · rfl

/-- What is left is scanned again with the same result. -/
theorem run_rest (t : List Char) : Scan.start.run (Scan.start.run t).rest =
    ⟨[], (Scan.start.run t).rest, (Scan.start.run t).atLine⟩ := by
  induction t using List.reverseRecOn with
  | nil => rfl
  | append_singleton t c ih =>
    rw [run_append]
    generalize Scan.start.run t = s at ih
    change Scan.start.run (s.push c).rest = ⟨[], (s.push c).rest, (s.push c).atLine⟩
    rw [Scan.push]
    split
    · rfl
    · rename_i more
      rw [run_append, ih]
      exact if_neg more

/-- Looking for a blank line finds what the scan finds. -/
theorem splitBlank_run (found : List (List Char)) (rest : List Char) (atLine : Bool)
    (begins : atLine = true → t.head? ≠ some newline) :
    match splitBlank t with
    | none => ∃ more, Scan.run ⟨found, rest, atLine⟩ t = ⟨found, rest ++ t, more⟩
    | some (block, later) => Scan.run ⟨found, rest, atLine⟩ t =
        Scan.run ⟨found ++ [rest ++ block], [], false⟩ later := by
  induction t generalizing rest atLine with
  | nil => exact ⟨atLine, by rw [List.append_nil]; rfl⟩
  | cons c t ih =>
    have more : ¬ (c = newline ∧ atLine = true) := by
      rintro ⟨rfl, on⟩
      exact begins on rfl
    have pushed : Scan.push ⟨found, rest, atLine⟩ c = ⟨found, rest ++ [c], c = newline⟩ :=
      if_neg more
    rw [splitBlank]
    by_cases blank : c = newline ∧ t.head? = some newline
    · rw [if_pos blank]
      obtain ⟨rfl, next⟩ := blank
      obtain ⟨t, rfl⟩ : ∃ later, t = newline :: later := by
        cases t with
        | nil => cases next
        | cons d t => exact ⟨t, by rw [Option.some.inj next]⟩
      rw [run_cons, pushed, run_cons, Scan.push, if_pos ⟨rfl, rfl⟩, List.append_assoc]
      rfl
    · rw [if_neg blank]
      have after := ih (rest ++ [c]) (c = newline) fun on next =>
        blank ⟨of_decide_eq_true on, next⟩
      rw [run_cons, pushed]
      cases later : splitBlank t with
      | none =>
        rw [later] at after
        obtain ⟨on, same⟩ := after
        exact ⟨on, by rw [same, List.append_assoc]; rfl⟩
      | some parts =>
        rw [later] at after
        rw [Option.map_some]
        refine after.trans ?_
        rw [List.append_assoc]
        rfl

theorem blocks_eq (buffer : List Char) :
    blocks buffer = ((Scan.start.run buffer).blocks, (Scan.start.run buffer).rest) := by
  induction size : buffer.length using Nat.strongRecOn generalizing buffer with
  | ind n ih =>
    have scanned := splitBlank_run (t := buffer) [] [] false nofun
    rw [blocks]
    split
    · rename_i none
      rw [none] at scanned
      obtain ⟨more, same⟩ := scanned
      rw [Scan.start, same]
      rfl
    · rename_i block rest found
      rw [found] at scanned
      have shorter := splitBlank_shorter found
      rw [ih rest.length (by omega) rest rfl, Scan.start, scanned.trans (run_blocks ..)]
      rfl

/-- A buffer goes on where the scan of all text so far has stopped. -/
theorem blocks_rest (t u : List Char) :
    (Scan.start.run (t ++ u)).blocks =
        (Scan.start.run t).blocks ++ (blocks ((Scan.start.run t).rest ++ u)).1 ∧
      (Scan.start.run (t ++ u)).rest = (blocks ((Scan.start.run t).rest ++ u)).2 := by
  rw [blocks_eq, run_append, run_append, run_rest]
  generalize Scan.start.run t = s
  obtain ⟨found, rest, atLine⟩ := s
  rw [run_blocks]
  exact ⟨rfl, rfl⟩

end Blocks

section Sessions

/-- The scan of what a number of chunks are read as. -/
def scanned (read : List Char) (chunks : List (List UInt8)) (n : Nat) : Scan :=
  Scan.start.run (read ++ (chunks.take n).flatMap lossy)

/-- A session hands on the payloads of all text that it reads, up to a chunk after which too
much is left. -/
theorem session_scanned (chunks : List (List UInt8)) (read : List Char) :
    ∃ n ≤ chunks.length,
      (Scan.start.run read).blocks.filterMap payload ++
          (session (Scan.start.run read).rest chunks).payloads =
        (scanned read chunks n).blocks.filterMap payload ∧
      (∀ m, 1 ≤ m → m < n → byteLen (scanned read chunks m).rest ≤ maxEventBytes) ∧
      (n = chunks.length ∨ maxEventBytes < byteLen (scanned read chunks n).rest) := by
  induction chunks generalizing read with
  | nil =>
    refine ⟨0, le_rfl, ?_, fun m _ _ => by omega, .inl rfl⟩
    rw [scanned, List.take_zero, List.flatMap_nil, List.append_nil, session, List.append_nil]
  | cons chunk chunks ih =>
    have next : ∀ n, scanned read (chunk :: chunks) (n + 1) =
        scanned (read ++ lossy chunk) chunks n := by
      intro n
      rw [scanned, scanned, List.take_succ_cons, List.flatMap_cons, List.append_assoc]
    have first : scanned read (chunk :: chunks) 1 = Scan.start.run (read ++ lossy chunk) := by
      rw [next 0, scanned, List.take_zero, List.flatMap_nil, List.append_nil]
    obtain ⟨found, left⟩ := blocks_rest read (lossy chunk)
    rw [session]
    split
    · rename_i large
      refine ⟨1, by simp, ?_, fun m _ _ => by omega, .inr ?_⟩
      · rw [first, found, List.filterMap_append]
      · rwa [first, left]
    · rename_i fits
      obtain ⟨n, most, same, below, last⟩ := ih (read ++ lossy chunk)
      refine ⟨n + 1, Nat.succ_le_succ most, ?_, fun m low high => ?_, ?_⟩
      · rw [next, ← same, found, left, List.filterMap_append, List.append_assoc]
      · obtain ⟨m, rfl⟩ : ∃ k, m = k + 1 := ⟨m - 1, by omega⟩
        cases m with
        | zero =>
          rw [first, left]
          omega
        | succ m =>
          rw [next]
          exact below _ (by omega) (by omega)
      · rw [next]
        exact last.imp (congrArg (· + 1)) id

end Sessions

end NodeFeed

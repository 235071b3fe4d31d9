import MarketAggregator.TapeFiles
import MarketAggregator.TextLines

/-!
# The text of a tape

Every record is one line of JSON. Strings are escaped, so no text of a payload starts a new
line, and what is left out of a line is what a reader assumes of it. How a line is parsed is
a parameter.
-/

namespace TapeText

open AggregatorApply Clocks TapeFiles TextLines VenueBooks VenueStreams

def quoteMark : Char := Char.ofNat 34

def backslash : Char := Char.ofNat 92

/-- A character within a JSON string. -/
def escapeChar (c : Char) : List Char :=
  if c = quoteMark then [backslash, quoteMark]
  else if c = backslash then [backslash, backslash]
  else if c = Char.ofNat 8 then [backslash, 'b']
  else if c = Char.ofNat 9 then [backslash, 't']
  else if c = Char.ofNat 10 then [backslash, 'n']
  else if c = Char.ofNat 12 then [backslash, 'f']
  else if c = Char.ofNat 13 then [backslash, 'r']
  else if c.toNat < 32 then
    [backslash, 'u', '0', '0', Nat.digitChar (c.toNat / 16), Nat.digitChar (c.toNat % 16)]
  else [c]

def jsonString (s : String) : List Char :=
  quoteMark :: s.toList.flatMap escapeChar ++ [quoteMark]

def sourceName : FrameSource → String
  | .webSocket => "web_socket"
  | .restSnapshot => "rest_snapshot"
  | .restAudit => "rest_audit"

def kindName : RecordKind → String
  | .frame => "frame"
  | .sessionEnded => "session_ended"

def jsonField (name : String) (value : List Char) : List Char := jsonString name ++ ':' :: value

/-- The fields of a line that are not skipped. -/
def jsonFields (line : TapeLine) : List (List Char) :=
  jsonField "venue" (jsonString line.venue.asStr) ::
    (line.symbol.map fun s => jsonField "symbol" (jsonString s.text)).toList ++
    [jsonField "elapsed_nanos" (Nat.toDigits 10 line.elapsedNanos),
      jsonField "recorded_wall_unix_nanos" (Nat.toDigits 10 line.recordedWallUnixNanos),
      jsonField "payload" (jsonString line.payload)] ++
    (line.source.map fun s => jsonField "source" (jsonString (sourceName s))).toList ++
    (line.kind.map fun k => jsonField "kind" (jsonString (kindName k))).toList

def commaSeparated : List (List Char) → List Char
  | [] => []
  | [field] => field
  | field :: fields => field ++ ',' :: commaSeparated fields

def toJson (line : TapeLine) : List Char :=
  Char.ofNat 123 :: commaSeparated (jsonFields line) ++ [Char.ofNat 125]

/-- What a writer has written. -/
def tapeText (lines : List TapeLine) : List Char := lines.flatMap (fun l => toJson l ++ [newline])

/-- The records of some lines. Blank lines are skipped, and a malformed one gives nothing. -/
def readLines (parse : List Char → Option TapeLine) : List (List Char) → Option (List TapedFrame)
  | [] => some []
  | line :: rest =>
    if line.all isWhiteSpace then readLines parse rest
    else (parse line).bind fun record => (readLines parse rest).map (nextFrame record :: ·)

def readTape (parse : List Char → Option TapeLine) (text : List Char) :
    Option (List TapedFrame) := readLines parse (linesFrom [] text)

section Text

variable {c : Char} {line : List Char} {l : TapeLine} {lines : List TapeLine}
  {parse : List Char → Option TapeLine}

theorem digitChar_ne (n : Nat) (small : n < 16) : Nat.digitChar n ≠ newline := by
  have all : ∀ n < 16, Nat.digitChar n ≠ newline := by decide
  exact all n small

theorem escapeChar_oneLine (c : Char) : OneLine (escapeChar c) := by
  rw [escapeChar]
  split_ifs with h₁ h₂ h₃ h₄ h₅ h₆ h₇ h₈
  · decide
  · decide
  · decide
  · decide
  · decide
  · decide
  · decide
  · have high := digitChar_ne (c.toNat / 16) (by omega)
    have low := digitChar_ne (c.toNat % 16) (by omega)
    simp only [oneLine_cons]
    exact ⟨by decide, by decide, by decide, by decide, high, low, oneLine_nil⟩
  · exact oneLine_cons.mpr ⟨h₅, oneLine_nil⟩

theorem jsonString_oneLine (s : String) : OneLine (jsonString s) := by
  refine oneLine_cons.mpr ⟨by decide, oneLine_append.mpr ⟨?_, by decide⟩⟩
  intro mem
  obtain ⟨c, -, inside⟩ := List.mem_flatMap.mp mem
  exact escapeChar_oneLine c inside

theorem digits_oneLine (n : Nat) : OneLine (Nat.toDigits 10 n) := by
  intro mem
  have digit := Nat.isDigit_of_mem_toDigits (by decide) (by decide) mem
  cases digit

theorem jsonField_oneLine {value : List Char} (name : String) (own : OneLine value) :
    OneLine (jsonField name value) :=
  oneLine_append.mpr ⟨jsonString_oneLine name, oneLine_cons.mpr ⟨by decide, own⟩⟩

theorem commaSeparated_oneLine {fields : List (List Char)} (own : ∀ f ∈ fields, OneLine f) :
    OneLine (commaSeparated fields) := by
  induction fields with
  | nil => exact oneLine_nil
  | cons field fields ih =>
    obtain ⟨first, others⟩ := List.forall_mem_cons.mp own
    cases fields with
    | nil => exact first
    | cons next fields =>
      exact oneLine_append.mpr ⟨first, oneLine_cons.mpr ⟨by decide, ih others⟩⟩

/-- No payload breaks a line. -/
theorem toJson_oneLine (l : TapeLine) : OneLine (toJson l) := by
  refine oneLine_cons.mpr ⟨by decide, oneLine_append.mpr ⟨commaSeparated_oneLine ?_, by decide⟩⟩
  intro field mem
  simp only [jsonFields, List.mem_cons, List.mem_append, Option.mem_toList,
    Option.map_eq_some_iff, List.not_mem_nil, or_false] at mem
  rcases mem with (((rfl | ⟨s, -, rfl⟩) | rfl | rfl | rfl) | ⟨s, -, rfl⟩) | ⟨k, -, rfl⟩
  · exact jsonField_oneLine _ (jsonString_oneLine _)
  · exact jsonField_oneLine _ (jsonString_oneLine _)
  · exact jsonField_oneLine _ (digits_oneLine _)
  · exact jsonField_oneLine _ (digits_oneLine _)
  · exact jsonField_oneLine _ (jsonString_oneLine _)
  · exact jsonField_oneLine _ (jsonString_oneLine _)
  · exact jsonField_oneLine _ (jsonString_oneLine _)

theorem chomp_toJson : chomp (toJson l) = toJson l := by
  have last : (toJson l).getLast? = some (Char.ofNat 125) := by
    rw [toJson, List.getLast?_concat]
  rw [chomp, last]
  exact if_neg (by decide)

/-- A tape is read line by line as it was written. -/
theorem linesFrom_tapeText : linesFrom [] (tapeText lines) = lines.map toJson := by
  induction lines with
  | nil => rfl
  | cons l lines ih =>
    have first : tapeText (l :: lines) = toJson l ++ newline :: tapeText lines := by
      rw [tapeText, List.flatMap_cons, List.append_assoc]
      rfl
    rw [first, linesFrom_newline (toJson_oneLine l), List.nil_append, chomp_toJson, ih]
    rfl

theorem readTape_tapeText (lossless : ∀ l ∈ lines, parse (toJson l) = some l) :
    readTape parse (tapeText lines) = some (lines.map nextFrame) := by
  rw [readTape, linesFrom_tapeText]
  induction lines with
  | nil => rfl
  | cons l lines ih =>
    obtain ⟨own, others⟩ := List.forall_mem_cons.mp lossless
    have visible : ¬ (toJson l).all isWhiteSpace = true := by
      have open_brace : isWhiteSpace (Char.ofNat 123) = false := by decide
      rw [toJson, List.cons_append, List.all_cons, open_brace, Bool.false_and]
      decide
    rw [List.map_cons, readLines, if_neg visible, own, Option.bind_some, ih others]
    rfl

end Text

section Messages

/-- A frame of text or the end of a session. -/
inductive Recordable : IngestMessage → Prop where
  | frame (stream : StreamId) (text : String) (at_ : IngestTime) (source : FrameSource) :
    Recordable (.frame ⟨stream, .text text, at_, source⟩)
  | sessionEnded (stream : StreamId) (at_ : IngestTime) (ending : SessionEnd) :
    Recordable (.sessionEnded stream at_ ending)

/-- The record of a message on a tape with a start. -/
def recordOf (start : IngestTime) : IngestMessage → Option TapeRecord
  | .frame ⟨stream, .text text, now, source⟩ =>
    some ⟨stream.venue, some stream.symbol, nanos (now.since start), wallNanos now.wall, text,
      source, .frame⟩
  | .sessionEnded stream now _ =>
    some ⟨stream.venue, some stream.symbol, nanos (now.since start), wallNanos now.wall, "",
      .webSocket, .sessionEnded⟩
  | _ => none

/-- A message as it is told again, placed by its offset of at most 64 bits. -/
def retold (start base : IngestTime) : IngestMessage → IngestMessage
  | .frame frame =>
    .frame { frame with ingestTs := advancedBy base (min (frame.ingestTs.since start) u64Max) }
  | .sessionEnded stream now _ =>
    .sessionEnded stream (advancedBy base (min (now.since start) u64Max)) .closed
  | message => message

variable {start base : IngestTime} {w : TapeWriter} {message : IngestMessage}
  {messages : List IngestMessage} {record : TapeRecord} {fallback : Symbol}
  {parse : List Char → Option TapeLine}

theorem recordOf_some (own : Recordable message) :
    ∃ record, recordOf w.start message = some record ∧
      w.writeMessage message = .ok (w.writeRecord record) ∧
      ∀ base fallback, (nextFrame record.line).intoMessage base fallback =
        retold w.start base message := by
  cases own with
  | frame stream text now source =>
    refine ⟨_, rfl, rfl, fun base fallback => ?_⟩
    rw [nextFrame, record_line]
    rfl
  | sessionEnded stream now ending =>
    refine ⟨_, rfl, rfl, fun base fallback => ?_⟩
    rw [nextFrame, record_line]
    rfl

theorem writeAll_recordable (own : ∀ m ∈ messages, Recordable m) :
    ∃ records : List TapeRecord, w.writeAll messages =
        .ok { w with out := w.out ++ records.map TapeRecord.line } ∧
      (∀ record ∈ records, ∃ m ∈ messages, recordOf w.start m = some record) ∧
      ∀ base fallback, (records.map fun r => (nextFrame r.line).intoMessage base fallback) =
        messages.map (retold w.start base) := by
  induction messages generalizing w with
  | nil =>
    refine ⟨[], ?_, nofun, fun _ _ => rfl⟩
    rw [List.map_nil, List.append_nil]
    rfl
  | cons m messages ih =>
    obtain ⟨first, others⟩ := List.forall_mem_cons.mp own
    obtain ⟨record, known, written, told⟩ := recordOf_some (w := w) first
    obtain ⟨records, all, from_messages, tell⟩ := ih (w := w.writeRecord record) others
    refine ⟨record :: records, ?_, ?_, fun base fallback => ?_⟩
    · rw [TapeWriter.writeAll, List.foldlM_cons, written]
      change (w.writeRecord record).writeAll messages = _
      rw [all, TapeWriter.writeRecord, List.append_assoc]
      rfl
    · refine List.forall_mem_cons.mpr ⟨⟨m, List.mem_cons_self, known⟩, fun r mem => ?_⟩
      obtain ⟨m', on, same⟩ := from_messages r mem
      exact ⟨m', List.mem_cons_of_mem m on, same⟩
    · rw [List.map_cons, List.map_cons, told, tell]
      rfl

/-- What is written, read back and placed in a run is the same messages again. -/
theorem tape_round_trip (own : ∀ m ∈ messages, Recordable m)
    (lossless : ∀ m ∈ messages, ∀ record, recordOf start m = some record →
      parse (toJson record.line) = some record.line) (base : IngestTime) (fallback : Symbol) :
    ∃ tape, (TapeWriter.new start).writeAll messages = .ok tape ∧
      (readTape parse (tapeText tape.out)).map
          (List.map fun taped => taped.intoMessage base fallback) =
        some (messages.map (retold start base)) := by
  obtain ⟨records, written, from_messages, told⟩ :=
    writeAll_recordable (w := TapeWriter.new start) own
  refine ⟨_, written, ?_⟩
  have lines : ∀ l ∈ records.map TapeRecord.line, parse (toJson l) = some l := by
    intro l mem
    obtain ⟨record, on, rfl⟩ := List.mem_map.mp mem
    obtain ⟨m, inside, known⟩ := from_messages record on
    exact lossless m inside record known
  change (readTape parse (tapeText (records.map TapeRecord.line))).map _ = _
  rw [readTape_tapeText lines, Option.map_some, List.map_map, List.map_map]
  exact congrArg some (told base fallback)

end Messages

section Examples

def sampleStream : StreamId := ⟨.kraken, ⟨"BTC-USD"⟩⟩

/-- A text with a line break and quotes, a snapshot and the end of a session. -/
def sampleMessages : List IngestMessage :=
  [.frame ⟨sampleStream, .text (String.ofList [quoteMark, newline, backslash, 'a']), ⟨5, 5⟩,
      .webSocket⟩,
    .frame ⟨sampleStream, .text "book", ⟨7, 7⟩, .restSnapshot⟩,
    .sessionEnded sampleStream ⟨2 ^ 64, 9⟩ .idle]

/-- A parser of the lines of some messages. -/
def parseAmong (messages : List IngestMessage) (text : List Char) : Option TapeLine :=
  ((messages.filterMap (recordOf ⟨0, 0⟩)).map TapeRecord.line).find? (fun l => toJson l = text)

theorem tape_round_trip_sample : ∃ tape,
    (TapeWriter.new ⟨0, 0⟩).writeAll sampleMessages = .ok tape ∧
      (readTape (parseAmong sampleMessages) (tapeText tape.out)).map
          (List.map fun taped => taped.intoMessage ⟨3, 3⟩ ⟨"ETH-USD"⟩) =
        some (sampleMessages.map (retold ⟨0, 0⟩ ⟨3, 3⟩)) := by
  refine tape_round_trip ?_ ?_ ⟨3, 3⟩ ⟨"ETH-USD"⟩
  · simp only [sampleMessages, List.forall_mem_cons]
    exact ⟨.frame .., .frame .., .sessionEnded .., List.forall_mem_nil _⟩
  · simp only [sampleMessages, List.forall_mem_cons]
    refine ⟨?_, ?_, ?_, List.forall_mem_nil _⟩ <;> rintro record ⟨⟩ <;> decide +kernel

/-- The clocks' readings of the boundaries among some messages. -/
def boundaries (messages : List IngestMessage) : List IngestTime :=
  messages.filterMap fun m => match m with
    | .sessionEnded _ now _ => some now
    | _ => none

/-- An offset of 2^64 nanoseconds is read back one nanosecond short. -/
theorem tape_saturates : ∃ tape,
    (TapeWriter.new ⟨0, 0⟩).writeAll [.sessionEnded sampleStream ⟨2 ^ 64, 9⟩ .idle] = .ok tape ∧
      (∀ l ∈ tape.out, parseAmong sampleMessages (toJson l) = some l) ∧
      (readTape (parseAmong sampleMessages) (tapeText tape.out)).map
          (List.map fun taped => taped.intoMessage ⟨3, 3⟩ ⟨"ETH-USD"⟩) ≠
        some [.sessionEnded sampleStream ⟨3 + 2 ^ 64, 18446744073709551619⟩ .closed] := by
  refine ⟨_, rfl, List.forall_mem_singleton.mpr (by decide +kernel), fun same => ?_⟩
  have readings := congrArg (Option.map boundaries) same
  have short : boundaries [.sessionEnded sampleStream ⟨3 + 2 ^ 64, 18446744073709551619⟩ .closed] =
      [⟨3 + 2 ^ 64, 18446744073709551619⟩] := rfl
  rw [Option.map_some, short] at readings
  revert readings
  decide +kernel

end Examples

end TapeText

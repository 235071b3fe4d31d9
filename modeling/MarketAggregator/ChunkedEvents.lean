import MarketAggregator.NodeFeed
import Mathlib.Data.List.Forall2

/-!
# Events read in chunks

A feed decodes chunk by chunk, so a character that is cut by a chunk's end is replaced.
Blocks, lines and field names are ASCII at their ends and are found all the same. Which
payloads a session hands on is therefore independent of the chunks exactly where nothing
that a payload depends on can be cut, and nothing that is cut can outgrow the buffer.
-/

namespace ChunkedEvents

open LossyText NodeFeed TextLines Utf8Text

section Framing

variable {R : Char → List Char → Prop} {t u line line' l l' : List Char} {c : Char} {s s' : Scan}

theorem newline_ascii : newline.toNat < 128 := by decide

theorem replacement_wide : 128 ≤ replacement.toNat := by decide

theorem run_plain (s : Scan) (some_char : t ≠ []) (one : OneLine t) :
    s.run t = ⟨s.blocks, s.rest ++ t, false⟩ := by
  induction t generalizing s with
  | nil => exact absurd rfl some_char
  | cons c t ih =>
    obtain ⟨other, one⟩ := oneLine_cons.mp one
    have pushed : s.push c = ⟨s.blocks, s.rest ++ [c], false⟩ := by
      rw [Scan.push, if_neg (fun both => other both.1), decide_eq_false other]
    rw [run_cons, pushed]
    cases t with
    | nil => rfl
    | cons d t =>
      rw [ih ⟨s.blocks, s.rest ++ [c], false⟩ (List.cons_ne_nil d t) one, List.append_assoc]
      rfl

theorem replacements_oneLine (n : Nat) : OneLine (List.replicate n replacement) := by
  intro mem
  have same := List.eq_of_mem_replicate mem
  revert same
  decide

/-- Two scans that have found the same blocks, as far as they are shown. -/
structure Alike (R : Char → List Char → Prop) (s s' : Scan) : Prop where
  blocks : List.Forall₂ (Shown R) s.blocks s'.blocks
  rest : Shown R s.rest s'.rest
  atLine : s.atLine = s'.atLine

theorem shown_single {q : List Char} (own : R c q) : Shown R [c] q := by
  have shown := Shown.cons own .nil
  rwa [List.append_nil] at shown

theorem linesFrom_plain {x : List Char} (one : OneLine t) :
    linesFrom line (t ++ x) = linesFrom (line ++ t) x := by
  induction t generalizing line with
  | nil => rw [List.nil_append, List.append_nil]
  | cons c t ih =>
    obtain ⟨other, one⟩ := oneLine_cons.mp one
    rw [List.cons_append, linesFrom, if_neg other, ih one, List.append_assoc]
    rfl

theorem chomp_concat (l : List Char) (c : Char) :
    chomp (l ++ [c]) = if c = Char.ofNat 13 then l else l ++ [c] := by
  rw [chomp, List.getLast?_concat, List.dropLast_concat]
  simp only [Option.some.injEq]

variable (dents : ∀ c q, R c q → Dents c q)
include dents

theorem Alike.push {q : List Char} (alike : Alike R s s') (own : R c q) :
    Alike R (s.push c) (s'.run q) := by
  rcases dents c q own with rfl | ⟨wide, n, some_char, -, rfl⟩
  · rw [run_cons, Scan.run, List.foldl_nil, Scan.push, Scan.push, alike.atLine]
    split
    · refine ⟨List.rel_append alike.blocks (.cons ?_ .nil), .nil, rfl⟩
      exact shown_append alike.rest (shown_single own)
    · exact ⟨alike.blocks, shown_append alike.rest (shown_single own), rfl⟩
  · have other : c ≠ newline := by
      rintro rfl
      exact absurd newline_ascii (by omega)
    have filled : List.replicate n replacement ≠ [] := by
      rw [ne_eq, List.replicate_eq_nil_iff]
      omega
    rw [run_plain s' filled (replacements_oneLine n), Scan.push,
      if_neg (fun both => other both.1), decide_eq_false other]
    exact ⟨alike.blocks, shown_append alike.rest (shown_single own), rfl⟩

/-- A text and what is shown of it have the same blocks. -/
theorem Alike.run (alike : Alike R s s') (shown : Shown R t u) : Alike R (s.run t) (s'.run u) := by
  induction shown generalizing s s' with
  | nil => exact alike
  | cons own _ ih =>
    rw [run_cons, run_append]
    exact ih (alike.push dents own)

theorem shown_chomp (shown : Shown R l l') : Shown R (chomp l) (chomp l') := by
  rcases List.eq_nil_or_concat l with rfl | ⟨a, c, rfl⟩
  · rw [shown_nil shown]
    exact .nil
  · rw [List.concat_eq_append] at shown ⊢
    obtain ⟨b, q, rfl, first, last⟩ := shown_split shown
    cases last with
    | cons own none =>
      rw [shown_nil none, List.append_nil] at shown ⊢
      rw [chomp_concat]
      rcases dents _ _ own with rfl | ⟨wide, n, some_char, -, rfl⟩
      · rw [chomp_concat]
        split
        · exact first
        · exact shown
      · have kept : c ≠ Char.ofNat 13 := by
          rintro rfl
          revert wide
          decide
        obtain ⟨n, rfl⟩ : ∃ k, n = k + 1 := ⟨n - 1, by omega⟩
        rw [if_neg kept]
        rw [List.replicate_succ', ← List.append_assoc] at shown ⊢
        rw [chomp_concat, if_neg (by decide)]
        exact shown

/-- A text and what is shown of it have the same lines. -/
theorem shown_lines (before : Shown R line line') (shown : Shown R t u) :
    List.Forall₂ (Shown R) (linesFrom line t) (linesFrom line' u) := by
  induction shown generalizing line line' with
  | nil =>
    rw [linesFrom, linesFrom]
    by_cases none : line = []
    · rw [none] at before
      rw [if_pos none, shown_nil before, if_pos rfl]
      exact .nil
    · have some_char : line' ≠ [] := by
        rintro rfl
        exact none (shown_eq_nil dents before)
      rw [if_neg none, if_neg some_char]
      exact .cons before .nil
  | @cons c q t u own _ ih =>
    rcases dents c q own with rfl | ⟨wide, n, -, -, rfl⟩
    · rw [List.singleton_append, linesFrom, linesFrom]
      split
      · exact .cons (shown_chomp dents before) (ih .nil)
      · exact ih (shown_append before (shown_single own))
    · have other : c ≠ newline := by
        rintro rfl
        exact absurd newline_ascii (by omega)
      rw [linesFrom, if_neg other, linesFrom_plain (replacements_oneLine n)]
      exact ih (shown_append before (shown_single own))

/-- A field is named in a line if and only if it is in what is shown of the line. -/
theorem shown_field {field : List Char} (ascii : ∀ c ∈ field, c.toNat < 128)
    (shown : Shown R l l') :
    Option.Rel (Shown R) (field.isPrefixOf? l) (field.isPrefixOf? l') := by
  induction field generalizing l l' with
  | nil => exact .some shown
  | cons d field ih =>
    obtain ⟨first, others⟩ := List.forall_mem_cons.mp ascii
    cases shown with
    | nil => exact .none
    | @cons c q l l' own rest =>
      rcases dents c q own with rfl | ⟨wide, n, some_char, -, rfl⟩
      · rw [List.singleton_append, List.isPrefixOf?, List.isPrefixOf?]
        split
        · exact ih others rest
        · exact .none
      · obtain ⟨n, rfl⟩ : ∃ k, n = k + 1 := ⟨n - 1, by omega⟩
        have other : (d == c) = false := by
          rw [beq_eq_false_iff_ne]
          rintro rfl
          omega
        have shown_other : (d == replacement) = false := by
          rw [beq_eq_false_iff_ne]
          rintro rfl
          exact absurd replacement_wide (by omega)
        rw [List.replicate_succ, List.cons_append, List.isPrefixOf?, List.isPrefixOf?, other,
          shown_other]
        exact .none

end Framing

section Payloads

variable {R : Char → List Char → Prop} {b b' d d' r r' field : List Char}

/-- ASCII text only. -/
def Ascii (t : List Char) : Prop := ∀ c ∈ t, c.toNat < 128

theorem ascii_fields : Ascii eventField ∧ Ascii dataField := by
  simp [Ascii, eventField, dataField]

theorem whiteSpace_shown : isWhiteSpace replacement = false := by decide

theorem last_rel {A B : Type} {P : A → B → Prop} {l : List A} {m : List B}
    (pairs : List.Forall₂ P l m) : Option.Rel P l.getLast? m.getLast? := by
  induction pairs with
  | nil => exact .none
  | @cons a b l m own _ ih =>
    rw [List.getLast?_cons, List.getLast?_cons]
    generalize l.getLast? = x, m.getLast? = y at ih
    cases ih with
    | none => exact .some own
    | some later => exact .some later

variable (dents : ∀ c q, R c q → Dents c q)
include dents

theorem shown_rests (ascii : Ascii field) (shown : Shown R b b') :
    List.Forall₂ (Shown R) (restsOf field b) (restsOf field b') :=
  List.rel_filterMap (fun _ _ lines => shown_field dents ascii lines)
    (shown_lines dents .nil shown)

theorem shown_stripSpace (shown : Shown R r r') : Shown R (stripSpace r) (stripSpace r') := by
  cases shown with
  | nil => exact .nil
  | @cons c q r r' own rest =>
    have kept := Shown.cons own rest
    rw [stripSpace, stripSpace]
    rcases dents c q own with rfl | ⟨wide, n, some_char, -, rfl⟩
    · rw [List.singleton_append, List.head?_cons, List.head?_cons]
      split
      · exact rest
      · exact kept
    · obtain ⟨n, rfl⟩ : ∃ k, n = k + 1 := ⟨n - 1, by omega⟩
      have other : c ≠ ' ' := by
        rintro rfl
        revert wide
        decide
      rw [List.head?_cons, if_neg (by simpa using other)]
      rw [List.replicate_succ, List.cons_append] at kept ⊢
      rw [List.head?_cons, if_neg (by decide)]
      exact kept

theorem shown_addData (kept : R newline [newline]) (data : Shown R d d')
    (rest : Shown R r r') : Shown R (addData d r) (addData d' r') := by
  refine shown_append ?_ (shown_stripSpace dents rest)
  by_cases none : d = []
  · rw [none] at data
    rw [if_pos none, shown_nil data, if_pos rfl]
    exact .nil
  · have some_data : d' ≠ [] := by
      rintro rfl
      exact none (shown_eq_nil dents data)
    rw [if_neg none, if_neg some_data]
    exact shown_append data (shown_single kept)

theorem shown_data (kept : R newline [newline]) (shown : Shown R b b') :
    Shown R ((restsOf dataField b).foldl addData []) ((restsOf dataField b').foldl addData []) := by
  have rests := shown_rests dents ascii_fields.2 shown
  refine List.rel_foldl (P := Shown R) (R := Shown R) ?_ .nil rests
  exact fun _ _ data _ _ rest => shown_addData dents kept data rest

theorem shown_name (shown : Shown R b b') : Option.Rel (Shown R)
    (restsOf eventField b).getLast? (restsOf eventField b').getLast? :=
  last_rel (shown_rests dents ascii_fields.1 shown)

/-- A name that is shown as a snapshot's is one, without anything cut. -/
theorem shown_snapshot (shown : Shown R r r')
    (named : r'.dropWhile isWhiteSpace = "snapshot".toList) : r = r' := by
  refine shown_clean dents shown fun mem => ?_
  rw [← List.takeWhile_append_dropWhile (p := isWhiteSpace) (l := r'), named] at mem
  rcases List.mem_append.mp mem with space | letter
  · have white := List.mem_takeWhile_imp space
    rw [whiteSpace_shown] at white
    cases white
  · revert letter
    decide

/-- What is shown as a snapshot is one. -/
theorem payload_of_shown (kept : R newline [newline]) (shown : Shown R b b')
    (handed : payload b' = some d') : ∃ d, payload b = some d ∧ Shown R d d' ∧
      ∀ r ∈ (restsOf eventField b).getLast?, Shown R r r := by
  obtain ⟨joined, some_data, name', last', named⟩ := payload_iff.mp handed
  have data := shown_data dents kept shown
  have names := shown_name dents shown
  rw [joined] at data
  rw [last'] at names
  cases last : (restsOf eventField b).getLast? with
  | none =>
    rw [last] at names
    cases names
  | some name =>
    rw [last] at names
    cases names with
    | some own =>
      have same := shown_snapshot dents own named
      refine ⟨_, payload_iff.mpr ⟨rfl, fun none => ?_, name, last, same ▸ named⟩, data, ?_⟩
      · rw [none] at data
        exact some_data (shown_nil data)
      · rintro r ⟨⟩
        exact same ▸ own

theorem payload_none (kept : R newline [newline]) (shown : Shown R b b')
    (silent : payload b = none) : payload b' = none := by
  refine Option.eq_none_iff_forall_ne_some.mpr fun d' handed => ?_
  obtain ⟨d, there, -⟩ := payload_of_shown dents kept shown handed
  rw [silent] at there
  cases there

/-- A payload of ASCII text is handed on as it is. -/
theorem payload_kept (shown : Shown R b b') (handed : payload b = some d)
    (name : ∀ r ∈ (restsOf eventField b).getLast?, Ascii r)
    (data : ∀ r ∈ restsOf dataField b, Ascii r) : payload b' = some d := by
  obtain ⟨joined, some_data, own, last, named⟩ := payload_iff.mp handed
  have rests : restsOf dataField b' = restsOf dataField b := by
    have pairs := shown_rests dents ascii_fields.2 shown
    generalize restsOf dataField b = rs, restsOf dataField b' = rs' at pairs data
    induction pairs with
    | nil => rfl
    | cons first _ ih =>
      obtain ⟨ascii, others⟩ := List.forall_mem_cons.mp data
      rw [shown_ascii dents first ascii, ih others]
  have names := shown_name dents shown
  rw [last] at names
  cases last' : (restsOf eventField b').getLast? with
  | none =>
    rw [last'] at names
    cases names
  | some other =>
    rw [last'] at names
    cases names with
    | some pair =>
      rw [shown_ascii dents pair (name own last)] at last'
      exact payload_iff.mpr ⟨by rw [rests, joined], some_data, own, last', named⟩

end Payloads

section Cuts

variable {t x : List Char} {b : List Char} {chunks : List (List UInt8)} {n : Nat}

/-- The payloads of a text that is split at once. -/
def payloadsOf (t : List Char) : List (List Char) := (blocks t).1.filterMap payload

/-- However the bytes of a text are cut, its payloads are handed on. -/
def Reassembled (t : List Char) : Prop :=
  ∀ chunks other : List (List UInt8), chunks.flatten = bytes t → other.flatten = bytes t →
    (session [] chunks).payloads = (session [] other).payloads ∧
      (session [] chunks).payloads = payloadsOf t

/-- Names and data of payloads are ASCII, and no block up to the last payload can be shown
with more bytes than a feed may keep. -/
structure Uncut (t : List Char) : Prop where
  ascii : ∀ b ∈ (blocks t).1, ∀ d, payload b = some d →
    (∀ r ∈ (restsOf eventField b).getLast?, Ascii r) ∧ ∀ r ∈ restsOf dataField b, Ascii r
  sized : ∀ past b rest, (blocks t).1 = past ++ b :: rest →
    (∃ x ∈ b :: rest, payload x ≠ none) → swell b ≤ maxEventBytes + 1

/-- The first block to be completed goes on what was left. -/
theorem first_block {r : List Char} {f : Bool} {bs : List (List Char)}
    (found : (Scan.run ⟨[], r, f⟩ t).blocks = b :: bs) :
    ∃ u later, t = u ++ newline :: later ∧ b = r ++ u ++ [newline] := by
  induction t generalizing r f with
  | nil => cases found
  | cons c t ih =>
    rw [run_cons, Scan.push] at found
    split at found
    · rename_i ended
      rw [run_blocks] at found
      obtain ⟨rfl, -⟩ := List.cons.inj found
      exact ⟨[], t, by rw [ended.1]; rfl, by rw [ended.1, List.append_nil]⟩
    · obtain ⟨u, later, rfl, rfl⟩ := ih found
      exact ⟨c :: u, later, rfl, by rw [List.append_assoc r]; rfl⟩

/-- A block is what was left before its last newline. -/
theorem block_end (mem : b ∈ (Scan.start.run t).blocks) :
    ∃ u later, t = u ++ newline :: later ∧ b = (Scan.start.run u).rest ++ [newline] := by
  induction t using List.reverseRecOn with
  | nil => cases mem
  | append_singleton t c ih =>
    rw [run_append, Scan.run, List.foldl_cons, List.foldl_nil, Scan.push] at mem
    split at mem
    · rename_i ended
      rcases List.mem_append.mp mem with old | new
      · obtain ⟨u, later, rfl, same⟩ := ih old
        exact ⟨u, later ++ [c], by rw [List.append_assoc]; rfl, same⟩
      · refine ⟨t, [], by rw [ended.1], ?_⟩
        rw [List.mem_singleton.mp new, ended.1]
    · obtain ⟨u, later, rfl, same⟩ := ih mem
      exact ⟨u, later ++ [c], by rw [List.append_assoc]; rfl, same⟩

theorem blocks_append (t x : List Char) : (blocks (t ++ x)).1 = (Scan.start.run t).blocks ++
    (Scan.run ⟨[], (Scan.start.run t).rest, (Scan.start.run t).atLine⟩ x).blocks := by
  rw [blocks_eq, run_append]
  generalize Scan.start.run t = s
  obtain ⟨found, rest, atLine⟩ := s
  rw [run_blocks]

theorem run_replacements (s : Scan) (n : Nat) :
    (s.run (List.replicate n replacement)).blocks = s.blocks ∧
      (s.run (List.replicate n replacement)).rest = s.rest ++ List.replicate n replacement := by
  cases n with
  | zero => exact ⟨rfl, (List.append_nil _).symm⟩
  | succ n =>
    rw [run_plain s (by simp) (replacements_oneLine _)]
    exact ⟨rfl, rfl⟩

theorem alike_start (R : Char → List Char → Prop) : Alike R Scan.start Scan.start :=
  ⟨.nil, .nil, rfl⟩

/-- What is received of a text: some of its characters, and maybe a part of the next one. -/
structure Received (R : Char → List Char → Prop) (t x : List Char) (k : Nat) (s : Scan) :
    Prop where
  blocks : List.Forall₂ (Shown R) (Scan.start.run t).blocks s.blocks
  rest : ∃ r n, Shown R (Scan.start.run t).rest r ∧ n ≤ k ∧
    s.rest = r ++ List.replicate n replacement
  part : k = 0 ∨ ∃ c later, x = c :: later ∧ 128 ≤ c.toNat ∧ k + 1 ≤ c.utf8Size

theorem received_chunks (whole : chunks.flatten = bytes t) (n : Nat) :
    ∃ t₁ t₂ k, t = t₁ ++ t₂ ∧ Received Dents t₁ t₂ k (scanned [] chunks n) ∧
      (n = chunks.length → t₂ = []) := by
  have joined : bytes t = (chunks.take n).flatten ++ (chunks.drop n).flatten := by
    rw [← List.flatten_append, List.take_append_drop, whole]
  have last : n = chunks.length → (chunks.drop n).flatten = [] := by
    rintro rfl
    rw [List.drop_length]
    rfl
  have received : ∀ (t₁ : List Char) (part : List UInt8), Opening part →
      (chunks.take n).flatten = bytes t₁ ++ part →
      ∀ t₂, (part.length = 0 ∨ ∃ c later, t₂ = c :: later ∧ 128 ≤ c.toNat ∧
        part.length + 1 ≤ c.utf8Size) → Received Dents t₁ t₂ part.length (scanned [] chunks n) := by
    intro t₁ part opening text t₂ next
    obtain ⟨s, j, read, shown, few⟩ := shown_chunks (chunks.take n) [] t₁ part nofun opening text
    have alike := (alike_start Dents).run (fun _ _ own => own) shown
    obtain ⟨blocks, rest⟩ := run_replacements (Scan.start.run s) j
    have scan : scanned [] chunks n = (Scan.start.run s).run (List.replicate j replacement) := by
      rw [scanned, read, ← run_append]
      rfl
    refine ⟨?_, ⟨_, j, alike.rest, few, ?_⟩, next⟩
    · rw [scan, blocks]
      exact alike.blocks
    · rw [scan, rest]
  cases cut_bytes joined with
  | between t₁ t₂ split before after =>
    refine ⟨t₁, t₂, 0, split, received t₁ [] (.inl rfl) (by rw [before, List.append_nil]) t₂
      (.inl rfl), fun all => ?_⟩
    rw [last all] at after
    exact byteLen_zero (congrArg List.length after.symm)
  | inside t₁ t₂ c part tails split encoding some_byte cut before after =>
    refine ⟨t₁, c :: t₂, part.length, split, received t₁ part (.inr ⟨c, tails, encoding, cut⟩)
      before (c :: t₂) (.inr ⟨c, t₂, rfl, two_le_size encoding some_byte cut, ?_⟩), fun all => ?_⟩
    · have missing := List.length_pos_iff.mpr cut
      rw [← String.length_utf8EncodeChar, encoding, List.length_append]
      omega
    · rw [last all] at after
      exact absurd (List.append_eq_nil_iff.mp after.symm).1 cut

/-- Payloads of ASCII text are handed on, and nothing else is. -/
theorem payloads_kept {l l' : List (List Char)} (pairs : List.Forall₂ (Shown Dents) l l')
    (ascii : ∀ b ∈ l, ∀ d, payload b = some d →
      (∀ r ∈ (restsOf eventField b).getLast?, Ascii r) ∧ ∀ r ∈ restsOf dataField b, Ascii r) :
    l'.filterMap payload = l.filterMap payload := by
  induction pairs with
  | nil => rfl
  | @cons b b' l l' shown _ ih =>
    obtain ⟨first, others⟩ := List.forall_mem_cons.mp ascii
    have same : payload b' = payload b := by
      cases handed : payload b with
      | some d =>
        obtain ⟨name, data⟩ := first d handed
        exact payload_kept (fun _ _ own => own) shown handed name data
      | none => exact payload_none (fun _ _ own => own) (.inl rfl) shown handed
    rw [List.filterMap_cons, List.filterMap_cons, same, ih others]

/-- What is left of a block has fewer bytes than the block, however it is shown. -/
theorem received_fits {t₁ t₂ : List Char} {k : Nat} {s : Scan} {bs : List (List Char)}
    (received : Received Dents t₁ t₂ k s)
    (next : (Scan.run ⟨[], (Scan.start.run t₁).rest, (Scan.start.run t₁).atLine⟩ t₂).blocks =
      b :: bs) : byteLen s.rest + 1 ≤ swell b := by
  obtain ⟨r, j, shown, few, left⟩ := received.rest
  obtain ⟨u, later, whole, rfl⟩ := first_block next
  have bound := byteLen_shown shown
  have ended : swell [newline] = 1 := by decide
  rw [left, byteLen_append, byteLen_replacements, swell_append, swell_append, ended]
  rcases received.part with rfl | ⟨c, rest, more, wide, room⟩
  · omega
  · rw [more] at whole
    cases u with
    | nil =>
      rw [(List.cons.inj whole).1] at wide
      exact absurd newline_ascii (by omega)
    | cons d u =>
      obtain rfl : c = d := (List.cons.inj whole).1
      rw [swell, if_neg (by omega)]
      omega

/-- The blocks that a text goes on with. -/
def blocksAfter (t x : List Char) : List (List Char) :=
  (Scan.run ⟨[], (Scan.start.run t).rest, (Scan.start.run t).atLine⟩ x).blocks

/-- A session hands on all payloads if it has those of the text that it received and is not
ended before another one. -/
theorem payloads_of_received
    (received : ∀ n, ∃ t₁ t₂, t = t₁ ++ t₂ ∧ (n = chunks.length → t₂ = []) ∧
      (scanned [] chunks n).blocks.filterMap payload =
        (Scan.start.run t₁).blocks.filterMap payload ∧
      ∀ b bs, blocksAfter t₁ t₂ = b :: bs → (∃ x ∈ b :: bs, payload x ≠ none) →
        byteLen (scanned [] chunks n).rest ≤ maxEventBytes) :
    (session [] chunks).payloads = payloadsOf t := by
  obtain ⟨n, -, handed, -, last⟩ := session_scanned chunks []
  obtain ⟨t₁, t₂, rfl, all, before, fits⟩ := received n
  have none_later : (blocksAfter t₁ t₂).filterMap payload = [] := by
    refine List.filterMap_eq_nil_iff.mpr fun x mem => ?_
    by_contra some_payload
    rcases last with ended | large
    · rw [all ended] at mem
      cases mem
    · cases next : blocksAfter t₁ t₂ with
      | nil =>
        rw [next] at mem
        cases mem
      | cons b bs =>
        rw [next] at mem
        have bound := fits b bs next ⟨x, mem, some_payload⟩
        omega
  rw [payloadsOf, blocks_append, ← blocksAfter, List.filterMap_append, none_later,
    List.append_nil, ← before, ← handed]
  exact (List.nil_append _).symm

/-- Where nothing that matters can be cut, any chunks give the payloads of the whole. -/
theorem payloads_of_uncut (uncut : Uncut t) (whole : chunks.flatten = bytes t) :
    (session [] chunks).payloads = payloadsOf t := by
  refine payloads_of_received fun n => ?_
  obtain ⟨t₁, t₂, k, rfl, received, all⟩ := received_chunks whole n
  have split := blocks_append t₁ t₂
  refine ⟨t₁, t₂, rfl, all, payloads_kept received.blocks fun b mem => ?_, ?_⟩
  · exact uncut.ascii b (by rw [split]; exact List.mem_append_left _ mem)
  · intro b bs next later
    rw [← blocksAfter, next] at split
    have fits := received_fits received next
    have bound := uncut.sized _ b bs split later
    omega

/-- Chunks of whole characters give the payloads of the whole text, if no block is too long. -/
theorem payloads_of_characters (texts : List (List Char))
    (sized : ∀ b ∈ (blocks texts.flatten).1, byteLen b ≤ maxEventBytes + 1) :
    (session [] (texts.map bytes)).payloads = payloadsOf texts.flatten := by
  refine payloads_of_received fun n => ?_
  have joined : texts.flatten = (texts.take n).flatten ++ (texts.drop n).flatten := by
    rw [← List.flatten_append, List.take_append_drop]
  have read : ∀ parts : List (List Char), (parts.map bytes).flatMap lossy = parts.flatten := by
    intro parts
    induction parts with
    | nil => rfl
    | cons t parts ih =>
      have own := lossy_bytes t []
      rw [List.append_nil, lossy_nil, List.append_nil] at own
      rw [List.map_cons, List.flatMap_cons, own, ih, List.flatten_cons]
  have scan : scanned [] (texts.map bytes) n = Scan.start.run (texts.take n).flatten := by
    rw [scanned, ← List.map_take, read, List.nil_append]
  rw [joined] at sized ⊢
  refine ⟨_, _, rfl, ?_, by rw [scan], fun b bs next _ => ?_⟩
  · rintro rfl
    rw [List.length_map, List.drop_length]
    rfl
  · have bound := sized b (by rw [blocks_append, ← blocksAfter, next]; simp)
    obtain ⟨u, later, -, rfl⟩ := first_block next
    have one : newline.utf8Size = 1 := by decide
    rw [byteLen_append, byteLen_append, byteLen_cons, one] at bound
    rw [scan]
    omega

end Cuts

section Singles

variable {t : List Char} {b : List Char} {n : Nat}

def singles (t : List Char) : List (List UInt8) := (bytes t).map ([·])

theorem singles_flatten (t : List Char) : (singles t).flatten = bytes t := by
  rw [singles]
  induction bytes t with
  | nil => rfl
  | cons b l ih => rw [List.map_cons, List.flatten_cons, ih, List.singleton_append]

theorem scanned_singles (t : List Char) (n : Nat) : scanned [] (singles t) n =
    Scan.start.run (((bytes t).take n).flatMap fun b => lossy [b]) := by
  rw [scanned, singles, ← List.map_take, List.flatMap_map, List.nil_append]

theorem alike_singles (t : List Char) : Alike Shatters (Scan.start.run t)
    (Scan.start.run ((bytes t).flatMap fun b => lossy [b])) :=
  (alike_start Shatters).run (fun _ _ => shatters_dents) (shattered_bytes t)

/-- The blocks of a text that was received byte by byte are shattered. -/
theorem received_singles (t : List Char) (n : Nat) : ∃ t₁ t₂, t = t₁ ++ t₂ ∧
    byteLen t₁ ≤ n ∧ (n = (singles t).length → t₂ = []) ∧ List.Forall₂ (Shown Shatters)
      (Scan.start.run t₁).blocks (scanned [] (singles t) n).blocks := by
  have joined : bytes t = (bytes t).take n ++ (bytes t).drop n := (List.take_append_drop ..).symm
  have few : ((bytes t).take n).length ≤ n := List.length_take_le n _
  have last : n = (singles t).length → (bytes t).drop n = [] := by
    rintro rfl
    rw [singles, List.length_map, List.drop_length]
  rw [scanned_singles]
  cases cut_bytes joined with
  | between t₁ t₂ split before after =>
    rw [before] at few ⊢
    refine ⟨t₁, t₂, split, few, fun all => ?_, (alike_singles t₁).blocks⟩
    rw [last all] at after
    exact byteLen_zero (congrArg List.length after.symm)
  | inside t₁ t₂ c part tails split encoding some_byte cut before after =>
    rw [before, List.length_append] at few
    have own := encoded c
    rw [encoding] at own
    have high := own.high (two_le_size encoding some_byte cut)
    rw [before, List.flatMap_append,
      flatMap_replacements fun b mem => high b (List.mem_append_left _ mem), run_append,
      (run_replacements _ _).1]
    refine ⟨t₁, c :: t₂, split, ?_, fun all => ?_, (alike_singles t₁).blocks⟩
    · exact (Nat.le_add_right ..).trans few
    · rw [last all] at after
      exact absurd (List.append_eq_nil_iff.mp after.symm).1 cut

/-- Payloads that are handed on unchanged by other blocks come from the same ones. -/
theorem payloads_same {l l' more : List (List Char)}
    (pairs : List.Forall₂ (Shown Shatters) l l')
    (same : l'.filterMap payload = l.filterMap payload ++ more.filterMap payload) :
    more.filterMap payload = [] ∧ ∀ b ∈ l, ∀ d, payload b = some d →
      Shown Shatters d d ∧ ∀ r ∈ (restsOf eventField b).getLast?, Shown Shatters r r := by
  have few : ∀ {l l' : List (List Char)}, List.Forall₂ (Shown Shatters) l l' →
      (l'.filterMap payload).length ≤ (l.filterMap payload).length := by
    intro l l' pairs
    induction pairs with
    | nil => exact le_rfl
    | @cons b b' l l' shown _ ih =>
      cases later : payload b' with
      | none =>
        rw [List.filterMap_cons_none later]
        refine ih.trans ?_
        rw [List.filterMap_cons]
        split <;> simp
      | some d' =>
        obtain ⟨d, handed, -⟩ := payload_of_shown (fun _ _ => shatters_dents) rfl shown later
        rw [List.filterMap_cons_some later, List.filterMap_cons_some handed, List.length_cons,
          List.length_cons]
        omega
  induction pairs with
  | nil => exact ⟨same.symm, nofun⟩
  | @cons b b' l l' shown rest ih =>
    have fewer := few rest
    cases handed : payload b with
    | none =>
      have later := payload_none (fun _ _ => shatters_dents) rfl shown handed
      rw [List.filterMap_cons_none handed, List.filterMap_cons_none later] at same
      obtain ⟨none_more, all⟩ := ih same
      refine ⟨none_more, List.forall_mem_cons.mpr ⟨fun d some_payload => ?_, all⟩⟩
      rw [handed] at some_payload
      cases some_payload
    | some d =>
      cases later : payload b' with
      | none =>
        rw [List.filterMap_cons_some handed, List.filterMap_cons_none later] at same
        have sizes := congrArg List.length same
        rw [List.length_append, List.length_cons] at sizes
        omega
      | some d' =>
        obtain ⟨own, there, data, name⟩ :=
          payload_of_shown (fun _ _ => shatters_dents) rfl shown later
        obtain rfl := Option.some.inj (handed.symm.trans there)
        rw [List.filterMap_cons_some handed, List.filterMap_cons_some later] at same
        obtain ⟨rfl, others⟩ := List.cons.inj same
        obtain ⟨none_more, all⟩ := ih others
        refine ⟨none_more, List.forall_mem_cons.mpr ⟨fun d some_payload => ?_, all⟩⟩
        obtain rfl := Option.some.inj (handed.symm.trans some_payload)
        exact ⟨data, name⟩

theorem ascii_of_same {d : List Char} (shown : Shown Shatters d d) : Ascii d :=
  (ascii_of_shattered shown).2 rfl

theorem mem_addData {c : Char} {data r : List Char} (mem : c ∈ data ∨ c ∈ r ∧ c ≠ ' ') :
    c ∈ addData data r := by
  rw [addData, List.mem_append]
  refine mem.imp (fun old => ?_) fun new => ?_
  · rw [if_neg (List.ne_nil_of_mem old)]
    exact List.mem_append_left _ old
  · obtain ⟨inside, other⟩ := new
    cases r with
    | nil => cases inside
    | cons x r =>
      rw [stripSpace, List.head?_cons]
      split
      · rename_i space
        rw [Option.some.inj space] at inside
        exact (List.mem_cons.mp inside).resolve_left other
      · exact inside

theorem mem_foldl_addData {c : Char} {rs : List (List Char)} {data : List Char}
    (mem : c ∈ data ∨ (∃ r ∈ rs, c ∈ r) ∧ c ≠ ' ') : c ∈ rs.foldl addData data := by
  induction rs generalizing data with
  | nil => simpa using mem
  | cons first rs ih =>
    refine ih ?_
    rcases mem with old | ⟨⟨r, on, inside⟩, other⟩
    · exact .inl (mem_addData (.inl old))
    · rcases List.mem_cons.mp on with rfl | later
      · exact .inl (mem_addData (.inr ⟨inside, other⟩))
      · exact .inr ⟨⟨r, later, inside⟩, other⟩

theorem ascii_rests {d : List Char} (handed : payload b = some d) (ascii : Ascii d) :
    ∀ r ∈ restsOf dataField b, Ascii r := by
  intro r on c inside
  obtain ⟨joined, -⟩ := payload_iff.mp handed
  by_cases space : c = ' '
  · rw [space]
    decide
  · refine ascii c ?_
    rw [← joined]
    exact mem_foldl_addData (.inr ⟨⟨r, on, inside⟩, space⟩)

/-- A block was shown with all its bytes but the last before it was complete. -/
theorem swell_block {t₁ t₂ : List Char} (mem : b ∈ (Scan.start.run t₁).blocks)
    (received : byteLen t₁ ≤ n) (below : ∀ m, 1 ≤ m → m < n →
      byteLen (scanned [] (singles (t₁ ++ t₂)) m).rest ≤ maxEventBytes) :
    swell b ≤ maxEventBytes + 1 := by
  obtain ⟨u, later, rfl, rfl⟩ := block_end mem
  have ended : swell [newline] = 1 := by decide
  have one : newline.utf8Size = 1 := by decide
  rw [byteLen_append, byteLen_cons, one] at received
  rw [swell_append, ended]
  by_cases start : byteLen u = 0
  · rw [byteLen_zero start]
    exact Nat.succ_le_succ (Nat.zero_le _)
  · have bound := below (byteLen u) (by omega) (by omega)
    rw [scanned_singles, List.append_assoc, bytes_append,
      List.take_left' (show (bytes u).length = byteLen u from rfl),
      byteLen_shattered (alike_singles u).rest] at bound
    omega

/-- A text whose bytes can be received one by one has nothing that matters and can be cut. -/
theorem uncut_of_singles (handed : (session [] (singles t)).payloads = payloadsOf t) :
    Uncut t := by
  obtain ⟨n, -, all, below, -⟩ := session_scanned (singles t) []
  obtain ⟨t₁, t₂, rfl, received, -, pairs⟩ := received_singles t n
  have split := blocks_append t₁ t₂
  generalize (Scan.run ⟨[], (Scan.start.run t₁).rest, (Scan.start.run t₁).atLine⟩ t₂).blocks =
    more at split
  have same : (scanned [] (singles (t₁ ++ t₂)) n).blocks.filterMap payload =
      (Scan.start.run t₁).blocks.filterMap payload ++ more.filterMap payload := by
    rw [← all, ← List.filterMap_append, ← split, ← payloadsOf, ← handed]
    exact List.nil_append _
  obtain ⟨none_more, own⟩ := payloads_same pairs same
  have silent : ∀ b ∈ more, payload b = none := List.filterMap_eq_nil_iff.mp none_more
  constructor
  case ascii =>
    intro b mem d some_payload
    rw [split] at mem
    rcases List.mem_append.mp mem with before | after
    · obtain ⟨data, name⟩ := own b before d some_payload
      exact ⟨fun r last => ascii_of_same (name r last),
        ascii_rests some_payload (ascii_of_same data)⟩
    · rw [silent b after] at some_payload
      cases some_payload
  case sized =>
    rintro past b rest parts ⟨x, mem, some_payload⟩
    rw [split] at parts
    have heard : x ∉ more := fun later => some_payload (silent x later)
    rcases List.append_eq_append_iff.mp parts with ⟨l, rfl, rfl⟩ | ⟨l, found, after⟩
    · exact absurd (List.mem_append_right l mem) heard
    · cases l with
      | nil =>
        rw [after] at mem
        exact absurd mem heard
      | cons b' l =>
        obtain ⟨rfl, -⟩ := List.cons.inj after
        refine swell_block ?_ received below
        rw [found]
        exact List.mem_append_right past List.mem_cons_self

/-- The chunks do not matter exactly where nothing that matters can be cut. -/
theorem reassembled_iff (t : List Char) : Reassembled t ↔ Uncut t := by
  constructor
  · intro reassembled
    have whole := singles_flatten t
    exact uncut_of_singles (reassembled _ _ whole whole).2
  · intro uncut chunks other whole also
    have first := payloads_of_uncut uncut whole
    exact ⟨first.trans (payloads_of_uncut uncut also).symm, first⟩

end Singles

section Examples

/-- A snapshot whose data have a character of two bytes. -/
def sampleText : List Char := "event: snapshot\ndata: \"é\"\n\n".toList

/-- The bytes of the text, cut inside the one character that has two of them. -/
def sampleChunks : List (List UInt8) := [(bytes sampleText).take 24, (bytes sampleText).drop 24]

/-- A character that is cut is lost. -/
theorem session_loses_character : sampleChunks.flatten = bytes sampleText ∧
    payloadsOf sampleText = ["\"é\"".toList] ∧
      (session [] [bytes sampleText]).payloads = ["\"é\"".toList] ∧
        (session [] sampleChunks).payloads =
          [['"', replacement, replacement, '"']] := by
  simp only [payloadsOf, session, sampleChunks, blocks_eq]
  decide +kernel

end Examples

end ChunkedEvents

import MarketAggregator.Utf8Text

/-!
# Text read from arbitrary bytes

Bytes that are not UTF-8 are read as replacement characters, one for each longest run of
bytes that begins a character or for a byte that begins none. Where well-formed bytes are
read in pieces, a character that is cut is read as two replacement characters or more.
-/

namespace LossyText

open Utf8Text

def replacement : Char := Char.ofNat 0xFFFD

/-- A byte that only continues a character. -/
def isTail (b : UInt8) : Bool := 0x80 ≤ b.toNat ∧ b.toNat ≤ 0xBF

/-- How many bytes a character has by its first one, or zero. -/
def width (a : UInt8) : Nat :=
  if a.toNat < 0x80 then 1
  else if 0xC2 ≤ a.toNat ∧ a.toNat ≤ 0xDF then 2
  else if 0xE0 ≤ a.toNat ∧ a.toNat ≤ 0xEF then 3
  else if 0xF0 ≤ a.toNat ∧ a.toNat ≤ 0xF4 then 4
  else 0

/-- The second bytes of three or four exclude surrogates and what has a shorter form. -/
def follows (a b : UInt8) : Bool :=
  (if a.toNat = 0xE0 then 0xA0 else if a.toNat = 0xF0 then 0x90 else 0x80) ≤ b.toNat ∧
    b.toNat ≤ if a.toNat = 0xED then 0x9F else if a.toNat = 0xF4 then 0x8F else 0xBF

/-- The next character after a first byte, and how many further bytes it takes. Past the
end there are zeros. -/
def takeChar (a : UInt8) (rest : List UInt8) : Char × Nat :=
  let b := rest.getD 0 0
  let c := rest.getD 1 0
  let d := rest.getD 2 0
  if width a = 1 then (Char.ofNat a.toNat, 0)
  else if width a = 2 then
    if isTail b then (Char.ofNat ((a.toNat - 0xC0) * 64 + (b.toNat - 0x80)), 1)
    else (replacement, 0)
  else if width a = 3 then
    if follows a b then
      if isTail c then
        (Char.ofNat ((a.toNat - 0xE0) * 4096 + (b.toNat - 0x80) * 64 + (c.toNat - 0x80)), 2)
      else (replacement, 1)
    else (replacement, 0)
  else if width a = 4 then
    if follows a b then
      if isTail c then
        if isTail d then
          (Char.ofNat ((a.toNat - 0xF0) * 262144 + (b.toNat - 0x80) * 4096 +
            (c.toNat - 0x80) * 64 + (d.toNat - 0x80)), 3)
        else (replacement, 2)
      else (replacement, 1)
    else (replacement, 0)
  else (replacement, 0)

def lossyFrom : Nat → List UInt8 → List Char
  | _, [] => []
  | skip + 1, _ :: rest => lossyFrom skip rest
  | 0, a :: rest => (takeChar a rest).1 :: lossyFrom (takeChar a rest).2 rest

def lossy (bytes : List UInt8) : List Char := lossyFrom 0 bytes

@[simp] theorem lossy_nil : lossy [] = [] := rfl

section Characters

variable {a b : UInt8} {c : Char} {l part : List UInt8}

/-- The bytes of a character by their number. -/
inductive Encoded : Nat → List UInt8 → Prop where
  | one (a : UInt8) : width a = 1 → Encoded a.toNat [a]
  | two (a b : UInt8) : width a = 2 → isTail b = true →
    Encoded ((a.toNat - 0xC0) * 64 + (b.toNat - 0x80)) [a, b]
  | three (a b c : UInt8) : width a = 3 → follows a b = true → isTail c = true →
    Encoded ((a.toNat - 0xE0) * 4096 + (b.toNat - 0x80) * 64 + (c.toNat - 0x80)) [a, b, c]
  | four (a b c d : UInt8) : width a = 4 → follows a b = true → isTail c = true →
    isTail d = true → Encoded ((a.toNat - 0xF0) * 262144 + (b.toNat - 0x80) * 4096 +
      (c.toNat - 0x80) * 64 + (d.toNat - 0x80)) [a, b, c, d]

theorem isTail_iff : isTail b = true ↔ 0x80 ≤ b.toNat ∧ b.toNat ≤ 0xBF := by
  rw [isTail, decide_eq_true_iff]

theorem toNat_ofNat {n : Nat} (small : n < 256) : (UInt8.ofNat n).toNat = n := by
  rw [UInt8.toNat_ofNat']
  omega

/-- No character is a surrogate or past the last one. -/
theorem scalar (c : Char) : c.toNat < 0xD800 ∨ 0xDFFF < c.toNat ∧ c.toNat < 0x110000 := by
  have valid := c.valid
  rw [UInt32.isValidChar, Nat.isValidChar] at valid
  exact valid

theorem encoded (c : Char) : Encoded c.toNat (String.utf8EncodeChar c) := by
  have valid : c.val.toNat < 0xD800 ∨ 0xDFFF < c.val.toNat ∧ c.val.toNat < 0x110000 := scalar c
  change Encoded c.val.toNat _
  rw [String.utf8EncodeChar]
  generalize c.val.toNat = v at valid ⊢
  split_ifs with one two three
  · have own := Encoded.one (UInt8.ofNat v) ?_
    · rwa [toNat_ofNat (by omega)] at own
    · rw [width, toNat_ofNat (by omega), if_pos (by omega)]
  · have own := Encoded.two (UInt8.ofNat (v / 64 % 0x20 + 0xc0)) (UInt8.ofNat (v % 0x40 + 0x80))
      ?_ ?_
    · rw [toNat_ofNat (by omega), toNat_ofNat (by omega)] at own
      rwa [show (v / 64 % 0x20 + 0xc0 - 0xC0) * 64 + (v % 0x40 + 0x80 - 0x80) = v by omega] at own
    · rw [width, toNat_ofNat (by omega), if_neg (by omega), if_pos (by omega)]
    · rw [isTail_iff, toNat_ofNat (by omega)]
      omega
  · have own := Encoded.three (UInt8.ofNat (v / 4096 % 0x10 + 0xe0))
      (UInt8.ofNat (v / 64 % 0x40 + 0x80)) (UInt8.ofNat (v % 0x40 + 0x80)) ?_ ?_ ?_
    · rw [toNat_ofNat (by omega), toNat_ofNat (by omega), toNat_ofNat (by omega)] at own
      rwa [show (v / 4096 % 0x10 + 0xe0 - 0xE0) * 4096 + (v / 64 % 0x40 + 0x80 - 0x80) * 64 +
        (v % 0x40 + 0x80 - 0x80) = v by omega] at own
    · rw [width, toNat_ofNat (by omega), if_neg (by omega), if_neg (by omega), if_pos (by omega)]
    · rw [follows, toNat_ofNat (by omega), toNat_ofNat (by omega), decide_eq_true_iff]
      split_ifs <;> omega
    · rw [isTail_iff, toNat_ofNat (by omega)]
      omega
  · have own := Encoded.four (UInt8.ofNat (v / 262144 % 0x08 + 0xf0))
      (UInt8.ofNat (v / 4096 % 0x40 + 0x80)) (UInt8.ofNat (v / 64 % 0x40 + 0x80))
      (UInt8.ofNat (v % 0x40 + 0x80)) ?_ ?_ ?_ ?_
    · rw [toNat_ofNat (by omega), toNat_ofNat (by omega), toNat_ofNat (by omega),
        toNat_ofNat (by omega)] at own
      rwa [show (v / 262144 % 0x08 + 0xf0 - 0xF0) * 262144 +
        (v / 4096 % 0x40 + 0x80 - 0x80) * 4096 + (v / 64 % 0x40 + 0x80 - 0x80) * 64 +
          (v % 0x40 + 0x80 - 0x80) = v by omega] at own
    · rw [width, toNat_ofNat (by omega), if_neg (by omega), if_neg (by omega), if_neg (by omega),
        if_pos (by omega)]
    · rw [follows, toNat_ofNat (by omega), toNat_ofNat (by omega), decide_eq_true_iff]
      split_ifs <;> omega
    · rw [isTail_iff, toNat_ofNat (by omega)]
      omega
    · rw [isTail_iff, toNat_ofNat (by omega)]
      omega

theorem Encoded.lossy {n : Nat} {bs : List UInt8} (own : Encoded n bs) (l : List UInt8) :
    lossy (bs ++ l) = Char.ofNat n :: lossy l := by
  cases own with
  | one a one => simp [LossyText.lossy, lossyFrom, takeChar, one]
  | two a b two tail => simp [LossyText.lossy, lossyFrom, takeChar, two, tail]
  | three a b c three second tail =>
    simp [LossyText.lossy, lossyFrom, takeChar, three, second, tail]
  | four a b c d four second third tail =>
    simp [LossyText.lossy, lossyFrom, takeChar, four, second, third, tail]

/-- A whole character is read as itself. -/
theorem lossy_character (c : Char) (l : List UInt8) :
    lossy (String.utf8EncodeChar c ++ l) = c :: lossy l := by
  rw [(encoded c).lossy, Char.ofNat_toNat]

theorem width_tail (tail : isTail b = true) : width b = 0 := by
  rw [isTail_iff] at tail
  rw [width, if_neg (by omega), if_neg (by omega), if_neg (by omega), if_neg (by omega)]

/-- A byte that continues nothing is replaced by itself. -/
theorem lossy_tail (tail : isTail b = true) (l : List UInt8) :
    lossy (b :: l) = replacement :: lossy l := by
  have none := width_tail tail
  simp [lossy, lossyFrom, takeChar, none]

theorem lossy_tails {tails : List UInt8} (all : ∀ b ∈ tails, isTail b = true) (l : List UInt8) :
    lossy (tails ++ l) = List.replicate tails.length replacement ++ lossy l := by
  induction tails with
  | nil => rfl
  | cons b tails ih =>
    obtain ⟨first, others⟩ := List.forall_mem_cons.mp all
    rw [List.cons_append, lossy_tail first, ih others, List.length_cons, List.replicate_succ]
    rfl

theorem follows_tail (second : follows a b = true) : isTail b = true := by
  rw [follows, decide_eq_true_iff] at second
  rw [isTail_iff]
  split_ifs at second <;> omega

theorem Encoded.tails {n : Nat} (own : Encoded n (a :: l)) : ∀ b ∈ l, isTail b = true := by
  cases own with
  | one => exact nofun
  | two => simpa
  | three _ b c _ second tail => simpa [tail] using follows_tail second
  | four _ b c d _ second third tail => simpa [third, tail] using follows_tail second

theorem tail_zero : isTail 0 = false := by decide

theorem follows_zero (a : UInt8) : follows a 0 = false := by
  rw [Bool.eq_false_iff]
  intro second
  have tail := follows_tail second
  rw [tail_zero] at tail
  cases tail

/-- The beginning of a character is replaced once. -/
theorem Encoded.lossy_part {n : Nat} {rest : List UInt8} (own : Encoded n (part ++ rest))
    (some_byte : part ≠ []) (cut : rest ≠ []) : LossyText.lossy part = [replacement] := by
  generalize whole : part ++ rest = bs at own
  rcases part with _ | ⟨p, _ | ⟨q, _ | ⟨r, _ | ⟨s, part⟩⟩⟩⟩
  · exact absurd rfl some_byte
  all_goals
    cases own <;> simp_all [LossyText.lossy, lossyFrom, takeChar, tail_zero, follows_zero]

theorem lossy_bytes (t : List Char) (l : List UInt8) : lossy (bytes t ++ l) = t ++ lossy l := by
  induction t with
  | nil => rfl
  | cons c t ih => rw [bytes_cons, List.append_assoc, lossy_character, ih, List.cons_append]

theorem encoding_tails {rest : List UInt8} (whole : String.utf8EncodeChar c = part ++ rest)
    (some_byte : part ≠ []) : ∀ b ∈ rest, isTail b = true := by
  obtain ⟨a, part, rfl⟩ := List.exists_cons_of_ne_nil some_byte
  have own := encoded c
  rw [whole, List.cons_append] at own
  exact fun b mem => own.tails b (List.mem_append_right part mem)

/-- Only a character of several bytes has a part. -/
theorem two_le_size {rest : List UInt8} (whole : String.utf8EncodeChar c = part ++ rest)
    (some_byte : part ≠ []) (cut : rest ≠ []) : 128 ≤ c.toNat := by
  obtain ⟨b, more, encoding, own⟩ := first_byte (c := c)
  by_contra ascii
  have single := (own (.inr (by omega))).2
  rw [whole, single] at encoding
  obtain ⟨a, part, rfl⟩ := List.exists_cons_of_ne_nil some_byte
  have none := (List.cons.inj encoding).2
  exact cut (List.append_eq_nil_iff.mp none).2

end Characters

section Pieces

variable {t : List Char} {p l part tails : List UInt8}

/-- Where a text's bytes are cut: between two characters or inside of one. -/
inductive Cut (t : List Char) (p l : List UInt8) : Prop where
  | between (t₁ t₂ : List Char) : t = t₁ ++ t₂ → p = bytes t₁ → l = bytes t₂ → Cut t p l
  | inside (t₁ t₂ : List Char) (c : Char) (part tails : List UInt8) : t = t₁ ++ c :: t₂ →
    String.utf8EncodeChar c = part ++ tails → part ≠ [] → tails ≠ [] →
    p = bytes t₁ ++ part → l = tails ++ bytes t₂ → Cut t p l

theorem cut_bytes (whole : bytes t = p ++ l) : Cut t p l := by
  induction t generalizing p with
  | nil =>
    obtain ⟨rfl, rfl⟩ := List.append_eq_nil_iff.mp whole.symm
    exact .between [] [] rfl rfl rfl
  | cons c t ih =>
    rw [bytes_cons] at whole
    rcases List.append_eq_append_iff.mp whole with ⟨p', rfl, rest⟩ | ⟨tails, encoding, rfl⟩
    · cases ih rest with
      | between t₁ t₂ text before after =>
        refine .between (c :: t₁) t₂ (by rw [text]; rfl) ?_ after
        rw [bytes_cons, before]
      | inside t₁ t₂ d part tails text encoding some_byte cut before after =>
        refine .inside (c :: t₁) t₂ d part tails (by rw [text]; rfl) encoding some_byte cut ?_ after
        rw [bytes_cons, before, List.append_assoc]
    · by_cases none : p = []
      · rw [none, List.nil_append] at encoding
        refine .between [] (c :: t) rfl none ?_
        rw [bytes_cons, encoding]
      · by_cases all : tails = []
        · rw [all, List.append_nil] at encoding
          refine .between [c] t rfl ?_ (by rw [all, List.nil_append])
          rw [← encoding, bytes, List.flatMap_singleton]
        · exact .inside [] t c p tails rfl encoding none all rfl rfl

/-- What is shown for a text, character by character. -/
inductive Shown (R : Char → List Char → Prop) : List Char → List Char → Prop where
  | nil : Shown R [] []
  | cons {c : Char} {q s t : List Char} : R c q → Shown R s t → Shown R (c :: s) (q ++ t)

/-- A character is shown as itself, or as two replacements or more when it was cut. -/
def Dents (c : Char) (q : List Char) : Prop :=
  q = [c] ∨ 128 ≤ c.toNat ∧ ∃ n, 2 ≤ n ∧ n ≤ c.utf8Size ∧ q = List.replicate n replacement

theorem shown_refl (t : List Char) : Shown Dents t t := by
  induction t with
  | nil => exact .nil
  | cons c t ih => exact .cons (.inl rfl) ih

theorem shown_append {R : Char → List Char → Prop} {a b x y : List Char} (first : Shown R a b)
    (second : Shown R x y) : Shown R (a ++ x) (b ++ y) := by
  induction first with
  | nil => exact second
  | cons own _ ih =>
    rw [List.append_assoc]
    exact .cons own ih

theorem shown_nil {R : Char → List Char → Prop} {b : List Char} (shown : Shown R [] b) :
    b = [] := by cases shown; rfl

/-- The beginning of a character, or nothing. -/
def Opening (part : List UInt8) : Prop :=
  part = [] ∨ ∃ c tails, String.utf8EncodeChar c = part ++ tails ∧ tails ≠ []

/-- The lengths of a part and of what is missing. -/
theorem lossy_opening {c : Char} (encoding : String.utf8EncodeChar c = part ++ tails)
    (some_byte : part ≠ []) (cut : tails ≠ []) :
    lossy part = [replacement] ∧ (∀ b ∈ tails, isTail b = true) ∧
      Dents c (List.replicate (tails.length + 1) replacement) := by
  have own := encoded c
  rw [encoding] at own
  refine ⟨own.lossy_part some_byte cut, encoding_tails encoding some_byte,
    .inr ⟨two_le_size encoding some_byte cut, _, ?_, ?_, rfl⟩⟩
  · have missing := List.length_pos_iff.mpr cut
    omega
  · have there := List.length_pos_iff.mpr some_byte
    rw [← String.length_utf8EncodeChar, encoding, List.length_append]
    omega

/-- A text is read in pieces, after the rest of a character and up to the beginning of one. -/
theorem shown_chunks (chunks : List (List UInt8)) (tails : List UInt8) (t : List Char)
    (part : List UInt8) (all : ∀ b ∈ tails, isTail b = true) (opening : Opening part)
    (whole : chunks.flatten = tails ++ (bytes t ++ part)) :
    ∃ s n, chunks.flatMap lossy = List.replicate tails.length replacement ++
        (s ++ List.replicate n replacement) ∧ Shown Dents t s ∧ n ≤ part.length := by
  induction chunks generalizing tails t part with
  | nil =>
    obtain ⟨rfl, rest⟩ := List.append_eq_nil_iff.mp whole.symm
    obtain ⟨none, rfl⟩ := List.append_eq_nil_iff.mp rest
    obtain rfl := byteLen_zero (congrArg List.length none)
    exact ⟨[], 0, rfl, .nil, le_rfl⟩
  | cons chunk chunks ih =>
    rw [List.flatten_cons] at whole
    rw [List.flatMap_cons]
    rcases List.append_eq_append_iff.mp whole with ⟨tails', rfl, rest⟩ | ⟨p, rfl, rest⟩
    · -- The chunk ends before the character does.
      obtain ⟨own, others⟩ := List.forall_mem_append.mp all
      obtain ⟨s, n, later, shown, few⟩ := ih tails' t part others opening rest
      refine ⟨s, n, ?_, shown, few⟩
      have replaced := lossy_tails own []
      rw [List.append_nil, lossy_nil, List.append_nil] at replaced
      rw [later, replaced, List.length_append, ← List.replicate_append_replicate,
        List.append_assoc]
    rw [lossy_tails all]
    rcases List.append_eq_append_iff.mp rest with ⟨q, rfl, rfl⟩ | ⟨l, text, after⟩
    · rw [lossy_bytes]
      by_cases none : q = []
      · obtain ⟨s, n, later, shown, few⟩ := ih [] [] (q ++ chunks.flatten) nofun opening
          (by rw [none]; rfl)
        obtain rfl := shown_nil shown
        refine ⟨t, n, ?_, shown_refl t, few⟩
        rw [later, none]
        simp
      · obtain ⟨c, missing, encoding, cut⟩ := opening.resolve_left (by simp [none])
        rw [List.append_assoc] at encoding
        obtain ⟨first, tails_only, -⟩ := lossy_opening encoding none (by simp [cut])
        obtain ⟨s, n, later, shown, few⟩ := ih chunks.flatten [] []
          (fun b mem => tails_only b (List.mem_append_left _ mem)) (.inl rfl)
          (by simp [bytes])
        obtain rfl := shown_nil shown
        obtain rfl : n = 0 := Nat.le_zero.mp few
        refine ⟨t, chunks.flatten.length + 1, ?_, shown_refl t, ?_⟩
        · rw [later, first, List.replicate_succ]
          simp [List.append_assoc]
        · have there := List.length_pos_iff.mpr none
          rw [List.length_append]
          omega
    · cases cut_bytes text with
      | between t₁ t₂ split before rest_bytes =>
        obtain ⟨s, n, later, shown, few⟩ := ih [] t₂ part nofun opening
          (by rw [after, rest_bytes]; rfl)
        refine ⟨t₁ ++ s, n, ?_, split ▸ shown_append (shown_refl t₁) shown, few⟩
        have whole_part := lossy_bytes t₁ []
        rw [List.append_nil] at whole_part
        rw [later, before, whole_part]
        simp
      | inside t₁ t₂ c own missing split encoding some_byte cut before rest_bytes =>
        obtain ⟨first, tails_only, dents⟩ := lossy_opening encoding some_byte cut
        obtain ⟨s, n, later, shown, few⟩ := ih missing t₂ part tails_only opening
          (by rw [after, rest_bytes, List.append_assoc])
        refine ⟨t₁ ++ (List.replicate (missing.length + 1) replacement ++ s), n, ?_,
          split ▸ shown_append (shown_refl t₁) (.cons dents shown), few⟩
        rw [later, before, lossy_bytes, first, List.replicate_succ]
        simp [List.append_assoc]

end Pieces

section Shown

variable {R : Char → List Char → Prop} {a b s t x : List Char} {c : Char}

theorem shown_split (shown : Shown R (a ++ x) b) :
    ∃ b₁ b₂, b = b₁ ++ b₂ ∧ Shown R a b₁ ∧ Shown R x b₂ := by
  induction a generalizing b with
  | nil => exact ⟨[], b, rfl, .nil, shown⟩
  | cons c a ih =>
    cases shown with
    | cons own rest =>
      obtain ⟨b₁, b₂, rfl, first, second⟩ := ih rest
      exact ⟨_, b₂, (List.append_assoc ..).symm, .cons own first, second⟩

theorem two_le_utf8Size (wide : 128 ≤ c.toNat) : 2 ≤ c.utf8Size := by
  have own : c.val.toNat = c.toNat := rfl
  rw [← String.length_utf8EncodeChar, String.utf8EncodeChar]
  split_ifs with narrow
  · omega
  · simp
  · simp
  · simp

/-- Every byte of a character that is not ASCII is replaced. -/
def Shatters (c : Char) (q : List Char) : Prop :=
  q = if c.toNat < 128 then [c] else List.replicate c.utf8Size replacement

theorem shatters_dents {q : List Char} (own : Shatters c q) : Dents c q := by
  rw [Shatters] at own
  split at own
  · exact .inl own
  · rename_i wide
    exact .inr ⟨by omega, _, two_le_utf8Size (by omega), le_rfl, own⟩

/-- The most bytes that a text can be shown with. -/
def swell : List Char → Nat
  | [] => 0
  | c :: t => (if c.toNat < 128 then 1 else 3 * c.utf8Size) + swell t

theorem swell_append : swell (s ++ t) = swell s + swell t := by
  induction s with
  | nil => exact (Nat.zero_add _).symm
  | cons c s ih =>
    rw [List.cons_append, swell, swell, ih]
    omega

theorem byteLen_replacements (n : Nat) : byteLen (List.replicate n replacement) = 3 * n := by
  induction n with
  | zero => rfl
  | succ n ih =>
    have one : replacement.utf8Size = 3 := by decide
    rw [List.replicate_succ, byteLen_cons, ih, one]
    omega

theorem byteLen_singleton (ascii : c.toNat < 128) : byteLen [c] = 1 :=
  byteLen_ascii (by simpa using ascii)

theorem byteLen_shown (shown : Shown Dents s t) : byteLen t ≤ swell s := by
  induction shown with
  | nil => exact Nat.le_refl 0
  | @cons c q s t own _ ih =>
    have bound : byteLen q ≤ if c.toNat < 128 then 1 else 3 * c.utf8Size := by
      rcases own with rfl | ⟨wide, n, -, few, rfl⟩
      · split
        · rename_i ascii
          exact (byteLen_singleton ascii).le
        · have size : byteLen [c] = c.utf8Size := by
            rw [byteLen_cons]
            rfl
          omega
      · rw [if_neg (by omega), byteLen_replacements]
        omega
    rw [byteLen_append, swell]
    omega

theorem byteLen_shattered (shown : Shown Shatters s t) : byteLen t = swell s := by
  induction shown with
  | nil => rfl
  | @cons c q s t own _ ih =>
    rw [byteLen_append, swell, ih, own]
    split
    · rename_i ascii
      rw [byteLen_singleton ascii]
    · rw [byteLen_replacements]

/-- A text that is shattered into as many characters has none that is cut. -/
theorem ascii_of_shattered (shown : Shown Shatters s t) :
    s.length ≤ t.length ∧ (t.length = s.length → ∀ c ∈ s, c.toNat < 128) := by
  induction shown with
  | nil => exact ⟨le_rfl, fun _ => nofun⟩
  | @cons c q s t own _ ih =>
    obtain ⟨grows, same⟩ := ih
    rw [own, List.length_append, List.length_cons]
    split
    · rename_i ascii
      rw [List.length_singleton]
      refine ⟨by omega, fun equal => ?_⟩
      exact List.forall_mem_cons.mpr ⟨ascii, same (by omega)⟩
    · rename_i wide
      have size := two_le_utf8Size (c := c) (by omega)
      rw [List.length_replicate]
      exact ⟨by omega, fun equal => by omega⟩

variable (dents : ∀ c q, R c q → Dents c q)
include dents

/-- ASCII text is shown as it is. -/
theorem shown_ascii (shown : Shown R s t) (ascii : ∀ c ∈ s, c.toNat < 128) : t = s := by
  induction shown with
  | nil => rfl
  | cons own _ ih =>
    obtain ⟨first, others⟩ := List.forall_mem_cons.mp ascii
    rw [ih others]
    rcases dents _ _ own with rfl | ⟨wide, -⟩
    · rfl
    · omega

/-- Text that is shown without replacements is the text itself. -/
theorem shown_clean (shown : Shown R s t) (clean : replacement ∉ t) : s = t := by
  induction shown with
  | nil => rfl
  | cons own _ ih =>
    rw [List.mem_append, not_or] at clean
    rw [ih clean.2]
    rcases dents _ _ own with rfl | ⟨-, n, some_char, -, rfl⟩
    · rfl
    · exact absurd (List.mem_replicate.mpr ⟨by omega, rfl⟩) clean.1

theorem shown_eq_nil (shown : Shown R s []) : s = [] := shown_clean dents shown List.not_mem_nil

end Shown

section Bytewise

variable {b : UInt8} {c : Char}

theorem lossy_byte (b : UInt8) :
    lossy [b] = [if b.toNat < 128 then Char.ofNat b.toNat else replacement] := by
  by_cases ascii : b.toNat < 128
  · have one : width b = 1 := if_pos ascii
    simp [lossy, lossyFrom, takeChar, one, ascii]
  · have wide : width b ≠ 1 := by
      rw [width]
      split_ifs <;> omega
    simp [lossy, lossyFrom, takeChar, wide, ascii, tail_zero, follows_zero]

theorem flatMap_replacements {l : List UInt8} (high : ∀ b ∈ l, 128 ≤ b.toNat) :
    l.flatMap (fun b => lossy [b]) = List.replicate l.length replacement := by
  induction l with
  | nil => rfl
  | cons b l ih =>
    obtain ⟨first, others⟩ := List.forall_mem_cons.mp high
    rw [List.flatMap_cons, ih others, lossy_byte, if_neg (by omega), List.length_cons,
      List.replicate_succ]
    rfl

theorem high_of_width (wide : width b ≠ 1) : 128 ≤ b.toNat := by
  by_contra ascii
  exact wide (if_pos (by omega))

theorem Encoded.high {n : Nat} {bs : List UInt8} (own : Encoded n bs) (wide : 128 ≤ n) :
    ∀ b ∈ bs, 128 ≤ b.toNat := by
  have tail : ∀ b, isTail b = true → 128 ≤ b.toNat := fun b tail => (isTail_iff.mp tail).1
  cases own with
  | one a one => simpa using wide
  | two a b two second => simp [high_of_width (b := a) (by simp [two]), tail b second]
  | three a b c three second third =>
    simp [high_of_width (b := a) (by simp [three]), tail b (follows_tail second), tail c third]
  | four a b c d four second third fourth =>
    simp [high_of_width (b := a) (by simp [four]), tail b (follows_tail second), tail c third,
      tail d fourth]

/-- Text that is read byte by byte is shattered. -/
theorem shattered_bytes (t : List Char) :
    Shown Shatters t ((bytes t).flatMap fun b => lossy [b]) := by
  induction t with
  | nil => exact .nil
  | cons c t ih =>
    rw [bytes_cons, List.flatMap_append]
    refine .cons ?_ ih
    rw [Shatters]
    split
    · rename_i ascii
      obtain ⟨b, rest, encoding, one⟩ := first_byte (c := c)
      obtain ⟨same, rfl⟩ := one (.inr ascii)
      rw [encoding, List.flatMap_singleton, lossy_byte, same, if_pos ascii, Char.ofNat_toNat]
    · rename_i wide
      rw [flatMap_replacements ((encoded c).high (by omega)), String.length_utf8EncodeChar]

end Bytewise

end LossyText

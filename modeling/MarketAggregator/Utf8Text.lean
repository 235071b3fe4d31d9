import Mathlib.Data.Char
import Mathlib.Data.List.TakeWhile
import Mathlib.Order.Basic

/-!
# Text by its bytes

A text is a list of characters that is measured, indexed and cut by the bytes of its UTF-8
encoding. A cut that falls inside a character is refused.
-/

namespace Utf8Text

def bytes (s : List Char) : List UInt8 := s.flatMap String.utf8EncodeChar

def byteLen (s : List Char) : Nat := (bytes s).length

/-- Everything up to a byte and everything from it on, if it begins a character. -/
def splitBytes : Nat → List Char → Option (List Char × List Char)
  | 0, s => some ([], s)
  | _ + 1, [] => none
  | n + 1, c :: s =>
    if c.utf8Size ≤ n + 1 then
      (splitBytes (n + 1 - c.utf8Size) s).map (fun parts => (c :: parts.1, parts.2))
    else none

def getFrom (n : Nat) (s : List Char) : Option (List Char) := (splitBytes n s).map Prod.snd

def getTo (n : Nat) (s : List Char) : Option (List Char) := (splitBytes n s).map Prod.fst

/-- The bytes from one to another, if both begin a character. -/
def getRange (n m : Nat) (s : List Char) : Option (List Char) := (getTo m s).bind (getFrom n)

/-- What is around the first occurrence of a character. -/
def splitOnce (c : Char) : List Char → Option (List Char × List Char)
  | [] => none
  | x :: s => if x = c then some ([], s)
    else (splitOnce c s).map (fun parts => (x :: parts.1, parts.2))

section Measures

variable {c x : Char} {s a b p q : List Char} {n m : Nat}

@[simp] theorem bytes_nil : bytes [] = [] := rfl

theorem bytes_cons : bytes (c :: s) = String.utf8EncodeChar c ++ bytes s := List.flatMap_cons

theorem bytes_append : bytes (a ++ b) = bytes a ++ bytes b := List.flatMap_append

@[simp] theorem byteLen_nil : byteLen [] = 0 := rfl

@[simp] theorem byteLen_cons : byteLen (c :: s) = c.utf8Size + byteLen s := by
  rw [byteLen, bytes_cons, List.length_append, String.length_utf8EncodeChar, byteLen]

@[simp] theorem byteLen_append : byteLen (a ++ b) = byteLen a + byteLen b := by
  rw [byteLen, bytes_append, List.length_append, byteLen, byteLen]

theorem byteLen_zero (h : byteLen s = 0) : s = [] := by
  cases s with
  | nil => rfl
  | cons c s =>
    rw [byteLen_cons] at h
    have some_byte := c.utf8Size_pos
    omega

theorem splitBytes_append (a b : List Char) : splitBytes (byteLen a) (a ++ b) = some (a, b) := by
  induction a with
  | nil => rw [byteLen_nil, List.nil_append, splitBytes]
  | cons c a ih =>
    have some_byte : 1 ≤ c.utf8Size + byteLen a := Nat.le_add_right_of_le c.utf8Size_pos
    obtain ⟨n, more⟩ := Nat.exists_eq_add_of_le' some_byte
    have rest : n + 1 - c.utf8Size = byteLen a := by omega
    rw [byteLen_cons, more, List.cons_append, splitBytes, if_pos (by omega), rest, ih]
    rfl

theorem splitBytes_some (h : splitBytes n s = some (a, b)) : s = a ++ b ∧ byteLen a = n := by
  induction s generalizing n a with
  | nil =>
    cases n with
    | zero =>
      obtain ⟨rfl, rfl⟩ := Prod.mk.inj (Option.some.inj h)
      exact ⟨rfl, rfl⟩
    | succ n => cases h
  | cons c s ih =>
    cases n with
    | zero =>
      obtain ⟨rfl, rfl⟩ := Prod.mk.inj (Option.some.inj h)
      exact ⟨rfl, rfl⟩
    | succ n =>
      rw [splitBytes] at h
      split at h
      · rename_i fits
        obtain ⟨⟨a', b'⟩, split, shape⟩ := Option.map_eq_some_iff.mp h
        rw [Prod.mk.injEq] at shape
        obtain ⟨rfl, rfl⟩ := shape
        obtain ⟨rfl, size⟩ := ih split
        refine ⟨rfl, ?_⟩
        dsimp only
        rw [byteLen_cons]
        omega
      · cases h

theorem splitBytes_iff : splitBytes n s = some (a, b) ↔ s = a ++ b ∧ byteLen a = n := by
  constructor
  · exact splitBytes_some
  · rintro ⟨rfl, rfl⟩
    exact splitBytes_append a b

/-- Two beginnings of a text with as many bytes are the same. -/
theorem append_cancel (h : a ++ b = p ++ q) (same : byteLen a = byteLen p) : a = p ∧ b = q := by
  have cut := splitBytes_append a b
  rw [h, same, splitBytes_append] at cut
  obtain ⟨rfl, rfl⟩ := Prod.mk.inj (Option.some.inj cut)
  exact ⟨rfl, rfl⟩

theorem getFrom_iff : getFrom n s = some b ↔ ∃ a, s = a ++ b ∧ byteLen a = n := by
  rw [getFrom, Option.map_eq_some_iff]
  constructor
  · rintro ⟨⟨a, b⟩, cut, rfl⟩
    exact ⟨a, splitBytes_some cut⟩
  · rintro ⟨a, whole⟩
    exact ⟨(a, b), splitBytes_iff.mpr whole, rfl⟩

theorem getTo_iff : getTo n s = some a ↔ ∃ b, s = a ++ b ∧ byteLen a = n := by
  rw [getTo, Option.map_eq_some_iff]
  constructor
  · rintro ⟨⟨a, b⟩, cut, rfl⟩
    exact ⟨b, splitBytes_some cut⟩
  · rintro ⟨b, whole⟩
    exact ⟨(a, b), splitBytes_iff.mpr whole, rfl⟩

theorem getRange_iff {r : List Char} : getRange n m s = some r ↔
    ∃ a b, s = a ++ r ++ b ∧ byteLen a = n ∧ byteLen (a ++ r) = m := by
  rw [getRange, Option.bind_eq_some_iff]
  constructor
  · rintro ⟨start, to_m, from_n⟩
    obtain ⟨b, rfl, size⟩ := getTo_iff.mp to_m
    obtain ⟨a, rfl, own⟩ := getFrom_iff.mp from_n
    exact ⟨a, b, rfl, own, size⟩
  · rintro ⟨a, b, rfl, own, size⟩
    exact ⟨a ++ r, getTo_iff.mpr ⟨b, rfl, size⟩, getFrom_iff.mpr ⟨a, rfl, own⟩⟩

theorem splitOnce_some : splitOnce c s = some (a, b) ↔ s = a ++ c :: b ∧ c ∉ a := by
  induction s generalizing a with
  | nil => simp [splitOnce]
  | cons x s ih =>
    rw [splitOnce]
    split
    · rename_i here
      subst here
      cases a with
      | nil => simp [eq_comm]
      | cons y a => grind
    · rename_i other
      rw [Option.map_eq_some_iff]
      constructor
      · rintro ⟨⟨a', b'⟩, found, shape⟩
        obtain ⟨rfl, rfl⟩ := Prod.mk.inj shape
        obtain ⟨rfl, none_before⟩ := ih.mp found
        exact ⟨rfl, by grind⟩
      · rintro ⟨whole, none_before⟩
        cases a with
        | nil => exact absurd (List.cons.inj whole).1 other
        | cons y a =>
          obtain ⟨rfl, rest⟩ := List.cons.inj whole
          exact ⟨(a, b), ih.mpr ⟨rest, by grind⟩, rfl⟩

theorem splitOnce_none : splitOnce c s = none ↔ c ∉ s := by
  induction s with
  | nil => simp [splitOnce]
  | cons x s ih =>
    rw [splitOnce, List.mem_cons]
    split
    · simp [*]
    · rename_i other
      rw [Option.map_eq_none_iff, ih]
      grind

/-- The first byte of a character's encoding. -/
theorem first_byte : ∃ b rest, String.utf8EncodeChar c = b :: rest ∧
    (b.toNat < 128 ∨ c.toNat < 128 → b.toNat = c.toNat ∧ rest = []) := by
  have own : c.val.toNat = c.toNat := rfl
  rw [String.utf8EncodeChar]
  split_ifs <;> refine ⟨_, _, rfl, ?_⟩ <;> simp <;> omega

theorem bytes_at (a r : List Char) : (bytes (a ++ r))[byteLen a]? = (bytes r).head? := by
  rw [bytes_append, byteLen, List.getElem?_append_right le_rfl, Nat.sub_self,
    List.head?_eq_getElem?]

/-- A text starts with an ASCII character if its bytes start with it. -/
theorem head_bytes (ascii : c.toNat < 128) :
    (bytes s).head? = some c.toUInt8 ↔ s.head? = some c := by
  have byte : c.toUInt8.toNat = c.toNat := by
    change c.toNat % 256 = c.toNat
    omega
  cases s with
  | nil => simp
  | cons x s =>
    obtain ⟨b, rest, encoded, own⟩ := first_byte (c := x)
    rw [bytes_cons, encoded, List.cons_append, List.head?_cons, List.head?_cons,
      Option.some.injEq, Option.some.injEq]
    constructor
    · rintro rfl
      rw [byte] at own
      exact Char.toNat_inj.mp (own (.inl ascii)).1.symm
    · rintro rfl
      exact UInt8.toNat_inj.mp ((own (.inr ascii)).1.trans byte.symm)

theorem byteLen_ascii (ascii : ∀ c ∈ s, c.toNat < 128) : byteLen s = s.length := by
  induction s with
  | nil => rfl
  | cons c s ih =>
    obtain ⟨own, others⟩ := List.forall_mem_cons.mp ascii
    obtain ⟨b, rest, encoded, one⟩ := first_byte (c := c)
    have size := String.length_utf8EncodeChar c
    rw [encoded, (one (.inr own)).2] at size
    rw [byteLen_cons, ih others, ← size, List.length_cons, Nat.add_comm]
    rfl

/-- What is read between two bytes, from the first one on. -/
theorem getRange_append {r : List Char} (size : byteLen a = n) (order : n ≤ m) :
    getRange n m (a ++ s) = some r ↔ ∃ later, s = r ++ later ∧ byteLen r = m - n := by
  rw [getRange_iff]
  constructor
  · rintro ⟨a', b, whole, own, both⟩
    rw [List.append_assoc] at whole
    obtain ⟨rfl, rfl⟩ := append_cancel whole (size.trans own.symm)
    rw [byteLen_append] at both
    exact ⟨b, rfl, by omega⟩
  · rintro ⟨later, rfl, own⟩
    refine ⟨a, later, (List.append_assoc ..).symm, size, ?_⟩
    rw [byteLen_append]
    omega

end Measures

end Utf8Text

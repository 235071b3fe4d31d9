import Mathlib.Data.List.Basic

/-!
# Lines of text

Lines end with a newline or with a carriage return and a newline. The last one may have no end.
-/

namespace TextLines

def newline : Char := Char.ofNat 10

/-- A line without its end, which can be a carriage return and a newline. -/
def chomp (line : List Char) : List Char :=
  if line.getLast? = some (Char.ofNat 13) then line.dropLast else line

/-- The lines of a text after the beginning of one. -/
def linesFrom (line : List Char) : List Char → List (List Char)
  | [] => if line = [] then [] else [line]
  | c :: rest =>
    if c = newline then chomp line :: linesFrom [] rest else linesFrom (line ++ [c]) rest

/-- Unicode white space. -/
def isWhiteSpace (c : Char) : Bool :=
  (9 ≤ c.toNat ∧ c.toNat ≤ 13) ∨ (0x2000 ≤ c.toNat ∧ c.toNat ≤ 0x200A) ∨
    c.toNat ∈ [0x20, 0x85, 0xA0, 0x1680, 0x2028, 0x2029, 0x202F, 0x205F, 0x3000]

section Lines

variable {c : Char} {line : List Char}

/-- Text without a line break. -/
def OneLine (s : List Char) : Prop := newline ∉ s

instance (s : List Char) : Decidable (OneLine s) := inferInstanceAs (Decidable (newline ∉ s))

theorem oneLine_append {s t : List Char} : OneLine (s ++ t) ↔ OneLine s ∧ OneLine t := by
  rw [OneLine, List.mem_append, not_or]
  exact Iff.rfl

theorem oneLine_cons {s : List Char} : OneLine (c :: s) ↔ c ≠ newline ∧ OneLine s := by
  rw [OneLine, List.mem_cons, not_or, ne_comm]
  exact Iff.rfl

theorem oneLine_nil : OneLine [] := List.not_mem_nil

theorem linesFrom_newline {s rest : List Char} (one : OneLine s) :
    linesFrom line (s ++ newline :: rest) = chomp (line ++ s) :: linesFrom [] rest := by
  induction s generalizing line with
  | nil => rw [List.nil_append, linesFrom, if_pos rfl, List.append_nil]
  | cons c s ih =>
    obtain ⟨other, one⟩ := oneLine_cons.mp one
    rw [List.cons_append, linesFrom, if_neg other, ih one, List.append_assoc]
    rfl

end Lines

end TextLines

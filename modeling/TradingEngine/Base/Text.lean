import Mathlib

/-!
# Text

Lines, fields and decimal numbers of a text, a list of characters.
-/

namespace TradingEngine.Base

open List

/-- Each piece keeps the separator that ends it; the last one may have none. -/
def splitInclusive {α : Type} (sep : α → Bool) : List α → List (List α)
  | [] => []
  | c :: rest =>
    if sep c then [c] :: splitInclusive sep rest
    else
      match splitInclusive sep rest with
      | [] => [[c]]
      | piece :: more => (c :: piece) :: more

section Split

variable {α : Type} {sep : α → Bool} {A B : List α}

/-- A text is complete when nothing of it follows its last separator. -/
def Complete (sep : α → Bool) (A : List α) : Prop := ∀ c, A.getLast? = some c → sep c = true

theorem Complete.nil : Complete sep ([] : List α) := fun _ last => (by cases last)

theorem Complete.tail {c d : α} (complete : Complete sep (c :: d :: A)) : Complete sep (d :: A) :=
  fun e last => complete e (by rwa [getLast?_cons_cons])

theorem Complete.concat (A : List α) {c : α} (ends : sep c = true) : Complete sep (A ++ [c]) := by
  intro d last
  rw [getLast?_concat, Option.some.injEq] at last
  exact last ▸ ends

theorem splitInclusive_ne_nil (sep : α → Bool) (ne : A ≠ []) : splitInclusive sep A ≠ [] := by
  cases A with
  | nil => exact absurd rfl ne
  | cons c rest =>
    rw [splitInclusive]
    split_ifs
    · exact cons_ne_nil _ _
    · split <;> exact cons_ne_nil _ _

theorem splitInclusive_append (complete : Complete sep A) :
    splitInclusive sep (A ++ B) = splitInclusive sep A ++ splitInclusive sep B := by
  induction A with
  | nil => rfl
  | cons c rest ih =>
    cases rest with
    | nil =>
      have ends : sep c = true := complete c rfl
      simp only [cons_append, nil_append, splitInclusive, ends, if_true]
    | cons d rest =>
      have pieces := ih complete.tail
      rw [cons_append, splitInclusive, splitInclusive, pieces]
      split_ifs with ends
      · rfl
      · obtain ⟨piece, more, here⟩ := exists_cons_of_ne_nil (splitInclusive_ne_nil sep (cons_ne_nil d rest))
        rw [here]
        rfl

theorem splitInclusive_one {c : α} (inner : ∀ d ∈ A, sep d = false) (ends : sep c = true) :
    splitInclusive sep (A ++ [c]) = [A ++ [c]] := by
  induction A with
  | nil => simp only [nil_append, splitInclusive, ends, if_true]
  | cons d rest ih =>
    rw [cons_append, splitInclusive, ih fun e member => inner e (mem_cons_of_mem d member),
      if_neg (by rw [inner d mem_cons_self]; exact Bool.false_ne_true)]

end Split

def isNewline (c : Char) : Bool := c = '\n'

/-- A newline ends a line and takes a carriage return before it along. -/
def stripNewline (piece : List Char) : List Char :=
  if piece.getLast? = some '\n' then
    if piece.dropLast.getLast? = some '\r' then piece.dropLast.dropLast else piece.dropLast
  else piece

def lines (text : List Char) : List (List Char) := (splitInclusive isNewline text).map stripNewline

theorem lines_append {A B : List Char} (complete : Complete isNewline A) : lines (A ++ B) = lines A ++ lines B := by
  rw [lines, splitInclusive_append complete, map_append, lines, lines]

theorem lines_one {line : List Char} (inner : '\n' ∉ line) (bare : line.getLast? ≠ some '\r') :
    lines (line ++ ['\n']) = [line] := by
  have apart : ∀ c ∈ line, isNewline c = false := by
    intro c member
    rw [isNewline, decide_eq_false_iff_not]
    rintro rfl
    exact inner member
  rw [lines, splitInclusive_one apart rfl, map_singleton, stripNewline, getLast?_concat, if_pos rfl,
    dropLast_concat, if_neg bare]

/-- The characters of Unicode's `White_Space`. -/
def isWhite (c : Char) : Bool :=
  let n := c.toNat
  (9 ≤ n && n ≤ 13) || n = 0x20 || n = 0x85 || n = 0xA0 || n = 0x1680 || (0x2000 ≤ n && n ≤ 0x200A) ||
    n = 0x2028 || n = 0x2029 || n = 0x202F || n = 0x205F || n = 0x3000

/-- A field has no white space in it. -/
def solid (field : List Char) : Bool := field.all fun c => !isWhite c

def trimWhite (line : List Char) : List Char := (line.dropWhile isWhite).rdropWhile isWhite

def fields (line : List Char) : List (List Char) := (line.splitOnP isWhite).filter fun field => !field.isEmpty

section Fields

variable {field other : List Char}

theorem solid_not_white (whole : solid field = true) : ∀ c ∈ field, isWhite c = false := by
  intro c member
  exact (Bool.not_eq_true' _).mp (all_eq_true.mp whole c member)

theorem trimWhite_eq_self {line : List Char} (first : ∀ c, line.head? = some c → isWhite c = false)
    (last : ∀ c, line.getLast? = some c → isWhite c = false) : trimWhite line = line := by
  have front : line.dropWhile isWhite = line := by
    cases line with
    | nil => rfl
    | cons c rest => rw [dropWhile_cons_of_neg (by rw [first c rfl]; exact Bool.false_ne_true)]
  rw [trimWhite, front, rdropWhile_eq_self_iff]
  intro ne
  rw [last _ (getLast?_eq_some_getLast ne)]
  exact Bool.false_ne_true

theorem fields_pair (whole : solid field = true) (whole' : solid other = true)
    (some_field : field ≠ []) (some_other : other ≠ []) : fields (field ++ ' ' :: other) = [field, other] := by
  rw [fields, splitOnP_append_cons_of_forall_mem (solid_not_white whole) ' ' rfl,
    splitOnP_eq_singleton (solid_not_white whole'),
    filter_cons_of_pos (by simp [some_field]), filter_cons_of_pos (by simp [some_other]), filter_nil]

theorem trimWhite_pair (whole : solid field = true) (whole' : solid other = true)
    (some_field : field ≠ []) (some_other : other ≠ []) :
    trimWhite (field ++ ' ' :: other) = field ++ ' ' :: other := by
  apply trimWhite_eq_self
  · intro c first
    rw [head?_append_of_ne_nil _ some_field] at first
    exact solid_not_white whole c (mem_of_mem_head? first)
  · intro c last
    obtain ⟨body, d, rfl⟩ := (eq_nil_or_concat' other).resolve_left some_other
    rw [← cons_append, ← append_assoc, getLast?_concat, Option.some.injEq] at last
    exact last ▸ solid_not_white whole' d (mem_append_right _ (mem_singleton_self d))

theorem lines_pair (whole : solid field = true) (whole' : solid other = true) :
    lines (field ++ ' ' :: other ++ ['\n']) = [field ++ ' ' :: other] := by
  have apart : ∀ {c}, isWhite c = true → c ≠ ' ' → c ∉ field ++ ' ' :: other := by
    intro c white other_char member
    rcases mem_append.mp member with inside | inside
    · exact Bool.false_ne_true ((solid_not_white whole c inside).symm.trans white)
    · rcases mem_cons.mp inside with rfl | inside
      · exact other_char rfl
      · exact Bool.false_ne_true ((solid_not_white whole' c inside).symm.trans white)
  apply lines_one
  · exact apart rfl (by decide)
  · intro last
    exact apart (c := '\r') rfl (by decide) (mem_of_mem_getLast? last)

end Fields

def digitValue (c : Char) : Option Nat := if '0' ≤ c ∧ c ≤ '9' then some (c.toNat - '0'.toNat) else none

def parseDigits (limit : Nat) : Nat → List Char → Option Nat
  | acc, [] => some acc
  | acc, c :: rest => do
    let d ← digitValue c
    if acc * 10 + d < limit then parseDigits limit (acc * 10 + d) rest else none

/-- A number below the limit, with at most one plus sign before its digits. -/
def parseUnsigned (limit : Nat) (text : List Char) : Option Nat :=
  match text with
  | [] => none
  | '+' :: rest => if rest.isEmpty then none else parseDigits limit 0 rest
  | _ => parseDigits limit 0 text

end TradingEngine.Base

import VocabularyCompiler.Text.CharClass

/-!
# Splitting and joining

Texts as sequences of pieces: cut at every separator, cut at runs of white space, and put together
again with a separator between neighbours.
-/

namespace VocabularyCompiler.Text

/-- The pieces between the elements that satisfy `p`, one more than there are such elements. -/
def splitWhere {α : Type _} (p : α → Bool) : List α → List (List α)
  | [] => [[]]
  | c :: rest =>
    if p c then [] :: splitWhere p rest
    else
      match splitWhere p rest with
      | [] => [[c]]
      | piece :: pieces => (c :: piece) :: pieces

/-- The words of a text: its longest pieces without white space. -/
def words (s : List Char) : List (List Char) :=
  (splitWhere isBlank s).filter fun w => !w.isEmpty

/-- The pieces of a text between spaces, empty ones included. -/
def splitSpaces (s : List Char) : List (List Char) := splitWhere (· = ' ') s

/-- Pieces with one space between neighbours. -/
def joinSpaces (pieces : List (List Char)) : List Char := [' '].intercalate pieces

/-- A text without the white space at its two ends. -/
def trim (s : List Char) : List Char :=
  ((s.dropWhile isBlank).reverse.dropWhile isBlank).reverse

/-- What is left of a text that begins with `start`. -/
def dropStart? (start s : List Char) : Option (List Char) :=
  if start.isPrefixOf s then some (s.drop start.length) else none

/-- What is left of a text that ends with `ending`. -/
def dropEnd? (ending s : List Char) : Option (List Char) :=
  if ending.isSuffixOf s then some (s.take (s.length - ending.length)) else none

/-- The lines of a text: a line ends before a line feed, or before a carriage return and a line
feed, and a text that ends in a line feed has no empty line after it. -/
def lines (s : List Char) : List (List Char) :=
  let pieces := splitWhere (· = '\n') s
  let complete := pieces.dropLast.map fun l =>
    if l.getLast? = some '\r' then l.dropLast else l
  match pieces.getLast? with
  | some [] | none => complete
  | some l => complete ++ [l]

/-- The number of bytes that a text takes in UTF-8. -/
def byteLength (s : List Char) : Nat := s.foldr (fun c n => c.utf8Size + n) 0

/-- Whether a text stands somewhere in another one. -/
def isInside (t : List Char) : List Char → Bool
  | [] => t.isEmpty
  | c :: s => t.isPrefixOf (c :: s) || isInside t s

/-- Splitting into pieces is the splitting of lists. -/
theorem splitWhere_eq_splitOnP {α : Type _} (p : α → Bool) (s : List α) :
    splitWhere p s = s.splitOnP p := by
  induction s with
  | nil => rfl
  | cons c rest ih =>
    rw [splitWhere, List.splitOnP_cons_eq_if_modifyHead, ← ih]
    cases hs : splitWhere p rest with
    | nil => exact absurd (ih.symm.trans hs) (List.splitOnP_ne_nil p rest)
    | cons piece pieces => rfl

/-- The pieces between separators are those of the splitting of lists. -/
theorem splitWhere_eq_splitOn (sep : Char) (s : List Char) :
    splitWhere (· = sep) s = s.splitOn sep := splitWhere_eq_splitOnP _ s

/-- Joining the pieces with the separator that was cut out gives the text back. -/
theorem intercalate_splitWhere (sep : Char) (s : List Char) :
    [sep].intercalate (splitWhere (· = sep) s) = s := by
  rw [splitWhere_eq_splitOn, List.intercalate_splitOn]

/-- Pieces without the separator are cut out again where they were joined. -/
theorem splitWhere_intercalate {sep : Char} {pieces : List (List Char)} (hne : pieces ≠ [])
    (h : ∀ piece ∈ pieces, sep ∉ piece) :
    splitWhere (· = sep) ([sep].intercalate pieces) = pieces := by
  rw [splitWhere_eq_splitOn, List.splitOn_intercalate sep h hne]

end VocabularyCompiler.Text

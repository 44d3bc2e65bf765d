namespace Funge.Text

def dropFinalEmpty (pieces : List (List Char)) : List (List Char) :=
  if pieces.getLast? = some [] then pieces.dropLast else pieces

def pieces (text : List Char) : List (List Char) := text.splitOn '\n'

theorem intercalate_pieces (text : List Char) : ['\n'].intercalate (pieces text) = text :=
  List.intercalate_splitOn '\n'

def splitLines (text : List Char) : List (List Char) := dropFinalEmpty (pieces text)

def chop (line : List Char) : List Char := if line.getLast? = some '\r' then line.dropLast else line

-- Lines of a text written with either line end. What follows the last line end
-- is a line of its own unless it is empty, and keeps its carriage returns.
def lines (text : List Char) : List (List Char) :=
  dropFinalEmpty ((pieces text).dropLast.map chop ++ (pieces text).getLast?.toList)

-- Empty lines at the bottom are no rows of a program; all others are.
def rows (text : List Char) : List (List Char) := ((lines text).reverse.dropWhile List.isEmpty).reverse

theorem rows_single {text : List Char} (single : '\n' ∉ text) (ink : text ≠ []) : rows text = [text] := by
  have whole : lines text = [text] := by
    unfold lines pieces
    rw [List.splitOn_eq_singleton single]
    simp [dropFinalEmpty,ink]
  simp [rows,whole,ink]

theorem mem_intercalate {α : Type} {separator piece : List α} {pieces : List (List α)} {a : α}
    (listed : piece ∈ pieces) (member : a ∈ piece) : a ∈ separator.intercalate pieces := by
  induction pieces with
  | nil => cases listed
  | cons first rest ih =>
    cases rest with
    | nil => simpa [List.intercalate,List.mem_singleton.mp listed] using member
    | cons next rest =>
      rw [List.intercalate_cons_cons]
      rcases List.mem_cons.mp listed with rfl | later
      · simp [member]
      · simp [ih later]

theorem mem_of_mem_dropFinalEmpty {pieces : List (List Char)} {piece : List Char}
    (listed : piece ∈ dropFinalEmpty pieces) : piece ∈ pieces := by
  unfold dropFinalEmpty at listed
  split at listed
  · exact (List.dropLast_sublist _).mem listed
  · exact listed

end Funge.Text

import Std.Data.HashMap
import Funge.Position

namespace Funge

-- Cells of the near quadrant lie in ragged rows, which alone decide height and widths. All
-- other cells lie apart, one by one.
structure Playfield where
  rows : Array (Array Char)
  remote : Std.HashMap Position Char

namespace Playfield

def reach : Int64 := 65536

abbrev Near (p : Position) : Prop := (0 ≤ p.x ∧ p.x < reach) ∧ 0 ≤ p.y ∧ p.y < reach

-- Rows are taken as they are, also beyond the near quadrant.
def ofRows (rows : List (List Char)) : Playfield := ⟨(rows.map List.toArray).toArray,∅⟩

def empty : Playfield := ofRows []

def height (f : Playfield) : Nat := f.rows.size

def row (f : Playfield) (y : Int64) : Array Char :=
  if 0 ≤ y then (f.rows[y.toNatClampNeg]?).getD #[] else #[]

def width (f : Playfield) (y : Int64) : Nat := (f.row y).size

def get (f : Playfield) (p : Position) : Char :=
  if Near p then ((f.row p.y)[p.x.toNatClampNeg]?).getD ' ' else f.remote.getD p ' '

def setRow (row : Array Char) (x : Nat) (c : Char) : Array Char :=
  (row.rightpad (x + 1) ' ').setIfInBounds x c

def set (f : Playfield) (p : Position) (c : Char) : Playfield :=
  if Near p then
    let y := p.y.toNatClampNeg
    { f with rows := (f.rows.rightpad (y + 1) #[]).modify y fun row => setRow row p.x.toNatClampNeg c }
  else { f with remote := f.remote.insert p c }

def setAll (f : Playfield) (writes : List (Position × Char)) : Playfield :=
  writes.foldl (fun f w => f.set w.1 w.2) f

def rowList (f : Playfield) : List (List Char) := f.rows.toList.map Array.toList

def text (f : Playfield) : String := .ofList (['\n'].intercalate f.rowList)

theorem getElem?_rightpad {α : Type} (xs : Array α) (n i : Nat) (a : α) :
    (xs.rightpad n a)[i]? = if i < xs.size then xs[i]? else if i < n then some a else none := by
  unfold Array.rightpad
  rw [Array.getElem?_append]
  split
  · rfl
  · rw [Array.getElem?_replicate]
    by_cases h : i < n
    · rw [if_pos h,if_pos (by omega)]
    · rw [if_neg h,if_neg (by omega)]

theorem getD_rightpad {α : Type} (xs : Array α) (n i : Nat) (a : α) :
    ((xs.rightpad n a)[i]?).getD a = (xs[i]?).getD a := by
  rw [getElem?_rightpad]
  split
  · rfl
  · rename_i outside
    rw [Array.getElem?_eq_none (by omega)]
    split <;> rfl

theorem size_setRow (row : Array Char) (x : Nat) (c : Char) : (setRow row x c).size = max row.size (x + 1) := by
  rw [setRow,Array.size_setIfInBounds,Array.size_rightpad,Nat.max_comm]

theorem getD_setRow (row : Array Char) (x i : Nat) (c : Char) :
    ((setRow row x c)[i]?).getD ' ' = if i = x then c else (row[i]?).getD ' ' := by
  rw [setRow,Array.getElem?_setIfInBounds]
  by_cases h : x = i
  · rw [if_pos h,if_pos h.symm,if_pos (by rw [Array.size_rightpad]; omega),Option.getD_some]
  · rw [if_neg h,if_neg (Ne.symm h),getD_rightpad]

theorem clamp_inj {a b : Int64} (ha : 0 ≤ a) (hb : 0 ≤ b) : a.toNatClampNeg = b.toNatClampNeg ↔ a = b := by
  rw [← Int64.toNat_toInt,← Int64.toNat_toInt,← Int64.toInt_inj]
  rw [Int64.le_iff_toInt_le] at ha hb
  have zero : (0 : Int64).toInt = 0 := rfl
  omega

def line (f : Playfield) (i : Nat) : Array Char := (f.rows[i]?).getD #[]

theorem line_set (f : Playfield) (p : Position) (c : Char) (i : Nat) :
    (f.set p c).line i =
      if Near p ∧ i = p.y.toNatClampNeg then setRow (f.line i) p.x.toNatClampNeg c else f.line i := by
  unfold set line
  by_cases near : Near p
  · rw [if_pos near]
    dsimp only
    rw [Array.getElem?_modify]
    by_cases same : p.y.toNatClampNeg = i
    · rw [if_pos same,if_pos ⟨near,same.symm⟩,getElem?_rightpad]
      split
      · rename_i inside
        rw [Array.getElem?_eq_getElem inside]
        rfl
      · rename_i outside
        rw [if_pos (by omega),Array.getElem?_eq_none (by omega)]
        rfl
    · rw [if_neg same,if_neg (fun h => same h.2.symm),getD_rightpad]
  · rw [if_neg near,if_neg (fun h => near h.1)]

theorem row_set (f : Playfield) (p : Position) (c : Char) (y : Int64) :
    (f.set p c).row y = if Near p ∧ y = p.y then setRow (f.row y) p.x.toNatClampNeg c else f.row y := by
  by_cases natural : 0 ≤ y
  · have shown (g : Playfield) : g.row y = g.line y.toNatClampNeg := if_pos natural
    rw [shown,shown,line_set]
    by_cases near : Near p
    · simp only [clamp_inj natural near.2.1]
    · rw [if_neg (fun h => near h.1),if_neg (fun h => near h.1)]
  · have absent (g : Playfield) : g.row y = #[] := if_neg natural
    rw [absent,absent,if_neg (fun h => natural (by rw [h.2]; exact h.1.2.1))]

theorem width_set (f : Playfield) (p : Position) (c : Char) (y : Int64) :
    (f.set p c).width y =
      if Near p ∧ y = p.y then max (f.width y) (p.x.toNatClampNeg + 1) else f.width y := by
  unfold width
  rw [row_set]
  split
  · exact size_setRow ..
  · rfl

theorem height_set (f : Playfield) (p : Position) (c : Char) :
    (f.set p c).height = if Near p then max f.height (p.y.toNatClampNeg + 1) else f.height := by
  unfold set height
  split
  · rw [Array.size_modify,Array.size_rightpad,Nat.max_comm]
  · rfl

theorem remote_set (f : Playfield) (p : Position) (c : Char) :
    (f.set p c).remote = if Near p then f.remote else f.remote.insert p c := by
  unfold set
  split <;> rfl

theorem get_set (f : Playfield) (p q : Position) (c : Char) :
    (f.set p c).get q = if q = p then c else f.get q := by
  unfold get
  by_cases near : Near q
  · rw [if_pos near,if_pos near,row_set]
    split
    · rename_i same
      rw [getD_setRow]
      by_cases column : q.x = p.x
      · rw [if_pos (by rw [column]),if_pos (by cases p; cases q; simp_all)]
      · rw [if_neg (by rw [clamp_inj near.1.1 same.1.1.1]; exact column),if_neg (fun h => column (by rw [h]))]
    · rename_i other
      rw [if_neg (fun h => other (by subst h; exact ⟨near,rfl⟩))]
  · rw [if_neg near,if_neg near,remote_set]
    split
    · rename_i away
      rw [if_neg (fun h => near (by rw [h]; exact away))]
    · rw [Std.HashMap.getD_insert]
      by_cases h : q = p
      · simp [h]
      · rw [if_neg (by simpa using Ne.symm h),if_neg h]

theorem rowList_ofRows (rows : List (List Char)) : (ofRows rows).rowList = rows := by
  simp [ofRows,rowList,Function.comp_def]

theorem height_ofRows (rows : List (List Char)) : (ofRows rows).height = rows.length := by
  simp [ofRows,height]

theorem row_ofRows (rows : List (List Char)) (y : Int64) :
    (ofRows rows).row y = if 0 ≤ y then ((rows[y.toNatClampNeg]?).getD []).toArray else #[] := by
  unfold row ofRows
  split
  · simp only [List.getElem?_toArray,List.getElem?_map]
    cases rows[y.toNatClampNeg]? <;> rfl
  · rfl

end Playfield
end Funge

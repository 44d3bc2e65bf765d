import Funge.Machine
import Funge.Random.Listed

namespace Funge

def charAt? (rows : List (List Char)) (p : Position) : Option Char :=
  if 0 ≤ p.x ∧ 0 ≤ p.y then (rows[p.y.toNatClampNeg]?).bind (·[p.x.toNatClampNeg]?) else none

namespace Playfield

-- A playfield with the rows it was last loaded with and the writes made since, newest first.
inductive Reached : List (List Char) → List (Position × Char) → Playfield → Prop where
  | empty : Reached [] [] .empty
  | replace {rows writes f} (reached : Reached rows writes f) (program : List (List Char)) :
      Reached program [] (.ofRows program)
  | set {rows writes f} (reached : Reached rows writes f) (p : Position) (c : Char) :
      Reached rows ((p,c) :: writes) (f.set p c)

variable {rows : List (List Char)} {writes : List (Position × Char)} {f : Playfield} {p : Position}

def Counted (f : Playfield) (p : Position) : Prop :=
  (0 ≤ p.y ∧ p.y.toNatClampNeg < f.height) ∧ 0 ≤ p.x ∧ p.x.toNatClampNeg < f.width p.y

instance (f : Playfield) (p : Position) : Decidable (f.Counted p) := inferInstanceAs (Decidable (_ ∧ _))

def ReadsBack (f : Playfield) (p : Position) : Prop := charAt? f.rowList p = some (f.get p)

def Fits (rows : List (List Char)) : Prop := rows.length ≤ 65536 ∧ ∀ row ∈ rows, row.length ≤ 65536

theorem below_reach {v : Int64} : v < reach ↔ v.toNatClampNeg < 65536 := by
  have limit : reach.toInt = 65536 := rfl
  rw [Int64.lt_iff_toInt_lt,← Int64.toNat_toInt]
  omega

theorem charAt_row (f : Playfield) (natural : 0 ≤ p.x ∧ 0 ≤ p.y) :
    charAt? f.rowList p = (f.row p.y)[p.x.toNatClampNeg]? := by
  unfold charAt? rowList row
  rw [if_pos natural,if_pos natural.2,List.getElem?_map,Array.getElem?_toList]
  cases f.rows[p.y.toNatClampNeg]? with
  | none => rfl
  | some row => exact Array.getElem?_toList

theorem Counted.natural (counted : f.Counted p) : 0 ≤ p.x ∧ 0 ≤ p.y := ⟨counted.2.1,counted.1.1⟩

theorem Counted.shown (counted : f.Counted p) : ∃ c, charAt? f.rowList p = some c := by
  rw [charAt_row f counted.natural]
  exact ⟨_,Array.getElem?_eq_getElem counted.2.2⟩

theorem getElem?_setRow_beyond (row : Array Char) (c : Char) {x i : Nat} (beyond : x < i) :
    (setRow row x c)[i]? = row[i]? := by
  rw [setRow,Array.getElem?_setIfInBounds,if_neg (Nat.ne_of_lt beyond),getElem?_rightpad]
  split
  · rfl
  · rename_i outside
    rw [if_neg (by omega),Array.getElem?_eq_none (by omega)]

-- A write in the near quadrant pads no further than itself, so beyond it the rows
-- show what they showed before.
theorem charAt_set_far (f : Playfield) (q : Position) (c : Char) (far : ¬ Near p) :
    charAt? (f.set q c).rowList p = charAt? f.rowList p := by
  by_cases natural : 0 ≤ p.x ∧ 0 ≤ p.y
  · rw [charAt_row _ natural,charAt_row _ natural,row_set]
    split
    · rename_i written
      obtain ⟨near,same⟩ := written
      apply getElem?_setRow_beyond
      have distant : ¬ p.x < reach := fun close => far ⟨⟨natural.1,close⟩,natural.2,by rw [same]; exact near.2.2⟩
      have bound := below_reach.mp near.1.2
      rw [below_reach] at distant
      omega
    · rfl
  · unfold charAt?
    rw [if_neg natural,if_neg natural]

theorem get_near (f : Playfield) (near : Near p) : f.get p = (charAt? f.rowList p).getD ' ' := by
  rw [charAt_row f ⟨near.1.1,near.2.1⟩,get,if_pos near]

theorem Counted.readsBack (counted : f.Counted p) (near : Near p) : f.ReadsBack p := by
  obtain ⟨c,shown⟩ := counted.shown
  unfold ReadsBack
  rw [get_near f near,shown]
  rfl

theorem get_ofRows (rows : List (List Char)) (p : Position) :
    (ofRows rows).get p = if Near p then (charAt? rows p).getD ' ' else ' ' := by
  by_cases near : Near p
  · rw [if_pos near,get_near _ near,rowList_ofRows]
  · rw [if_neg near,get,if_neg near]
    exact Std.HashMap.getD_empty

theorem get_reached (reached : Reached rows writes f) (p : Position) :
    f.get p = (writes.lookup p).getD (if Near p then (charAt? rows p).getD ' ' else ' ') := by
  induction reached with
  | empty => exact get_ofRows [] p
  | replace reached program ih => exact get_ofRows program p
  | set reached q c ih =>
    rw [get_set,List.lookup_cons]
    by_cases same : p = q
    · cases same
      rw [if_pos rfl,beq_self_eq_true]
      rfl
    · rw [if_neg same,beq_false_of_ne same]
      exact ih

theorem charAt_reached_far (reached : Reached rows writes f) (far : ¬ Near p) :
    charAt? f.rowList p = charAt? rows p := by
  induction reached with
  | empty => rw [empty,rowList_ofRows]
  | replace reached program ih => rw [rowList_ofRows]
  | set reached q c ih => rw [charAt_set_far _ q c far,ih]

theorem Fits.near {c : Char} (fits : Fits rows) (shown : charAt? rows p = some c) : Near p := by
  unfold charAt? at shown
  split at shown
  · rename_i natural
    obtain ⟨row,present,found⟩ := Option.bind_eq_some_iff.mp shown
    obtain ⟨inside,rfl⟩ := List.getElem?_eq_some_iff.mp present
    obtain ⟨within,_⟩ := List.getElem?_eq_some_iff.mp found
    have width := fits.2 _ (List.getElem_mem inside)
    have height := fits.1
    exact ⟨⟨natural.1,below_reach.mpr (by omega)⟩,natural.2,below_reach.mpr (by omega)⟩
  · cases shown

-- A cell outside the near quadrant is looked for apart from the rows. It reads back only where
-- what was loaded happens to be what was last written there, or blank if nothing was.
theorem readsBack_exact (reached : Reached rows writes f) :
    (∀ p, f.Counted p → (f.ReadsBack p ↔ Near p ∨ charAt? rows p = some ((writes.lookup p).getD ' '))) ∧
    (Fits rows → ∀ p, f.Counted p → f.ReadsBack p) ∧
    ∀ (W : Type) [WordSource W] (m : Standard W) (program : String) (p : Position) (c : Char),
      charAt? (Text.rows program.toList) p = some c →
        (StoreUnit.cell (m.load program).store p = c ↔ Near p ∨ c = ' ') := by
  refine ⟨?_,?_,?_⟩
  · intro p counted
    by_cases near : Near p
    · exact iff_of_true (counted.readsBack near) (.inl near)
    · unfold ReadsBack
      rw [charAt_reached_far reached near,get_reached reached,if_neg near]
      exact (or_iff_right near).symm
  · intro fits p counted
    by_cases near : Near p
    · exact counted.readsBack near
    · obtain ⟨c,shown⟩ := counted.shown
      rw [charAt_reached_far reached near] at shown
      exact absurd (fits.near shown) near
  · intro W source m program p c shown
    show (ofRows (Text.rows program.toList)).get p = c ↔ Near p ∨ c = ' '
    rw [get_ofRows,shown]
    by_cases near : Near p
    · rw [if_pos near]
      exact iff_of_true rfl (.inl near)
    · rw [if_neg near]
      exact ⟨fun blank => .inr blank.symm,fun blank => (blank.resolve_left near).symm⟩

theorem charAt_single (row : List Char) {x : Int64} (natural : 0 ≤ x) :
    charAt? [row] ⟨x,0⟩ = row[x.toNatClampNeg]? := if_pos ⟨natural,Int64.le_refl 0⟩

theorem width_single (row : List Char) : (ofRows [row]).width 0 = row.length := by
  unfold width
  rw [row_ofRows]
  rfl

theorem counted_single (row : List Char) {x : Int64} (natural : 0 ≤ x) (within : x.toNatClampNeg < row.length) :
    (ofRows [row]).Counted ⟨x,0⟩ := by
  have height : (ofRows [row]).height = 1 := height_ofRows [row]
  exact ⟨⟨Int64.le_refl 0,by rw [height]; exact Nat.zero_lt_one⟩,natural,by rw [width_single]; exact within⟩

theorem get_single {row : List Char} {i : Nat} (short : row.length ≤ 65536) (inside : i < row.length) :
    (ofRows [row]).get ⟨.ofNat i,0⟩ = row[i] := by
  have value : (Int64.ofNat i).toInt = i := Int64.toInt_ofNat_of_lt (by omega)
  have column : (Int64.ofNat i).toNatClampNeg = i := by rw [← Int64.toNat_toInt,value,Int.toNat_natCast]
  have natural : 0 ≤ Int64.ofNat i := by
    rw [Int64.le_iff_toInt_le,value]
    exact Int.natCast_nonneg i
  have top : (0 : Int64) < reach := by decide
  have near : Near ⟨.ofNat i,0⟩ := ⟨⟨natural,below_reach.mpr (by rw [column]; omega)⟩,Int64.le_refl 0,top⟩
  rw [get_ofRows,if_pos near,charAt_single row natural,column,List.getElem?_eq_getElem inside]
  rfl

theorem charAt_long_row : charAt? [List.replicate 65537 'a'] ⟨65536,0⟩ = some 'a' := by
  rw [charAt_single _ (by decide),List.getElem?_replicate,if_pos (by decide)]

theorem counted_long_row : (ofRows [List.replicate 65537 'a']).Counted ⟨65536,0⟩ := by
  apply counted_single _ (by decide)
  rw [List.length_replicate]
  decide

-- The last cell of a row one too long: counted, shown, and not to be had.
theorem long_row_lost :
    let f := ofRows [List.replicate 65537 'a']
    Reached [List.replicate 65537 'a'] [] f ∧ f.Counted ⟨65536,0⟩ ∧
      charAt? f.rowList ⟨65536,0⟩ = some 'a' ∧ f.get ⟨65536,0⟩ = ' ' := by
  refine ⟨.replace .empty _,counted_long_row,?_,?_⟩
  · rw [rowList_ofRows]
    exact charAt_long_row
  · rw [get_ofRows,if_neg (by decide)]

theorem readsBack_long_row : ((ofRows [List.replicate 65537 'a']).set ⟨65536,0⟩ 'a').ReadsBack ⟨65536,0⟩ := by
  have reached := Reached.set (.replace .empty [List.replicate 65537 'a']) ⟨65536,0⟩ 'a'
  have counted : ((ofRows [List.replicate 65537 'a']).set ⟨65536,0⟩ 'a').Counted ⟨65536,0⟩ := by
    have before := counted_long_row
    unfold Counted at before ⊢
    rwa [height_set,if_neg (by decide),width_set,if_neg (by decide)]
  apply ((readsBack_exact reached).1 _ counted).mpr
  rw [charAt_long_row]
  exact .inr rfl

end Playfield
end Funge

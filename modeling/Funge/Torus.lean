import Funge.Heading

namespace Funge

structure Extents where
  height : Nat
  width : Int64 → Nat

abbrev Reducing (extent : Nat) : Prop := 0 < extent ∧ (extent : Int) ≤ Int64.maxValue.toInt

-- A coordinate is taken modulo the extent of its axis, from either side. Any
-- other extent pins the coordinate to 0.
def wrap (coordinate : Int64) (extent : Nat) : Int64 :=
  if Reducing extent then Int64.ofInt (coordinate.toInt % extent) else 0

theorem toInt_wrap (coordinate : Int64) (extent : Nat) :
    (wrap coordinate extent).toInt = if Reducing extent then coordinate.toInt % extent else 0 := by
  unfold wrap
  split
  · rename_i fits
    have largest : Int64.maxValue.toInt = 9223372036854775807 := rfl
    have low := Int.emod_nonneg coordinate.toInt (show (extent : Int) ≠ 0 by omega)
    have high := Int.emod_lt_of_pos coordinate.toInt (show (0 : Int) < extent by omega)
    exact Int64.toInt_ofInt_of_le (by omega) (by omega)
  · rfl

theorem toInt_add_exact {a b : Int64} (low : Int64.minValue.toInt ≤ a.toInt + b.toInt)
    (high : a.toInt + b.toInt ≤ Int64.maxValue.toInt) : (a + b).toInt = a.toInt + b.toInt := by
  have least : Int64.minValue.toInt = -9223372036854775808 := rfl
  have largest : Int64.maxValue.toInt = 9223372036854775807 := rfl
  rw [Int64.toInt_add]
  exact Int.bmod_eq_of_le (by omega) (by omega)

-- Only the axis of travel wraps. A vertical move keeps the column, also when it
-- lies beyond the row it arrives in.
def Extents.advance (e : Extents) (h : Heading) (p : Position) : Position :=
  let next := p + h.offset
  if h.isVertical then ⟨next.x,wrap next.y e.height⟩ else ⟨wrap next.x (e.width next.y),next.y⟩

theorem Extents.advance_vertical (e : Extents) (p : Position) {h : Heading} (vertical : h.isVertical = true) :
    e.advance h p = ⟨p.x,wrap (p.y + h.offset.y) e.height⟩ := by
  have column : p.x + 0 = p.x := Int64.add_zero p.x
  cases h with
  | north | south => simp [advance,Heading.isVertical,Heading.offset,Position.add_x,Position.add_y,column]
  | east | west => cases vertical

theorem Extents.advance_horizontal (e : Extents) (p : Position) {h : Heading} (horizontal : h.isVertical = false) :
    e.advance h p = ⟨wrap (p.x + h.offset.x) (e.width p.y),p.y⟩ := by
  have row : p.y + 0 = p.y := Int64.add_zero p.y
  cases h with
  | north | south => cases horizontal
  | east | west => simp [advance,Heading.isVertical,Heading.offset,Position.add_x,Position.add_y,row]

def Extents.travel (e : Extents) (h : Heading) : Nat → Position → Position
  | 0, p => p
  | n + 1, p => e.travel h n (e.advance h p)

theorem Extents.travel_add (e : Extents) (h : Heading) (a b : Nat) (p : Position) :
    e.travel h (a + b) p = e.travel h b (e.travel h a p) := by
  induction a generalizing p with
  | zero => rw [Nat.zero_add]; rfl
  | succ a ih => rw [Nat.succ_add]; exact ih (e.advance h p)

theorem wrap_inside {coordinate : Int64} {extent : Nat} (low : 0 ≤ coordinate.toInt)
    (high : coordinate.toInt < extent) (fits : Reducing extent) : wrap coordinate extent = coordinate := by
  rw [← Int64.toInt_inj,toInt_wrap,if_pos fits]
  exact Int.emod_eq_of_lt low high

end Funge

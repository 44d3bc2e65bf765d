import Mathlib.Logic.ExistsUnique
import Funge.Pointer
import Funge.Random.Listed

namespace Funge

namespace Heading

def along (h : Heading) (p : Position) : Int64 := if h.isVertical then p.y else p.x

def across (h : Heading) (p : Position) : Int64 := if h.isVertical then p.x else p.y

def sense : Heading → Int
  | .north | .west => -1
  | .south | .east => 1

theorem along_offset (h : Heading) : (h.along h.offset).toInt = h.sense := by cases h <;> rfl

theorem along_opposite (h : Heading) : h.opposite.along = h.along := by cases h <;> rfl

theorem across_opposite (h : Heading) : h.opposite.across = h.across := by cases h <;> rfl

theorem sense_opposite (h : Heading) : h.opposite.sense = -h.sense := by cases h <;> rfl

theorem sense_cases (h : Heading) : h.sense = 1 ∨ h.sense = -1 := by cases h <;> decide

theorem same_position {h : Heading} {p q : Position} (along : h.along p = h.along q)
    (across : h.across p = h.across q) : p = q := by
  cases p
  cases q
  cases h <;> simp_all [Heading.along,Heading.across,isVertical]

end Heading

theorem emod_close {v extent : Int} (low : -extent ≤ v) (high : v < 2 * extent) :
    v % extent = if v < 0 then v + extent else if v < extent then v else v - extent := by
  split
  · rw [← Int.add_emod_right]
    exact Int.emod_eq_of_lt (by omega) (by omega)
  · split
    · exact Int.emod_eq_of_lt (by omega) (by omega)
    · rw [← Int.sub_emod_right]
      exact Int.emod_eq_of_lt (by omega) (by omega)

theorem meets_once {start sense extent c : Int} (one : sense = 1 ∨ sense = -1) (low : 0 ≤ start)
    (high : start < extent) (least : 0 ≤ c) (inside : c < extent) :
    ∃! k : Nat, (k : Int) < extent ∧ (start + sense * k) % extent = c := by
  let gap := sense * (c - start)
  have meets : ∀ k : Nat, k < extent → ((start + sense * k) % extent = c ↔ k = gap ∨ k = gap + extent) := by
    intro k within
    rcases one with rfl | rfl
    · rw [emod_close (by omega) (by omega)]
      omega
    · rw [emod_close (by omega) (by omega)]
      omega
  have near : -extent < gap ∧ gap < extent := by rcases one with rfl | rfl <;> omega
  refine ⟨(if 0 ≤ gap then gap else gap + extent).toNat,⟨?_,?_⟩,?_⟩
  · split <;> omega
  · rw [meets _ (by split <;> omega)]
    split <;> omega
  · rintro k ⟨within,met⟩
    rw [meets k within] at met
    split <;> omega

namespace Extents
variable {e : Extents} {h : Heading} {p : Position}

def extent (e : Extents) (h : Heading) (p : Position) : Nat := if h.isVertical then e.height else e.width p.y

theorem along_advance (e : Extents) (h : Heading) (p : Position) :
    h.along (e.advance h p) = wrap (h.along p + h.along h.offset) (e.extent h p) := by
  cases axis : h.isVertical with
  | true => simp [e.advance_vertical p axis,Heading.along,extent,axis]
  | false => simp [e.advance_horizontal p axis,Heading.along,extent,axis]

theorem across_advance (e : Extents) (h : Heading) (p : Position) : h.across (e.advance h p) = h.across p := by
  cases axis : h.isVertical with
  | true => simp [e.advance_vertical p axis,Heading.across,axis]
  | false => simp [e.advance_horizontal p axis,Heading.across,axis]

theorem extent_same {q : Position} (across : h.across p = h.across q) : e.extent h p = e.extent h q := by
  unfold extent
  cases axis : h.isVertical with
  | true => rfl
  | false =>
    have row : p.y = q.y := by simpa [Heading.across,axis] using across
    rw [row]

theorem extent_opposite (e : Extents) (h : Heading) (p : Position) : e.extent h.opposite p = e.extent h p := by
  cases h <;> rfl

theorem travel_succ (e : Extents) (h : Heading) (k : Nat) (p : Position) :
    e.travel h (k + 1) p = e.advance h (e.travel h k p) := e.travel_add h k 1 p

theorem across_travel (e : Extents) (h : Heading) (k : Nat) (p : Position) :
    h.across (e.travel h k p) = h.across p := by
  induction k with
  | zero => rfl
  | succ k ih => rw [travel_succ,across_advance,ih]

theorem along_travel (fits : Reducing (e.extent h p))
    (low : Int64.minValue.toInt ≤ (h.along p).toInt + h.sense)
    (high : (h.along p).toInt + h.sense ≤ Int64.maxValue.toInt) (k : Nat) :
    (h.along (e.travel h (k + 1) p)).toInt = ((h.along p).toInt + h.sense * (k + 1)) % e.extent h p := by
  induction k with
  | zero =>
    rw [travel_succ,along_advance,toInt_wrap]
    show (if Reducing (e.extent h p) then (h.along p + h.along h.offset).toInt % e.extent h p else 0) = _
    rw [if_pos fits,toInt_add_exact (by rwa [h.along_offset]) (by rwa [h.along_offset]),h.along_offset]
    simp
  | succ k ih =>
    -- Only the first move may start outside the extent; from within it no sum overflows.
    have within := Int.emod_nonneg ((h.along p).toInt + h.sense * (k + 1)) (show (e.extent h p : Int) ≠ 0 by omega)
    have below := Int.emod_lt_of_pos ((h.along p).toInt + h.sense * (k + 1)) (show (0 : Int) < e.extent h p by omega)
    have least : Int64.minValue.toInt = -9223372036854775808 := rfl
    have one := h.sense_cases
    rw [travel_succ,along_advance,extent_same (e.across_travel h (k + 1) p),toInt_wrap,if_pos fits,
      toInt_add_exact (by rw [ih,h.along_offset]; omega) (by rw [ih,h.along_offset]; omega),ih,h.along_offset,
      Int.emod_add_emod]
    rw [Int.natCast_succ,Int.mul_add h.sense (k + 1) 1,Int.mul_one,Int.add_assoc]

theorem along_pinned (pinned : ¬ Reducing (e.extent h p)) (k : Nat) : h.along (e.travel h (k + 1) p) = 0 := by
  rw [travel_succ,along_advance,extent_same (e.across_travel h k p),wrap,if_neg pinned]

section Inside
variable (fits : Reducing (e.extent h p)) (low : 0 ≤ (h.along p).toInt) (high : (h.along p).toInt < e.extent h p)
include fits low high

theorem along_inside (k : Nat) :
    (h.along (e.travel h k p)).toInt = ((h.along p).toInt + h.sense * k) % e.extent h p := by
  have least : Int64.minValue.toInt = -9223372036854775808 := rfl
  have one := h.sense_cases
  cases k with
  | zero => simp [travel,Int.emod_eq_of_lt low high]
  | succ k => exact along_travel fits (by omega) (by omega) k

theorem travel_round : e.travel h (e.extent h p) p = p := by
  apply Heading.same_position (h := h) _ (e.across_travel h _ p)
  rw [← Int64.toInt_inj,along_inside fits low high,Int.add_mul_emod_self_right]
  exact Int.emod_eq_of_lt low high

theorem travel_meets {c : Nat} (inside : c < e.extent h p) :
    ∃! k, k < e.extent h p ∧ (h.along (e.travel h k p)).toInt = c := by
  obtain ⟨k,⟨within,meets⟩,once⟩ := meets_once h.sense_cases low high (Int.natCast_nonneg c) (by omega)
  refine ⟨k,⟨by omega,?_⟩,?_⟩
  · rw [along_inside fits low high]
    exact meets
  · rintro other ⟨within',meets'⟩
    rw [along_inside fits low high] at meets'
    exact once other ⟨by omega,meets'⟩

theorem advance_back : e.advance h.opposite (e.advance h p) = p := by
  have least : (0 : Int) < e.extent h p := by omega
  have extent : e.extent h.opposite (e.advance h p) = e.extent h p := by
    rw [extent_opposite,extent_same (e.across_advance h p)]
  have there : (h.along (e.advance h p)).toInt = ((h.along p).toInt + h.sense) % e.extent h p := by
    simpa [travel] using along_inside fits low high 1
  have back : (h.along (e.advance h.opposite (e.advance h p))).toInt =
      ((h.along (e.advance h p)).toInt - h.sense) % e.extent h p := by
    have moved := along_inside (h := h.opposite) (p := e.advance h p) (by rwa [extent])
      (by rw [h.along_opposite,there]; exact Int.emod_nonneg _ (by omega))
      (by rw [h.along_opposite,there,extent]; exact Int.emod_lt_of_pos _ least) 1
    simpa [travel,h.along_opposite,h.sense_opposite,extent,Int.sub_eq_add_neg] using moved
  apply Heading.same_position (h := h)
  · rw [← Int64.toInt_inj,back,there,Int.emod_sub_emod,Int.add_sub_cancel]
    exact Int.emod_eq_of_lt low high
  · have across := e.across_advance h.opposite (e.advance h p)
    rwa [h.across_opposite,across_advance] at across

end Inside
end Extents

namespace Pointer
variable {W : Type} [WordSource W]

def advances (e : Extents) : Nat → Pointer W → Pointer W := Nat.repeat fun p => PointerUnit.advance p e

theorem advances_travel (e : Extents) (k : Nat) (p : Pointer W) :
    p.advances e k = { p with position := e.travel p.heading k p.position } := by
  induction k with
  | zero => rfl
  | succ k ih =>
    show PointerUnit.advance (p.advances e k) e = _
    rw [ih,Extents.travel_succ]
    rfl

-- Moves under one heading run round the axis of travel: from outside the first move comes in,
-- and from within a whole round comes back. A turn about undoes a move. An axis without a
-- proper extent has one place only.
theorem advances_circle (e : Extents) (p : Pointer W) :
    let h := p.heading
    let start := (h.along p.position).toInt
    let extent := e.extent h p.position
    (∀ k, h.across (p.advances e k).position = h.across p.position ∧
      (p.advances e k).heading = h ∧ (p.advances e k).source = p.source) ∧
    (Reducing extent → Int64.minValue.toInt ≤ start + h.sense → start + h.sense ≤ Int64.maxValue.toInt →
      ∀ k > 0, (h.along (p.advances e k).position).toInt = (start + h.sense * k) % extent) ∧
    (Reducing extent → 0 ≤ start → start < extent →
      p.advances e extent = p ∧
      (∀ c < extent, ∃! k, k < extent ∧ (h.along (p.advances e k).position).toInt = c) ∧
      PointerUnit.turn (PointerUnit.advance (PointerUnit.turn (PointerUnit.advance p e) h.opposite) e) h = p) ∧
    (¬ Reducing extent → ∀ k > 0, h.along (p.advances e k).position = 0) := by
  intro h start extent
  refine ⟨?_,?_,?_,?_⟩
  · intro k
    rw [advances_travel]
    exact ⟨e.across_travel h k p.position,rfl,rfl⟩
  · intro fits low high k moved
    obtain ⟨before,rfl⟩ := Nat.exists_eq_add_of_lt moved
    rw [advances_travel,Nat.zero_add]
    exact Extents.along_travel fits low high before
  · intro fits low high
    refine ⟨?_,?_,?_⟩
    · rw [advances_travel,Extents.travel_round fits low high]
    · intro c inside
      simp only [advances_travel]
      exact Extents.travel_meets fits low high inside
    · have back := Extents.advance_back fits low high
      show ({ p with position := e.advance h.opposite (e.advance h p.position) } : Pointer W) = p
      rw [back]
  · intro pinned k moved
    obtain ⟨before,rfl⟩ := Nat.exists_eq_add_of_lt moved
    rw [advances_travel,Nat.zero_add]
    exact Extents.along_pinned pinned before

theorem advances_circle_short :
    let e : Extents := ⟨3,fun y => if y = 1 then 2 else 0⟩
    let west (x y : Int64) : Pointer Listed := ⟨⟨x,y⟩,.west,.mk []⟩
    ((west (-9) 1).advances e 4).position.x.toInt = 1 ∧ (west 1 1).advances e 2 = west 1 1 ∧
      ((west 7 0).advances e 5).position.x = 0 := by
  intro e west
  obtain ⟨_,entered,_,_⟩ := advances_circle e (west (-9) 1)
  obtain ⟨_,_,round,_⟩ := advances_circle e (west 1 1)
  obtain ⟨_,_,_,pinned⟩ := advances_circle e (west 7 0)
  exact ⟨(entered (by decide) (by decide) (by decide) 4 (by decide)).trans (by decide),
    (round (by decide) (by decide) (by decide)).1,pinned (by decide) 5 (by decide)⟩

end Pointer
end Funge

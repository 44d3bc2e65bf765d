import Funge.Proofs.Effects
import Funge.Proofs.Invariant
import Funge.Proofs.PlayfieldHistory

namespace Funge

def Position.Sums (p q : Position) : Prop :=
  (p + q).x.toInt = p.x.toInt + q.x.toInt ∧ (p + q).y.toInt = p.y.toInt + q.y.toInt

theorem offset_small (h : Heading) :
    (-1 ≤ h.offset.x.toInt ∧ h.offset.x.toInt ≤ 1) ∧ -1 ≤ h.offset.y.toInt ∧ h.offset.y.toInt ≤ 1 := by
  cases h <;> decide

def OnAxis (extent : Nat) (v : Int64) : Prop := 0 ≤ v ∧ v.toNatClampNeg < max 1 extent

theorem onAxis_zero (extent : Nat) : OnAxis extent 0 :=
  ⟨Int64.le_refl 0,Nat.lt_of_lt_of_le Nat.zero_lt_one (Nat.le_max_left 1 extent)⟩

theorem OnAxis.mono {extent larger : Nat} {v : Int64} (inside : OnAxis extent v) (le : extent ≤ larger) :
    OnAxis larger v := by
  refine ⟨inside.1,?_⟩
  have bound := inside.2
  omega

theorem onAxis_wrap (coordinate : Int64) (extent : Nat) :
    OnAxis extent (wrap coordinate extent) ∧ wrap coordinate extent < Int64.maxValue := by
  by_cases fits : Reducing extent
  · have value : (wrap coordinate extent).toInt = coordinate.toInt % extent := by simp [toInt_wrap,fits]
    have low := Int.emod_nonneg coordinate.toInt (show (extent : Int) ≠ 0 by omega)
    have high := Int.emod_lt_of_pos coordinate.toInt (show (0 : Int) < extent by omega)
    have zero : (0 : Int64).toInt = 0 := rfl
    refine ⟨⟨?_,?_⟩,?_⟩
    · rw [Int64.le_iff_toInt_le]
      omega
    · rw [← Int64.toNat_toInt]
      omega
    · rw [Int64.lt_iff_toInt_lt]
      omega
  · have value : wrap coordinate extent = 0 := by simp [wrap,fits]
    rw [value]
    exact ⟨onAxis_zero extent,by decide⟩

namespace Playfield
variable {f g h : Playfield} {p : Position}

def breadth (f : Playfield) : Nat := (f.rowList.map List.length).max?.getD 0

theorem width_le_breadth (f : Playfield) (y : Int64) : f.width y ≤ f.breadth := by
  unfold width row
  split
  · cases found : f.rows[y.toNatClampNeg]? with
    | none => exact Nat.zero_le _
    | some row =>
      apply List.le_max?_getD_of_mem
      have member : row ∈ f.rows := Array.mem_of_getElem? found
      simpa [rowList] using ⟨row,member,rfl⟩
  · exact Nat.zero_le _

-- The pointer's box. A vertical move keeps the column, so the row that holds it may
-- be another one.
structure Inside (f : Playfield) (p : Position) : Prop where
  row : OnAxis f.height p.y
  column : ∃ y, OnAxis (f.width y) p.x
  room : p.x < Int64.maxValue ∧ p.y < Int64.maxValue

theorem inside_origin (f : Playfield) : f.Inside .origin :=
  ⟨onAxis_zero _,⟨0,onAxis_zero _⟩,by decide⟩

structure Grows (f g : Playfield) : Prop where
  height : f.height ≤ g.height ∧ g.height ≤ max 65536 f.height
  width : ∀ y, f.width y ≤ g.width y ∧ g.width y ≤ max 65536 (f.width y)

theorem Grows.refl (f : Playfield) : f.Grows f :=
  ⟨⟨Nat.le_refl _,Nat.le_max_right ..⟩,fun _ => ⟨Nat.le_refl _,Nat.le_max_right ..⟩⟩

theorem Grows.trans (one : f.Grows g) (two : g.Grows h) : f.Grows h := by
  have height := one.height
  have height' := two.height
  refine ⟨by omega,?_⟩
  intro y
  have width := one.width y
  have width' := two.width y
  omega

theorem grows_set (f : Playfield) (p : Position) (c : Char) : f.Grows (f.set p c) := by
  refine ⟨?_,?_⟩
  · rw [height_set]
    split
    · rename_i near
      have bound := below_reach.mp near.2.2
      omega
    · omega
  · intro y
    rw [width_set]
    split
    · rename_i written
      have bound := below_reach.mp written.1.1.2
      omega
    · omega

theorem Inside.set (inside : f.Inside p) (q : Position) (c : Char) : (f.set q c).Inside p := by
  obtain ⟨row,⟨y,column⟩,room⟩ := inside
  have grows := f.grows_set q c
  exact ⟨row.mono grows.height.1,⟨y,column.mono (grows.width y).1⟩,room⟩

theorem Inside.advance (inside : f.Inside p) (h : Heading) :
    f.Inside (Extents.advance ⟨f.height,f.width⟩ h p) := by
  cases axis : h.isVertical with
  | true =>
    rw [Extents.advance_vertical _ p axis]
    have wrapped := onAxis_wrap (p.y + h.offset.y) f.height
    exact ⟨wrapped.1,inside.column,inside.room.1,wrapped.2⟩
  | false =>
    rw [Extents.advance_horizontal _ p axis]
    have wrapped := onAxis_wrap (p.x + h.offset.x) (f.width p.y)
    exact ⟨inside.row,⟨p.y,wrapped.1⟩,wrapped.2,inside.room.2⟩

theorem Inside.sums (inside : f.Inside p) (h : Heading) : p.Sums h.offset := by
  obtain ⟨⟨top,_⟩,⟨_,left,_⟩,right,bottom⟩ := inside
  obtain ⟨across,down⟩ := offset_small h
  have least : Int64.minValue.toInt = -9223372036854775808 := rfl
  have zero : (0 : Int64).toInt = 0 := rfl
  rw [Int64.le_iff_toInt_le] at left top
  rw [Int64.lt_iff_toInt_lt] at right bottom
  -- A coordinate in the box is less than the largest of all.
  exact ⟨toInt_add_exact (by omega) (by omega),toInt_add_exact (by omega) (by omega)⟩

def Confined (f : Playfield) : Prop := f.height ≤ 65536 ∧ ∀ y, f.width y ≤ 65536

theorem confined_ofRows {rows : List (List Char)} (fits : Fits rows) : (ofRows rows).Confined := by
  refine ⟨by rw [height_ofRows]; exact fits.1,?_⟩
  intro y
  unfold width
  rw [row_ofRows]
  split
  · cases found : rows[y.toNatClampNeg]? with
    | none => exact Nat.zero_le _
    | some row => exact fits.2 row (List.mem_of_getElem? found)
  · exact Nat.zero_le _

theorem Confined.grown (confined : f.Confined) (grows : f.Grows g) : g.Confined := by
  refine ⟨Nat.le_trans grows.height.2 (Nat.max_le.mpr ⟨Nat.le_refl _,confined.1⟩),?_⟩
  intro y
  exact Nat.le_trans (grows.width y).2 (Nat.max_le.mpr ⟨Nat.le_refl _,confined.2 y⟩)

theorem Inside.near (inside : f.Inside p) (confined : f.Confined) : Near p := by
  obtain ⟨⟨top,row⟩,⟨y,left,column⟩,_⟩ := inside
  have height := confined.1
  have width := confined.2 y
  exact ⟨⟨left,below_reach.mpr (by omega)⟩,top,below_reach.mpr (by omega)⟩

end Playfield

namespace Machine
variable {W : Type} [WordSource W] {m : Standard W}

abbrev Boxed (m : Standard W) : Prop := m.store.playfield.Inside m.position

theorem execute_boxed {s : Standard W} {i : Instruction} (boxed : m.Boxed) (executed : m.execute i = some s) :
    s.Boxed := by
  unfold Boxed
  by_cases bridges : i = .bridge
  · subst bridges
    cases executed
    exact boxed.advance m.heading
  · rw [execute_position executed bridges]
    rcases execute_some.mp executed with ⟨_,rfl⟩ | ⟨_,p,_,rfl⟩
    · by_cases puts : i = .put
      · subst puts
        exact boxed.set m.target _
      · rw [perform_playfield m puts]
        exact boxed
    · exact boxed

theorem dispatch_boxed {s : Standard W} {c : Char} (boxed : m.Boxed) (dispatched : m.dispatch c = some s) : s.Boxed := by
  unfold dispatch at dispatched
  split at dispatched
  · exact execute_boxed boxed dispatched
  · cases dispatched
    exact boxed
  · exact execute_boxed boxed dispatched

theorem step_boxed (boxed : m.Boxed) : m.step.2.Boxed := by
  by_cases halted : m.Halted
  · rw [step_halted m halted]
    exact boxed
  · cases dispatched : m.dispatch m.cell with
    | none => rwa [step_lost halted dispatched]
    | some s =>
      rw [step_moved halted dispatched]
      exact (dispatch_boxed boxed dispatched).advance _

theorem load_boxed (m : Standard W) (program : String) : (m.load program).Boxed := Playfield.inside_origin _

theorem stage_writes {K : Playfield → Prop} (set : ∀ f p c, K f → K (f.set p c)) {program : String} {a b : Nat}
    (le : a ≤ b) (start : K (m.stage program a).store.playfield) : K (m.stage program b).store.playfield :=
  stage_keeps (I := fun s : Standard W => K s.store.playfield) (fun _ => step_writes set) le start

theorem stage_confined (m : Standard W) {program : String} (fits : Playfield.Fits (Text.rows program.toList)) (n : Nat) :
    (m.stage program n).store.playfield.Confined := by
  have start : (m.stage program 0).store.playfield.Confined := Playfield.confined_ofRows fits
  exact stage_writes (fun f p c confined => confined.grown (f.grows_set p c)) (Nat.zero_le n) start

-- The pointer stays among the rows and columns of the playfield. Where they lie in the near
-- quadrant, a cell apart from them may be stored and got, but is never executed.
theorem pointer_inside (source : W) :
    (∀ requests,
      let m := ((Standard.fresh source).serveAll requests).2
      OnAxis m.store.playfield.height m.position.y ∧ OnAxis m.store.playfield.breadth m.position.x ∧
        ∀ h : Heading, m.position.Sums h.offset ∧ ∀ s, m.dispatch m.cell = some s → s.position.Sums h.offset) ∧
    ∀ (m : Standard W) program, Playfield.Fits (Text.rows program.toList) → ∀ n,
      Playfield.Near (m.stage program n).position ∧
        (m.stage program n).cell =
          (charAt? (m.stage program n).store.playfield.rowList (m.stage program n).position).getD ' ' := by
  have step : ∀ m : Standard W, m.Boxed → m.step.2.Boxed := fun _ => step_boxed
  refine ⟨?_,?_⟩
  · intro requests m
    have boxed : m.Boxed := serveAll_keeps (fun m program _ => load_boxed m program) step requests (Playfield.inside_origin _)
    obtain ⟨y,column⟩ := boxed.column
    refine ⟨boxed.row,column.mono (Playfield.width_le_breadth _ y),?_⟩
    intro h
    exact ⟨boxed.sums h,fun s dispatched => (dispatch_boxed boxed dispatched).sums h⟩
  · intro m program fits n
    have boxed : (m.stage program n).Boxed := after_keeps step n (load_boxed m program)
    have near := boxed.near (stage_confined m fits n)
    exact ⟨near,Playfield.get_near _ near⟩

theorem pointer_inside_westward :
    let m := Standard.fresh (Listed.mk [])
    let program := "88*01-0p<"
    Playfield.Fits (Text.rows program.toList) ∧ Playfield.Near (m.stage program 17).position ∧
      (m.stage program 16).position = ⟨0,0⟩ ∧ (m.stage program 17).position = ⟨8,0⟩ := by
  intro m program
  have fits : Playfield.Fits (Text.rows program.toList) := ⟨by decide +kernel,by decide +kernel⟩
  exact ⟨fits,((pointer_inside (Listed.mk [])).2 m program fits 17).1,by decide +kernel,by decide +kernel⟩

end Machine
end Funge

import Funge.Proofs.Simulation

namespace Funge
variable {hidden : Position → Prop}

structure Playfield.AgreeOff (hidden : Position → Prop) (f g : Playfield) : Prop where
  height : f.height = g.height
  width : ∀ y, f.width y = g.width y
  get : ∀ p, ¬ hidden p → f.get p = g.get p

theorem Playfield.AgreeOff.set {f g : Playfield} (agree : AgreeOff hidden f g) (p : Position) (c : Char) :
    AgreeOff hidden (f.set p c) (g.set p c) where
  height := by rw [height_set,height_set,agree.height]
  width y := by rw [width_set,width_set,agree.width]
  get q visible := by rw [get_set,get_set,agree.get q visible]

theorem Playfield.AgreeOff.overwrite (f : Playfield) {p : Position} (c : Char) (near : Near p)
    (row : p.y.toNatClampNeg < f.height) (column : p.x.toNatClampNeg < f.width p.y) :
    AgreeOff (· = p) f (f.set p c) where
  height := by
    rw [height_set,if_pos near]
    omega
  width y := by
    rw [width_set]
    split
    · rename_i same
      rw [same.2]
      omega
    · rfl
  get q other := by rw [get_set,if_neg other]

structure Store.AgreeOff (hidden : Position → Prop) (s s' : Store) : Prop where
  playfield : s.playfield.AgreeOff hidden s'.playfield
  printout : s.printout = s'.printout

theorem Store.AgreeOff.frame (hidden : Position → Prop) : StoreFrame (Store.AgreeOff hidden) where
  height _ _ agree := agree.playfield.height
  width _ _ y agree := agree.playfield.width y
  load _ _ _ agree := ⟨⟨rfl,fun _ => rfl,fun _ _ => rfl⟩,agree.printout⟩
  set _ _ p c agree := ⟨agree.playfield.set p c,agree.printout⟩
  write _ _ piece agree := ⟨agree.playfield,congrArg (·.print piece) agree.printout⟩
  output _ _ agree := congrArg Printout.text agree.printout

namespace Machine
variable {W : Type} [WordSource W] {m m' : Standard W}

-- The playfields may differ in hidden cells, and nothing else may.
abbrev AgreeOff (hidden : Position → Prop) (m m' : Standard W) : Prop := Related Eq Eq (Store.AgreeOff hidden) m m'

theorem step_unvisited (agree : AgreeOff hidden m m') (visible : ¬ hidden m.position)
    (read : m.Executes .get → ¬ hidden m.target) :
    m.step.1 = m'.step.1 ∧ AgreeOff hidden m.step.2 m'.step.2 := by
  apply agree.step StackSimulation.refl PointerSimulation.refl.toPointerFrame (Store.AgreeOff.frame hidden)
  · have same : m.position = m'.position := congrArg PointerUnit.position agree.pointer
    unfold cell
    rw [← same]
    exact agree.store.playfield.get _ visible
  · intro gets
    rw [← agree.target StackSimulation.refl]
    exact agree.store.playfield.get _ (read gets)
  · intro _
    exact PointerSimulation.refl.wander _ _ agree.pointer

theorem run_unvisited {n : Nat} (agree : AgreeOff hidden m m') (visible : ∀ k < n, ¬ hidden (after k m).position)
    (read : ∀ k < n, (after k m).Executes .get → ¬ hidden (after k m).target) :
    (∀ k < n, (after k m').step.1 = (after k m).step.1) ∧ AgreeOff hidden (after n m) (after n m') := by
  induction n generalizing m m' with
  | zero => exact ⟨fun k below => absurd below (Nat.not_lt_zero k),agree⟩
  | succ n ih =>
    obtain ⟨progress,next⟩ := step_unvisited agree (visible 0 (Nat.zero_lt_succ n)) (read 0 (Nat.zero_lt_succ n))
    obtain ⟨statuses,final⟩ := ih next (fun k below => visible (k + 1) (Nat.succ_lt_succ below))
      fun k below => read (k + 1) (Nat.succ_lt_succ below)
    refine ⟨?_,final⟩
    intro k below
    cases k with
    | zero => exact progress.symm
    | succ k => exact statuses k (Nat.lt_of_succ_lt_succ below)

-- A cell has no part in a run that neither comes to it nor gets it, even if the run writes to
-- it. A bridge in a row of one cell leads around to itself, hence the third condition.
theorem after_unvisited (agree : AgreeOff hidden m m') :
    (∀ n, (∀ k < n, ¬ hidden (after k m).position) → (∀ k < n, (after k m).Executes .get → ¬ hidden (after k m).target) →
      (∀ k < n, (after k m').step.1 = (after k m).step.1) ∧ AgreeOff hidden (after n m) (after n m')) ∧
    (m.Executes .bridge → m.skipped ≠ m.position → (∀ p, hidden p → p = m.skipped) →
      m'.step.1 = m.step.1 ∧ AgreeOff hidden m.step.2 m'.step.2) := by
  refine ⟨fun n visible read => run_unvisited agree visible read,?_⟩
  intro bridges away only
  have visible : ¬ hidden m.position := fun hides => away (only _ hides).symm
  have read : m.Executes .get → ¬ hidden m.target := by
    intro gets
    cases bridges.2.2.symm.trans gets.2.2
  obtain ⟨progress,next⟩ := step_unvisited agree visible read
  exact ⟨progress.symm,next⟩

theorem after_unvisited_bridged :
    let m := (Standard.fresh (Listed.mk [])).load "#x00g.@"
    let m' := { m with store := m.store.set ⟨1,0⟩ '@' }
    ((∀ k < 7, (after k m').step.1 = (after k m).step.1) ∧ AgreeOff (· = ⟨1,0⟩) (after 7 m) (after 7 m')) ∧
      m'.step.1 = m.step.1 ∧ AgreeOff (· = ⟨1,0⟩) m.step.2 m'.step.2 := by
  intro m m'
  have agree : AgreeOff (· = ⟨1,0⟩) m m' :=
    ⟨rfl,rfl,⟨.overwrite _ '@' (by decide) (by decide) (by decide),rfl⟩,rfl,rfl⟩
  obtain ⟨run,bridge⟩ := after_unvisited agree
  refine ⟨run 7 ?_ ?_,bridge ?_ ?_ ?_⟩
  · decide +kernel
  · decide +kernel
  · decide +kernel
  · decide +kernel
  · intro p same
    exact same

end Machine
end Funge

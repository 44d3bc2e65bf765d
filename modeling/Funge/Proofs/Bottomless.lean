import Funge.Proofs.Simulation

namespace Funge

def Stack.onZeros (s : Stack) (zeros : Nat) : Stack := ⟨s.values ++ List.replicate zeros 0⟩

def Stack.Grounded (s s' : Stack) : Prop := ∃ zeros, s' = s.onZeros zeros

theorem Stack.pop_onZeros (s : Stack) (zeros : Nat) :
    (s.onZeros zeros).pop.1 = s.pop.1 ∧ ∃ left, (s.onZeros zeros).pop.2 = s.pop.2.onZeros left := by
  obtain ⟨values⟩ := s
  cases values with
  | cons v rest => exact ⟨rfl,zeros,rfl⟩
  | nil =>
    cases zeros with
    | zero => exact ⟨rfl,0,rfl⟩
    | succ left => exact ⟨rfl,left,rfl⟩

theorem Stack.grounded_simulates : StackSimulation Stack.Grounded where
  push s _ v grounded := by
    obtain ⟨zeros,rfl⟩ := grounded
    exact ⟨zeros,rfl⟩
  pop s _ grounded := by
    obtain ⟨zeros,rfl⟩ := grounded
    obtain ⟨top,below⟩ := s.pop_onZeros zeros
    exact ⟨top.symm,below⟩
  clear s _ _ := ⟨0,rfl⟩

namespace Machine
variable {W : Type}

def onZeros (m : Standard W) (zeros : Nat) : Standard W := { m with stack := m.stack.onZeros zeros }

abbrev Grounded (m m' : Standard W) : Prop := Related Stack.Grounded Eq Eq m m'

theorem grounded_exact {m m' : Standard W} : Grounded m m' ↔ ∃ zeros, m' = m.onZeros zeros := by
  constructor
  · rintro ⟨⟨zeros,stack⟩,pointer,store,mode,steps⟩
    refine ⟨zeros,?_⟩
    cases m'
    simp_all [onZeros]
  · rintro ⟨zeros,rfl⟩
    exact ⟨⟨zeros,rfl⟩,rfl,rfl,rfl,rfl⟩

variable [WordSource W]

-- No run can tell how many zeros lie under the last value, be they none or many.
theorem after_onZeros (m : Standard W) (zeros n : Nat) :
    (∀ k < n, (after k (m.onZeros zeros)).step.1 = (after k m).step.1) ∧
      ∃ left, after n (m.onZeros zeros) = (after n m).onZeros left := by
  have run : ∀ k, Grounded (after k m) (after k (m.onZeros zeros)) := by
    intro k
    apply Related.after Stack.grounded_simulates PointerSimulation.refl StoreSimulation.refl
    exact grounded_exact.mpr ⟨zeros,rfl⟩
  refine ⟨?_,grounded_exact.mp (run n)⟩
  intro k _
  exact ((run k).step_same Stack.grounded_simulates PointerSimulation.refl StoreSimulation.refl).1.symm

end Machine
end Funge

import Funge.Proofs.Bottomless

namespace Funge

inductive StackCommand where
  | digit (value : Fin 10)
  | operate (op : Operator)
  | greater
  | negate
  | duplicate
  | swap
  deriving DecidableEq

namespace StackCommand

def perform {A : Type} [StackUnit A] : StackCommand → A → A
  | .digit d => StackUnit.digit d
  | .operate op => StackUnit.operate op
  | .greater => StackUnit.greater
  | .negate => StackUnit.negate
  | .duplicate => StackUnit.duplicate
  | .swap => StackUnit.swap

def taken : StackCommand → Nat
  | .digit _ => 0
  | .negate | .duplicate => 1
  | .operate _ | .greater | .swap => 2

-- What is put back for the values taken, which are counted from the top. The last one put back
-- is the new top.
def given : (c : StackCommand) → (Fin c.taken → Number) → List Number
  | .digit d, _ => [Int64.ofNat d.val]
  | .operate op, v => [op.apply (v (1 : Fin 2)) (v (0 : Fin 2))]
  | .greater, v => [Number.flag (decide (v (1 : Fin 2) > v (0 : Fin 2)))]
  | .negate, v => [Number.flag (decide (v (0 : Fin 1) = 0))]
  | .duplicate, v => [v (0 : Fin 1),v (0 : Fin 1)]
  | .swap, v => [v (0 : Fin 2),v (1 : Fin 2)]

end StackCommand

namespace Stack
open StackUnit

def fromTop (s : Stack) (i : Nat) : Number := s.values.getD i 0

def Level (s s' : Stack) : Prop := ∃ zeros zeros', s.onZeros zeros = s'.onZeros zeros'

theorem onZeros_zero (s : Stack) : s.onZeros 0 = s := by simp [onZeros]

theorem onZeros_deep {s : Stack} {n : Nat} (deep : n ≤ s.depth) : s.onZeros (n - s.depth) = s := by
  rw [Nat.sub_eq_zero_of_le deep,onZeros_zero]

theorem level_onZeros (s : Stack) (zeros : Nat) : (s.onZeros zeros).Level s := ⟨0,zeros,onZeros_zero _⟩

theorem values_perform (c : StackCommand) (s : Stack) :
    (c.perform s).values = (c.given fun i => s.fromTop i).reverse ++ s.values.drop c.taken := by
  rcases s with ⟨_ | ⟨top,_ | ⟨next,rest⟩⟩⟩ <;> cases c <;> rfl

theorem toList_perform (c : StackCommand) (s : Stack) :
    (c.perform s).toList = s.toList.take (s.depth - min c.taken s.depth) ++ c.given fun i => s.fromTop i := by
  have kept : s.depth - min c.taken s.depth = s.values.length - c.taken := by
    unfold depth
    omega
  rw [toList,values_perform,List.reverse_append,List.reverse_reverse,List.reverse_drop,kept]
  rfl

theorem swap_swap (s : Stack) : swap (swap s) = s.onZeros (2 - s.depth) := by
  rcases s with ⟨_ | ⟨top,_ | ⟨next,rest⟩⟩⟩
  · rfl
  · rfl
  · exact (onZeros_deep (Nat.le_add_left 2 rest.length)).symm

theorem pop_duplicate (s : Stack) : (duplicate s).pop = (s.peek?.getD 0,s.onZeros (1 - s.depth)) := by
  rcases s with ⟨_ | ⟨top,rest⟩⟩
  · rfl
  · exact congrArg (top,·) (onZeros_deep (Nat.le_add_left 1 rest.length)).symm

theorem swap_duplicate (s : Stack) : swap (duplicate s) = duplicate s := rfl

theorem flag_exact (holds : Bool) : (Number.flag holds = 1 ↔ holds = true) ∧ (Number.flag holds = 0 ↔ holds = false) := by
  cases holds <;> decide

theorem negate_push (s : Stack) (v : Number) : negate (s.push v) = s.push (Number.flag (decide (v = 0))) := rfl

theorem negate_thrice (s : Stack) : negate (negate (negate s)) = negate s := by
  have once : negate s = s.pop.2.push (Number.flag (decide (s.pop.1 = 0))) := rfl
  rw [once,negate_push,negate_push]
  simp only [flag_exact,decide_eq_false_iff_not,Decidable.not_not]

theorem fromTop_swap (s : Stack) : (swap s).fromTop 0 = s.fromTop 1 ∧ (swap s).fromTop 1 = s.fromTop 0 := by
  rcases s with ⟨_ | ⟨top,_ | ⟨next,rest⟩⟩⟩ <;> exact ⟨rfl,rfl⟩

theorem pop_greater (s : Stack) : (greater s).pop.1 = Number.flag (decide (s.fromTop 0 < s.fromTop 1)) := by
  rcases s with ⟨_ | ⟨top,_ | ⟨next,rest⟩⟩⟩ <;> rfl

theorem pop_greater_swap (s : Stack) :
    (greater (swap s)).pop.1 = Number.flag (decide (s.fromTop 1 < s.fromTop 0)) := by
  rw [pop_greater,(fromTop_swap s).1,(fromTop_swap s).2]

theorem greater_either_way (s : Stack) :
    ¬ ((greater s).pop.1 = 1 ∧ (greater (swap s)).pop.1 = 1) ∧
      ((greater s).pop.1 = 0 ∧ (greater (swap s)).pop.1 = 0 ↔ s.fromTop 0 = s.fromTop 1) := by
  rw [pop_greater_swap,pop_greater]
  simp only [flag_exact,decide_eq_true_eq,decide_eq_false_iff_not,Int64.not_lt]
  refine ⟨?_,?_⟩
  · rintro ⟨less,more⟩
    exact Int64.lt_asymm less more
  · constructor
    · rintro ⟨above,below⟩
      exact Int64.le_antisymm below above
    · intro same
      rw [same]
      exact ⟨Int64.le_refl _,Int64.le_refl _⟩

-- What each command takes and gives, with zeros for values that are missing, and what that
-- makes of commands in a row. Only then may zeros come to lie at the bottom.
theorem perform_laws (s : Stack) :
    (∀ c : StackCommand,
      (c.perform s).toList = s.toList.take (s.depth - min c.taken s.depth) ++ c.given fun i => s.fromTop i) ∧
    ((swap (swap s)).Level s ∧ (2 ≤ s.depth → swap (swap s) = s)) ∧
    ((duplicate s).pop.1 = s.peek?.getD 0 ∧ (duplicate s).pop.2.Level s ∧
      (1 ≤ s.depth → (duplicate s).pop.2 = s)) ∧
    swap (duplicate s) = duplicate s ∧
    negate (negate (negate s)) = negate s ∧
    ¬ ((greater s).pop.1 = 1 ∧ (greater (swap s)).pop.1 = 1) ∧
    ((greater s).pop.1 = 0 ∧ (greater (swap s)).pop.1 = 0 ↔ s.fromTop 0 = s.fromTop 1) := by
  obtain ⟨never,even⟩ := s.greater_either_way
  refine ⟨fun c => toList_perform c s,⟨?_,?_⟩,⟨?_,?_,?_⟩,swap_duplicate s,negate_thrice s,never,even⟩
  · rw [swap_swap]
    exact level_onZeros s _
  · intro deep
    rw [swap_swap,onZeros_deep deep]
  · rw [pop_duplicate]
  · rw [pop_duplicate]
    exact level_onZeros s _
  · intro deep
    rw [pop_duplicate]
    exact onZeros_deep deep

theorem perform_laws_short :
    let s := Stack.empty.push 9
    swap (swap (s.push 7)) = s.push 7 ∧ (swap (swap s)).Level s ∧ swap (swap s) ≠ s ∧
      (StackCommand.operate .subtract).perform s = Stack.empty.push (-9) := by
  intro s
  obtain ⟨_,⟨_,undone⟩,_⟩ := perform_laws (s.push 7)
  obtain ⟨_,⟨level,_⟩,_⟩ := perform_laws s
  exact ⟨undone (by decide),level,by decide,by decide⟩

end Stack
end Funge

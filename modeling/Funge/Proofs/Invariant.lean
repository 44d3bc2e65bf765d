import Funge.Proofs.Execution
import Funge.Proofs.Halting
import Funge.Session

namespace Funge

section Stack
open Machine
variable {A P S : Type} [StackUnit A]

structure StackKeeps (K : A → Prop) : Prop where
  push : ∀ s v, K s → K (StackUnit.push s v)
  pop : ∀ s, K s → K (StackUnit.pop s).2

variable [PointerUnit P] [StoreUnit S] {K : A → Prop} {m : Machine A P S}

theorem StackKeeps.perform (keeps : StackKeeps K) (i : Instruction) (kept : K m.stack) : K (m.perform i).stack := by
  have one := keeps.pop _ kept
  have two := keeps.pop _ one
  cases i with
  | digit d => exact keeps.push _ _ kept
  | operate op => exact keeps.push _ _ two
  | greater => exact keeps.push _ _ two
  | negate => exact keeps.push _ _ one
  | duplicate => exact keeps.push _ _ (keeps.push _ _ one)
  | swap => exact keeps.push _ _ (keeps.push _ _ two)
  | discard | horizontalIf | verticalIf | writeNumber | writeGlyph => exact one
  | put => exact keeps.pop _ two
  | get => exact keeps.push _ _ two
  | _ => exact kept

theorem StackKeeps.step (keeps : StackKeeps K) (kept : K m.stack) : K m.step.2.stack := by
  rcases m.step_cases with ⟨_,rest⟩ | ⟨_,spelt⟩ | ⟨i,s,_,executed,stepped⟩ | ⟨_,_,strayed⟩
  · rwa [rest]
  · rw [spelt]
    exact keeps.push _ _ kept
  · rw [stepped]
    rcases execute_some.mp executed with ⟨_,rfl⟩ | ⟨_,p,_,rfl⟩
    · exact keeps.perform i kept
    · exact kept
  · rwa [strayed]

end Stack

namespace Machine
variable {A P S : Type} [StackUnit A] [PointerUnit P] [StoreUnit S] {I : Machine A P S → Prop} {m : Machine A P S}

theorem after_keeps (step : ∀ m, I m → I m.step.2) (n : Nat) (start : I m) : I (after n m) := by
  induction n generalizing m with
  | zero => exact start
  | succ n ih => exact ih (step m start)

theorem stage_keeps (step : ∀ m, I m → I m.step.2) {program : String} {a b : Nat} (le : a ≤ b)
    (start : I (m.stage program a)) : I (m.stage program b) := by
  obtain ⟨more,rfl⟩ := Nat.exists_eq_add_of_le le
  rw [stage,after_add]
  exact after_keeps step more start

theorem serve_keeps (load : ∀ m program, I m → I (m.load program)) (step : ∀ m, I m → I m.step.2)
    (request : Request) (start : I m) : I (m.serve request).2 := by
  cases request with
  | load program => exact load m program start
  | step => exact step m start
  | runWithin program limit =>
    simpa [serve,runWithin_stage,stage] using after_keeps step limit.toNat (load m program start)

-- What loading and each step keep is kept by every session.
theorem serveAll_keeps (load : ∀ m program, I m → I (m.load program)) (step : ∀ m, I m → I m.step.2)
    (requests : List Request) (start : I m) : I (m.serveAll requests).2 := by
  induction requests generalizing m with
  | nil => exact start
  | cons request rest ih =>
    have served := serve_keeps load step request start
    unfold serveAll
    dsimp only
    split
    · exact ih served
    · exact served

end Machine
end Funge

import Funge.Proofs.Chance
import Funge.Proofs.Journal
import Funge.Proofs.LastWrite

namespace Funge.Machine
open Words

variable {W : Type} [WordSource W] {m : Standard W} {i : Instruction}

theorem step_output (m : Standard W) : m.step.2.output = m.output ++ m.piece?.getD "" := by
  have silent : ∀ i, i ≠ .writeNumber ∧ i ≠ .writeGlyph → (m.perform i).output = m.output := by
    intro i other
    cases i with
    | writeNumber => exact absurd rfl other.1
    | writeGlyph => exact absurd rfl other.2
    | _ => rfl
  rw [step_piece (fun s : Standard W => s.output) (· ++ ·) m (fun _ => rfl) rfl (fun _ => rfl) silent fun _ => rfl]
  cases m.piece? with
  | none => exact String.append_empty.symm
  | some piece => rfl

theorem step_appends (m : Standard W) : m.output.toList <+: m.step.2.output.toList := by
  rw [step_output,String.toList_append]
  exact List.prefix_append _ _

theorem stage_appends (m : Standard W) (program : String) {a b : Nat} (le : a ≤ b) :
    (m.stage program a).output.toList <+: (m.stage program b).output.toList := by
  apply stage_keeps (I := fun s : Standard W => (m.stage program a).output.toList <+: s.output.toList) _ le
  · exact List.prefix_refl _
  · exact fun s earlier => earlier.trans (step_appends s)

end Funge.Machine

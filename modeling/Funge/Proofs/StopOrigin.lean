import Funge.Proofs.Chance
import Funge.Proofs.PlayfieldHistory

namespace Funge

namespace Playfield

def Lacks (f : Playfield) (c : Char) : Prop := ∀ p, f.get p ≠ c

theorem Lacks.set {f : Playfield} {c d : Char} (lacks : f.Lacks c) (other : d ≠ c) (p : Position) :
    (f.set p d).Lacks c := by
  intro q
  rw [get_set]
  split
  · exact other
  · exact lacks q

end Playfield

namespace Machine
open Words WordSource

variable {W : Type} [WordSource W] {m : Standard W} {c : Char}

end Machine
end Funge

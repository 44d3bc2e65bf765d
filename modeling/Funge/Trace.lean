import Funge.Machine

namespace Funge

structure Sighting (A P S : Type) where
  progress : Progress
  machine : Machine A P S
  written : String

namespace Machine
variable {A P S : Type} [StackUnit A] [PointerUnit P] [StoreUnit S]

def sight (m : Machine A P S) : Sighting A P S :=
  let stepped := m.step
  ⟨stepped.1,stepped.2,.ofList (stepped.2.output.toList.drop m.output.toList.length)⟩

-- At most n steps. The first one that does not move the pointer is the last.
def trace : Nat → Machine A P S → List (Sighting A P S)
  | 0, _ => []
  | n + 1, m =>
    let seen := m.sight
    match seen.progress with
    | .moved => seen :: trace n seen.machine
    | .halted | .lost => [seen]

end Machine
end Funge

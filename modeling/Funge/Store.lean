import Funge.Playfield
import Funge.Printout
import Funge.Units

namespace Funge

structure Store where
  playfield : Playfield
  printout : Printout

namespace Store

def empty : Store := ⟨.empty,.empty⟩

def load (s : Store) (rows : List (List Char)) : Store := { s with playfield := .ofRows rows }

def set (s : Store) (p : Position) (c : Char) : Store := { s with playfield := s.playfield.set p c }

def write (s : Store) (piece : String) : Store := { s with printout := s.printout.print piece }

instance : StoreUnit Store where
  height s := s.playfield.height
  width s := s.playfield.width
  load := load
  cell s := s.playfield.get
  set := set
  write := write
  output s := s.printout.text

theorem write_empty (s : Store) : s.write "" = s := by
  simp [write,Printout.print]

theorem write_append (s : Store) (a b : String) : s.write (a ++ b) = (s.write a).write b := by
  simp [write,Printout.print,String.append_assoc]

end Store
end Funge

import Funge.Text.Lines

namespace Funge

structure Printout where
  text : String
  deriving DecidableEq

namespace Printout

def empty : Printout := ⟨""⟩

def print (o : Printout) (piece : String) : Printout := ⟨o.text ++ piece⟩

def lines (o : Printout) : List String := (Text.splitLines o.text.toList).map .ofList

def size (o : Printout) : Nat := o.text.utf8ByteSize

def isEmpty (o : Printout) : Bool := o.text.isEmpty

theorem size_print (o : Printout) (piece : String) : (o.print piece).size = o.size + piece.utf8ByteSize :=
  String.utf8ByteSize_append

end Printout
end Funge

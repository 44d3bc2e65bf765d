namespace Funge

-- Column x and row y. Both may be any 64-bit integer, also a negative one.
structure Position where
  x : Int64
  y : Int64
  deriving DecidableEq,Hashable

namespace Position

def origin : Position := ⟨0,0⟩

instance : Add Position := ⟨fun p q => ⟨p.x + q.x,p.y + q.y⟩⟩

theorem add_x (p q : Position) : (p + q).x = p.x + q.x := rfl
theorem add_y (p q : Position) : (p + q).y = p.y + q.y := rfl

def text (p : Position) : String := "(" ++ Int.repr p.x.toInt ++ ", " ++ Int.repr p.y.toInt ++ ")"

end Position
end Funge

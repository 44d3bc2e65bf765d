import Funge.Operator
import Funge.Heading

namespace Funge

inductive Instruction where
  | digit (value : Fin 10)
  | operate (op : Operator)
  | greater
  | negate
  | duplicate
  | swap
  | discard
  | turn (heading : Heading)
  | wander
  | horizontalIf
  | verticalIf
  | bridge
  | writeNumber
  | writeGlyph
  | quote
  | put
  | get
  | stop
  | blank
  deriving DecidableEq

namespace Instruction

def digitOf? (c : Char) : Option (Fin 10) :=
  if h : 48 ≤ c.toNat ∧ c.toNat ≤ 57 then some ⟨c.toNat - 48,by omega⟩ else none

-- The characters that are neither digit, operator nor arrow. A character without
-- a meaning is a blank, so every cell can be executed.
def ofMark : Char → Instruction
  | '\x60' => .greater
  | '!' => .negate
  | ':' => .duplicate
  | '\\' => .swap
  | '$' => .discard
  | '?' => .wander
  | '_' => .horizontalIf
  | '|' => .verticalIf
  | '#' => .bridge
  | '.' => .writeNumber
  | ',' => .writeGlyph
  | '"' => .quote
  | 'p' => .put
  | 'g' => .get
  | '@' => .stop
  | _ => .blank

def decode (c : Char) : Instruction :=
  match Operator.ofSymbol? c, Heading.ofArrow? c, digitOf? c with
  | some op, _, _ => .operate op
  | none, some h, _ => .turn h
  | none, none, some d => .digit d
  | none, none, none => ofMark c

def mark : Instruction → Char
  | .digit d => Char.ofNat (48 + d.val)
  | .operate op => op.symbol
  | .greater => '\x60'
  | .negate => '!'
  | .duplicate => ':'
  | .swap => '\\'
  | .discard => '$'
  | .turn h => h.arrow
  | .wander => '?'
  | .horizontalIf => '_'
  | .verticalIf => '|'
  | .bridge => '#'
  | .writeNumber => '.'
  | .writeGlyph => ','
  | .quote => '"'
  | .put => 'p'
  | .get => 'g'
  | .stop => '@'
  | .blank => ' '

theorem decode_mark (i : Instruction) : decode i.mark = i := by
  cases i with
  | digit d => revert d; decide
  | operate op => cases op <;> rfl
  | turn h => cases h <;> rfl
  | _ => rfl

theorem mark_digitOf {c : Char} {d : Fin 10} (found : digitOf? c = some d) : (digit d).mark = c := by
  unfold digitOf? at found
  split at found
  · rename_i between
    cases found
    show Char.ofNat (48 + (c.toNat - 48)) = c
    rw [Nat.add_sub_cancel' between.1,Char.ofNat_toNat]
  · cases found

theorem mark_ofMark {c : Char} (meant : ofMark c ≠ .blank) : (ofMark c).mark = c := by
  revert meant
  unfold ofMark
  split <;> intro meant <;> first | rfl | exact absurd rfl meant

theorem mark_decode {c : Char} (meant : decode c ≠ .blank) : (decode c).mark = c := by
  unfold decode at meant ⊢
  split
  · rename_i found
    exact Operator.symbol_ofSymbol found
  · rename_i found
    exact Heading.arrow_ofArrow found
  · rename_i found
    exact mark_digitOf found
  · apply mark_ofMark
    simpa [*] using meant

theorem mark_inj {i j : Instruction} (same : i.mark = j.mark) : i = j := by
  rw [← decode_mark i,same,decode_mark]

theorem decode_exact {c : Char} {i : Instruction} (meant : i ≠ .blank) : decode c = i ↔ c = i.mark := by
  constructor
  · rintro rfl
    exact (mark_decode meant).symm
  · rintro rfl
    exact decode_mark i

theorem decode_stop {c : Char} (stops : decode c = .stop) : c = '@' := (decode_exact (by decide)).mp stops

end Instruction
end Funge

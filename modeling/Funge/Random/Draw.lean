import Funge.Heading

namespace Funge

-- A word with bit 61 set is refused, so each heading is equally likely: 2^61 words lead to it.
def Heading.ofWord? (v : UInt64) : Option Heading :=
  if v.toNat.testBit 61 then none
  else Heading.all[(v >>> 62).toNat]?

class Words (W : Type) where
  next : W → UInt64 × W
  patience : W → Nat

namespace Words
variable {W : Type} [Words W]

def skip : Nat → W → W
  | 0, w => w
  | n + 1, w => skip n (next w).2

def word (n : Nat) (w : W) : UInt64 := (next (skip n w)).1

def accepts (w : W) (n : Nat) : Bool := (Heading.ofWord? (word n w)).isSome

theorem skip_add (a b : Nat) (w : W) : skip (a + b) w = skip b (skip a w) := by
  induction a generalizing w with
  | zero => rw [Nat.zero_add]; rfl
  | succ a ih => rw [Nat.succ_add]; exact ih (next w).2

theorem word_add (a b : Nat) (w : W) : word (a + b) w = word b (skip a w) := by
  unfold word
  rw [skip_add]

end Words

def drawWithin {W : Type} [Words W] : Nat → W → Option (Heading × W)
  | 0, _ => none
  | n + 1, w =>
    let word := Words.next w
    match Heading.ofWord? word.1 with
    | some h => some (h,word.2)
    | none => drawWithin n word.2

theorem drawWithin_isSome {W : Type} [Words W] {n i : Nat} {w : W} (below : i < n) (accepted : Words.accepts w i) :
    (drawWithin n w).isSome := by
  induction n generalizing w i with
  | zero => exact absurd below (Nat.not_lt_zero i)
  | succ n ih =>
    cases head : Heading.ofWord? (Words.next w).1 with
    | some h => simp [drawWithin,head]
    | none =>
      cases i with
      | zero => simp [Words.accepts,Words.word,Words.skip,head] at accepted
      | succ i => simpa [drawWithin,head] using ih (Nat.lt_of_succ_lt_succ below) accepted

-- A source that accepts none of as many words as it is patient for never will. Any words
-- allow of such a patience.
class WordSource (W : Type) extends Words W where
  honest : ∀ (w : W) n, Words.accepts w n → (drawWithin (patience w) w).isSome

def draw? {W : Type} [WordSource W] (w : W) : Option (Heading × W) := drawWithin (Words.patience w) w

end Funge

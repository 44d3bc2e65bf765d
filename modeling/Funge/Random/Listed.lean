import Funge.Random.Draw

namespace Funge

-- Given words first, then zeros for ever. Zero is accepted.
structure Listed where
  words : List UInt64

namespace Listed

def next (w : Listed) : UInt64 × Listed := (w.words.headD 0,⟨w.words.tail⟩)

instance : Words Listed where
  next := next
  patience w := w.words.length + 1

theorem skip_words (n : Nat) (w : Listed) : Words.skip n w = ⟨w.words.drop n⟩ := by
  induction n generalizing w with
  | zero => rfl
  | succ n ih =>
    rw [Words.skip,ih]
    simp [Words.next,next,List.drop_tail]

theorem draws (w : Listed) : (drawWithin (Words.patience w) w).isSome := by
  have zeros : Words.accepts w w.words.length := by
    unfold Words.accepts Words.word
    rw [skip_words,List.drop_length]
    decide
  exact drawWithin_isSome (Nat.lt_succ_self w.words.length) zeros

instance : WordSource Listed where
  honest w _ _ := w.draws

end Listed
end Funge

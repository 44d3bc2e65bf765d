import Funge.Proofs.Effects
import Funge.Proofs.Halting
import Funge.Proofs.PlayfieldHistory

namespace Funge.Machine
variable {W : Type} [WordSource W] {m : Standard W} {p : Position}

-- Coordinates lie on top, x below y, and the value to store is the third operand.
def Puts (m : Standard W) (p : Position) : Prop := m.Executes .put ∧ p = ⟨m.operand 1,m.operand 0⟩

def Gets (m : Standard W) (p : Position) : Prop := m.Executes .get ∧ p = ⟨m.operand 1,m.operand 0⟩

instance (m : Standard W) (p : Position) : Decidable (m.Puts p) := inferInstanceAs (Decidable (_ ∧ _))
instance (m : Standard W) (p : Position) : Decidable (m.Gets p) := inferInstanceAs (Decidable (_ ∧ _))

abbrev read (m : Standard W) (p : Position) : Char := m.store.playfield.get p

theorem read_put (puts : m.Puts p) : m.step.2.read p = glyph (m.operand 2) := by
  obtain ⟨executes,rfl⟩ := puts
  simp [read,step_playfield,executes,target_operands,Playfield.get_set]

theorem read_other (other : ¬ m.Puts p) : m.step.2.read p = m.read p := by
  by_cases executes : m.Executes .put
  · have away : p ≠ ⟨m.operand 1,m.operand 0⟩ := fun same => other ⟨executes,same⟩
    simp [read,step_playfield,executes,target_operands,Playfield.get_set,away]
  · simp [read,step_playfield,executes]

theorem read_untouched {n : Nat} (untouched : ∀ k < n, ¬ (after k m).Puts p) : (after n m).read p = m.read p := by
  induction n with
  | zero => rfl
  | succ n ih =>
    rw [after_succ,read_other (untouched n (Nat.lt_succ_self n))]
    exact ih fun k below => untouched k (Nat.lt_succ_of_lt below)

theorem read_last_put {n k : Nat} (before : k < n) (puts : (after k m).Puts p)
    (last : ∀ j < n, k < j → ¬ (after j m).Puts p) : (after n m).read p = glyph ((after k m).operand 2) := by
  -- The run is cut behind the last put: from there on nothing is stored at p.
  obtain ⟨more,rfl⟩ := Nat.exists_eq_add_of_le (Nat.succ_le_of_lt before)
  have untouched : ∀ j < more, ¬ (after j (after (k + 1) m)).Puts p := by
    intro j below
    rw [← after_add]
    exact last _ (by omega) (by omega)
  rw [after_add,read_untouched untouched,after_succ,read_put puts]

theorem read_load (m : Standard W) (program : String) (p : Position) :
    (m.load program).read p =
      if Playfield.Near p then (charAt? (Text.rows program.toList) p).getD ' ' else ' ' :=
  Playfield.get_ofRows _ p

theorem code_getD (shown : Option Char) : code (shown.getD ' ') = (shown.map code).getD 32 := by
  cases shown <;> rfl

theorem step_get (gets : m.Gets p) : m.step.2.stack.values = code (m.read p) :: m.stack.values.drop 2 := by
  obtain ⟨executes,rfl⟩ := gets
  rw [step_performs executes (by decide),← target_operands]
  show code (m.read m.target) :: m.stack.values.tail.tail = _
  rw [← List.drop_one,← List.drop_one,List.drop_drop]

-- What a get brings back was decided by the last put at the same position since the program
-- was loaded, or by the text of the program if there was none.
theorem gets_last_put (m : Standard W) (program : String) :
    (∀ n p, (m.stage program n).Gets p →
      ∃ v, (m.stage program (n + 1)).stack.values = v :: (m.stage program n).stack.values.drop 2 ∧
        (∀ k < n, (m.stage program k).Puts p → (∀ j < n, k < j → ¬ (m.stage program j).Puts p) →
          v = if Scalar ((m.stage program k).operand 2) then (m.stage program k).operand 2 else 0xFFFD) ∧
        ((∀ k < n, ¬ (m.stage program k).Puts p) →
          v = if Playfield.Near p then ((charAt? (Text.rows program.toList) p).map code).getD 32 else 32)) ∧
    ∀ n p q, (m.stage program n).Puts p → q ≠ p → (m.stage program (n + 1)).read q = (m.stage program n).read q := by
  refine ⟨?_,?_⟩
  · intro n p gets
    refine ⟨code ((m.stage program n).read p),?_,?_,?_⟩
    · unfold stage
      rw [after_succ]
      exact step_get gets
    · intro k before puts last
      rw [stage,read_last_put before puts last,code_glyph]
      rfl
    · intro untouched
      rw [stage,read_untouched untouched,read_load]
      by_cases near : Playfield.Near p
      · rw [if_pos near,if_pos near]
        exact code_getD _
      · rw [if_neg near,if_neg near]
        rfl
  · intro n p q puts other
    have elsewhere : ¬ (m.stage program n).Puts q := fun also => other (also.2.trans puts.2.symm)
    unfold stage
    rw [after_succ]
    exact read_other elsewhere

theorem gets_last_put_remote :
    let m := Standard.fresh (Listed.mk [])
    let program := "01-01-0p01-0g@"
    (m.stage program 7).Puts ⟨-1,0⟩ ∧ (m.stage program 12).Gets ⟨-1,0⟩ ∧
      (m.stage program 13).stack.values = [0xFFFD] := by
  intro m program
  have puts : (m.stage program 7).Puts ⟨-1,0⟩ := by decide +kernel
  have gets : (m.stage program 12).Gets ⟨-1,0⟩ := by decide +kernel
  refine ⟨puts,gets,?_⟩
  obtain ⟨v,values,last,_⟩ := (gets_last_put m program).1 12 ⟨-1,0⟩ gets
  rw [values,last 7 (by decide) puts (by decide +kernel)]
  decide +kernel

end Funge.Machine

import Funge.Proofs.Arithmetic
import Funge.Proofs.StraightLine

namespace Funge

inductive Expression where
  | digit (value : Fin 10)
  | operate (op : Operator) (left right : Expression)
  | greater (left right : Expression)
  | negate (operand : Expression)
  deriving DecidableEq

namespace Expression

def instructions : Expression → List Instruction
  | .digit d => [.digit d]
  | .operate op a b => a.instructions ++ b.instructions ++ [.operate op]
  | .greater a b => a.instructions ++ b.instructions ++ [.greater]
  | .negate a => a.instructions ++ [.negate]

def text (e : Expression) : List Char := e.instructions.map Instruction.mark

-- Arithmetic on integers, each result reduced to the range of 64 bits in two's complement.
def worth : Expression → Int
  | .digit d => d.val
  | .operate op a b => (op.ideal a.worth b.worth).bmod Int64.size
  | .greater a b => if a.worth > b.worth then 1 else 0
  | .negate a => if a.worth = 0 then 1 else 0

def number (e : Expression) : Number := .ofInt e.worth

theorem worth_reduced (e : Expression) : e.worth.bmod Int64.size = e.worth := by
  have size : Int64.size = 18446744073709551616 := rfl
  cases e with
  | digit d => exact Int.bmod_eq_of_le (by simp only [worth]; omega) (by simp only [worth]; omega)
  | operate op a b => exact Int.bmod_bmod
  | greater a b =>
    unfold worth
    split <;> rfl
  | negate a =>
    unfold worth
    split <;> rfl

theorem toInt_number (e : Expression) : e.number.toInt = e.worth := Int64.toInt_ofInt.trans e.worth_reduced

theorem number_operate (op : Operator) (a b : Expression) :
    op.apply a.number b.number = (operate op a b).number := by
  rw [← Int64.toInt_inj,op.toInt_apply,toInt_number,toInt_number,toInt_number]
  rfl

theorem number_greater (a b : Expression) :
    Number.flag (decide (a.number > b.number)) = (greater a b).number := by
  rw [← Int64.toInt_inj,Number.toInt_flag,toInt_number,worth]
  simp only [decide_eq_true_eq,gt_iff_lt,Int64.lt_iff_toInt_lt,toInt_number]

theorem number_negate (a : Expression) : Number.flag (decide (a.number = 0)) = (negate a).number := by
  rw [← Int64.toInt_inj,Number.toInt_flag,toInt_number,worth]
  simp only [decide_eq_true_eq,number_zero,toInt_number]

theorem instructions_straight (e : Expression) : ∀ i ∈ e.instructions, i.straight ∧ i ≠ .quote ∧ i ≠ .stop := by
  induction e with
  | digit d => simp [instructions,Instruction.straight]
  | operate op a b iha ihb | greater a b iha ihb =>
    simp only [instructions,List.forall_mem_append]
    exact ⟨⟨iha,ihb⟩,by simp [Instruction.straight]⟩
  | negate a ih =>
    simp only [instructions,List.forall_mem_append]
    exact ⟨ih,by simp [Instruction.straight]⟩

theorem text_straight (e : Expression) : Straight .command e.text := straight_marks e.instructions_straight

def written (e : Expression) : List Char := (e.instructions ++ [Instruction.writeNumber]).map Instruction.mark

theorem written_text (e : Expression) : e.written = e.text ++ ['.'] := List.map_append

theorem written_single (e : Expression) : '\n' ∉ e.written := marks_single _

theorem written_straight (e : Expression) : Straight .command e.written := by
  apply straight_marks
  rw [List.forall_mem_append]
  exact ⟨e.instructions_straight,by simp [Instruction.straight]⟩

end Expression

namespace Machine
variable {W : Type} [WordSource W] {m : Standard W}

theorem foldl_expression (command : m.mode = .command) (e : Expression) :
    e.text.foldl pass m = m.holding (m.stack.push e.number) := by
  induction e generalizing m with
  | digit d =>
    have value : Int64.ofNat d.val = (Expression.digit d).number := Int64.ofInt_eq_ofNat.symm
    rw [← value]
    exact pass_mark command _
  | operate op a b iha ihb =>
    have parts : (Expression.operate op a b).text = a.text ++ b.text ++ [(Instruction.operate op).mark] := by
      simp [Expression.text,Expression.instructions]
    rw [parts,List.foldl_append,List.foldl_append,iha command,ihb (holding_mode command _),
      ← Expression.number_operate]
    exact pass_mark (holding_mode (holding_mode command _) _) _
  | greater a b iha ihb =>
    have parts : (Expression.greater a b).text = a.text ++ b.text ++ [Instruction.greater.mark] := by
      simp [Expression.text,Expression.instructions]
    rw [parts,List.foldl_append,List.foldl_append,iha command,ihb (holding_mode command _),
      ← Expression.number_greater]
    exact pass_mark (holding_mode (holding_mode command _) _) _
  | negate a ih =>
    have parts : (Expression.negate a).text = a.text ++ [Instruction.negate.mark] := by
      simp [Expression.text,Expression.instructions]
    rw [parts,List.foldl_append,ih command,← Expression.number_negate]
    exact pass_mark (holding_mode command _) _

theorem foldl_written (command : m.mode = .command) (e : Expression) :
    e.written.foldl pass m = (m.holding (m.stack.push e.number)).write Number.decimal := by
  rw [Expression.written_text,List.foldl_append,foldl_expression command]
  exact pass_mark (holding_mode command _) .writeNumber

-- An expression written behind its operands is worth on the stack what it is worth in
-- arithmetic, wherever its text stands and whatever the machine holds.
theorem expression_computed (W : Type) [WordSource W] (e : Expression) :
    e.number.toInt = e.worth ∧
    (∀ m : Standard W, m.mode = .command → m.Faces e.text →
      after e.text.length m = (m.carried e.text.length).holding (m.stack.push e.number)) ∧
    (e.text.length + 2 ≤ 65536 → ∀ m : Standard W,
      let program := String.ofList (e.text ++ ['.','@'])
      (m.load program).HaltsAt (e.text.length + 1) ∧
      ∀ limit : UInt64, e.text.length + 1 ≤ limit.toNat →
        let ran := m.runWithin program limit
        ran.1 = some (.ok (.ofNat (e.text.length + 1))) ∧ ran.2.stack = .empty ∧
          ran.2.output = m.output ++ Int.repr e.worth) := by
  refine ⟨e.toInt_number,?_,?_⟩
  · intro m command faces
    have straight : Straight m.mode e.text := by
      rw [command]
      exact e.text_straight
    rw [(after_straight faces straight).2,foldl_expression command]
    rfl
  · intro short m program
    have length : e.written.length = e.text.length + 1 := by simp [Expression.written_text]
    have whole : program = .ofList (e.written ++ ['@']) := by simp [program,Expression.written_text]
    obtain ⟨halts,ran⟩ := m.runWithin_straight e.written_single (by rw [length]; exact short) e.written_straight
    rw [← whole,length] at halts ran
    refine ⟨halts,?_⟩
    intro limit within
    rw [ran limit within,foldl_written rfl]
    refine ⟨rfl,rfl,?_⟩
    show m.output ++ Number.decimal e.number = _
    rw [Number.decimal,e.toInt_number]

theorem expression_computed_negative :
    let e := Expression.operate .divide (.operate .subtract (.digit 0) (.digit 7)) (.digit 2)
    let m := Standard.fresh (Listed.mk [])
    e.text = "07-2/".toList ∧ (m.stage "907-2/" 1).stack.values = [9] ∧
      (after 5 (m.stage "907-2/" 1)).stack.values = [-3,9] ∧ (m.runWithin "07-2/.@" 6).2.output = "-3" := by
  intro e m
  obtain ⟨_,computes,prints⟩ := expression_computed Listed e
  have faces : (m.stage "907-2/" 1).Faces e.text := by
    unfold Faces
    decide +kernel
  refine ⟨rfl,by decide +kernel,?_,?_⟩
  · rw [show 5 = e.text.length from rfl,computes _ (by decide +kernel) faces]
    decide +kernel
  · exact ((prints (by decide) m).2 6 (by decide)).2.2

end Machine
end Funge

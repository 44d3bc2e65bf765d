import Funge.Proofs.Execution
import Funge.Proofs.Halting

namespace Funge

def Printout.behind (o : Printout) (earlier : String) : Printout := ⟨earlier ++ o.text⟩

theorem Printout.print_behind (o : Printout) (earlier piece : String) :
    (o.behind earlier).print piece = (o.print piece).behind earlier := by
  simp [behind,print,String.append_assoc]

namespace Machine
variable {W : Type}

def behind (m : Standard W) (earlier : String) : Standard W :=
  { m with store := { m.store with printout := m.store.printout.behind earlier } }

theorem write_behind (m : Standard W) (earlier : String) (text : Number → String) :
    (m.behind earlier).write text = (m.write text).behind earlier := by
  have printed := m.store.printout.print_behind earlier (text (StackUnit.pop m.stack).1)
  exact congrArg (fun o => { m.write text with store := { m.store with printout := o } }) printed

variable [WordSource W]

theorem perform_behind (m : Standard W) (earlier : String) (i : Instruction) :
    (m.behind earlier).perform i = (m.perform i).behind earlier := by
  cases i with
  | writeNumber => exact m.write_behind earlier Number.decimal
  | writeGlyph => exact m.write_behind earlier fun v => .singleton (glyph v)
  | _ => rfl

theorem execute_behind {m s : Standard W} {i : Instruction} (executed : m.execute i = some s) (earlier : String) :
    (m.behind earlier).execute i = some (s.behind earlier) := by
  rcases execute_some.mp executed with ⟨plain,rfl⟩ | ⟨wanders,p,found,rfl⟩
  · rw [execute_plain _ plain,perform_behind]
  · exact execute_some.mpr (.inr ⟨wanders,p,found,rfl⟩)

theorem step_behind (m : Standard W) (earlier : String) :
    (m.behind earlier).step = (m.step.1,m.step.2.behind earlier) := by
  rcases m.step_cases with ⟨halted,rest⟩ | ⟨spells,spelt⟩ | ⟨i,s,executes,executed,stepped⟩ | ⟨wanders,endless,strayed⟩
  · rw [rest]
    exact step_halted (m.behind earlier) halted
  · have spells : (m.behind earlier).Spells := spells
    rw [spelt]
    exact step_spells spells
  · have executes : (m.behind earlier).Executes i := executes
    rw [stepped,step_executes executes (execute_behind executed earlier)]
    rfl
  · have wanders : (m.behind earlier).Executes .wander := wanders
    rw [strayed]
    exact step_strays wanders endless

theorem after_behind (n : Nat) (m : Standard W) (earlier : String) :
    after n (m.behind earlier) = (after n m).behind earlier := by
  induction n generalizing m with
  | zero => rfl
  | succ n ih =>
    rw [after,step_behind]
    exact ih m.step.2

theorem load_fresh (m : Standard W) (program : String) :
    m.load program = ((Standard.fresh m.pointer.source).load program).behind m.output := by
  have kept : Printout.empty.behind m.output = m.store.printout := by
    simp [Printout.behind,Printout.empty,output,StoreUnit.output]
  unfold behind
  show _ = { m.load program with store := { (m.load program).store with printout := Printout.empty.behind m.output } }
  rw [kept]
  rfl

theorem stage_fresh (m : Standard W) (program : String) (n : Nat) :
    m.stage program n = ((Standard.fresh m.pointer.source).stage program n).behind m.output := by
  unfold stage
  rw [load_fresh,after_behind]

-- Whatever a machine has done before, it runs a program as a new one would, from the same
-- place in the source of chance on, and writes the same behind what it wrote.
theorem runWithin_afresh (m : Standard W) (program : String) (limit : UInt64) :
    let again := m.runWithin program limit
    let first := (Standard.fresh m.pointer.source).runWithin program limit
    again.1 = first.1 ∧ again.2.stack = first.2.stack ∧ again.2.position = first.2.position ∧
      again.2.heading = first.2.heading ∧ again.2.mode = first.2.mode ∧ again.2.steps = first.2.steps ∧
      again.2.store.playfield = first.2.store.playfield ∧ again.2.pointer.source = first.2.pointer.source ∧
      again.2.output = m.output ++ first.2.output := by
  have ran : m.runWithin program limit =
      (((Standard.fresh m.pointer.source).runWithin program limit).1,
        ((Standard.fresh m.pointer.source).runWithin program limit).2.behind m.output) := by
    rw [runWithin_stage,runWithin_stage,stage_fresh m]
    rfl
  rw [ran]
  exact ⟨rfl,rfl,rfl,rfl,rfl,rfl,rfl,rfl,rfl⟩

end Machine
end Funge

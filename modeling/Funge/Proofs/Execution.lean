import Funge.Machine

namespace Funge.Machine
variable {A P S : Type} [StackUnit A] [PointerUnit P] [StoreUnit S]

-- Any instruction outside quotes, and between them only the quote that ends them.
def Executes (m : Machine A P S) (i : Instruction) : Prop :=
  ¬ m.Halted ∧ (m.mode = .command ∨ i = .quote) ∧ Instruction.decode m.cell = i

def Spells (m : Machine A P S) : Prop :=
  ¬ m.Halted ∧ m.mode = .quoted ∧ Instruction.decode m.cell ≠ .quote

instance (m : Machine A P S) (i : Instruction) : Decidable (m.Executes i) := inferInstanceAs (Decidable (_ ∧ _))
instance (m : Machine A P S) : Decidable m.Spells := inferInstanceAs (Decidable (_ ∧ _))

def spell (m : Machine A P S) : Machine A P S := { m with stack := StackUnit.push m.stack (code m.cell) }

def target (m : Machine A P S) : Position :=
  ⟨(StackUnit.pop (StackUnit.pop m.stack).2).1,(StackUnit.pop m.stack).1⟩

def skipped (m : Machine A P S) : Position :=
  PointerUnit.position (PointerUnit.bridge m.pointer (StoreUnit.extents m.store))

theorem dispatch_quoted {m : Machine A P S} {c : Char} (quoted : m.mode = .quoted)
    (other : Instruction.decode c ≠ .quote) :
    m.dispatch c = some { m with stack := StackUnit.push m.stack (code c) } := by
  unfold dispatch
  split
  · rename_i quote
    exact absurd quote other
  · rfl
  · rename_i command
    rw [quoted] at command
    cases command

theorem dispatch_heeded {m : Machine A P S} {c : Char} {i : Instruction} (heeded : m.mode = .command ∨ i = .quote)
    (decoded : Instruction.decode c = i) : m.dispatch c = m.execute i := by
  subst decoded
  unfold dispatch
  rcases heeded with command | quote
  · rw [command]
  · rw [quote]
    cases m.mode <;> rfl

theorem dispatch_spells {m : Machine A P S} (spells : m.Spells) : m.dispatch m.cell = some m.spell :=
  dispatch_quoted spells.2.1 spells.2.2

theorem dispatch_executes {m : Machine A P S} {i : Instruction} (executes : m.Executes i) :
    m.dispatch m.cell = m.execute i := dispatch_heeded executes.2.1 executes.2.2

theorem execute_plain (m : Machine A P S) {i : Instruction} (plain : i ≠ .wander) :
    m.execute i = some (m.perform i) := execute_some.mpr (.inl ⟨plain,rfl⟩)

theorem step_spells {m : Machine A P S} (spells : m.Spells) : m.step = (.moved,m.spell.proceed) :=
  step_moved spells.1 (dispatch_spells spells)

theorem step_executes {m s : Machine A P S} {i : Instruction} (executes : m.Executes i) (executed : m.execute i = some s) :
    m.step = (.moved,s.proceed) :=
  step_moved executes.1 ((dispatch_executes executes).trans executed)

theorem step_performs {m : Machine A P S} {i : Instruction} (executes : m.Executes i) (plain : i ≠ .wander) :
    m.step = (.moved,(m.perform i).proceed) := step_executes executes (m.execute_plain plain)

theorem step_wanders {m : Machine A P S} {p : P} (wanders : m.Executes .wander)
    (found : PointerUnit.wander m.pointer = some p) : m.step = (.moved,(m.withPointer p).proceed) :=
  step_executes wanders (execute_some.mpr (.inr ⟨rfl,p,found,rfl⟩))

theorem step_strays {m : Machine A P S} (wanders : m.Executes .wander) (endless : PointerUnit.wander m.pointer = none) :
    m.step = (.lost,m) := by
  apply step_lost wanders.1
  rw [dispatch_executes wanders,execute,endless]
  rfl

-- Rest, a character spelt, a command carried out, or a wandering without end: nothing else
-- can come of a step.
theorem step_cases (m : Machine A P S) :
    (m.Halted ∧ m.step = (.halted,m)) ∨ (m.Spells ∧ m.step = (.moved,m.spell.proceed)) ∨
      (∃ i s, m.Executes i ∧ m.execute i = some s ∧ m.step = (.moved,s.proceed)) ∨
      (m.Executes .wander ∧ PointerUnit.wander m.pointer = none ∧ m.step = (.lost,m)) := by
  by_cases halted : m.Halted
  · exact .inl ⟨halted,step_halted m halted⟩
  · by_cases spells : m.Spells
    · exact .inr (.inl ⟨spells,step_spells spells⟩)
    · have executes : m.Executes (Instruction.decode m.cell) := by
        refine ⟨halted,?_,rfl⟩
        cases mode : m.mode with
        | command => exact .inl rfl
        | quoted => exact .inr (Decidable.not_not.mp fun other => spells ⟨halted,mode,other⟩)
      cases executed : m.execute (Instruction.decode m.cell) with
      | some s => exact .inr (.inr (.inl ⟨_,s,executes,executed,step_executes executes executed⟩))
      | none =>
        have wanders : Instruction.decode m.cell = .wander := by
          apply Decidable.not_not.mp
          intro plain
          rw [m.execute_plain plain] at executed
          cases executed
        rw [wanders] at executes executed
        have endless := Option.map_eq_none_iff.mp executed
        exact .inr (.inr (.inr ⟨executes,endless,step_strays executes endless⟩))

theorem moved_cases {m : Machine A P S} (moved : m.step.1 = .moved) :
    (m.Spells ∧ m.step = (.moved,m.spell.proceed)) ∨
      ∃ i s, m.Executes i ∧ m.execute i = some s ∧ m.step = (.moved,s.proceed) := by
  rcases m.step_cases with ⟨_,rest⟩ | spelling | execution | ⟨_,_,strayed⟩
  · rw [rest] at moved
    cases moved
  · exact .inl spelling
  · exact .inr execution
  · rw [strayed] at moved
    cases moved

theorem lost_exact {m : Machine A P S} : m.Lost ↔ m.Executes .wander ∧ PointerUnit.wander m.pointer = none := by
  constructor
  · intro lost
    unfold Lost at lost
    rcases m.step_cases with ⟨_,stepped⟩ | ⟨_,stepped⟩ | ⟨_,_,_,_,stepped⟩ | ⟨wanders,endless,_⟩
    · rw [stepped] at lost
      cases lost
    · rw [stepped] at lost
      cases lost
    · rw [stepped] at lost
      cases lost
    · exact ⟨wanders,endless⟩
  · rintro ⟨wanders,endless⟩
    exact congrArg Prod.fst (step_strays wanders endless)

theorem execute_view {X : Type} {m s : Machine A P S} {i : Instruction} (view : Machine A P S → X)
    (executed : m.execute i = some s) (performed : i ≠ .wander → view (m.perform i) = view m)
    (led : ∀ p, PointerUnit.wander m.pointer = some p → view (m.withPointer p) = view m) : view s = view m := by
  rcases execute_some.mp executed with ⟨plain,rfl⟩ | ⟨_,p,found,rfl⟩
  · exact performed plain
  · exact led p found

end Funge.Machine

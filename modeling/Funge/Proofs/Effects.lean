import Funge.Proofs.Execution

namespace Funge.Machine

section Kinds
variable {A P S : Type} [PointerUnit P] [StoreUnit S] {m : Machine A P S} {i j : Instruction}

theorem Executes.running (executes : m.Executes i) : ¬ m.Halted := executes.1

theorem Executes.unique (one : m.Executes i) (two : m.Executes j) : i = j := one.2.2.symm.trans two.2.2

theorem Spells.silent (spells : m.Spells) : ¬ m.Executes i := by
  rintro ⟨_,heeded,rfl⟩
  obtain ⟨_,quoted,other⟩ := spells
  rcases heeded with command | quote
  · simp [quoted] at command
  · exact other quote

-- What a single instruction can change is changed by its execution alone.
theorem step_only [StackUnit A] {X : Type} (view : Machine A P S → X) (plain : i ≠ .wander)
    (onward : ∀ s : Machine A P S, view s.proceed = view s) (spelt : view m.spell = view m)
    (others : ∀ j, j ≠ i → view (m.perform j) = view m) (led : ∀ p, view (m.withPointer p) = view m) :
    view m.step.2 = if m.Executes i then view (m.perform i) else view m := by
  rcases m.step_cases with ⟨halted,rest⟩ | ⟨spells,spelling⟩ | ⟨j,s,executes,executed,stepped⟩ | ⟨wanders,_,strayed⟩
  · rw [rest,if_neg fun execution => execution.running halted]
  · rw [spelling,if_neg spells.silent,onward]
    exact spelt
  · rw [stepped,onward]
    by_cases same : j = i
    · subst same
      rw [m.execute_plain plain] at executed
      rw [if_pos executes,Option.some.inj executed]
    · rw [if_neg fun execution => same (executes.unique execution)]
      exact execute_view view executed (fun _ => others j same) fun p _ => led p
  · rw [strayed,if_neg fun execution => plain (execution.unique wanders)]

end Kinds

variable {W : Type}

def operand (m : Standard W) (i : Nat) : Number := m.stack.values.getD i 0

theorem pop_operands (m : Standard W) :
    (StackUnit.pop m.stack).1 = m.operand 0 ∧
      (StackUnit.pop (StackUnit.pop m.stack).2).1 = m.operand 1 ∧
      (StackUnit.pop (StackUnit.pop (StackUnit.pop m.stack).2).2).1 = m.operand 2 := by
  unfold operand
  rcases m.stack with ⟨_ | ⟨y,_ | ⟨x,_ | ⟨v,rest⟩⟩⟩⟩ <;> exact ⟨rfl,rfl,rfl⟩

theorem target_operands (m : Standard W) : m.target = ⟨m.operand 1,m.operand 0⟩ := by
  obtain ⟨y,x,_⟩ := pop_operands m
  rw [target,y,x]

theorem put_playfield (m : Standard W) :
    m.put.store.playfield = m.store.playfield.set m.target (glyph (m.operand 2)) := by
  obtain ⟨_,_,v⟩ := pop_operands m
  rw [← v]
  rfl

variable [WordSource W] {m : Standard W}

theorem perform_playfield (m : Standard W) {i : Instruction} (other : i ≠ .put) :
    (m.perform i).store.playfield = m.store.playfield := by
  cases i with
  | put => exact absurd rfl other
  | _ => rfl

theorem wander_some {p q : Pointer W} : p.wander = some q ↔
    ∃ drawn, draw? p.source = some drawn ∧ { p with heading := drawn.1, source := drawn.2 } = q :=
  Option.map_eq_some_iff

theorem wander_none {p : Pointer W} : p.wander = none ↔ draw? p.source = none := Option.map_eq_none_iff

theorem wander_position {p q : Pointer W} (led : p.wander = some q) : q.position = p.position := by
  obtain ⟨drawn,_,rfl⟩ := wander_some.mp led
  rfl

theorem execute_position {m s : Standard W} {i : Instruction} (executed : m.execute i = some s) (other : i ≠ .bridge) :
    s.position = m.position := by
  apply execute_view position executed
  · intro _
    cases i with
    | bridge => exact absurd rfl other
    | _ => rfl
  · exact fun p led => wander_position led

theorem perform_source (m : Standard W) (i : Instruction) : (m.perform i).pointer.source = m.pointer.source := by
  cases i <;> rfl

theorem step_playfield (m : Standard W) :
    m.step.2.store.playfield =
      if m.Executes .put then m.store.playfield.set m.target (glyph (m.operand 2)) else m.store.playfield := by
  rw [← put_playfield]
  exact step_only (m := m) (fun s => s.store.playfield) (by decide) (fun _ => rfl) rfl
    (fun _ other => perform_playfield m other) fun _ => rfl

theorem step_writes {K : Playfield → Prop} (set : ∀ f p c, K f → K (f.set p c)) (kept : K m.store.playfield) :
    K m.step.2.store.playfield := by
  rw [step_playfield]
  split
  · exact set _ _ _ kept
  · exact kept

end Funge.Machine

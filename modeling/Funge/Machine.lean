import Funge.Instruction
import Funge.Pointer
import Funge.Stack
import Funge.Store

namespace Funge

inductive Mode where
  | command
  | quoted
  deriving DecidableEq

def Mode.toggle : Mode → Mode
  | .command => .quoted
  | .quoted => .command

-- A machine is lost once a wandering of its pointer never comes to an end.
inductive Progress where
  | moved
  | halted
  | lost
  deriving DecidableEq

structure BudgetSpent where
  limit : UInt64
  position : Position
  deriving DecidableEq

def BudgetSpent.message (e : BudgetSpent) : String :=
  "Step limit of " ++ Nat.repr e.limit.toNat ++ " exceeded without halting, pointer at " ++ e.position.text

structure Machine (A P S : Type) where
  stack : A
  pointer : P
  store : S
  mode : Mode
  steps : UInt64

namespace Machine
variable {A P S : Type}

def assemble (stack : A) (pointer : P) (store : S) : Machine A P S := ⟨stack,pointer,store,.command,0⟩

variable [StackUnit A] [PointerUnit P] [StoreUnit S]

def position (m : Machine A P S) : Position := PointerUnit.position m.pointer

def heading (m : Machine A P S) : Heading := PointerUnit.heading m.pointer

def output (m : Machine A P S) : String := StoreUnit.output m.store

def cell (m : Machine A P S) : Char := StoreUnit.cell m.store m.position

-- The mark of the end is heeded in either mode, also between quotes.
abbrev Halted (m : Machine A P S) : Prop := m.cell = '@'

def put (m : Machine A P S) : Machine A P S :=
  let y := StackUnit.pop m.stack
  let x := StackUnit.pop y.2
  let v := StackUnit.pop x.2
  { m with stack := v.2, store := StoreUnit.set m.store ⟨x.1,y.1⟩ (glyph v.1) }

def get (m : Machine A P S) : Machine A P S :=
  let y := StackUnit.pop m.stack
  let x := StackUnit.pop y.2
  { m with stack := StackUnit.push x.2 (code (StoreUnit.cell m.store ⟨x.1,y.1⟩)) }

def write (m : Machine A P S) (text : Number → String) : Machine A P S :=
  let v := StackUnit.pop m.stack
  { m with stack := v.2, store := StoreUnit.write m.store (text v.1) }

def branch (m : Machine A P S) (choose : P → Number → P) : Machine A P S :=
  let v := StackUnit.pop m.stack
  { m with stack := v.2, pointer := choose m.pointer v.1 }

def withPointer (m : Machine A P S) (pointer : P) : Machine A P S := { m with pointer }

-- What a command does, chance and the move aside. A machine on a stop is halted and executes
-- it no more.
def perform (m : Machine A P S) : Instruction → Machine A P S
  | .digit d => { m with stack := StackUnit.digit d m.stack }
  | .operate op => { m with stack := StackUnit.operate op m.stack }
  | .greater => { m with stack := StackUnit.greater m.stack }
  | .negate => { m with stack := StackUnit.negate m.stack }
  | .duplicate => { m with stack := StackUnit.duplicate m.stack }
  | .swap => { m with stack := StackUnit.swap m.stack }
  | .discard => { m with stack := (StackUnit.pop m.stack).2 }
  | .turn h => { m with pointer := PointerUnit.turn m.pointer h }
  | .horizontalIf => m.branch PointerUnit.horizontalIf
  | .verticalIf => m.branch PointerUnit.verticalIf
  | .bridge => { m with pointer := PointerUnit.bridge m.pointer (StoreUnit.extents m.store) }
  | .writeNumber => m.write Number.decimal
  | .writeGlyph => m.write fun v => .singleton (glyph v)
  | .quote => { m with mode := m.mode.toggle }
  | .put => m.put
  | .get => m.get
  | .wander | .stop | .blank => m

@[inline]
def execute (m : Machine A P S) : Instruction → Option (Machine A P S)
  | .wander => (PointerUnit.wander m.pointer).map m.withPointer
  | i => some (m.perform i)

@[inline]
def dispatch (m : Machine A P S) (c : Char) : Option (Machine A P S) :=
  match m.mode, Instruction.decode c with
  | .quoted, .quote => m.execute .quote
  | .quoted, _ => some { m with stack := StackUnit.push m.stack (code c) }
  | .command, i => m.execute i

-- The move is made by the heading and the extents that the command has just left behind.
def proceed (m : Machine A P S) : Machine A P S :=
  { m with pointer := PointerUnit.advance m.pointer (StoreUnit.extents m.store), steps := m.steps + 1 }

def step (m : Machine A P S) : Progress × Machine A P S :=
  if m.Halted then (.halted,m)
  else
    match m.dispatch m.cell with
    | some dispatched => (.moved,dispatched.proceed)
    | none => (.lost,m)

abbrev Lost (m : Machine A P S) : Prop := m.step.1 = .lost

theorem step_halted (m : Machine A P S) (halted : m.Halted) : m.step = (.halted,m) := if_pos halted

theorem step_moved {m d : Machine A P S} (running : ¬ m.Halted) (dispatched : m.dispatch m.cell = some d) :
    m.step = (.moved,d.proceed) := by
  rw [step,if_neg running,dispatched]

theorem step_lost {m : Machine A P S} (running : ¬ m.Halted) (nothing : m.dispatch m.cell = none) :
    m.step = (.lost,m) := by
  rw [step,if_neg running,nothing]

theorem step_rest {m : Machine A P S} (rest : m.step.1 ≠ .moved) : m.step.2 = m := by
  unfold step at rest ⊢
  split
  · rfl
  · rename_i running
    rw [if_neg running] at rest
    split
    · rename_i dispatched
      rw [dispatched] at rest
      exact absurd rfl rest
    · rfl

theorem moved_iff {m : Machine A P S} : m.step.1 = .moved ↔ ¬ m.Halted ∧ ¬ m.Lost := by
  unfold Lost step
  split
  · rename_i halted
    exact iff_of_false nofun fun both => both.1 halted
  · rename_i running
    split
    · exact iff_of_true rfl ⟨running,nofun⟩
    · exact iff_of_false nofun fun both => both.2 rfl

theorem steps_below {limit steps : UInt64} (unspent : ¬ limit ≤ steps) : (steps + 1).toNat = steps.toNat + 1 := by
  rw [UInt64.le_iff_toNat_le] at unspent
  have bound := limit.toNat_lt
  have one : (1 : UInt64).toNat = 1 := rfl
  rw [UInt64.toNat_add,one]
  omega

theorem execute_some {m s : Machine A P S} {i : Instruction} : m.execute i = some s ↔
    (i ≠ .wander ∧ s = m.perform i) ∨ i = .wander ∧ ∃ p, PointerUnit.wander m.pointer = some p ∧ s = m.withPointer p := by
  by_cases wanders : i = .wander
  · subst wanders
    simp [execute,eq_comm (a := s)]
  · have performed : m.execute i = some (m.perform i) := by
      cases i with
      | wander => exact absurd rfl wanders
      | _ => rfl
    simp [performed,wanders,eq_comm]

theorem execute_steps {m s : Machine A P S} {i : Instruction} (executed : m.execute i = some s) : s.steps = m.steps := by
  rcases execute_some.mp executed with ⟨_,rfl⟩ | ⟨_,p,_,rfl⟩
  · cases i <;> rfl
  · rfl

theorem dispatch_steps {m s : Machine A P S} {c : Char} (dispatched : m.dispatch c = some s) : s.steps = m.steps := by
  unfold dispatch at dispatched
  split at dispatched
  · exact execute_steps dispatched
  · cases dispatched
    rfl
  · exact execute_steps dispatched

theorem step_steps {m : Machine A P S} (moved : m.step.1 = .moved) : m.step.2.steps = m.steps + 1 := by
  unfold step at moved ⊢
  split
  · rename_i halted
    rw [if_pos halted] at moved
    cases moved
  · rename_i running
    rw [if_neg running] at moved
    split
    · rename_i dispatched
      exact congrArg (· + 1) (dispatch_steps dispatched)
    · rename_i nothing
      rw [nothing] at moved
      cases moved

def after : Nat → Machine A P S → Machine A P S
  | 0, m => m
  | n + 1, m => after n m.step.2

theorem after_add (a b : Nat) (m : Machine A P S) : after (a + b) m = after b (after a m) := by
  induction a generalizing m with
  | zero => rw [Nat.zero_add]; rfl
  | succ a ih => rw [Nat.succ_add]; exact ih m.step.2

theorem after_rest (n : Nat) {m : Machine A P S} (rest : m.step.1 ≠ .moved) : after n m = m := by
  induction n with
  | zero => rfl
  | succ n ih => rw [after,step_rest rest]; exact ih

theorem Halted.rests {m : Machine A P S} (halted : m.Halted) : m.step.1 ≠ .moved := by
  rw [step_halted m halted]
  exact nofun

theorem Lost.running {m : Machine A P S} (lost : m.Lost) : ¬ m.Halted := by
  intro halted
  rw [Lost,step_halted m halted] at lost
  cases lost

theorem Lost.rests {m : Machine A P S} (lost : m.Lost) : m.step.1 ≠ .moved := by
  rw [lost]
  exact nofun

def drive : Nat → Machine A P S → Machine A P S
  | 0, m => m
  | n + 1, m =>
    match m.step with
    | (.moved,m) => drive n m
    | (_,m) => m

theorem drive_exact (n : Nat) (m : Machine A P S) : drive n m = after n m := by
  induction n generalizing m with
  | zero => rfl
  | succ n ih =>
    unfold drive
    split
    · rename_i stepped
      rw [ih,after,stepped]
    · rename_i progress next stays stepped
      have rest : m.step.1 ≠ .moved := by
        rw [stepped]
        exact stays
      rw [after_rest _ rest,← step_rest rest,stepped]

-- A new program keeps the text written so far and the place in the source of chance.
def load (m : Machine A P S) (program : String) : Machine A P S where
  stack := StackUnit.clear m.stack
  pointer := PointerUnit.home m.pointer
  store := StoreUnit.load m.store (Text.rows program.toList)
  mode := .command
  steps := 0

-- A halt is looked for first, so one that comes just at the end of the budget still counts.
def ending? (limit : UInt64) (m : Machine A P S) : Option (Except BudgetSpent UInt64) :=
  if m.Halted then some (.ok m.steps)
  else if limit ≤ m.steps then some (.error ⟨limit,m.position⟩)
  else none

omit [StackUnit A] in
theorem ending_none {limit : UInt64} {m : Machine A P S} (unended : m.ending? limit = none) :
    ¬ m.Halted ∧ ¬ limit ≤ m.steps := by
  unfold ending? at unended
  split at unended
  · cases unended
  · rename_i running
    split at unended
    · cases unended
    · rename_i unspent
      exact ⟨running,unspent⟩

-- The counter tells how much of a budget is spent; a lost machine has no result.
def spend (limit : UInt64) (m : Machine A P S) : Option (Except BudgetSpent UInt64) × Machine A P S :=
  match _unended : m.ending? limit with
  | some result => (some result,m)
  | none =>
    let stepped := m.step
    if stepped.1 = .moved then spend limit stepped.2 else (none,stepped.2)
termination_by limit.toNat - m.steps.toNat
decreasing_by
  rename_i moved
  have unspent := (ending_none _unended).2
  rw [step_steps moved,steps_below unspent]
  rw [UInt64.le_iff_toNat_le] at unspent
  omega

def runWithin (m : Machine A P S) (program : String) (limit : UInt64) :
    Option (Except BudgetSpent UInt64) × Machine A P S :=
  (m.load program).spend limit

-- Without a budget a run may go on for ever, so it is looked at after at most fuel steps.
def run? (m : Machine A P S) (program : String) (fuel : Nat) : Option (Machine A P S) :=
  let final := (m.load program).drive fuel
  if final.Halted then some final else none

end Machine

abbrev Standard (W : Type) := Machine Stack (Pointer W) Store

def Standard.fresh {W : Type} (source : W) : Standard W := .assemble .empty (.start source) .empty

end Funge

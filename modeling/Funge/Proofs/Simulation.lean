import Funge.Proofs.Execution
import Funge.Proofs.Halting
import Funge.Random.Listed
import Funge.Recording
import Funge.Session

namespace Funge
variable {A A' P P' S S' : Type}

-- Each operation keeps the relation, and no answer differs under it.
structure StackSimulation [StackUnit A] [StackUnit A'] (R : A → A' → Prop) : Prop where
  push : ∀ s s' v, R s s' → R (StackUnit.push s v) (StackUnit.push s' v)
  pop : ∀ s s', R s s' →
    (StackUnit.pop s).1 = (StackUnit.pop s').1 ∧ R (StackUnit.pop s).2 (StackUnit.pop s').2
  clear : ∀ s s', R s s' → R (StackUnit.clear s) (StackUnit.clear s')

-- Chance is left out here: two pointers may be alike in all but what they draw.
structure PointerFrame [PointerUnit P] [PointerUnit P'] (R : P → P' → Prop) : Prop where
  position : ∀ p p', R p p' → PointerUnit.position p = PointerUnit.position p'
  heading : ∀ p p', R p p' → PointerUnit.heading p = PointerUnit.heading p'
  turn : ∀ p p' h, R p p' → R (PointerUnit.turn p h) (PointerUnit.turn p' h)
  advance : ∀ p p' (e e' : Extents), R p p' → e.height = e'.height → (∀ y, e.width y = e'.width y) →
    R (PointerUnit.advance p e) (PointerUnit.advance p' e')
  home : ∀ p p', R p p' → R (PointerUnit.home p) (PointerUnit.home p')

structure PointerSimulation [PointerUnit P] [PointerUnit P'] (R : P → P' → Prop) : Prop extends
    PointerFrame R where
  wander : ∀ p p', R p p' → Option.Rel R (PointerUnit.wander p) (PointerUnit.wander p')

structure StoreFrame [StoreUnit S] [StoreUnit S'] (R : S → S' → Prop) : Prop where
  height : ∀ s s', R s s' → StoreUnit.height s = StoreUnit.height s'
  width : ∀ s s' y, R s s' → StoreUnit.width s y = StoreUnit.width s' y
  load : ∀ s s' rows, R s s' → R (StoreUnit.load s rows) (StoreUnit.load s' rows)
  set : ∀ s s' p c, R s s' → R (StoreUnit.set s p c) (StoreUnit.set s' p c)
  write : ∀ s s' piece, R s s' → R (StoreUnit.write s piece) (StoreUnit.write s' piece)
  output : ∀ s s', R s s' → StoreUnit.output s = StoreUnit.output s'

structure StoreSimulation [StoreUnit S] [StoreUnit S'] (R : S → S' → Prop) : Prop extends StoreFrame R where
  cell : ∀ s s' p, R s s' → StoreUnit.cell s p = StoreUnit.cell s' p

namespace StackSimulation
variable [StackUnit A] [StackUnit A'] {R : A → A' → Prop} {s : A} {s' : A'}

theorem combine (simulation : StackSimulation R) (f : Number → Number → Number) (related : R s s') :
    R (StackUnit.combine f s) (StackUnit.combine f s') := by
  obtain ⟨right,below⟩ := simulation.pop _ _ related
  obtain ⟨left,rest⟩ := simulation.pop _ _ below
  unfold StackUnit.combine
  dsimp only
  rw [right,left]
  exact simulation.push _ _ _ rest

theorem greater (simulation : StackSimulation R) (related : R s s') :
    R (StackUnit.greater s) (StackUnit.greater s') := simulation.combine _ related

theorem negate (simulation : StackSimulation R) (related : R s s') :
    R (StackUnit.negate s) (StackUnit.negate s') := by
  obtain ⟨top,rest⟩ := simulation.pop _ _ related
  unfold StackUnit.negate
  dsimp only
  rw [top]
  exact simulation.push _ _ _ rest

theorem duplicate (simulation : StackSimulation R) (related : R s s') :
    R (StackUnit.duplicate s) (StackUnit.duplicate s') := by
  obtain ⟨top,rest⟩ := simulation.pop _ _ related
  unfold StackUnit.duplicate
  dsimp only
  rw [top]
  exact simulation.push _ _ _ (simulation.push _ _ _ rest)

theorem swap (simulation : StackSimulation R) (related : R s s') :
    R (StackUnit.swap s) (StackUnit.swap s') := by
  obtain ⟨top,below⟩ := simulation.pop _ _ related
  obtain ⟨next,rest⟩ := simulation.pop _ _ below
  unfold StackUnit.swap
  dsimp only
  rw [top,next]
  exact simulation.push _ _ _ (simulation.push _ _ _ rest)

end StackSimulation

theorem StoreFrame.extents [StoreUnit S] [StoreUnit S'] {R : S → S' → Prop} {s : S} {s' : S'}
    (frame : StoreFrame R) (related : R s s') : StoreUnit.extents s = StoreUnit.extents s' := by
  unfold StoreUnit.extents
  rw [frame.height _ _ related]
  exact congrArg _ (funext fun y => frame.width _ _ y related)

theorem PointerFrame.move [PointerUnit P] [PointerUnit P'] {R : P → P' → Prop} {p : P} {p' : P'}
    (frame : PointerFrame R) (e : Extents) (related : R p p') :
    R (PointerUnit.advance p e) (PointerUnit.advance p' e) :=
  frame.advance _ _ _ _ related rfl fun _ => rfl

theorem Recorder.simulates [StackUnit A] : StackSimulation fun (r : Recorder A) s => r.unit = s where
  push r _ v same := by cases same; rfl
  pop r _ same := by cases same; exact ⟨rfl,rfl⟩
  clear r _ same := by cases same; rfl

theorem Scribe.simulates [StoreUnit S] : StoreSimulation fun (r : Scribe S) s => r.unit = s where
  height r _ same := by cases same; rfl
  width r _ y same := by cases same; rfl
  load r _ rows same := by cases same; rfl
  set r _ p c same := by cases same; rfl
  write r _ piece same := by cases same; rfl
  output r _ same := by cases same; rfl
  cell r _ p same := by cases same; rfl

theorem StackSimulation.refl [StackUnit A] : StackSimulation (@Eq A) where
  push s _ v same := by cases same; rfl
  pop s _ same := by cases same; exact ⟨rfl,rfl⟩
  clear s _ same := by cases same; rfl

theorem PointerSimulation.refl [PointerUnit P] : PointerSimulation (@Eq P) where
  position p _ same := by cases same; rfl
  heading p _ same := by cases same; rfl
  turn p _ h same := by cases same; rfl
  advance p _ e e' same height width := by
    have extents : e = e' := by
      cases e
      cases e'
      cases height
      cases funext width
      rfl
    cases same
    cases extents
    rfl
  home p _ same := by cases same; rfl
  wander p _ same := by
    cases same
    cases PointerUnit.wander p with
    | none => exact .none
    | some q => exact .some rfl

theorem StoreSimulation.refl [StoreUnit S] : StoreSimulation (@Eq S) where
  height s _ same := by cases same; rfl
  width s _ y same := by cases same; rfl
  load s _ rows same := by cases same; rfl
  set s _ p c same := by cases same; rfl
  write s _ piece same := by cases same; rfl
  output s _ same := by cases same; rfl
  cell s _ p same := by cases same; rfl

theorem rel_some {α β : Type} {R : α → β → Prop} {a : α} {other : Option β} (related : Option.Rel R (some a) other) :
    ∃ b, other = some b ∧ R a b := by
  cases related with
  | some same => exact ⟨_,rfl,same⟩

theorem rel_none {α β : Type} {R : α → β → Prop} {other : Option β} (related : Option.Rel R none other) :
    other = none := by
  cases related with
  | none => rfl

namespace Machine

structure Related (RA : A → A' → Prop) (RP : P → P' → Prop) (RS : S → S' → Prop)
    (m : Machine A P S) (m' : Machine A' P' S') : Prop where
  stack : RA m.stack m'.stack
  pointer : RP m.pointer m'.pointer
  store : RS m.store m'.store
  mode : m.mode = m'.mode
  steps : m.steps = m'.steps

variable {RA : A → A' → Prop} {RP : P → P' → Prop} {RS : S → S' → Prop} {m : Machine A P S} {m' : Machine A' P' S'}

namespace Related
variable [StackUnit A] [StackUnit A']

theorem target (stack : StackSimulation RA) (related : Related RA RP RS m m') : m.target = m'.target := by
  obtain ⟨y,below⟩ := stack.pop _ _ related.stack
  obtain ⟨x,_⟩ := stack.pop _ _ below
  unfold Machine.target
  rw [x,y]

theorem branch (stack : StackSimulation RA) (related : Related RA RP RS m m')
    {choose : P → Number → P} {choose' : P' → Number → P'}
    (chosen : ∀ v, RP (choose m.pointer v) (choose' m'.pointer v)) :
    Related RA RP RS (m.branch choose) (m'.branch choose') := by
  obtain ⟨v,rest⟩ := stack.pop _ _ related.stack
  refine ⟨rest,?_,related.store,related.mode,related.steps⟩
  unfold Machine.branch
  dsimp only
  rw [v]
  exact chosen _

variable [StoreUnit S] [StoreUnit S']

theorem put (stack : StackSimulation RA) (store : StoreFrame RS) (related : Related RA RP RS m m') :
    Related RA RP RS m.put m'.put := by
  obtain ⟨y,two⟩ := stack.pop _ _ related.stack
  obtain ⟨x,one⟩ := stack.pop _ _ two
  obtain ⟨v,rest⟩ := stack.pop _ _ one
  refine ⟨rest,related.pointer,?_,related.mode,related.steps⟩
  unfold Machine.put
  dsimp only
  rw [x,y,v]
  exact store.set _ _ _ _ related.store

theorem get (stack : StackSimulation RA) (related : Related RA RP RS m m')
    (read : StoreUnit.cell m.store m.target = StoreUnit.cell m'.store m'.target) :
    Related RA RP RS m.get m'.get := by
  obtain ⟨_,one⟩ := stack.pop _ _ related.stack
  obtain ⟨_,rest⟩ := stack.pop _ _ one
  refine ⟨?_,related.pointer,related.store,related.mode,related.steps⟩
  show RA (StackUnit.push _ (code (StoreUnit.cell m.store m.target)))
    (StackUnit.push _ (code (StoreUnit.cell m'.store m'.target)))
  rw [read]
  exact stack.push _ _ _ rest

theorem write (stack : StackSimulation RA) (store : StoreFrame RS) (related : Related RA RP RS m m')
    (text : Number → String) : Related RA RP RS (m.write text) (m'.write text) := by
  obtain ⟨v,rest⟩ := stack.pop _ _ related.stack
  refine ⟨rest,related.pointer,?_,related.mode,related.steps⟩
  unfold Machine.write
  dsimp only
  rw [v]
  exact store.write _ _ _ related.store

variable [PointerUnit P] [PointerUnit P']

theorem perform (stack : StackSimulation RA) (pointer : PointerFrame RP) (store : StoreFrame RS)
    (related : Related RA RP RS m m') (i : Instruction)
    (read : i = .get → StoreUnit.cell m.store m.target = StoreUnit.cell m'.store m'.target) :
    Related RA RP RS (m.perform i) (m'.perform i) := by
  have ⟨onStack,onPointer,onStore,modes,counts⟩ := related
  cases i with
  | digit d => exact ⟨stack.push _ _ _ onStack,onPointer,onStore,modes,counts⟩
  | operate op => exact ⟨stack.combine _ onStack,onPointer,onStore,modes,counts⟩
  | greater => exact ⟨stack.greater onStack,onPointer,onStore,modes,counts⟩
  | negate => exact ⟨stack.negate onStack,onPointer,onStore,modes,counts⟩
  | duplicate => exact ⟨stack.duplicate onStack,onPointer,onStore,modes,counts⟩
  | swap => exact ⟨stack.swap onStack,onPointer,onStore,modes,counts⟩
  | discard => exact ⟨(stack.pop _ _ onStack).2,onPointer,onStore,modes,counts⟩
  | turn h => exact ⟨onStack,pointer.turn _ _ h onPointer,onStore,modes,counts⟩
  | horizontalIf => exact related.branch stack fun _ => pointer.turn _ _ _ onPointer
  | verticalIf => exact related.branch stack fun _ => pointer.turn _ _ _ onPointer
  | bridge =>
    refine ⟨onStack,?_,onStore,modes,counts⟩
    unfold Machine.perform PointerUnit.bridge
    rw [store.extents onStore]
    exact pointer.move _ onPointer
  | writeNumber => exact related.write stack store _
  | writeGlyph => exact related.write stack store fun v => .singleton (glyph v)
  | quote => exact ⟨onStack,onPointer,onStore,congrArg Mode.toggle modes,counts⟩
  | put => exact related.put stack store
  | get => exact related.get stack (read rfl)
  | wander | stop | blank => exact related

theorem execute (stack : StackSimulation RA) (pointer : PointerFrame RP) (store : StoreFrame RS)
    (related : Related RA RP RS m m') (i : Instruction)
    (read : i = .get → StoreUnit.cell m.store m.target = StoreUnit.cell m'.store m'.target)
    (drawn : i = .wander → Option.Rel RP (PointerUnit.wander m.pointer) (PointerUnit.wander m'.pointer)) :
    Option.Rel (Related RA RP RS) (m.execute i) (m'.execute i) := by
  by_cases wanders : i = .wander
  · subst wanders
    have led := drawn rfl
    unfold Machine.execute
    generalize PointerUnit.wander m.pointer = found, PointerUnit.wander m'.pointer = found' at led
    cases led with
    | none => exact .none
    | some led => exact .some ⟨related.stack,led,related.store,related.mode,related.steps⟩
  · rw [m.execute_plain wanders,m'.execute_plain wanders]
    exact .some (related.perform stack pointer store i read)

omit [StackUnit A] [StackUnit A'] in
theorem proceed (pointer : PointerFrame RP) (store : StoreFrame RS) (related : Related RA RP RS m m') :
    Related RA RP RS m.proceed m'.proceed := by
  refine ⟨related.stack,?_,related.store,related.mode,congrArg (· + 1) related.steps⟩
  unfold Machine.proceed
  rw [store.extents related.store]
  exact pointer.move _ related.pointer

theorem step (stack : StackSimulation RA) (pointer : PointerFrame RP) (store : StoreFrame RS)
    (related : Related RA RP RS m m') (fetched : m.cell = m'.cell)
    (read : m.Executes .get → StoreUnit.cell m.store m.target = StoreUnit.cell m'.store m'.target)
    (drawn : m.Executes .wander → Option.Rel RP (PointerUnit.wander m.pointer) (PointerUnit.wander m'.pointer)) :
    m.step.1 = m'.step.1 ∧ Related RA RP RS m.step.2 m'.step.2 := by
  have executes' : ∀ i, m.Executes i → m'.Executes i := by
    intro i executes
    unfold Executes Halted at executes ⊢
    rwa [← fetched,← related.mode]
  rcases m.step_cases with ⟨halted,rest⟩ | ⟨spells,spelt⟩ | ⟨i,s,executes,executed,stepped⟩ | ⟨wanders,endless,strayed⟩
  · have halted' : m'.Halted := fetched.symm.trans halted
    rw [rest,step_halted m' halted']
    exact ⟨rfl,related⟩
  · have spells' : m'.Spells := by
      unfold Spells Halted at spells ⊢
      rwa [← fetched,← related.mode]
    have same : Related RA RP RS m.spell m'.spell := by
      refine ⟨?_,related.pointer,related.store,related.mode,related.steps⟩
      unfold Machine.spell
      rw [fetched]
      exact stack.push _ _ _ related.stack
    rw [spelt,step_spells spells']
    exact ⟨rfl,same.proceed pointer store⟩
  · have same : Option.Rel (Related RA RP RS) (m.execute i) (m'.execute i) := by
      apply related.execute stack pointer store
      · rintro rfl
        exact read executes
      · rintro rfl
        exact drawn executes
    rw [executed] at same
    obtain ⟨s',executed',same⟩ := rel_some same
    rw [stepped,step_executes (executes' i executes) executed']
    exact ⟨rfl,same.proceed pointer store⟩
  · have strays := drawn wanders
    rw [endless] at strays
    rw [strayed,step_strays (executes' _ wanders) (rel_none strays)]
    exact ⟨rfl,related⟩

theorem load (stack : StackSimulation RA) (pointer : PointerFrame RP) (store : StoreFrame RS)
    (related : Related RA RP RS m m') (program : String) :
    Related RA RP RS (m.load program) (m'.load program) :=
  ⟨stack.clear _ _ related.stack,pointer.home _ _ related.pointer,store.load _ _ _ related.store,rfl,rfl⟩

omit [StackUnit A] [StackUnit A'] in
theorem cell (pointer : PointerFrame RP) (store : StoreSimulation RS) (related : Related RA RP RS m m') :
    m.cell = m'.cell := by
  unfold Machine.cell Machine.position
  rw [pointer.position _ _ related.pointer]
  exact store.cell _ _ _ related.store

theorem step_same (stack : StackSimulation RA) (pointer : PointerSimulation RP) (store : StoreSimulation RS)
    (related : Related RA RP RS m m') :
    m.step.1 = m'.step.1 ∧ Related RA RP RS m.step.2 m'.step.2 := by
  apply related.step stack pointer.toPointerFrame store.toStoreFrame
  · exact related.cell pointer.toPointerFrame store
  · intro _
    rw [related.target stack]
    exact store.cell _ _ _ related.store
  · intro _
    exact pointer.wander _ _ related.pointer

theorem after (stack : StackSimulation RA) (pointer : PointerSimulation RP) (store : StoreSimulation RS)
    (n : Nat) (related : Related RA RP RS m m') :
    Related RA RP RS (Machine.after n m) (Machine.after n m') := by
  induction n generalizing m m' with
  | zero => exact related
  | succ n ih => exact ih (related.step_same stack pointer store).2

omit [StackUnit A] [StackUnit A'] in
theorem ending (pointer : PointerFrame RP) (store : StoreSimulation RS) (related : Related RA RP RS m m')
    (limit : UInt64) : m.ending? limit = m'.ending? limit := by
  unfold Machine.ending? Halted
  rw [related.cell pointer store,related.steps,position,position,pointer.position _ _ related.pointer]

theorem runWithin (stack : StackSimulation RA) (pointer : PointerSimulation RP) (store : StoreSimulation RS)
    (related : Related RA RP RS m m') (program : String) (limit : UInt64) :
    (m.runWithin program limit).1 = (m'.runWithin program limit).1 ∧
      Related RA RP RS (m.runWithin program limit).2 (m'.runWithin program limit).2 := by
  have final : Related RA RP RS (m.stage program limit.toNat) (m'.stage program limit.toNat) :=
    (related.load stack pointer.toPointerFrame store.toStoreFrame program).after stack pointer store _
  rw [runWithin_stage,runWithin_stage]
  exact ⟨final.ending pointer.toPointerFrame store limit,final⟩

theorem serve (stack : StackSimulation RA) (pointer : PointerSimulation RP) (store : StoreSimulation RS)
    (related : Related RA RP RS m m') (request : Request) :
    (m.serve request).1 = (m'.serve request).1 ∧ Related RA RP RS (m.serve request).2 (m'.serve request).2 := by
  cases request with
  | load program => exact ⟨rfl,related.load stack pointer.toPointerFrame store.toStoreFrame program⟩
  | step =>
    obtain ⟨progress,next⟩ := related.step_same stack pointer store
    exact ⟨congrArg Reply.stepped progress,next⟩
  | runWithin program limit =>
    obtain ⟨result,final⟩ := related.runWithin stack pointer store program limit
    exact ⟨congrArg Reply.ran result,final⟩

theorem serveAll (stack : StackSimulation RA) (pointer : PointerSimulation RP) (store : StoreSimulation RS)
    (related : Related RA RP RS m m') (requests : List Request) :
    (m.serveAll requests).1 = (m'.serveAll requests).1 ∧
      Related RA RP RS (m.serveAll requests).2 (m'.serveAll requests).2 := by
  induction requests generalizing m m' with
  | nil => exact ⟨rfl,related⟩
  | cons request rest ih =>
    obtain ⟨reply,next⟩ := related.serve stack pointer store request
    obtain ⟨replies,final⟩ := ih next
    unfold Machine.serveAll
    dsimp only
    rw [reply]
    split
    · exact ⟨congrArg _ replies,final⟩
    · exact ⟨rfl,next⟩

end Related

-- What a session shows depends on the answers of the units alone.
theorem serveAll_units [StackUnit A] [StackUnit A'] [PointerUnit P] [PointerUnit P'] [StoreUnit S] [StoreUnit S']
    (stack : StackSimulation RA) (pointer : PointerSimulation RP) (store : StoreSimulation RS)
    {a : A} {a' : A'} {p : P} {p' : P'} {s : S} {s' : S'}
    (onStack : RA a a') (onPointer : RP p p') (onStore : RS s s') (requests : List Request) :
    let one := (assemble a p s).serveAll requests
    let two := (assemble a' p' s').serveAll requests
    one.1 = two.1 ∧ Related RA RP RS one.2 two.2 ∧ one.2.output = two.2.output ∧
      one.2.position = two.2.position ∧ one.2.heading = two.2.heading ∧
      one.2.mode = two.2.mode ∧ one.2.steps = two.2.steps := by
  have start : Related RA RP RS (assemble a p s) (assemble a' p' s') := ⟨onStack,onPointer,onStore,rfl,rfl⟩
  obtain ⟨replies,final⟩ := start.serveAll stack pointer store requests
  exact ⟨replies,final,store.output _ _ final.store,pointer.position _ _ final.pointer,
    pointer.heading _ _ final.pointer,final.mode,final.steps⟩

end Machine

theorem serveAll_recording :
    let requests := [.load "v\n?.@",.step,.step,.runWithin "\"!\",:,@" 3,.runWithin "5:*.@" 9]
    ((Machine.assemble (Recorder.start Stack.empty) (Pointer.start (Listed.mk [1])) (Scribe.start Store.empty)).serveAll
        requests).1 =
      ((Machine.assemble Stack.empty (Pointer.start (Listed.mk [1])) Store.empty).serveAll requests).1 :=
  (Machine.serveAll_units Recorder.simulates PointerSimulation.refl Scribe.simulates rfl rfl rfl _).1

end Funge

import Funge.Proofs.Effects
import Funge.Proofs.Moments
import Funge.Proofs.Simulation

namespace Funge
variable {A P S : Type}

-- A stack with its journal, and the values on it as the journal tells them.
def Recorder.Replays (r : Recorder Stack) (s : Stack) : Prop :=
  r.unit = s ∧ StackCall.replay [] r.calls = some s.values

theorem replay_next (values : List Number) (calls : List StackCall) (call : StackCall) :
    StackCall.replay values (calls ++ [call]) = (StackCall.replay values calls).bind fun left => call.redo left := by
  simp [StackCall.replay,List.foldlM_append]

theorem Recorder.Replays.next {r : Recorder Stack} {s t : Stack} {call : StackCall} (replays : r.Replays s)
    (redone : call.redo s.values = some t.values) : Recorder.Replays ⟨t,call :: r.journal⟩ t := by
  obtain ⟨_,replayed⟩ := replays
  refine ⟨rfl,?_⟩
  rw [Recorder.calls,List.reverse_cons,replay_next]
  exact (congrArg (Option.bind · _) replayed).trans redone

theorem Recorder.replays : StackSimulation Recorder.Replays where
  push r s v replays := by
    cases replays.1
    exact replays.next rfl
  pop r s replays := by
    cases replays.1
    exact ⟨rfl,replays.next (if_pos rfl)⟩
  clear r s replays := by
    cases replays.1
    exact replays.next rfl

def Scribe.Joins (r : Scribe Store) (s : Store) : Prop := r.unit = s ∧ String.join r.chunks = StoreUnit.output s

theorem Scribe.joins : StoreSimulation Scribe.Joins where
  height r s joins := Scribe.simulates.height r s joins.1
  width r s y joins := Scribe.simulates.width r s y joins.1
  cell r s p joins := Scribe.simulates.cell r s p joins.1
  output r s joins := Scribe.simulates.output r s joins.1
  load r s rows joins := ⟨Scribe.simulates.load r s rows joins.1,joins.2⟩
  set r s p c joins := ⟨Scribe.simulates.set r s p c joins.1,joins.2⟩
  write r s piece joins := by
    obtain ⟨unit,joined⟩ := joins
    refine ⟨Scribe.simulates.write r s piece unit,?_⟩
    show String.join (piece :: r.written).reverse = StoreUnit.output s ++ piece
    rw [← joined]
    simp [Scribe.chunks,String.join_append,String.join_cons]

theorem decimal_nonempty (v : Number) : Number.decimal v ≠ "" := by
  unfold Number.decimal Int.repr
  split
  · exact Nat.repr_ne_empty
  · simp

namespace Machine

section Clears
variable [StackUnit A] [PointerUnit P] [StoreUnit S]

def clears (m : Machine (Recorder A) P S) : Nat := m.stack.calls.count .clear

omit [PointerUnit P] [StoreUnit S] in
theorem clears_keep (m : Machine (Recorder A) P S) :
    StackKeeps fun r : Recorder A => r.calls.count .clear = m.clears where
  push r v same := by simpa [Recorder.calls,StackUnit.push] using same
  pop r same := by simpa [Recorder.calls,StackUnit.pop] using same

theorem clears_step (m : Machine (Recorder A) P S) : m.step.2.clears = m.clears := (clears_keep m).step rfl

theorem clears_load (m : Machine (Recorder A) P S) (program : String) : (m.load program).clears = m.clears + 1 := by
  simp [clears,load,Recorder.calls,StackUnit.clear]

theorem clears_after (m : Machine (Recorder A) P S) (n : Nat) : (after n m).clears = m.clears := by
  apply after_keeps (I := fun s => s.clears = m.clears)
  · intro s same
    rw [clears_step,same]
  · rfl

theorem clears_serve (m : Machine (Recorder A) P S) (request : Request) :
    (m.serve request).2.clears = m.clears + if request = .step then 0 else 1 := by
  cases request with
  | load program => exact clears_load m program
  | step => exact clears_step m
  | runWithin program limit =>
    rw [serve,runWithin_stage]
    exact (clears_after _ _).trans (clears_load m program)

theorem clears_serveAll (m : Machine (Recorder A) P S) (requests : List Request) :
    (m.serveAll requests).2.clears =
      m.clears + (requests.take (m.serveAll requests).1.length).countP (· ≠ .step) := by
  induction requests generalizing m with
  | nil => rfl
  | cons request rest ih =>
    have first := clears_serve m request
    have others := ih (m.serve request).2
    rw [first] at others
    unfold serveAll
    dsimp only
    split
    · rw [others]
      by_cases step : request = .step
      · simp [step]
      · simp [step,Nat.add_assoc,Nat.add_comm 1]
    -- A run that never ends has loaded its program all the same.
    · rw [first]
      by_cases step : request = .step <;> simp [step]

end Clears

section Pieces
variable [StackUnit A] [PointerUnit P] [StoreUnit S]

-- The popped value as a number or as a character, if the next step writes one.
def piece? (m : Machine A P S) : Option String :=
  let value := (StackUnit.pop m.stack).1
  if m.Executes .writeNumber then some (Number.decimal value)
  else if m.Executes .writeGlyph then some (.singleton (glyph value))
  else none

theorem piece_some (m : Machine A P S) : m.piece?.isSome ↔ m.Executes .writeNumber ∨ m.Executes .writeGlyph := by
  unfold piece?
  dsimp only
  split
  · simp [*]
  · split <;> simp [*]

theorem piece_nonempty (m : Machine A P S) : m.piece? ≠ some "" := by
  unfold piece?
  dsimp only
  split
  · simp [decimal_nonempty]
  · split <;> simp

theorem step_piece {X : Type} (view : Machine A P S → X) (grown : X → String → X) (m : Machine A P S)
    (onward : ∀ s : Machine A P S, view s.proceed = view s) (spelt : view m.spell = view m)
    (wrote : ∀ text, view (m.write text) = grown (view m) (text (StackUnit.pop m.stack).1))
    (others : ∀ i, i ≠ .writeNumber ∧ i ≠ .writeGlyph → view (m.perform i) = view m)
    (led : ∀ p, view (m.withPointer p) = view m) :
    view m.step.2 = m.piece?.elim (view m) (grown (view m)) := by
  unfold piece?
  rcases m.step_cases with ⟨halted,rest⟩ | ⟨spells,spelling⟩ | ⟨i,s,executes,executed,stepped⟩ | ⟨wanders,_,strayed⟩
  · have silent : ∀ i, ¬ m.Executes i := fun _ executes => executes.running halted
    simp [rest,silent]
  · have silent : ∀ i, ¬ m.Executes i := fun _ => spells.silent
    simp [spelling,silent,onward,spelt]
  · rw [stepped,onward]
    by_cases number : i = .writeNumber
    · subst number
      cases executed
      rw [if_pos executes]
      exact wrote _
    · rw [if_neg fun other => number (executes.unique other)]
      by_cases character : i = .writeGlyph
      · subst character
        cases executed
        rw [if_pos executes]
        exact wrote fun v => .singleton (glyph v)
      · rw [if_neg fun other => character (executes.unique other)]
        exact execute_view view executed (fun _ => others i ⟨number,character⟩) fun p _ => led p
  · have silent : ∀ i, i ≠ .wander → ¬ m.Executes i := fun _ plain executes => plain (executes.unique wanders)
    rw [strayed,if_neg (silent _ (by decide)),if_neg (silent _ (by decide))]
    rfl

theorem perform_chunks (m : Machine A P (Scribe S)) {i : Instruction}
    (other : i ≠ .writeNumber ∧ i ≠ .writeGlyph) : (m.perform i).store.chunks = m.store.chunks := by
  cases i with
  | writeNumber => exact absurd rfl other.1
  | writeGlyph => exact absurd rfl other.2
  | _ => rfl

omit [PointerUnit P] in
theorem write_chunks (m : Machine A P (Scribe S)) (text : Number → String) :
    (m.write text).store.chunks = m.store.chunks ++ [text (StackUnit.pop m.stack).1] := List.reverse_cons

theorem step_chunks (m : Machine A P (Scribe S)) : m.step.2.store.chunks = m.store.chunks ++ m.piece?.toList := by
  have written := step_piece (fun s => s.store.chunks) (fun chunks piece => chunks ++ [piece]) m (fun _ => rfl) rfl
    (write_chunks m) (fun _ other => perform_chunks m other) fun _ => rfl
  rw [written]
  cases m.piece? with
  | none => exact (List.append_nil _).symm
  | some piece => rfl

def Written (chunks : List String) (past : List (Machine A P (Scribe S))) (m : Machine A P (Scribe S)) : Prop :=
  m.store.chunks = chunks ++ past.filterMap piece?

theorem Written.step (chunks : List String) (past : List (Machine A P (Scribe S))) (m : Machine A P (Scribe S))
    (written : Written chunks past m) : Written chunks (past ++ [m]) m.step.2 := by
  have one : [m].filterMap piece? = m.piece?.toList := by cases piece : m.piece? <;> simp [piece]
  unfold Written at written ⊢
  rw [step_chunks,written,List.filterMap_append,one,List.append_assoc]

theorem history_chunks (m : Machine A P (Scribe S)) (requests : List Request) :
    Written m.store.chunks (m.history requests) (m.serveAll requests).2 := by
  have start : Written m.store.chunks [] m := (List.append_nil _).symm
  exact serveAll_history (fun _ _ _ written => written) (Written.step m.store.chunks) requests start

end Pieces

-- The calls of the stack can be made again and lead to the stack as it is, and they clear it
-- once for each program. The pieces make up the output, one for each instruction that writes
-- and no other.
theorem recording_faithful [PointerUnit P] (p : P) (requests : List Request) :
    let m := assemble (Recorder.start Stack.empty) p (Scribe.start Store.empty)
    let replies := (m.serveAll requests).1
    let final := (m.serveAll requests).2
    StackCall.replay [] final.stack.calls = some final.stack.unit.values ∧
    String.join final.store.chunks = final.output ∧
    final.stack.calls.count .clear = (requests.take replies.length).countP (· ≠ .step) ∧
    (replies.length = requests.length ∨ ∃ s ∈ m.history requests, s.Lost) ∧
    final.store.chunks = (m.history requests).filterMap piece? ∧
    ∀ s : Machine (Recorder Stack) P (Scribe Store),
      s.step.2.store.chunks = s.store.chunks ++ s.piece?.toList ∧
      (s.piece?.isSome ↔ s.Executes .writeNumber ∨ s.Executes .writeGlyph) ∧ s.piece? ≠ some "" ∧
      ∀ program, (s.load program).store.chunks = s.store.chunks := by
  intro m replies final
  have start : Related Recorder.Replays Eq Scribe.Joins m (assemble .empty p .empty) :=
    ⟨⟨rfl,rfl⟩,rfl,⟨rfl,rfl⟩,rfl,rfl⟩
  obtain ⟨_,related⟩ := start.serveAll Recorder.replays PointerSimulation.refl Scribe.joins requests
  refine ⟨?_,?_,?_,m.serveAll_answers requests,?_,?_⟩
  · rw [related.stack.1]
    exact related.stack.2
  · exact related.store.2.trans (Scribe.joins.output _ _ related.store).symm
  · exact (clears_serveAll m requests).trans (Nat.zero_add _)
  · exact history_chunks m requests
  · exact fun s => ⟨step_chunks s,piece_some s,piece_nonempty s,fun _ => rfl⟩

end Machine
end Funge

import Funge.Proofs.Invariant

namespace Funge.Machine
variable {A P S : Type} [StackUnit A] [PointerUnit P] [StoreUnit S]

def turns (limit : UInt64) (m : Machine A P S) : List (Machine A P S) :=
  match _unended : m.ending? limit with
  | some _ => []
  | none => m :: if m.step.1 = .moved then turns limit m.step.2 else []
termination_by limit.toNat - m.steps.toNat
decreasing_by
  rename_i moved
  have unspent := (ending_none _unended).2
  rw [step_steps moved,steps_below unspent]
  rw [UInt64.le_iff_toNat_le] at unspent
  omega

def moments (m : Machine A P S) : Request → List (Machine A P S)
  | .load _ => []
  | .step => [m]
  | .runWithin program limit => (m.load program).turns limit

def history (m : Machine A P S) : List Request → List (Machine A P S)
  | [] => []
  | request :: rest =>
    m.moments request ++ if (m.serve request).1.comes then (m.serve request).2.history rest else []

theorem spend_silent {limit : UInt64} {m : Machine A P S} (silent : (m.spend limit).1 = none) :
    ∃ s ∈ m.turns limit, s.Lost := by
  fun_induction turns limit m with
  | case1 m result ended =>
    rw [spend_ended ended] at silent
    cases silent
  | case2 m unended ih =>
    rw [spend_unended unended] at silent
    by_cases moved : m.step.1 = .moved
    · rw [if_pos moved] at silent ⊢
      obtain ⟨s,turn,lost⟩ := ih moved silent
      exact ⟨s,List.mem_cons_of_mem _ turn,lost⟩
    · have lost : m.Lost := Decidable.not_not.mp fun found => moved (moved_iff.mpr ⟨(ending_none unended).1,found⟩)
      exact ⟨m,List.mem_cons_self,lost⟩

theorem serve_silent {m : Machine A P S} {request : Request} (silent : ¬ (m.serve request).1.comes) :
    ∃ s ∈ m.moments request, s.Lost := by
  cases request with
  | load program => exact absurd rfl silent
  | step =>
    refine ⟨m,List.mem_singleton_self m,?_⟩
    cases progress : m.step.1 with
    | lost => exact progress
    | moved | halted => simp [serve,Reply.comes,progress] at silent
  | runWithin program limit =>
    apply spend_silent
    cases result : ((m.load program).spend limit).1 with
    | none => rfl
    | some answer => simp [serve,runWithin,Reply.comes,result] at silent

-- Only behind a step that is lost does a request go without an answer.
theorem serveAll_answers (m : Machine A P S) (requests : List Request) :
    (m.serveAll requests).1.length = requests.length ∨ ∃ s ∈ m.history requests, s.Lost := by
  induction requests generalizing m with
  | nil => exact .inl rfl
  | cons request rest ih =>
    unfold serveAll history
    dsimp only
    split
    · rcases ih (m.serve request).2 with answered | ⟨s,later,lost⟩
      · exact .inl (congrArg (· + 1) answered)
      · exact .inr ⟨s,List.mem_append_right _ later,lost⟩
    · rename_i silent
      obtain ⟨s,here,lost⟩ := serve_silent silent
      exact .inr ⟨s,List.mem_append_left _ here,lost⟩

variable {H : List (Machine A P S) → Machine A P S → Prop} {past : List (Machine A P S)} {m : Machine A P S}

theorem spend_history (step : ∀ past m, H past m → H (past ++ [m]) m.step.2) (limit : UInt64) (start : H past m) :
    H (past ++ m.turns limit) (m.spend limit).2 := by
  fun_induction turns limit m generalizing past with
  | case1 m result ended =>
    rw [spend_ended ended,List.append_nil]
    exact start
  | case2 m unended ih =>
    have stepped := step past m start
    rw [spend_unended unended]
    split
    · rename_i moved
      simpa using ih moved stepped
    · exact stepped

theorem serve_history (load : ∀ past m program, H past m → H past (m.load program))
    (step : ∀ past m, H past m → H (past ++ [m]) m.step.2) (request : Request) (start : H past m) :
    H (past ++ m.moments request) (m.serve request).2 := by
  cases request with
  | load program => simpa [moments,serve] using load past m program start
  | step => exact step past m start
  | runWithin program limit => exact spend_history step limit (load past m program start)

-- Loading adds none to the steps made so far, and a step adds itself.
theorem serveAll_history (load : ∀ past m program, H past m → H past (m.load program))
    (step : ∀ past m, H past m → H (past ++ [m]) m.step.2) (requests : List Request) (start : H past m) :
    H (past ++ m.history requests) (m.serveAll requests).2 := by
  induction requests generalizing past m with
  | nil => simpa [history,serveAll] using start
  | cons request rest ih =>
    have served := serve_history load step request start
    unfold history serveAll
    dsimp only
    split
    · have others := ih served
      rwa [List.append_assoc] at others
    · rwa [List.append_nil]

end Funge.Machine

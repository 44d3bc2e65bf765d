import Funge.CommandLine.Invocation
import Funge.Proofs.Arguments
import Funge.Proofs.Frame

namespace Funge.CommandLine
open Machine Words WordSource

variable {W : Type} [WordSource W]

def Exit.outcome (e : Exit) : Nat × String := (e.code,e.stdout)

omit [WordSource W] in
theorem Surroundings.errorLine_spent (around : Surroundings W) (e : BudgetSpent) :
    around.errorLine e.message = around.emphasize "Error:" ++ " Step limit of " ++ Nat.repr e.limit.toNat ++
      " exceeded without halting, pointer at (" ++ Int.repr e.position.x.toInt ++ ", " ++
      Int.repr e.position.y.toInt ++ ")\n" := by
  have beginning : " Step limit of " = " " ++ "Step limit of " := by decide
  have middle : " exceeded without halting, pointer at (" = " exceeded without halting, pointer at " ++ "(" := by
    decide
  have ending : ")\n" = ")" ++ "\n" := by decide
  rw [beginning,middle,ending]
  simp only [errorLine,BudgetSpent.message,Position.text,String.append_assoc]

namespace Options
variable (o : Options) (around : Surroundings W)

def reach (fuel : Nat) : Nat := (o.limit.map UInt64.toNat).getD fuel

def final (fuel : Nat) (source : String) : Standard W := (o.start around).stage source (o.reach fuel)

-- Chance has no part in a run that is seeded, nor in one that never asks for it.
def Certain (fuel : Nat) (source : String) : Prop :=
  o.seed.isSome ∨ ∀ t < o.reach fuel, ¬ ((o.start around).stage source t).Executes .wander

instance (fuel : Nat) (source : String) : Decidable (o.Certain around fuel source) :=
  inferInstanceAs (Decidable (_ ∨ _))

variable {o} {around} {fuel : Nat} {source : String}

omit [WordSource W] in
theorem start_same {o' : Options} (seed : o'.seed = o.seed) : o'.start around = o.start around := by
  rw [start,start,seed]

theorem reach_limit {limit : UInt64} (budget : o.limit = some limit) (fuel : Nat) : o.reach fuel = limit.toNat := by
  rw [reach,budget]
  rfl

theorem reach_unlimited (unlimited : o.limit = none) (fuel : Nat) : o.reach fuel = fuel := by
  rw [reach,unlimited]
  rfl

theorem run_limit {limit : UInt64} (budget : o.limit = some limit) :
    let ran := (o.start around).runWithin source limit
    o.run around fuel source = ran.1.map fun result => o.report around source result ran.2.output := by
  rw [run,budget]

theorem run_unlimited (unlimited : o.limit = none) :
    o.run around fuel source =
      ((o.start around).run? source fuel).map fun final => o.report around source (.ok final.steps) final.output := by
  rw [run,unlimited]

theorem run_final :
    let final := o.final around fuel source
    o.run around fuel source =
      if final.Halted then some (o.report around source (.ok final.steps) final.output)
      else o.limit.bind fun limit =>
        if limit ≤ final.steps then some (o.report around source (.error ⟨limit,final.position⟩) final.output)
        else none := by
  intro final
  cases budget : o.limit with
  | none =>
    have last : final = (o.start around).stage source fuel :=
      congrArg ((o.start around).stage source) (reach_unlimited budget fuel)
    rw [run_unlimited budget,run_stage,← last]
    split <;> rfl
  | some limit =>
    have last : final = (o.start around).stage source limit.toNat :=
      congrArg ((o.start around).stage source) (reach_limit budget fuel)
    rw [run_limit budget,runWithin_stage,← last,ending?]
    split
    · rfl
    · rw [Option.bind_some]
      split <;> rfl

theorem run_stdout {exit : Exit} (ran : o.run around fuel source = some exit) :
    exit.stdout = (o.final around fuel source).output := by
  rw [run_final] at ran
  split at ran
  · cases ran
    rfl
  · obtain ⟨limit,_,reported⟩ := Option.bind_eq_some_iff.mp ran
    split at reported
    · cases reported
      rfl
    · cases reported

theorem run_halted (halted : (o.final around fuel source).Halted) :
    (o.run around fuel source).map Exit.outcome = some (0,(o.final around fuel source).output) := by
  rw [run_final,if_pos halted]
  rfl

theorem run_ended {n : Nat} (first : ((o.start around).load source).HaltsAt n) (within : n ≤ o.reach fuel) :
    (o.run around fuel source).map Exit.outcome = some (0,((o.start around).stage source n).output) := by
  have halted : (o.final around fuel source).Halted := halted_exact.mpr ⟨n,within,first⟩
  have rest : o.final around fuel source = (o.start around).stage source n := after_later first.1.rests within
  rw [run_halted halted,rest]

theorem run_settled {o' : Options} {fuel' n : Nat} (seed : o'.seed = o.seed)
    (first : ((o.start around).load source).HaltsAt n) (within : n ≤ o.reach fuel) (within' : n ≤ o'.reach fuel') :
    (o'.run around fuel' source).map Exit.outcome = (o.run around fuel source).map Exit.outcome := by
  have same : o'.start around = o.start around := start_same seed
  have first' : ((o'.start around).load source).HaltsAt n := by rwa [same]
  rw [run_ended first within,run_ended first' within',same]

section Budget
variable {limit : UInt64} (budget : o.limit = some limit)
include budget

theorem final_limit : o.final around fuel source = (o.start around).stage source limit.toNat := by
  rw [final,reach_limit budget]

theorem run_within (ends : ∃ n ≤ limit.toNat, ((o.start around).load source).HaltsAt n) :
    (o.run around fuel source).map Exit.outcome =
      some (0,((o.start around).stage source limit.toNat).output) := by
  have halted : (o.final around fuel source).Halted := by
    rw [final_limit budget]
    exact halted_exact.mpr ends
  rw [run_halted halted,final_limit budget]

theorem run_none : o.run around fuel source = none ↔
    ∃ k < limit.toNat, ((o.start around).stage source k).Lost := by
  rw [run_limit budget,Option.map_eq_none_iff]
  exact runWithin_none

theorem run_spent (never : ¬ ∃ n ≤ limit.toNat, ((o.start around).load source).HaltsAt n)
    (answers : o.run around fuel source ≠ none) :
    let spent := (o.start around).stage source limit.toNat
    o.run around fuel source = some ⟨1,spent.output,
      o.loadedNotice source ++ "\n" ++ around.errorLine (BudgetSpent.message ⟨limit,spent.position⟩)⟩ := by
  intro spent
  have running : ¬ spent.Halted := fun halted => never (halted_exact.mp halted)
  have found : ∀ k < limit.toNat, ¬ ((o.start around).stage source k).Lost :=
    fun k below lost => answers ((run_none budget).mpr ⟨k,below,lost⟩)
  rw [run_limit budget,(runWithin_running running found).1]
  rfl

theorem run_appends {o' : Options} {limit' : UInt64} {fuel' : Nat} {exit' : Exit} (seed : o'.seed = o.seed)
    (budget' : o'.limit = some limit') (le : limit ≤ limit') (ran' : o'.run around fuel' source = some exit') :
    ∃ exit, o.run around fuel source = some exit ∧ exit.stdout.toList <+: exit'.stdout.toList := by
  have same : o'.start around = o.start around := start_same seed
  have fewer := UInt64.le_iff_toNat_le.mp le
  cases ran : o.run around fuel source with
  | none =>
    -- What is lost within the smaller budget is lost within the larger one.
    obtain ⟨k,below,lost⟩ := (run_none budget).mp ran
    rw [← same] at lost
    have nothing : o'.run around fuel' source = none :=
      (run_none budget').mpr ⟨k,Nat.lt_of_lt_of_le below fewer,lost⟩
    rw [nothing] at ran'
    cases ran'
  | some exit =>
    refine ⟨exit,rfl,?_⟩
    rw [run_stdout ran,run_stdout ran',final_limit budget,final_limit budget',same]
    exact stage_appends _ _ fewer

end Budget

theorem final_certain (certain : o.Certain around fuel source) (entropy : W) :
    Alike (o.final around fuel source) (o.final { around with entropy } fuel source) := by
  rcases certain with seeded | never
  · obtain ⟨seed,given⟩ := Option.isSome_iff_exists.mp seeded
    have same : o.start { around with entropy } = o.start around := by rw [start,start,given]; rfl
    rw [final,final,same]
    exact ⟨rfl,⟨rfl,rfl⟩,rfl,rfl,rfl⟩
  · have alike : Alike ((o.start around).load source) ((o.start { around with entropy }).load source) :=
      ⟨rfl,⟨rfl,rfl⟩,rfl,rfl,rfl⟩
    exact (after_calm alike never).2

theorem run_certain (certain : o.Certain around fuel source) (entropy : W) :
    o.run { around with entropy } fuel source = o.run around fuel source := by
  have alike := final_certain certain entropy
  have position : (o.final around fuel source).position = (o.final { around with entropy } fuel source).position :=
    alike.pointer.position
  have output : (o.final around fuel source).output = (o.final { around with entropy } fuel source).output :=
    congrArg StoreUnit.output alike.store
  rw [run_final,run_final]
  simp only [← position,← output,← alike.steps]
  by_cases halted : (o.final around fuel source).Halted
  · rw [if_pos halted,if_pos (alike.cell.symm.trans halted)]
    rfl
  · rw [if_neg halted,if_neg fun halted' => halted (alike.cell.trans halted')]
    rfl

omit [WordSource W] in
theorem report_loud (o : Options) (around : Surroundings W) (source : String) (result : Except BudgetSpent UInt64)
    (output : String) :
    (o.loud.report around source result output).outcome = (o.report around source result output).outcome := by
  cases result <;> rfl

theorem run_loud : (o.loud.run around fuel source).map Exit.outcome = (o.run around fuel source).map Exit.outcome := by
  have start : o.loud.start around = o.start around := rfl
  have limit : o.loud.limit = o.limit := rfl
  unfold run
  rw [start,limit]
  cases o.limit with
  | none =>
    simp only [Option.map_map]
    exact congrArg (Option.map · _) (funext fun final => report_loud ..)
  | some limit =>
    simp only [Option.map_map]
    exact congrArg (Option.map · _) (funext fun result => report_loud ..)

theorem execute_loud :
    (o.loud.execute around fuel).map Exit.outcome = (o.execute around fuel).map Exit.outcome := by
  have path : o.loud.path = o.path := rfl
  unfold execute
  rw [path]
  cases around.find o.path with
  | text source => exact run_loud
  | missing | directory | unreadable => rfl

end Options

variable {around : Surroundings W} {arguments : List String} {fuel : Nat}

structure Accepted (find : String → Entry) (arguments : List String) (o : Options) (source : String) : Prop where
  parsed : Options.parse arguments = .ok o
  found : find o.path = .text source

def Refused (find : String → Entry) (arguments : List String) : Prop :=
  ∀ o, Options.parse arguments = .ok o → find o.path = .missing

theorem invoke_accepted {o : Options} {source : String} (accepted : Accepted around.find arguments o source) :
    invoke around fuel arguments = o.run around fuel source := by
  rw [invoke,accepted.parsed]
  show o.execute around fuel = _
  rw [Options.execute,accepted.found]

def refusal (around : Surroundings W) (arguments : List String) : Exit :=
  match Options.parse arguments with
  | .error e => around.refuse e
  | .ok o => around.notFound o.path

theorem invoke_refused (refused : Refused around.find arguments) :
    invoke around fuel arguments = some (refusal around arguments) := by
  unfold invoke refusal
  cases parsed : Options.parse arguments with
  | error e => rfl
  | ok o =>
    show o.execute around fuel = _
    rw [Options.execute,refused o parsed]

omit [WordSource W] in
theorem refusal_outcome (around : Surroundings W) (arguments : List String) :
    (refusal around arguments).outcome = (1,"") := by
  unfold refusal
  split <;> rfl

def Apart (before after : List String) : Prop := awaiting before = none ∨ after = []

theorem invoke_verbose {before after : List String} {flag : String} (verbose : flag = "-v" ∨ flag = "--verbose")
    (apart : Apart before after) :
    (invoke around fuel (before ++ flag :: after)).map Exit.outcome =
      (invoke around fuel (before ++ after)).map Exit.outcome := by
  cases waiting : awaiting before with
  | none =>
    unfold invoke
    rw [Options.parse_verbose verbose waiting]
    cases Options.parse (before ++ after) with
    | error e => rfl
    | ok o => exact Options.execute_loud
  | some which =>
    have last : after = [] := apart.resolve_left (by rw [waiting]; exact Option.some_ne_none which)
    obtain ⟨⟨missing,ends⟩,refused,stops⟩ := Options.parse_awaiting waiting verbose
    rw [last,List.append_nil,invoke,invoke,ends,stops]
    rfl

-- Invocations of one program differ in how far they follow it. The entropy matters only where
-- it wanders without a seed, and showing the progress changes neither text nor code. What is
-- refused is refused whatever the files hold.
theorem invocations_agree (W : Type) [WordSource W] :
    (∀ (around : Surroundings W) arguments o source, Accepted around.find arguments o source → ∀ fuel,
      let m := o.start around
      let answer := invoke around fuel arguments
      (o.Certain around fuel source → ∀ entropy, invoke { around with entropy } fuel arguments = answer) ∧
      (∀ limit, o.limit = some limit →
        let spent := m.stage source limit.toNat
        ((∃ n ≤ limit.toNat, (m.load source).HaltsAt n) → answer.map Exit.outcome = some (0,spent.output)) ∧
        ((¬ ∃ n ≤ limit.toNat, (m.load source).HaltsAt n) → answer ≠ none → answer = some ⟨1,spent.output,
          o.loadedNotice source ++ "\n" ++ around.emphasize "Error:" ++ " Step limit of " ++ Nat.repr limit.toNat ++
            " exceeded without halting, pointer at (" ++ Int.repr spent.position.x.toInt ++ ", " ++
            Int.repr spent.position.y.toInt ++ ")\n"⟩) ∧
        (Giving m.pointer.source → answer ≠ none) ∧
        (answer = none ↔ ∃ k < limit.toNat, (m.stage source k).Executes .wander ∧
          ∀ i, ¬ accepts (m.stage source k).pointer.source i) ∧
        (∀ n, (m.load source).HaltsAt n → spent.output = (m.stage source (min limit.toNat n)).output) ∧
        ∀ arguments' o' limit' fuel' exit', Accepted around.find arguments' o' source → o'.seed = o.seed →
          o'.limit = some limit' → limit ≤ limit' → invoke around fuel' arguments' = some exit' →
          ∃ exit, answer = some exit ∧ exit.stdout.toList <+: exit'.stdout.toList) ∧
      (o.limit = none → ∀ n ≤ fuel, (m.load source).HaltsAt n →
        answer.map Exit.outcome = some (0,(m.stage source n).output) ∧
        ∀ arguments' o' limit' fuel', Accepted around.find arguments' o' source → o'.seed = o.seed →
          o'.limit = some limit' → n ≤ limit'.toNat →
          (invoke around fuel' arguments').map Exit.outcome = answer.map Exit.outcome)) ∧
    (∀ before after flag, flag = "-v" ∨ flag = "--verbose" → Apart before after →
      ∀ (around : Surroundings W) fuel,
      (invoke around fuel (before ++ flag :: after)).map Exit.outcome =
        (invoke around fuel (before ++ after)).map Exit.outcome) ∧
    ∀ (around : Surroundings W) arguments, ∃ exit : Exit, exit.outcome = (1,"") ∧
      ∀ find entropy, Refused find arguments → ∀ fuel, invoke { around with find, entropy } fuel arguments = some exit := by
  refine ⟨?_,fun _ _ _ verbose apart _ _ => invoke_verbose verbose apart,?_⟩
  · intro around arguments o source accepted fuel m answer
    have answered : answer = o.run around fuel source := invoke_accepted accepted
    refine ⟨?_,?_,?_⟩
    · intro certain entropy
      have other : Accepted { around with entropy }.find arguments o source := accepted
      rw [answered,invoke_accepted other]
      exact Options.run_certain certain entropy
    · intro limit budget spent
      have silent : answer = none ↔ ∃ k < limit.toNat, (m.stage source k).Lost := by
        rw [answered]
        exact Options.run_none budget
      refine ⟨?_,?_,?_,?_,?_,?_⟩
      · rw [answered]
        exact Options.run_within budget
      · intro never answers
        rw [answered] at answers ⊢
        rw [Options.run_spent budget never answers,around.errorLine_spent]
        simp only [String.append_assoc]
        rfl
      · intro giving nothing
        obtain ⟨k,_,lost⟩ := silent.mp nothing
        exact found_giving (m := m.load source) giving k lost
      · simp only [silent,lost_endless]
      · intro n first
        exact congrArg output (after_min first limit.toNat).symm
      · intro arguments' o' limit' fuel' exit' accepted' seed budget' le ran'
        rw [invoke_accepted accepted'] at ran'
        rw [answered]
        exact Options.run_appends budget seed budget' le ran'
    · intro unlimited n within first
      have room : n ≤ o.reach fuel := by rwa [Options.reach_unlimited unlimited]
      rw [answered]
      refine ⟨Options.run_ended first room,?_⟩
      intro arguments' o' limit' fuel' accepted' seed budget' enough
      rw [invoke_accepted accepted']
      exact Options.run_settled seed first room (by rwa [Options.reach_limit budget'])
  · intro around arguments
    exact ⟨refusal around arguments,refusal_outcome around arguments,fun _ _ refused _ => invoke_refused refused⟩

theorem invocations_agree_cut_short :
    let find := fun path => if path = "a" then Entry.text "1.2.@" else .missing
    let around : Surroundings Keystream := ⟨"befunge",fun word => "<" ++ word ++ ">",.ofSeed,.ofSeed 0,find⟩
    let cut := invoke { around with entropy := .ofSeed 1 } 0 ["--max-steps","2","a"]
    cut = some ⟨1,"1","\n<Error:> Step limit of 2 exceeded without halting, pointer at (2, 0)\n"⟩ ∧
      (invoke around 4 ["a","-v"]).map Exit.outcome = some (0,"12") ∧
      (invoke around 4 ["b"]).map Exit.outcome = some (1,"") := by
  intro find around cut
  obtain ⟨agree,verbose,refused⟩ := invocations_agree Keystream
  have bounded : Accepted find ["--max-steps","2","a"] ⟨"a",some 2,none,false⟩ "1.2.@" := ⟨rfl,rfl⟩
  have unbounded : Accepted find ["a"] ⟨"a",none,none,false⟩ "1.2.@" := ⟨rfl,rfl⟩
  have absent : Refused find ["b"] := by
    intro o parsed
    cases (show Except.ok ⟨"b",none,none,false⟩ = Except.ok o from parsed)
    rfl
  obtain ⟨certain,spent,_⟩ := agree around _ _ _ bounded 0
  obtain ⟨_,_,ended⟩ := agree around _ _ _ unbounded 4
  refine ⟨?_,?_,?_⟩
  · have same := certain (by decide +kernel) (.ofSeed 1)
    obtain ⟨_,reported,answers,_⟩ := spent 2 rfl
    have giving : Giving (Keystream.ofSeed 0) := Keystream.giving (i := 1) (by decide +kernel)
    have answer := reported (by decide +kernel) (answers giving)
    exact (same.trans answer).trans (by decide +kernel)
  · have shown := verbose ["a"] [] "-v" (.inl rfl) (.inl rfl) around 4
    have answer := (ended rfl 4 (Nat.le_refl 4) (by decide +kernel)).1
    exact (shown.trans answer).trans (by decide +kernel)
  · obtain ⟨exit,outcome,answered⟩ := refused around ["b"]
    rw [answered find around.entropy absent 4,Option.map_some,outcome]

end Funge.CommandLine

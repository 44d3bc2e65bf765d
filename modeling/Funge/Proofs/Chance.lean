import Funge.Proofs.Draws
import Funge.Proofs.Effects
import Funge.Proofs.Moments
import Funge.Proofs.Simulation

namespace Funge
open Words WordSource

variable {W W' : Type} [WordSource W] [WordSource W']

namespace Pointer

structure Alike (p : Pointer W) (p' : Pointer W') : Prop where
  position : p.position = p'.position
  heading : p.heading = p'.heading

theorem alike_frame : PointerFrame (@Alike W W') where
  position _ _ alike := alike.position
  heading _ _ alike := alike.heading
  turn _ _ _ alike := ⟨alike.position,rfl⟩
  advance p p' e e' alike height width := by
    have extents : e = e' := by
      cases e
      cases e'
      cases height
      cases funext width
      rfl
    refine ⟨?_,alike.heading⟩
    show e.advance p.heading p.position = e'.advance p'.heading p'.position
    rw [extents,alike.position,alike.heading]
  home _ _ _ := ⟨rfl,rfl⟩

theorem wander_drawn {p q : Pointer W} (led : p.wander = some q) :
    q.source = drawn 1 p.source ∧ heading? 0 p.source = some q.heading := by
  obtain ⟨found,draw,rfl⟩ := Machine.wander_some.mp led
  exact ⟨(drawn_some (n := 0) draw).symm,congrArg (Option.map Prod.fst) draw⟩

end Pointer

namespace Machine
variable {m : Standard W} {m' : Standard W'}

theorem lost_endless : m.Lost ↔ m.Executes .wander ∧ ∀ n, ¬ accepts m.pointer.source n := by
  rw [lost_exact,← draw_none,← wander_none]
  exact Iff.rfl

theorem step_source (m : Standard W) :
    m.step.2.pointer.source = if m.Executes .wander then drawn 1 m.pointer.source else m.pointer.source := by
  rcases m.step_cases with ⟨halted,rest⟩ | ⟨spells,spelt⟩ | ⟨i,s,executes,executed,stepped⟩ | ⟨wanders,endless,strayed⟩
  · rw [rest,if_neg fun execution => execution.running halted]
  · rw [spelt,if_neg spells.silent]
    rfl
  · rw [stepped]
    rcases execute_some.mp executed with ⟨plain,rfl⟩ | ⟨rfl,p,found,rfl⟩
    · rw [if_neg fun execution => plain (executes.unique execution)]
      exact perform_source m i
    · rw [if_pos executes]
      exact (Pointer.wander_drawn found).1
  · rw [strayed,if_pos wanders]
    exact (drawn_none (n := 0) (wander_none.mp endless)).symm

theorem step_wander {h : Heading} (wanders : m.Executes .wander) (found : heading? 0 m.pointer.source = some h) :
    m.step.1 = .moved ∧ m.step.2.heading = h := by
  obtain ⟨drawn,draw,rfl⟩ := Option.map_eq_some_iff.mp found
  rw [step_wanders wanders (wander_some.mpr ⟨drawn,draw,rfl⟩)]
  exact ⟨rfl,rfl⟩

def wanders (past : List (Standard W)) : List (Standard W) := past.filter (·.Executes .wander)

theorem wanders_append (past : List (Standard W)) (m : Standard W) :
    wanders (past ++ [m]) = if m.Executes .wander then wanders past ++ [m] else wanders past := by
  by_cases executes : m.Executes .wander <;> simp [wanders,executes]

-- The source stands as many draws behind its start as there were wanderings, and it did
-- so before each of them.
structure Drawing (source : W) (past : List (Standard W)) (m : Standard W) : Prop where
  now : m.pointer.source = drawn (wanders past).length source
  each : (wanders past).map (·.pointer.source) = (List.range (wanders past).length).map (drawn · source)

theorem Drawing.step {source : W} (past : List (Standard W)) (m : Standard W) (drawing : Drawing source past m) :
    Drawing source (past ++ [m]) m.step.2 := by
  obtain ⟨now,each⟩ := drawing
  by_cases executes : m.Executes .wander
  · constructor
    · rw [wanders_append,if_pos executes,step_source,if_pos executes,now,List.length_append]
      rfl
    · simp [wanders_append,executes,each,now,List.range_succ]
  · constructor
    · rw [wanders_append,if_neg executes,step_source,if_neg executes,now]
    · simpa [wanders_append,executes] using each

theorem Drawing.serveAll (m : Standard W) (requests : List Request) :
    Drawing m.pointer.source (m.history requests) (m.serveAll requests).2 := by
  have load : ∀ past (s : Standard W) program, Drawing m.pointer.source past s →
      Drawing m.pointer.source past (s.load program) := fun _ _ _ drawing => ⟨drawing.now,drawing.each⟩
  have start : Drawing m.pointer.source [] m := ⟨rfl,rfl⟩
  exact serveAll_history load Drawing.step requests start

theorem Drawing.at {source : W} {past : List (Standard W)} {s : Standard W} {j : Nat} (drawing : Drawing source past m)
    (found : (wanders past)[j]? = some s) : s.pointer.source = drawn j source ∧ s.Executes .wander := by
  obtain ⟨below,_⟩ := List.getElem?_eq_some_iff.mp found
  have sources := congrArg (·[j]?) drawing.each
  have executes := (List.mem_filter.mp (List.mem_of_getElem? found)).2
  simp only [List.getElem?_map,found,List.getElem?_range below,Option.map_some,Option.some.injEq] at sources
  exact ⟨sources,of_decide_eq_true executes⟩

theorem history_found {m : Standard W} (giving : Giving m.pointer.source) (requests : List Request) :
    ∀ s ∈ m.history requests, ¬ s.Lost := by
  intro s past lost
  obtain ⟨executes,endless⟩ := lost_endless.mp lost
  have wandered : s ∈ wanders (m.history requests) := List.mem_filter.mpr ⟨past,decide_eq_true executes⟩
  obtain ⟨j,found⟩ := List.mem_iff_getElem?.mp wandered
  have draws := giving j
  rw [← ((Drawing.serveAll m requests).at found).1,draw_none.mpr endless] at draws
  cases draws

def wanderings (n : Nat) (m : Standard W) : Nat := (List.range n).countP fun k => (after k m).Executes .wander

theorem wanderings_succ (n : Nat) (m : Standard W) :
    wanderings (n + 1) m = if (after n m).Executes .wander then wanderings n m + 1 else wanderings n m := by
  by_cases executes : (after n m).Executes .wander <;>
    simp [wanderings,List.range_succ,List.countP_append,executes]

theorem after_source (n : Nat) (m : Standard W) :
    (after n m).pointer.source = drawn (wanderings n m) m.pointer.source := by
  induction n with
  | zero => rfl
  | succ n ih =>
    rw [after_succ,step_source,wanderings_succ,ih]
    split
    · rfl
    · rfl

theorem found_giving (giving : Giving m.pointer.source) (n : Nat) : ¬ (after n m).Lost := by
  intro lost
  have draws := giving (wanderings n m)
  rw [← after_source,draw_none.mpr (lost_endless.mp lost).2] at draws
  cases draws

abbrev Alike (m : Standard W) (m' : Standard W') : Prop := Related Eq Pointer.Alike Eq m m'

theorem Alike.cell (alike : Alike m m') : m.cell = m'.cell :=
  Related.cell Pointer.alike_frame StoreSimulation.refl alike

theorem Alike.executes (alike : Alike m m') (i : Instruction) : m.Executes i ↔ m'.Executes i := by
  unfold Executes Halted
  rw [alike.cell,alike.mode]

theorem step_alike (alike : Alike m m')
    (agree : m.Executes .wander → heading? 0 m.pointer.source = heading? 0 m'.pointer.source) :
    m.step.1 = m'.step.1 ∧ Alike m.step.2 m'.step.2 := by
  apply Related.step StackSimulation.refl Pointer.alike_frame StoreSimulation.refl.toStoreFrame alike alike.cell
  · intro _
    rw [alike.target StackSimulation.refl,alike.store]
  · intro executes
    have same := agree executes
    show Option.Rel _ m.pointer.wander m'.pointer.wander
    cases led : m.pointer.wander with
    | none =>
      have nothing : heading? 0 m.pointer.source = none := congrArg (Option.map Prod.fst) (wander_none.mp led)
      rw [nothing] at same
      rw [wander_none.mpr (Option.map_eq_none_iff.mp same.symm)]
      exact .none
    | some q =>
      rw [(Pointer.wander_drawn led).2] at same
      obtain ⟨drawn,draw,heading⟩ := Option.map_eq_some_iff.mp same.symm
      rw [wander_some.mpr ⟨drawn,draw,rfl⟩]
      exact .some ⟨(wander_position led).trans alike.pointer.position,heading.symm⟩

theorem after_alike {n : Nat} (alike : Alike m m')
    (agree : ∀ j < wanderings n m, heading? j m.pointer.source = heading? j m'.pointer.source) :
    (∀ k < n, (after k m').step.1 = (after k m).step.1) ∧ Alike (after n m) (after n m') ∧
      wanderings n m' = wanderings n m := by
  induction n with
  | zero => exact ⟨fun k below => absurd below (Nat.not_lt_zero k),alike,by simp [wanderings]⟩
  | succ n ih =>
    have grows : wanderings n m ≤ wanderings (n + 1) m := by
      rw [wanderings_succ]
      split <;> omega
    obtain ⟨statuses,before,counted⟩ := ih fun j below => agree j (Nat.lt_of_lt_of_le below grows)
    have drawn : (after n m).Executes .wander →
        heading? 0 (after n m).pointer.source = heading? 0 (after n m').pointer.source := by
      intro executes
      rw [after_source,after_source,counted,heading_drawn,heading_drawn]
      exact agree _ (by simp [wanderings_succ,executes])
    obtain ⟨status,next⟩ := step_alike before drawn
    refine ⟨?_,?_,?_⟩
    · intro k below
      rcases Nat.lt_succ_iff_lt_or_eq.mp below with earlier | rfl
      · exact statuses k earlier
      · exact status.symm
    · rwa [after_succ,after_succ]
    · simp only [wanderings_succ,before.executes,counted]

theorem after_calm {n : Nat} (alike : Alike m m') (never : ∀ t < n, ¬ (after t m).Executes .wander) :
    (∀ t < n, (after t m').step.1 = (after t m).step.1) ∧ Alike (after n m) (after n m') := by
  have none : wanderings n m = 0 := by simpa [wanderings,List.countP_eq_zero] using never
  obtain ⟨statuses,final,_⟩ := after_alike (n := n) alike fun j below =>
    absurd (none ▸ below) (Nat.not_lt_zero j)
  exact ⟨statuses,final⟩

-- Wandering, and wandering only, reads on in the source of chance. What it reads decides where
-- it turns, and nothing else of a source matters.
theorem wanders_in_order (m : Standard W) (requests : List Request) :
    let source := m.pointer.source
    let past := wanders (m.history requests)
    (∀ j s, past[j]? = some s →
      s.pointer.source = drawn j source ∧ s.step.2.pointer.source = drawn (j + 1) source ∧
        (∀ h, heading? j source = some h → s.step.1 = .moved ∧ s.step.2.heading = h) ∧
        (heading? j source = none → s.Lost)) ∧
    (m.serveAll requests).2.pointer.source = drawn past.length source ∧
    (∀ (s : Standard W) program, (s.load program).pointer.source = s.pointer.source) ∧
    (∀ s : Standard W, ¬ s.Executes .wander → s.step.2.pointer.source = s.pointer.source) ∧
    (∀ j h, heading? j source = some h →
      ∃ i, tally i source = j ∧ Heading.ofWord? (word i source) = some h ∧
        drawn (j + 1) source = skip (i + 1) source) ∧
    (∀ i h, Heading.ofWord? (word i source) = some h → heading? (tally i source) source = some h) ∧
    (∀ (m' : Standard W') k, Alike m m' → (∀ j < k, heading? j source = heading? j m'.pointer.source) →
      ∀ n, wanderings n m ≤ k →
        (∀ t < n, (after t m').step.1 = (after t m).step.1) ∧ Alike (after n m) (after n m')) ∧
    (∀ (m' : Standard W') n, Alike m m' → (∀ t < n, ¬ (after t m).Executes .wander) →
      (∀ t < n, (after t m').step.1 = (after t m).step.1) ∧ Alike (after n m) (after n m')) := by
  intro source past
  have drawing := Drawing.serveAll m requests
  refine ⟨?_,drawing.now,fun _ _ => rfl,?_,fun _ _ found => heading_word found,
    fun _ _ offered => heading_offered offered,?_,?_⟩
  · intro j s found
    obtain ⟨here,executes⟩ := drawing.at found
    rw [← heading_drawn,← here]
    refine ⟨rfl,?_,?_,?_⟩
    · rw [step_source,if_pos executes,here]
      rfl
    · intro h heading
      exact step_wander executes heading
    · intro nothing
      exact lost_endless.mpr ⟨executes,draw_none.mp (Option.map_eq_none_iff.mp nothing)⟩
  · intro s other
    rw [step_source,if_neg other]
  · intro m' k alike agree n few
    obtain ⟨statuses,final,_⟩ := after_alike alike fun j below => agree j (Nat.lt_of_lt_of_le below few)
    exact ⟨statuses,final⟩
  · intro m' n alike never
    exact after_calm alike never

theorem wanders_in_order_seeded :
    let m := (Standard.fresh (Keystream.ofSeed 0)).load "?4.3"
    let m' := (Standard.fresh (Listed.mk [0x2000000000000000,0xC000000000000000])).load "?4.3"
    m.step.2.heading = .west ∧ (∀ t < 4, (after t m').step.1 = (after t m).step.1) ∧
      Alike (after 4 m) (after 4 m') := by
  intro m m'
  have executes : m.Executes .wander := by decide +kernel
  have refused : tally 1 m.pointer.source = 0 := by decide +kernel
  have west : Heading.ofWord? (word 1 m.pointer.source) = some .west := by decide +kernel
  have agree : ∀ j < 1, heading? j m.pointer.source = heading? j m'.pointer.source := by decide +kernel
  have once : wanderings 4 m ≤ 1 := by decide +kernel
  have past : (wanders (m.history [.step]))[0]? = some m := by simp [history,moments,wanders,executes]
  obtain ⟨turns,_,_,_,_,offered,alike,_⟩ := @wanders_in_order Keystream Listed _ _ m [.step]
  have first := offered 1 .west west
  rw [refused] at first
  exact ⟨((turns 0 m past).2.2.1 .west first).2,
    alike m' 1 ⟨rfl,⟨rfl,rfl⟩,rfl,rfl,rfl⟩ agree 4 once⟩

end Machine
end Funge

import Funge.Machine
import Funge.Random.Listed

namespace Funge.Machine
variable {A P S : Type} [StackUnit A] [PointerUnit P] [StoreUnit S]

-- A machine comes to rest once and for all; this is when.
def HaltsAt (m : Machine A P S) (n : Nat) : Prop := (after n m).Halted ∧ ∀ k < n, ¬ (after k m).Halted

instance (m : Machine A P S) (n : Nat) : Decidable (m.HaltsAt n) := inferInstanceAs (Decidable (_ ∧ _))

def stage (m : Machine A P S) (program : String) (n : Nat) : Machine A P S := after n (m.load program)

theorem after_succ (n : Nat) (m : Machine A P S) : after (n + 1) m = (after n m).step.2 := after_add n 1 m

theorem halts_first {m : Machine A P S} {n : Nat} (halted : (after n m).Halted) : ∃ k ≤ n, m.HaltsAt k := by
  induction n generalizing m with
  | zero => exact ⟨0,Nat.le_refl _,halted,fun k below => absurd below (Nat.not_lt_zero k)⟩
  | succ n ih =>
    by_cases now : m.Halted
    · exact ⟨0,Nat.zero_le _,now,fun k below => absurd below (Nat.not_lt_zero k)⟩
    · obtain ⟨k,bound,rest,earlier⟩ := ih halted
      refine ⟨k + 1,Nat.succ_le_succ bound,rest,?_⟩
      intro j below
      cases j with
      | zero => exact now
      | succ j => exact earlier j (Nat.lt_of_succ_lt_succ below)

theorem after_later {m : Machine A P S} {k n : Nat} (rest : (after k m).step.1 ≠ .moved) (late : k ≤ n) :
    after n m = after k m := by
  obtain ⟨more,rfl⟩ := Nat.exists_eq_add_of_le late
  rw [after_add,after_rest more rest]

theorem Halted.later {m : Machine A P S} {k n : Nat} (halted : (after k m).Halted) (late : k ≤ n) :
    (after n m).Halted := by
  rwa [after_later halted.rests late]

theorem halted_exact {m : Machine A P S} {n : Nat} : (after n m).Halted ↔ ∃ k ≤ n, m.HaltsAt k := by
  constructor
  · exact halts_first
  · rintro ⟨k,within,first⟩
    exact Halted.later first.1 within

theorem after_min {m : Machine A P S} {k : Nat} (first : m.HaltsAt k) (n : Nat) : after (min n k) m = after n m := by
  rcases Nat.le_total n k with early | late
  · rw [Nat.min_eq_left early]
  · rw [Nat.min_eq_right late,after_later first.1.rests late]

theorem Lost.unhalted {m : Machine A P S} {k : Nat} (lost : (after k m).Lost) (n : Nat) : ¬ (after n m).Halted := by
  intro halted
  rcases Nat.le_total n k with early | late
  · exact lost.running (Halted.later halted early)
  · rw [after_later lost.rests late] at halted
    exact lost.running halted

theorem HaltsAt.moved {m : Machine A P S} {n k : Nat} (first : m.HaltsAt n) (below : k < n) :
    (after k m).step.1 = .moved := moved_iff.mpr ⟨first.2 k below,fun lost => lost.unhalted n first.1⟩

theorem after_steps {m : Machine A P S} {n : Nat} (moved : ∀ k < n, (after k m).step.1 = .moved) :
    (after n m).steps = m.steps + .ofNat n := by
  induction n with
  | zero => exact (UInt64.add_zero _).symm
  | succ n ih =>
    have before := ih fun k below => moved k (Nat.lt_succ_of_lt below)
    rw [after_succ,step_steps (moved n (Nat.lt_succ_self n)),before,UInt64.ofNat_add,UInt64.add_assoc]
    rfl

theorem spend_ended {m : Machine A P S} {limit : UInt64} {result : Except BudgetSpent UInt64}
    (ended : m.ending? limit = some result) : m.spend limit = (some result,m) := by
  rw [spend]
  split
  · rename_i found
    rw [← ended,found]
  · rename_i unended
    rw [ended] at unended
    cases unended

theorem spend_unended {m : Machine A P S} {limit : UInt64} (unended : m.ending? limit = none) :
    m.spend limit = if m.step.1 = .moved then m.step.2.spend limit else (none,m.step.2) := by
  rw [spend]
  split
  · rename_i ended
    rw [unended] at ended
    cases ended
  · rfl

theorem spend_exact {m : Machine A P S} {limit : UInt64} {n : Nat} (budget : m.steps.toNat + n = limit.toNat) :
    m.spend limit = ((after n m).ending? limit,after n m) := by
  -- On what is left of the budget: it makes up the limit with the counter at every turn.
  induction n generalizing m with
  | zero =>
    cases ended : m.ending? limit with
    | some result => rw [spend_ended ended,after,ended]
    | none => exact absurd (UInt64.le_iff_toNat_le.mpr (by omega)) (ending_none ended).2
  | succ n ih =>
    cases ended : m.ending? limit with
    | some result =>
      have halted : m.Halted := by
        apply Decidable.not_not.mp
        intro running
        have unspent : ¬ limit ≤ m.steps := by
          rw [UInt64.le_iff_toNat_le]
          omega
        rw [ending?,if_neg running,if_neg unspent] at ended
        cases ended
      rw [spend_ended ended,after_rest _ halted.rests,ended]
    | none =>
      rw [spend_unended ended]
      by_cases moved : m.step.1 = .moved
      · rw [if_pos moved,after]
        apply ih
        rw [step_steps moved,steps_below (ending_none ended).2]
        omega
      · rw [if_neg moved,after_rest _ moved,step_rest moved,ended]

theorem runWithin_stage (m : Machine A P S) (program : String) (limit : UInt64) :
    m.runWithin program limit = ((m.stage program limit.toNat).ending? limit,m.stage program limit.toNat) :=
  spend_exact (Nat.zero_add _)

theorem stage_steps {m : Machine A P S} {program : String} {n : Nat}
    (moved : ∀ k < n, (m.stage program k).step.1 = .moved) : (m.stage program n).steps = .ofNat n := by
  have counted := after_steps moved
  rwa [show (m.load program).steps = 0 from rfl,UInt64.zero_add] at counted

theorem runWithin_halted {m : Machine A P S} {program : String} {limit : UInt64} {n : Nat}
    (first : (m.load program).HaltsAt n) (within : n ≤ limit.toNat) :
    m.runWithin program limit = (some (.ok (.ofNat n)),m.stage program n) := by
  have halted : (m.stage program n).Halted := first.1
  have rest : m.stage program limit.toNat = m.stage program n := after_later halted.rests within
  rw [runWithin_stage,rest,ending?,if_pos halted,stage_steps fun k below => first.moved below]

theorem runWithin_running {m : Machine A P S} {program : String} {limit : UInt64}
    (running : ¬ (m.stage program limit.toNat).Halted) (found : ∀ k < limit.toNat, ¬ (m.stage program k).Lost) :
    m.runWithin program limit =
      (some (.error ⟨limit,(m.stage program limit.toNat).position⟩),m.stage program limit.toNat) ∧
      (m.stage program limit.toNat).steps = limit := by
  have moved : ∀ k < limit.toNat, (m.stage program k).step.1 = .moved := by
    intro k below
    exact moved_iff.mpr ⟨fun halted => running (Halted.later halted (Nat.le_of_lt below)),found k below⟩
  have counted : (m.stage program limit.toNat).steps = limit := by
    rw [stage_steps moved,UInt64.ofNat_toNat]
  refine ⟨?_,counted⟩
  rw [runWithin_stage,ending?,if_neg running,if_pos (by rw [counted]; exact UInt64.le_refl _)]

theorem after_steps_le (n : Nat) (m : Machine A P S) : (after n m).steps.toNat ≤ m.steps.toNat + n := by
  induction n with
  | zero => exact Nat.le_refl _
  | succ n ih =>
    rw [after_succ]
    by_cases moved : (after n m).step.1 = .moved
    · have one : (1 : UInt64).toNat = 1 := rfl
      rw [step_steps moved,UInt64.toNat_add,one]
      exact Nat.le_trans (Nat.mod_le _ _) (Nat.succ_le_succ ih)
    · rw [step_rest moved]
      omega

theorem runWithin_lost {m : Machine A P S} {program : String} {limit : UInt64} {k : Nat}
    (lost : (m.stage program k).Lost) (below : k < limit.toNat) :
    m.runWithin program limit = (none,m.stage program k) := by
  have rest : m.stage program limit.toNat = m.stage program k := after_later lost.rests (Nat.le_of_lt below)
  have unspent : ¬ limit ≤ (m.stage program k).steps := by
    have counted : (m.stage program k).steps.toNat ≤ 0 + k := after_steps_le k (m.load program)
    rw [UInt64.le_iff_toNat_le]
    omega
  rw [runWithin_stage,rest,ending?,if_neg lost.running,if_neg unspent]

theorem runWithin_none {m : Machine A P S} {program : String} {limit : UInt64} :
    (m.runWithin program limit).1 = none ↔ ∃ k < limit.toNat, (m.stage program k).Lost := by
  constructor
  · intro nothing
    apply Decidable.not_not.mp
    intro found
    simp only [not_exists,not_and] at found
    by_cases halted : (m.stage program limit.toNat).Halted
    · obtain ⟨n,within,first⟩ := halts_first halted
      rw [runWithin_halted first within] at nothing
      cases nothing
    · rw [(runWithin_running halted found).1] at nothing
      cases nothing
  · rintro ⟨k,below,lost⟩
    rw [runWithin_lost lost below]

theorem runWithin_ok {m : Machine A P S} {program : String} {limit n : UInt64}
    (ended : (m.runWithin program limit).1 = some (.ok n)) : n ≤ limit ∧ (m.load program).HaltsAt n.toNat := by
  have halted : (m.stage program limit.toNat).Halted := by
    apply Decidable.not_not.mp
    intro running
    rw [runWithin_stage,ending?,if_neg running] at ended
    split at ended
    · cases ended
    · cases ended
  obtain ⟨k,within,first⟩ := halts_first halted
  have counted : n = .ofNat k := by
    rw [runWithin_halted first within] at ended
    cases ended
    rfl
  have small : k < UInt64.size := Nat.lt_of_le_of_lt within limit.toNat_lt_size
  have number : n.toNat = k := by rw [counted,UInt64.toNat_ofNat_of_lt' small]
  rw [UInt64.le_iff_toNat_le,number]
  exact ⟨within,first⟩

theorem runWithin_mono {m : Machine A P S} {program : String} {limit larger n : UInt64} (le : limit ≤ larger)
    (ended : (m.runWithin program limit).1 = some (.ok n)) :
    m.runWithin program larger = m.runWithin program limit := by
  obtain ⟨within,first⟩ := runWithin_ok ended
  rw [UInt64.le_iff_toNat_le] at within le
  rw [runWithin_halted first within,runWithin_halted first (Nat.le_trans within le)]

theorem run_stage (m : Machine A P S) (program : String) (fuel : Nat) :
    m.run? program fuel = if (m.stage program fuel).Halted then some (m.stage program fuel) else none := by
  unfold run? stage
  rw [drive_exact]

theorem run_exact (m : Machine A P S) (program : String) (fuel : Nat) (final : Machine A P S) :
    m.run? program fuel = some final ↔ ∃ k ≤ fuel, (m.load program).HaltsAt k ∧ final = m.stage program k := by
  rw [run_stage]
  constructor
  · intro ended
    split at ended
    · rename_i halted
      obtain ⟨k,within,first⟩ := halts_first halted
      cases ended
      exact ⟨k,within,first,after_later first.1.rests within⟩
    · cases ended
  · rintro ⟨k,within,first,rfl⟩
    have halted : (m.stage program k).Halted := first.1
    have rest : m.stage program fuel = m.stage program k := after_later halted.rests within
    rw [rest,if_pos halted]

theorem run_lost {m : Machine A P S} {program : String} {k : Nat} (lost : (m.stage program k).Lost) (fuel : Nat) :
    m.run? program fuel = none := by
  have running : ¬ (m.stage program fuel).Halted := lost.unhalted fuel
  rw [run_stage,if_neg running]

-- Step by step, within a budget and without one, a machine is driven to the same place. A
-- budget as large as the halting time is enough.
theorem runWithin_exact (m : Machine A P S) (program : String) (limit : UInt64) :
    (∀ k ≤ limit.toNat, (m.stage program k).Halted →
      ∃ n ≤ k, (m.load program).HaltsAt n ∧
        m.runWithin program limit = (some (.ok (.ofNat n)),m.stage program n) ∧ (m.stage program n).steps = .ofNat n) ∧
    ((∀ k ≤ limit.toNat, ¬ (m.stage program k).Halted) → (∀ k < limit.toNat, ¬ (m.stage program k).Lost) →
      m.runWithin program limit =
        (some (.error ⟨limit,(m.stage program limit.toNat).position⟩),m.stage program limit.toNat) ∧
      (m.stage program limit.toNat).steps = limit) ∧
    (∀ more, limit.toNat + more < UInt64.size →
      after more (m.runWithin program limit).2 = (m.runWithin program (limit + .ofNat more)).2) ∧
    (∀ larger n, limit ≤ larger → (m.runWithin program limit).1 = some (.ok n) →
      m.runWithin program larger = m.runWithin program limit) ∧
    ((m.load program).HaltsAt limit.toNat → (m.runWithin program limit).1 = some (.ok limit)) ∧
    (∀ k, (m.stage program k).Halted →
      ∀ more, (after more (m.stage program k)).step = (.halted,m.stage program k)) ∧
    (∀ fuel final, m.run? program fuel = some final ↔
      ∃ k ≤ fuel, (m.load program).HaltsAt k ∧ final = m.stage program k) ∧
    ((m.runWithin program limit).1 = none ↔ ∃ k < limit.toNat, (m.stage program k).Lost) ∧
    ∀ k, (m.stage program k).Lost →
      (∀ more, (after more (m.stage program k)).step = (.lost,m.stage program k)) ∧ ∀ fuel, m.run? program fuel = none := by
  refine ⟨?_,?_,?_,?_,?_,?_,run_exact m program,runWithin_none,?_⟩
  · intro k within halted
    obtain ⟨n,le,first⟩ := halts_first halted
    exact ⟨n,le,first,runWithin_halted first (Nat.le_trans le within),stage_steps fun k below => first.moved below⟩
  · intro running found
    exact runWithin_running (running _ (Nat.le_refl _)) found
  · intro more bound
    have sum : (limit + .ofNat more).toNat = limit.toNat + more := by
      rw [UInt64.toNat_add,UInt64.toNat_ofNat']
      have size : UInt64.size = 18446744073709551616 := rfl
      omega
    rw [runWithin_stage,runWithin_stage,sum]
    exact (after_add _ _ _).symm
  · intro larger n le ended
    exact runWithin_mono le ended
  · intro first
    rw [runWithin_halted first (Nat.le_refl _),UInt64.ofNat_toNat]
  · intro k halted more
    rw [after_rest more halted.rests]
    exact step_halted _ halted
  · intro k lost
    refine ⟨?_,run_lost lost⟩
    intro more
    rw [after_rest more lost.rests]
    exact Prod.ext lost (step_rest lost.rests)

theorem runWithin_just_enough : ((Standard.fresh (Listed.mk [])).runWithin "1@" 1).1 = some (.ok 1) :=
  (runWithin_exact (Standard.fresh (Listed.mk [])) "1@" 1).2.2.2.2.1 (by decide +kernel)

end Funge.Machine

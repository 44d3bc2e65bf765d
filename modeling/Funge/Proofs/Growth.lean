import Funge.Proofs.Frame
import Funge.Proofs.PointerBox

namespace Funge

theorem Stack.depth_push (s : Stack) (v : Number) : (StackUnit.push s v).depth = s.depth + 1 := rfl

theorem Stack.depth_pop (s : Stack) : (StackUnit.pop s).2.depth = s.depth - 1 := List.length_tail

theorem size_repr (n : Nat) : n.repr.utf8ByteSize = n.repr.length := by
  have digit : ∀ d < 10, (Nat.digitChar d).utf8Size = 1 := by decide
  induction n using Nat.strongRecOn with
  | ind n ih =>
    rcases Nat.lt_or_ge n 10 with short | long
    · rw [Nat.repr_of_lt short,String.utf8ByteSize_singleton,digit n short,String.length_singleton]
    · rw [Nat.repr_of_ge long,String.utf8ByteSize_append,String.length_append,ih (n / 10) (by omega),
        String.utf8ByteSize_singleton,digit (n % 10) (by omega),String.length_singleton]

theorem size_decimal (v : Number) : (Number.decimal v).utf8ByteSize ≤ 20 := by
  have low := v.minValue_le_toInt
  have high := v.toInt_le
  have least : Int64.minValue.toInt = -9223372036854775808 := rfl
  have largest : Int64.maxValue.toInt = 9223372036854775807 := rfl
  have digits : ∀ n, n ≤ 9223372036854775808 → n.repr.utf8ByteSize ≤ 19 := by
    intro n small
    rw [size_repr,Nat.length_repr_le_iff (by decide)]
    omega
  unfold Number.decimal Int.repr
  split
  · rename_i n value
    rw [Int.ofNat_eq_natCast] at value
    have bound := digits n (by omega)
    omega
  · rename_i n value
    have bound := digits n.succ (by omega)
    have sign : "-".utf8ByteSize = 1 := rfl
    rw [String.utf8ByteSize_append,sign]
    omega

namespace Playfield
variable {f : Playfield}

theorem size_remote_set (f : Playfield) (p : Position) (c : Char) :
    (f.set p c).remote.size ≤ f.remote.size + if Near p then 0 else 1 := by
  rw [remote_set]
  split
  · exact Nat.le_refl _
  · exact Std.HashMap.size_insert_le

def Apart (f : Playfield) : Prop := ∀ p ∈ f.remote, ¬ Near p

theorem apart_ofRows (rows : List (List Char)) : (ofRows rows).Apart :=
  fun _ listed => absurd listed Std.HashMap.not_mem_empty

theorem Apart.set (apart : f.Apart) (p : Position) (c : Char) : (f.set p c).Apart := by
  intro q listed
  rw [remote_set] at listed
  split at listed
  · exact apart q listed
  · rename_i far
    rcases Std.HashMap.mem_insert.mp listed with same | earlier
    · rwa [← eq_of_beq same]
    · exact apart q earlier

end Playfield

namespace Machine
variable {W : Type}

def PutsApart [WordSource W] (m : Standard W) : Prop := m.Executes .put ∧ ¬ Playfield.Near m.target

instance [WordSource W] (m : Standard W) : Decidable m.PutsApart := inferInstanceAs (Decidable (_ ∧ _))

variable [WordSource W] {m : Standard W}

theorem perform_depth (m : Standard W) (i : Instruction) :
    (m.perform i).stack.depth ≤ max 1 m.stack.depth + 1 := by
  cases i <;>
    simp only [perform,branch,write,put,get,StackUnit.digit,StackUnit.operate,StackUnit.greater,StackUnit.combine,
      StackUnit.negate,StackUnit.duplicate,StackUnit.swap,Stack.depth_push,Stack.depth_pop] <;>
    omega

theorem step_depth (m : Standard W) : max 1 m.step.2.stack.depth ≤ max 1 m.stack.depth + 1 := by
  rcases m.step_cases with ⟨_,rest⟩ | ⟨_,spelt⟩ | ⟨i,s,_,executed,stepped⟩ | ⟨_,_,strayed⟩
  · rw [rest]
    exact Nat.le_succ _
  · have pushed : m.spell.proceed.stack.depth = m.stack.depth + 1 := rfl
    rw [spelt,pushed]
    omega
  · rw [stepped]
    rcases execute_some.mp executed with ⟨_,rfl⟩ | ⟨_,p,_,rfl⟩
    · have bound := perform_depth m i
      show max 1 (m.perform i).stack.depth ≤ _
      omega
    · exact Nat.le_succ _
  · rw [strayed]
    exact Nat.le_succ _

theorem size_piece (m : Standard W) : (m.piece?.getD "").utf8ByteSize ≤ 20 := by
  unfold piece?
  dsimp only
  split
  · exact size_decimal _
  · split
    · rw [Option.getD_some,String.utf8ByteSize_singleton]
      exact Nat.le_trans (Char.utf8Size_le_four _) (by decide)
    · exact Nat.zero_le 20

theorem step_printed (m : Standard W) : m.step.2.store.printout.size ≤ m.store.printout.size + 20 := by
  have bytes := congrArg String.utf8ByteSize (step_output m)
  rw [String.utf8ByteSize_append] at bytes
  exact Nat.le_trans (Nat.le_of_eq bytes) (Nat.add_le_add_left (size_piece m) _)

theorem step_remote (m : Standard W) :
    m.step.2.store.playfield.remote.size ≤ m.store.playfield.remote.size + if m.PutsApart then 1 else 0 := by
  rw [step_playfield]
  by_cases puts : m.Executes .put
  · rw [if_pos puts]
    have bound := m.store.playfield.size_remote_set m.target (glyph (m.operand 2))
    by_cases near : Playfield.Near m.target
    · rw [if_pos near] at bound
      rw [if_neg fun apart => apart.2 near]
      exact bound
    · rw [if_neg near] at bound
      rw [if_pos ⟨puts,near⟩]
      exact bound
  · rw [if_neg puts]
    exact Nat.le_add_right ..

theorem after_adds (measure : Standard W → Nat) {most : Nat}
    (step : ∀ s : Standard W, measure s.step.2 ≤ measure s + most) (n : Nat) (m : Standard W) :
    measure (after n m) ≤ measure m + most * n := by
  induction n with
  | zero => exact Nat.le_refl _
  | succ n ih =>
    have next := step (after n m)
    rw [after_succ,Nat.mul_succ]
    omega

theorem after_remote (n : Nat) (m : Standard W) :
    (after n m).store.playfield.remote.size ≤
      m.store.playfield.remote.size + (List.range n).countP fun k => (after k m).PutsApart := by
  induction n with
  | zero => exact Nat.le_refl _
  | succ n ih =>
    have next := step_remote (after n m)
    rw [after_succ,List.range_succ,List.countP_append,List.countP_singleton]
    simp only [decide_eq_true_eq]
    omega

theorem stage_grows (m : Standard W) (program : String) {a b : Nat} (le : a ≤ b) :
    (m.stage program a).store.playfield.Grows (m.stage program b).store.playfield :=
  stage_writes (fun f p c grown => grown.trans (f.grows_set p c)) le (.refl _)

structure Duplicating (s : Standard W) : Prop where
  command : s.mode = .command
  playfield : s.store.playfield = .ofRows [[':']]
  position : s.pointer.position = .origin
  heading : s.pointer.heading = .east

theorem Duplicating.step (duplicating : m.Duplicating) :
    m.step.2.Duplicating ∧ m.step.2.stack.depth = max 1 m.stack.depth + 1 := by
  obtain ⟨command,playfield,position,heading⟩ := duplicating
  have cell : m.cell = ':' := by
    show m.store.playfield.get m.pointer.position = ':'
    rw [playfield,position]
    decide +kernel
  have executes : m.Executes .duplicate := ⟨by simp [Halted,cell],.inl command,by rw [cell]; decide⟩
  rw [step_performs executes (by decide)]
  refine ⟨⟨command,playfield,?_,heading⟩,?_⟩
  · show (Extents.mk m.store.playfield.height m.store.playfield.width).advance m.pointer.heading m.pointer.position = _
    rw [playfield,position,heading]
    decide +kernel
  · show (StackUnit.duplicate m.stack).depth = _
    simp only [StackUnit.duplicate,Stack.depth_push,Stack.depth_pop]
    omega

theorem stage_duplicating (m : Standard W) (n : Nat) :
    (m.stage ":" n).Duplicating ∧ max 1 (m.stage ":" n).stack.depth = n + 1 := by
  induction n with
  | zero =>
    have rows : Text.rows ":".toList = [[':']] := by decide
    exact ⟨⟨rfl,congrArg Playfield.ofRows rows,rfl,rfl⟩,rfl⟩
  | succ n ih =>
    obtain ⟨next,depth⟩ := ih.1.step
    rw [stage,after_succ,← stage]
    exact ⟨next,by omega⟩

-- So many steps make a machine no larger than this. The depth of the stack is reached by a
-- program that does nothing but duplicate.
theorem stage_bounded (m : Standard W) (program : String) (n : Nat) :
    let loaded := (m.load program).store
    let s := m.stage program n
    let f := s.store.playfield
    s.stack.depth ≤ n + 1 ∧
    s.store.printout.size ≤ loaded.printout.size + 20 * n ∧
    (f.height ≤ max 65536 loaded.playfield.height ∧ ∀ y, f.width y ≤ max 65536 (loaded.playfield.width y)) ∧
    (∀ k ≤ n, (m.stage program k).store.playfield.height ≤ f.height ∧
      ∀ y, (m.stage program k).store.playfield.width y ≤ f.width y) ∧
    f.remote.size ≤ ((List.range n).countP fun k => (m.stage program k).PutsApart) ∧
    (∀ p ∈ f.remote, ¬ Playfield.Near p) ∧
    (0 < n → (m.stage ":" n).stack.depth = n + 1) := by
  intro loaded s f
  have grown := m.stage_grows program (Nat.zero_le n)
  refine ⟨?_,?_,⟨grown.height.2,fun y => (grown.width y).2⟩,?_,?_,?_,?_⟩
  · have bound : max 1 s.stack.depth ≤ 1 + 1 * n :=
      after_adds (fun s : Standard W => max 1 s.stack.depth) step_depth n (m.load program)
    omega
  · exact after_adds (fun s : Standard W => s.store.printout.size) step_printed n (m.load program)
  · intro k earlier
    have since := m.stage_grows program earlier
    exact ⟨since.height.1,fun y => (since.width y).1⟩
  · have none : (m.load program).store.playfield.remote.size = 0 := rfl
    have counted := after_remote n (m.load program)
    rw [none,Nat.zero_add] at counted
    exact counted
  · have start : (m.stage program 0).store.playfield.Apart := Playfield.apart_ofRows _
    exact stage_writes (fun f p c apart => apart.set p c) (Nat.zero_le n) start
  · intro some
    have depth := (m.stage_duplicating n).2
    omega

theorem stage_bounded_apart :
    let m := Standard.fresh (Listed.mk [])
    let program := "01-01-0p@"
    (m.stage program 8).store.playfield.remote.size ≤ 1 ∧
      (⟨-1,0⟩ ∈ (m.stage program 8).store.playfield.remote ∧ ¬ Playfield.Near ⟨-1,0⟩) ∧
      (m.stage program 2).store.playfield.height ≤ (m.stage program 8).store.playfield.height ∧
      (m.stage ":" 3).stack.depth = 4 := by
  intro m program
  obtain ⟨_,_,_,since,counted,far,_⟩ := stage_bounded m program 8
  obtain ⟨_,_,_,_,_,_,reached⟩ := stage_bounded m program 3
  have once : ((List.range 8).countP fun k => (m.stage program k).PutsApart) = 1 := by decide +kernel
  have puts : (m.stage program 7).Executes .put := by decide +kernel
  have target : (m.stage program 7).target = ⟨-1,0⟩ := by decide +kernel
  have last : m.stage program 8 = (m.stage program 7).step.2 := after_succ 7 _
  have stored : ⟨-1,0⟩ ∈ (m.stage program 8).store.playfield.remote := by
    rw [last,step_playfield,if_pos puts,target,Playfield.remote_set,if_neg (by decide)]
    exact Std.HashMap.mem_insert_self
  rw [once] at counted
  exact ⟨counted,⟨stored,far _ stored⟩,(since 2 (by decide)).1,reached (by decide)⟩

end Machine
end Funge

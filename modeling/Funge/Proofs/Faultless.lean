import Funge.Checked
import Funge.Proofs.Chance

namespace Funge.Checked
open WordSource

def Decoded.of : Instruction → Decoded
  | .digit d => .digit (UInt8.ofNat d.val)
  | i => .other i

theorem of_ofMark (c : Char) : Decoded.of (.ofMark c) = .other (.ofMark c) := by
  unfold Instruction.ofMark
  split <;> rfl

theorem byte_ok (c : Char) : byteOf? c = .ok ((Instruction.digitOf? c).map fun d => UInt8.ofNat d.val) := by
  unfold byteOf? Instruction.digitOf?
  split
  · rename_i between
    have small : c.toNat < UInt8.size := Nat.lt_of_le_of_lt between.2 (by decide)
    have byte : (UInt8.ofNat c.toNat).toNat = c.toNat := UInt8.toNat_ofNat_of_lt' small
    have base : (48 : UInt8).toNat = 48 := rfl
    have above : ¬ UInt8.ofNat c.toNat < 48 := by
      rw [UInt8.lt_iff_toNat_lt]
      omega
    have distance : UInt8.ofNat c.toNat - 48 = UInt8.ofNat (c.toNat - 48) := by
      rw [UInt8.ofNat_sub between.1]
      rfl
    simp [above,distance]
  · rfl

theorem decode_ok (c : Char) : decode c = .ok (.of (.decode c)) := by
  unfold decode Instruction.decode
  cases Operator.ofSymbol? c with
  | some op => rfl
  | none =>
    cases Heading.ofArrow? c with
    | some h => rfl
    | none =>
      rw [byte_ok]
      cases Instruction.digitOf? c with
      | some d => rfl
      | none => exact congrArg Except.ok (of_ofMark c).symm

theorem digit_ok (d : Fin 10) (s : Stack) : digit (UInt8.ofNat d.val) s = .ok (StackUnit.digit d s) := by
  have byte : (UInt8.ofNat d.val).toNat = d.val := UInt8.toNat_ofNat_of_lt' (Nat.lt_trans d.isLt (by decide))
  have nine : (9 : UInt8).toNat = 9 := rfl
  have small : UInt8.ofNat d.val ≤ 9 := by
    rw [UInt8.le_iff_toNat_le]
    omega
  rw [digit,if_pos small,byte]
  rfl

theorem apply_ok (op : Operator) (a b : Number) : apply op a b = .ok (op.apply a b) := by
  cases op with
  | divide =>
    by_cases zero : b = 0
    · simp [apply,quotient?,Operator.apply,zero]
    · by_cases least : a = Int64.minValue ∧ b = -1
      · simp [apply,quotient?,Operator.apply,least,divide]
      · simp [apply,quotient?,Operator.apply,zero,least]
  | modulo => by_cases zero : b = 0 <;> simp [apply,remainder,Operator.apply,zero]
  | _ => rfl

theorem operate_ok (op : Operator) (s : Stack) : operate op s = .ok (StackUnit.operate op s) := by
  simp only [operate,apply_ok]
  rfl

theorem wrap_ok (coordinate : Int64) (extent : Nat) : wrap coordinate extent = .ok (Funge.wrap coordinate extent) := by
  by_cases fits : (extent : Int) ≤ Int64.maxValue.toInt
  · have largest : Int64.maxValue.toInt = 9223372036854775807 := rfl
    have number : (Int64.ofNat extent).toInt = extent := Int64.toInt_ofNat_of_lt (by omega)
    have zero : (0 : Int64).toInt = 0 := rfl
    by_cases empty : extent = 0
    · subst empty
      rfl
    · have positive : 0 < Int64.ofNat extent := by
        rw [Int64.lt_iff_toInt_lt,number,zero]
        omega
      have reducing : Reducing extent := ⟨by omega,fits⟩
      have above : ¬ Int64.ofNat extent ≤ 0 := Int64.not_le.mpr positive
      rw [wrap,if_pos ⟨fits,positive⟩,modulo,if_neg above,Funge.wrap,if_pos reducing,number]
  · have pinned : ¬ Reducing extent := fun reducing => fits reducing.2
    rw [wrap,if_neg fun both => fits both.1,Funge.wrap,if_neg pinned]

theorem rightpad_long {α : Type} {xs : Array α} {n : Nat} (a : α) (long : n ≤ xs.size) : xs.rightpad n a = xs := by
  simp [Array.rightpad,Nat.sub_eq_zero_of_le long]

theorem pad_ok {α : Type} (xs : Array α) (n : Nat) (a : α) :
    (if xs.size ≤ n then xs.rightpad (n + 1) a else xs) = xs.rightpad (n + 1) a := by
  split
  · rfl
  · rename_i there
    exact (rightpad_long a (Nat.lt_of_not_le there)).symm

theorem set_modify {α : Type} (xs : Array α) (i : Nat) (f : α → α) (inside : i < xs.size) :
    xs.set i (f xs[i]) = xs.modify i f := by
  apply Array.ext_getElem?
  intro j
  rw [Array.getElem?_set,Array.getElem?_modify]
  split
  · rename_i same
    subst same
    rw [Array.getElem?_eq_getElem inside]
    rfl
  · rfl

theorem set_ok (f : Playfield) (p : Position) (c : Char) : set f p c = .ok (f.set p c) := by
  unfold set Playfield.set
  split
  · have row : p.y.toNatClampNeg < (f.rows.rightpad (p.y.toNatClampNeg + 1) #[]).size := by
      rw [Array.size_rightpad]
      omega
    have column : ∀ cells : Array Char, p.x.toNatClampNeg < (cells.rightpad (p.x.toNatClampNeg + 1) ' ').size := by
      intro cells
      rw [Array.size_rightpad]
      omega
    have written : ∀ cells, (cells.rightpad (p.x.toNatClampNeg + 1) ' ').set p.x.toNatClampNeg c (column cells) =
        Playfield.setRow cells p.x.toNatClampNeg c := by
      intro cells
      rw [Playfield.setRow,Array.setIfInBounds_def,dif_pos (column cells)]
    simp only [pad_ok,row,column,written,dif_pos]
    rw [← set_modify _ _ _ row]
  · rfl

variable {W : Type}

theorem advance_ok (e : Extents) (p : Pointer W) :
    advance e p = .ok { p with position := e.advance p.heading p.position } := by
  unfold advance Extents.advance
  simp only [wrap_ok]
  cases p.heading.isVertical <;> rfl

theorem put_ok (m : Standard W) : put m = .ok m.put := by
  simp only [put,set_ok]
  rfl

theorem count_ok {limit steps : UInt64} (unspent : ¬ limit ≤ steps) : count steps = .ok (steps + 1) := by
  have room : steps.toNat + 1 < UInt64.size := by
    rw [← Machine.steps_below unspent]
    exact UInt64.toNat_lt_size _
  rw [count,if_pos room]

theorem headingAt_ok {word : UInt64} (accepted : ¬ word.toNat.testBit 61) :
    ∃ h, headingAt (word >>> 62).toNat = .ok h ∧ Heading.ofWord? word = some h := by
  have below : (word >>> 62).toNat < Heading.all.length := by
    have bound := word.toNat_lt
    have top : (word >>> 62).toNat = word.toNat / 4611686018427387904 := by
      rw [UInt64.toNat_shiftRight,Nat.shiftRight_eq_div_pow]
      rfl
    have four : Heading.all.length = 4 := rfl
    omega
  have there := List.getElem?_eq_getElem below
  refine ⟨Heading.all[(word >>> 62).toNat],?_,?_⟩
  · rw [headingAt,there]
  · rw [Heading.ofWord?,if_neg accepted,there]

variable [WordSource W]

theorem drawWithin_ok {n : Nat} {w : W} {drawn : Heading × W} (found : Funge.drawWithin n w = some drawn) :
    drawWithin n w = .ok drawn := by
  induction n generalizing w with
  | zero => cases found
  | succ n ih =>
    by_cases refused : (Words.next w).1.toNat.testBit 61
    · have nothing : Heading.ofWord? (Words.next w).1 = none := if_pos refused
      simp only [Funge.drawWithin,nothing] at found
      rw [drawWithin,if_pos refused]
      exact ih found
    · obtain ⟨h,index,word⟩ := headingAt_ok refused
      simp only [Funge.drawWithin,word,Option.some.injEq] at found
      rw [drawWithin,if_neg refused,index,← found]
      rfl

theorem wander_ok {p q : Pointer W} (led : p.wander = some q) : wander p = .ok q := by
  obtain ⟨drawn,found,rfl⟩ := Machine.wander_some.mp led
  have checked : drawWithin (Words.patience p.source) p.source = .ok drawn := drawWithin_ok found
  rw [wander,checked]
  rfl

variable {m s : Standard W}

theorem perform_ok {i : Instruction} (other : i ≠ .stop) (plain : i ≠ .wander) :
    execute m (.of i) = .ok (m.perform i) := by
  cases i with
  | digit d =>
    simp only [Decoded.of,execute,digit_ok]
    rfl
  | operate op =>
    simp only [Decoded.of,execute,operate_ok]
    rfl
  | bridge =>
    simp only [Decoded.of,execute,advance_ok]
    rfl
  | put => exact put_ok m
  | stop => exact absurd rfl other
  | wander => exact absurd rfl plain
  | _ => rfl

theorem execute_ok {i : Instruction} (other : i ≠ .stop) (executed : m.execute i = some s) :
    execute m (.of i) = .ok s := by
  rcases Machine.execute_some.mp executed with ⟨plain,rfl⟩ | ⟨rfl,p,found,rfl⟩
  · exact perform_ok other plain
  · simp only [Decoded.of,execute,wander_ok found]
    rfl

theorem of_quote (i : Instruction) : Decoded.of i = .other .quote ↔ i = .quote := by
  cases i <;> simp [Decoded.of]

theorem dispatch_decoded (m : Standard W) :
    dispatch m m.cell = if m.mode = .quoted ∧ Instruction.decode m.cell ≠ .quote then .ok m.spell
      else execute m (.of (.decode m.cell)) := by
  simp only [dispatch,decode_ok,ne_eq,← of_quote]
  rfl

theorem step_ok {limit : UInt64} (moved : m.step.1 = .moved) (unspent : ¬ limit ≤ m.steps) : step m = .ok m.step := by
  have running := (Machine.moved_iff.mp moved).1
  have checked : ∃ d, m.dispatch m.cell = some d ∧ dispatch m m.cell = .ok d := by
    rw [dispatch_decoded]
    rcases Machine.moved_cases moved with ⟨spells,_⟩ | ⟨i,d,executes,executed,_⟩
    · exact ⟨m.spell,Machine.dispatch_spells spells,if_pos spells.2⟩
    · have heeded : ¬ (m.mode = .quoted ∧ Instruction.decode m.cell ≠ .quote) := fun spelt =>
        Machine.Spells.silent ⟨running,spelt⟩ executes
      have decoded := executes.2.2
      refine ⟨d,(Machine.dispatch_executes executes).trans executed,?_⟩
      rw [if_neg heeded,decoded]
      apply execute_ok _ executed
      rintro rfl
      exact running (Instruction.decode_stop decoded)
  obtain ⟨d,dispatched,ok⟩ := checked
  have uncounted : ¬ limit ≤ d.steps := by rwa [Machine.dispatch_steps dispatched]
  simp only [step,if_neg running,ok]
  rw [Machine.step_moved running dispatched]
  simp only [bind,Except.bind,advance_ok,count_ok uncounted]
  rfl

theorem step_giving (giving : Giving m.pointer.source) : Giving m.step.2.pointer.source := by
  rw [Machine.step_source]
  split
  · exact giving.drawn 1
  · exact giving

theorem spend_ok {limit : UInt64} {turns : Nat} (budget : m.steps.toNat + turns = limit.toNat)
    (giving : Giving m.pointer.source) : spend limit turns m = .ok (m.spend limit) ∧ (m.spend limit).1.isSome := by
  -- What is left of the limit at a turn is enough for all turns that follow.
  induction turns generalizing m with
  | zero =>
    cases ended : m.ending? limit with
    | some result =>
      rw [spend,Machine.spend_ended ended,ended]
      exact ⟨rfl,rfl⟩
    | none => exact absurd (UInt64.le_iff_toNat_le.mpr (by omega)) (Machine.ending_none ended).2
  | succ turns ih =>
    cases ended : m.ending? limit with
    | some result =>
      rw [spend,Machine.spend_ended ended,ended]
      exact ⟨rfl,rfl⟩
    | none =>
      obtain ⟨running,unspent⟩ := Machine.ending_none ended
      have moved : m.step.1 = .moved := Machine.moved_iff.mpr ⟨running,Machine.found_giving giving 0⟩
      have left : m.step.2.steps.toNat + turns = limit.toNat := by
        rw [Machine.step_steps moved,Machine.steps_below unspent]
        omega
      simp only [spend,ended,Machine.spend_unended ended,if_pos moved,step_ok moved unspent]
      exact ih left (step_giving giving)

-- Whatever a machine has been asked for before, a run within a budget ends within as many
-- turns as the budget has steps, and nothing in it goes wrong.
theorem runWithin_faultless (m : Standard W) (requests : List Request) (program : String) (limit : UInt64)
    (giving : Giving m.pointer.source) :
    let reached := (m.serveAll requests).2
    (m.serveAll requests).1.length = requests.length ∧
    runWithin reached program limit limit.toNat = .ok (reached.runWithin program limit) ∧
    (reached.runWithin program limit).1.isSome := by
  intro reached
  have source : Giving reached.pointer.source := by
    rw [(Machine.Drawing.serveAll m requests).now]
    exact giving.drawn _
  have answered : (m.serveAll requests).1.length = requests.length := by
    apply (m.serveAll_answers requests).resolve_right
    rintro ⟨s,past,lost⟩
    exact Machine.history_found giving requests s past lost
  exact ⟨answered,spend_ok (Nat.zero_add _) source⟩

theorem runWithin_faultless_seeded :
    let m := Standard.fresh (Keystream.ofSeed 0)
    ∃ final, runWithin (m.serveAll [.load "1",.step]).2 "?@p1-70/07" 0xFFFFFFFFFFFFFFFF 18446744073709551615 =
      .ok (some (.ok 9),final) := by
  intro m
  have giving : Giving m.pointer.source := Keystream.giving (i := 1) (by decide +kernel)
  have faultless := runWithin_faultless m [.load "1",.step] "?@p1-70/07" 0xFFFFFFFFFFFFFFFF giving
  have halts : ((m.serveAll [.load "1",.step]).2.load "?@p1-70/07").HaltsAt 9 := by decide +kernel
  have within : 9 ≤ (0xFFFFFFFFFFFFFFFF : UInt64).toNat := by decide
  exact ⟨_,faultless.2.1.trans (congrArg Except.ok (Machine.runWithin_halted halts within))⟩

end Funge.Checked

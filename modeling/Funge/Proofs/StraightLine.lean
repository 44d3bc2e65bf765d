import Funge.Proofs.Effects
import Funge.Proofs.Halting
import Funge.Proofs.LastWrite

namespace Funge

def Instruction.straight : Instruction → Bool
  | .turn _ | .wander | .horizontalIf | .verticalIf | .bridge | .put => false
  | _ => true

def Mode.past (mode : Mode) (c : Char) : Mode := if c = '"' then mode.toggle else mode

-- Text that a machine reads from one end to the other, and of which it changes nothing.
-- Between quotes this is so of nearly every text.
def Straight : Mode → List Char → Prop
  | _, [] => True
  | mode, c :: rest =>
    (c ≠ '@' ∧ (mode = .quoted ∨ (Instruction.decode c).straight)) ∧ Straight (mode.past c) rest

theorem straight_append {mode : Mode} {text more : List Char} :
    Straight mode (text ++ more) ↔ Straight mode text ∧ Straight (text.foldl Mode.past mode) more := by
  induction text generalizing mode with
  | nil => exact (and_iff_right trivial).symm
  | cons c rest ih => simp only [List.cons_append,Straight,List.foldl_cons,ih,and_assoc]

theorem straight_marks {is : List Instruction} (plain : ∀ i ∈ is, i.straight ∧ i ≠ .quote ∧ i ≠ .stop) :
    Straight .command (is.map Instruction.mark) := by
  induction is with
  | nil => trivial
  | cons i rest ih =>
    obtain ⟨straight,unquoted,unstopped⟩ := plain i List.mem_cons_self
    have quote : i.mark ≠ '"' := fun same => unquoted (Instruction.mark_inj (j := .quote) same)
    have stop : i.mark ≠ '@' := fun same => unstopped (Instruction.mark_inj (j := .stop) same)
    refine ⟨⟨stop,.inr (by rwa [Instruction.decode_mark])⟩,?_⟩
    rw [Mode.past,if_neg quote]
    exact ih fun j listed => plain j (List.mem_cons_of_mem i listed)

theorem marks_single (is : List Instruction) : '\n' ∉ is.map Instruction.mark := by
  intro listed
  obtain ⟨i,_,mark⟩ := List.mem_map.mp listed
  have blank : i = .blank := by
    rw [← Instruction.decode_mark i,mark]
    rfl
  rw [blank] at mark
  cases mark

theorem straight_cases {mode : Mode} {c : Char} (straight : mode = .quoted ∨ (Instruction.decode c).straight) :
    (mode = .quoted ∧ Instruction.decode c ≠ .quote) ∨
      (mode = .command ∨ Instruction.decode c = .quote) ∧ (Instruction.decode c).straight := by
  by_cases quote : Instruction.decode c = .quote
  · exact .inr ⟨.inr quote,by rw [quote]; rfl⟩
  · cases mode with
    | quoted => exact .inl ⟨rfl,quote⟩
    | command => exact .inr ⟨.inl rfl,straight.resolve_left (by decide)⟩

theorem travel_east {e : Extents} {n : Nat} (short : e.width 0 ≤ 65536) (inside : n < e.width 0) :
    e.travel .east n .origin = ⟨.ofNat n,0⟩ := by
  induction n with
  | zero => rfl
  | succ n ih =>
    have next : (Int64.ofNat (n + 1)).toInt = n + 1 := Int64.toInt_ofNat_of_lt (by omega)
    have fits : Reducing (e.width 0) := by
      have largest : Int64.maxValue.toInt = 9223372036854775807 := rfl
      exact ⟨by omega,by omega⟩
    rw [Extents.travel_add,ih (by omega)]
    show e.advance .east ⟨.ofNat n,0⟩ = _
    rw [Extents.advance_horizontal _ _ rfl]
    show (⟨wrap (.ofNat n + 1) (e.width 0),0⟩ : Position) = _
    rw [show Int64.ofNat n + 1 = .ofNat (n + 1) from (Int64.ofNat_add n 1).symm]
    rw [wrap_inside (by omega) (by omega) fits]

theorem extents_store (s : Store) : StoreUnit.extents s = ⟨s.playfield.height,s.playfield.width⟩ := rfl

namespace Machine
variable {W : Type} {m : Standard W} {c : Char} {text : List Char}

def holding (m : Standard W) (s : Stack) : Standard W := { m with stack := s }

theorem holding_mode (command : m.mode = .command) (s : Stack) : (m.holding s).mode = .command := command

variable [WordSource W]

-- What a machine does at a straight character, which is never a wandering.
def pass (m : Standard W) (c : Char) : Standard W :=
  if m.mode = .quoted ∧ Instruction.decode c ≠ .quote then m.holding (m.stack.push (code c))
  else m.perform (Instruction.decode c)

theorem pass_quoted (quoted : m.mode = .quoted) (other : Instruction.decode c ≠ .quote) :
    m.pass c = m.holding (m.stack.push (code c)) := if_pos ⟨quoted,other⟩

theorem pass_heeded (heeded : m.mode = .command ∨ Instruction.decode c = .quote) :
    m.pass c = m.perform (Instruction.decode c) := by
  apply if_neg
  rintro ⟨quoted,other⟩
  rcases heeded with command | quote
  · rw [quoted] at command
    cases command
  · exact other quote

theorem pass_mark (command : m.mode = .command) (i : Instruction) : m.pass i.mark = m.perform i := by
  rw [pass_heeded (.inl command),Instruction.decode_mark]

theorem dispatch_straight (straight : m.mode = .quoted ∨ (Instruction.decode c).straight) :
    m.dispatch c = some (m.pass c) := by
  rcases straight_cases straight with ⟨quoted,other⟩ | ⟨heeded,straight⟩
  · rw [dispatch_quoted quoted other,pass_quoted quoted other]
    rfl
  · have plain : Instruction.decode c ≠ .wander := by
      intro wanders
      rw [wanders] at straight
      cases straight
    rw [dispatch_heeded heeded rfl,m.execute_plain plain,pass_heeded heeded]

def ahead (m : Standard W) (n : Nat) : Position :=
  (StoreUnit.extents m.store).travel m.heading n m.position

def Faces (m : Standard W) (text : List Char) : Prop :=
  ∀ i (inside : i < text.length), m.read (m.ahead i) = text[i]

def carried (n : Nat) (m : Standard W) : Standard W :=
  { m with pointer := m.pointer.jump (m.ahead n), steps := m.steps + .ofNat n }

theorem carried_zero (m : Standard W) : m.carried 0 = m := by
  have count : m.steps + .ofNat 0 = m.steps := UInt64.add_zero _
  unfold carried
  rw [count]
  rfl

theorem ahead_carried (a b : Nat) (m : Standard W) : (m.carried a).ahead b = m.ahead (a + b) :=
  (Extents.travel_add _ _ a b _).symm

theorem carried_add (a b : Nat) (m : Standard W) : (m.carried a).carried b = m.carried (a + b) := by
  have count : m.steps + .ofNat a + .ofNat b = m.steps + .ofNat (a + b) := by
    rw [UInt64.ofNat_add,UInt64.add_assoc]
  rw [carried,ahead_carried]
  simp only [carried,count]
  rfl

theorem perform_straight (m : Standard W) {i : Instruction} (straight : i.straight) :
    (m.perform i).pointer = m.pointer ∧ (m.perform i).store.playfield = m.store.playfield := by
  cases i with
  | turn h | wander | horizontalIf | verticalIf | bridge | put => cases straight
  | _ => exact ⟨rfl,rfl⟩

theorem pass_straight (straight : m.mode = .quoted ∨ (Instruction.decode c).straight) :
    (m.pass c).pointer = m.pointer ∧ (m.pass c).store.playfield = m.store.playfield := by
  rcases straight_cases straight with ⟨quoted,other⟩ | ⟨heeded,straight⟩
  · rw [pass_quoted quoted other]
    exact ⟨rfl,rfl⟩
  · rw [pass_heeded heeded]
    exact perform_straight m straight

theorem perform_carried (m : Standard W) (n : Nat) {i : Instruction} (straight : i.straight) :
    (m.carried n).perform i = (m.perform i).carried n := by
  cases i with
  | turn h | wander | horizontalIf | verticalIf | bridge | put => cases straight
  | _ => rfl

theorem pass_carried (n : Nat) (straight : m.mode = .quoted ∨ (Instruction.decode c).straight) :
    (m.carried n).pass c = (m.pass c).carried n := by
  rcases straight_cases straight with ⟨quoted,other⟩ | ⟨heeded,straight⟩
  · rw [pass_quoted quoted other,pass_quoted (m := m.carried n) quoted other]
    rfl
  · rw [pass_heeded heeded,pass_heeded (m := m.carried n) heeded]
    exact perform_carried m n straight

theorem perform_mode (m : Standard W) {i : Instruction} (other : i ≠ .quote) : (m.perform i).mode = m.mode := by
  cases i with
  | quote => exact absurd rfl other
  | _ => rfl

theorem pass_mode (m : Standard W) (c : Char) : (m.pass c).mode = m.mode.past c := by
  have quote : Instruction.decode c = .quote ↔ c = '"' := Instruction.decode_exact (by decide)
  unfold Mode.past
  by_cases quotes : c = '"'
  · rw [if_pos quotes,pass_heeded (.inr (quote.mpr quotes)),quote.mpr quotes]
    rfl
  · have other : Instruction.decode c ≠ .quote := fun decoded => quotes (quote.mp decoded)
    rw [if_neg quotes]
    cases mode : m.mode with
    | quoted => rw [pass_quoted mode other]; exact mode
    | command => rw [pass_heeded (.inl mode),perform_mode m other,mode]

theorem foldl_carried (n : Nat) (straight : Straight m.mode text) :
    text.foldl pass (m.carried n) = (text.foldl pass m).carried n := by
  induction text generalizing m with
  | nil => rfl
  | cons c rest ih =>
    obtain ⟨⟨_,here⟩,later⟩ := straight
    rw [List.foldl_cons,pass_carried n here]
    exact ih (by rwa [pass_mode])

theorem foldl_straight (straight : Straight m.mode text) :
    (text.foldl pass m).pointer = m.pointer ∧ (text.foldl pass m).store.playfield = m.store.playfield := by
  induction text generalizing m with
  | nil => exact ⟨rfl,rfl⟩
  | cons c rest ih =>
    obtain ⟨⟨_,here⟩,later⟩ := straight
    obtain ⟨pointer,playfield⟩ := pass_straight here
    rw [List.foldl_cons,← pointer,← playfield]
    exact ih (by rwa [pass_mode])

theorem ahead_same {s : Standard W} (pointer : s.pointer = m.pointer)
    (playfield : s.store.playfield = m.store.playfield) (n : Nat) : s.ahead n = m.ahead n := by
  have extents : StoreUnit.extents s.store = StoreUnit.extents m.store := by
    rw [extents_store,extents_store,playfield]
  unfold ahead heading position
  rw [pointer,extents]

theorem read_ahead {s : Standard W} (pointer : s.pointer = m.pointer)
    (playfield : s.store.playfield = m.store.playfield) (a b : Nat) :
    (s.carried a).read ((s.carried a).ahead b) = m.read (m.ahead (a + b)) := by
  rw [ahead_carried,ahead_same pointer playfield]
  exact congrArg (fun f : Playfield => f.get (m.ahead (a + b))) playfield

theorem Faces.cell (faces : m.Faces (c :: text)) : m.cell = c := faces 0 (Nat.zero_lt_succ _)

theorem Faces.step (faces : m.Faces (c :: text)) (passed : c ≠ '@')
    (straight : m.mode = .quoted ∨ (Instruction.decode c).straight) :
    m.step = (.moved,(m.pass c).carried 1) ∧ ((m.pass c).carried 1).Faces text := by
  have running : ¬ m.Halted := by rwa [Halted,faces.cell]
  obtain ⟨pointer,playfield⟩ := pass_straight straight
  refine ⟨?_,?_⟩
  · rw [step_moved running (by rw [faces.cell]; exact dispatch_straight straight)]
    rfl
  · intro i inside
    rw [read_ahead pointer playfield,Nat.add_comm]
    exact faces (i + 1) (Nat.succ_lt_succ inside)

-- On straight text a machine does what the characters say, one after another, and has then
-- come to the end of the text.
theorem after_straight (faces : m.Faces text) (straight : Straight m.mode text) :
    (∀ k < text.length, ¬ (after k m).Halted) ∧
      after text.length m = (text.foldl pass m).carried text.length := by
  induction text generalizing m with
  | nil => exact ⟨fun k below => absurd below (Nat.not_lt_zero k),(carried_zero m).symm⟩
  | cons c rest ih =>
    obtain ⟨⟨passed,here⟩,later⟩ := straight
    obtain ⟨stepped,ahead⟩ := faces.step passed here
    have mode : Straight (m.pass c).mode rest := by rwa [pass_mode]
    obtain ⟨running,final⟩ := ih ahead mode
    refine ⟨?_,?_⟩
    · intro k below
      cases k with
      | zero =>
        rw [after,Halted,faces.cell]
        exact passed
      | succ k =>
        rw [after,stepped]
        exact running k (Nat.lt_of_succ_lt_succ below)
    · rw [List.length_cons,after,stepped,final,foldl_carried 1 mode,carried_add,Nat.add_comm]
      rfl

theorem faces_append {more : List Char} (faces : m.Faces (text ++ more)) : m.Faces text := by
  intro i inside
  rw [faces i (by rw [List.length_append]; omega),List.getElem_append_left inside]

theorem straight_halts (faces : m.Faces (text ++ ['@'])) (straight : Straight m.mode text) :
    m.HaltsAt text.length ∧ after text.length m = (text.foldl pass m).carried text.length := by
  obtain ⟨running,final⟩ := after_straight (faces_append faces) straight
  obtain ⟨pointer,playfield⟩ := foldl_straight straight
  refine ⟨⟨?_,running⟩,final⟩
  rw [final]
  have stop := faces text.length (by simp)
  rw [List.getElem_concat_length rfl] at stop
  exact (read_ahead pointer playfield text.length 0).trans stop

theorem load_faces (m : Standard W) (single : '\n' ∉ text) (short : text.length ≤ 65536) :
    (m.load (.ofList text)).Faces text := by
  intro i inside
  have ink : text ≠ [] := List.ne_nil_of_length_pos (Nat.zero_lt_of_lt inside)
  have rows : Text.rows (String.ofList text).toList = [text] := by
    rw [String.toList_ofList,Text.rows_single single ink]
  have field : (m.load (.ofList text)).store.playfield = .ofRows [text] := congrArg Playfield.ofRows rows
  have width : (StoreUnit.extents (m.load (.ofList text)).store).width 0 = text.length := by
    rw [extents_store,field]
    exact Playfield.width_single text
  have place : (m.load (.ofList text)).ahead i = ⟨.ofNat i,0⟩ := by
    show (StoreUnit.extents (m.load (.ofList text)).store).travel .east i .origin = _
    apply travel_east
    · rw [width]
      exact short
    · rw [width]
      exact inside
  rw [place,read,field]
  exact Playfield.get_single short inside

theorem runWithin_straight (m : Standard W) (single : '\n' ∉ text) (short : text.length + 1 ≤ 65536)
    (straight : Straight .command text) :
    let start := m.load (.ofList (text ++ ['@']))
    start.HaltsAt text.length ∧ ∀ limit : UInt64, text.length ≤ limit.toNat →
      m.runWithin (.ofList (text ++ ['@'])) limit =
        (some (.ok (.ofNat text.length)),(text.foldl pass start).carried text.length) := by
  intro start
  have faces : start.Faces (text ++ ['@']) := by
    apply load_faces
    · simpa using single
    · simpa using short
  obtain ⟨halts,final⟩ := straight_halts faces straight
  refine ⟨halts,?_⟩
  intro limit within
  rw [runWithin_halted halts within,stage,final]

end Machine
end Funge

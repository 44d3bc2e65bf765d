import Funge.Proofs.StraightLine

namespace Funge

theorem past_plain {mode : Mode} {text : List Char} (plain : '"' ∉ text) : text.foldl Mode.past mode = mode := by
  induction text with
  | nil => rfl
  | cons c rest ih =>
    have other : c ≠ '"' := (List.ne_of_not_mem_cons plain).symm
    rw [List.foldl_cons,Mode.past,if_neg other]
    exact ih (List.not_mem_of_not_mem_cons plain)

theorem straight_quoted {text : List Char} (plain : '"' ∉ text) (unstopped : '@' ∉ text) :
    Straight .quoted text := by
  induction text with
  | nil => trivial
  | cons c rest ih =>
    have other : c ≠ '"' := (List.ne_of_not_mem_cons plain).symm
    refine ⟨⟨(List.ne_of_not_mem_cons unstopped).symm,.inl rfl⟩,?_⟩
    rw [Mode.past,if_neg other]
    exact ih (List.not_mem_of_not_mem_cons plain) (List.not_mem_of_not_mem_cons unstopped)

-- A line that spells a text from its end, so that its beginning comes to lie on top.
def recital (text : List Char) : List Char :=
  '"' :: text.reverse ++ '"' :: List.replicate text.length ','

theorem length_recital (text : List Char) : (recital text).length = 2 * text.length + 2 := by
  simp [recital]
  omega

theorem recital_single {text : List Char} (single : '\n' ∉ text) : '\n' ∉ recital text := by
  simp [recital,single]

theorem recital_straight {text : List Char} (plain : '"' ∉ text) (unstopped : '@' ∉ text) :
    Straight .command (recital text) := by
  have spelt : '"' ∉ text.reverse := by simpa using plain
  have commas : Straight .command (List.replicate text.length ',') := by
    rw [show ',' = Instruction.writeGlyph.mark from rfl,← List.map_replicate]
    apply straight_marks
    intro i listed
    cases List.eq_of_mem_replicate listed
    simp [Instruction.straight]
  refine ⟨⟨by decide,.inr rfl⟩,?_⟩
  apply straight_append.mpr
  refine ⟨straight_quoted spelt (by simpa using unstopped),?_⟩
  rw [past_plain spelt]
  exact ⟨⟨by decide,.inl rfl⟩,commas⟩

namespace Machine
variable {W : Type} [WordSource W] {m : Standard W}

theorem pass_quote (m : Standard W) : m.pass '"' = { m with mode := m.mode.toggle } := pass_heeded (.inr rfl)

theorem foldl_quoted {text : List Char} (quoted : m.mode = .quoted) (plain : '"' ∉ text) :
    text.foldl pass m = m.holding ⟨(text.map code).reverse ++ m.stack.values⟩ := by
  induction text generalizing m with
  | nil => rfl
  | cons c rest ih =>
    have other : Instruction.decode c ≠ .quote := by
      rw [ne_eq,Instruction.decode_exact (by decide)]
      exact (List.ne_of_not_mem_cons plain).symm
    have later := ih (m := m.holding (m.stack.push (code c))) quoted (List.not_mem_of_not_mem_cons plain)
    rw [List.foldl_cons,pass_quoted quoted other]
    simpa [holding,Stack.push,StackUnit.push] using later

theorem foldl_commas {text : List Char} {below : List Number} (command : m.mode = .command)
    (held : m.stack.values = text.map code ++ below) :
    (List.replicate text.length ',').foldl pass m =
      { m with stack := ⟨below⟩, store := m.store.write (.ofList text) } := by
  induction text generalizing m with
  | nil =>
    have stack : m.stack = ⟨below⟩ := congrArg Stack.mk held
    show m = { m with stack := ⟨below⟩, store := m.store.write "" }
    rw [m.store.write_empty,← stack]
  | cons c rest ih =>
    let next : Standard W := { m with stack := ⟨rest.map code ++ below⟩, store := m.store.write (.singleton c) }
    have written : m.pass ',' = next := by
      have executed : m.pass ',' = m.write fun v => .singleton (glyph v) := pass_mark command .writeGlyph
      rw [executed,write,show StackUnit.pop m.stack = m.stack.pop from rfl,Stack.pop,held]
      rw [List.map_cons,List.cons_append,List.headD_cons,List.tail_cons,glyph_code]
      rfl
    rw [List.length_cons,List.replicate_succ,List.foldl_cons,written,ih (m := next) command rfl,
      String.ofList_cons,Store.write_append]

theorem foldl_recital {text : List Char} (command : m.mode = .command) (plain : '"' ∉ text) :
    (recital text).foldl pass m = { m with store := m.store.write (.ofList text) } := by
  have spelt : '"' ∉ text.reverse := by simpa using plain
  let opened : Standard W := { m with mode := .quoted }
  let closed : Standard W := { m with stack := ⟨text.map code ++ m.stack.values⟩ }
  have opening : m.pass '"' = opened := by rw [pass_quote,command]; rfl
  have spelling : text.reverse.foldl pass opened = opened.holding closed.stack := by
    rw [foldl_quoted rfl spelt,List.map_reverse,List.reverse_reverse]
  have closing : (opened.holding closed.stack).pass '"' = closed := by
    rw [pass_quote]
    show ({ closed with mode := .command } : Standard W) = closed
    rw [← command]
  rw [recital,List.cons_append,List.foldl_cons,List.foldl_append,List.foldl_cons,opening,spelling,closing]
  exact foldl_commas command rfl

-- Between quotes every character stands for itself, but for a quote, a stop and a line end, so
-- any other text can be written as a program that writes it.
theorem literal_reproduced (W : Type) [WordSource W] (text : String) (plain : '"' ∉ text.toList)
    (unstopped : '@' ∉ text.toList) (single : '\n' ∉ text.toList) (short : 2 * text.length + 3 ≤ 65536)
    (m : Standard W) :
    let program := String.ofList ('"' :: text.toList.reverse ++ '"' :: List.replicate text.length ',' ++ ['@'])
    (m.load program).HaltsAt (2 * text.length + 2) ∧
    ∀ limit : UInt64, 2 * text.length + 2 ≤ limit.toNat →
      let ran := m.runWithin program limit
      ran.1 = some (.ok (.ofNat (2 * text.length + 2))) ∧ ran.2.stack = .empty ∧ ran.2.mode = .command ∧
        ran.2.output = m.output ++ text := by
  intro program
  have length : (recital text.toList).length = 2 * text.length + 2 := length_recital _
  obtain ⟨halts,ran⟩ := m.runWithin_straight (recital_single single) (by rw [length]; exact short)
    (recital_straight plain unstopped)
  rw [length] at halts ran
  refine ⟨halts,?_⟩
  intro limit within
  have ended : m.runWithin program limit = _ := ran limit within
  rw [ended,foldl_recital rfl plain,String.ofList_toList]
  exact ⟨rfl,rfl,rfl,rfl⟩

theorem literal_reproduced_verbatim :
    let program := String.ofList ('"' :: " p?\r#𝄞. ".toList.reverse ++ '"' :: List.replicate 8 ',' ++ ['@'])
    let ran := ((Standard.fresh (Listed.mk [])).stage "5.@" 2).runWithin program 18
    ran.1 = some (.ok 18) ∧ ran.2.output = "5 p?\r#𝄞. " := by
  intro program ran
  have reproduced := literal_reproduced Listed " p?\r#𝄞. " (by decide) (by decide) (by decide) (by decide)
    ((Standard.fresh (Listed.mk [])).stage "5.@" 2)
  obtain ⟨ended,_,_,written⟩ := reproduced.2 18 (by decide)
  exact ⟨ended,written.trans (by decide +kernel)⟩

end Machine
end Funge

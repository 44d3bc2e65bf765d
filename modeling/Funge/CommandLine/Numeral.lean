namespace Funge.CommandLine

-- ASCII digits, with one plus sign before them if one likes, of a value that fits 64 bits.
def digitValue? (c : Char) : Option Nat := if c.isDigit then some (c.toNat - 48) else none

def digitsValue? (digits : List Char) : Option Nat :=
  if digits.isEmpty then none
  else digits.foldlM (fun value c => (digitValue? c).map (10 * value + ·)) 0

def unsigned (text : List Char) : List Char :=
  match text with
  | '+' :: digits => digits
  | digits => digits

def numeral? (text : String) : Option UInt64 := do
  let value ← digitsValue? (unsigned text.toList)
  if value < UInt64.size then some (.ofNat value) else none

def Writes (text : String) (value : UInt64) : Prop :=
  ∃ digits, (text.toList = digits ∨ text.toList = '+' :: digits) ∧ digits ≠ [] ∧ (∀ c ∈ digits, c.isDigit) ∧
    value.toNat = Nat.ofDigitChars 10 digits 0

theorem foldlM_digits (digits : List Char) (value : Nat) :
    digits.foldlM (fun value c => (digitValue? c).map (10 * value + ·)) value =
      if digits.all Char.isDigit then some (Nat.ofDigitChars 10 digits value) else none := by
  induction digits generalizing value with
  | nil => rfl
  | cons c rest ih =>
    rw [List.foldlM_cons,digitValue?,List.all_cons]
    by_cases digit : c.isDigit
    · rw [if_pos digit,Option.map_some,Option.bind_eq_bind,Option.bind_some,ih,Nat.ofDigitChars_cons,digit,
        Bool.true_and]
      rfl
    · rw [if_neg digit,Bool.eq_false_iff.mpr digit]
      rfl

theorem digitsValue_exact {digits : List Char} {value : Nat} : digitsValue? digits = some value ↔
    digits ≠ [] ∧ (∀ c ∈ digits, c.isDigit) ∧ value = Nat.ofDigitChars 10 digits 0 := by
  rw [digitsValue?,foldlM_digits,← List.all_eq_true]
  cases digits with
  | nil => simp
  | cons c rest =>
    simp only [List.isEmpty_cons,Bool.false_eq_true,if_false]
    split
    · rename_i plain
      rw [Option.some_inj]
      exact ⟨fun equal => ⟨List.cons_ne_nil c rest,plain,equal.symm⟩,fun written => written.2.2.symm⟩
    · rename_i foreign
      exact iff_of_false nofun fun written => foreign written.2.1

theorem unsigned_digits {digits : List Char} (plain : ∀ c ∈ digits, c.isDigit) : unsigned digits = digits := by
  unfold unsigned
  split
  · exact absurd (plain '+' List.mem_cons_self) (by decide)
  · rfl

theorem unsigned_cases (text : List Char) : text = unsigned text ∨ text = '+' :: unsigned text := by
  unfold unsigned
  split
  · exact .inr rfl
  · exact .inl rfl

theorem numeral_exact {text : String} {value : UInt64} : numeral? text = some value ↔ Writes text value := by
  have read : numeral? text = some value ↔ digitsValue? (unsigned text.toList) = some value.toNat := by
    unfold numeral?
    cases digitsValue? (unsigned text.toList) with
    | none => simp
    | some n =>
      show (if n < UInt64.size then some (UInt64.ofNat n) else none) = some value ↔ some n = some value.toNat
      have bound : value.toNat < UInt64.size := value.toNat_lt
      rw [Option.some_inj]
      constructor
      · intro fits
        split at fits
        · rename_i small
          rw [← Option.some.inj fits,UInt64.toNat_ofNat_of_lt' small]
        · cases fits
      · rintro rfl
        rw [if_pos bound,UInt64.ofNat_toNat]
  rw [read,digitsValue_exact]
  constructor
  · intro digits
    exact ⟨unsigned text.toList,unsigned_cases _,digits⟩
  · rintro ⟨digits,written,some,plain,equal⟩
    have same : unsigned text.toList = digits := by
      rcases written with bare | signed
      · rw [bare,unsigned_digits plain]
      · rw [signed]
        rfl
    rw [same]
    exact ⟨some,plain,equal⟩

end Funge.CommandLine

import Funge.CommandLine.Numeral

namespace Funge.CommandLine

structure Options where
  path : String
  limit : Option UInt64
  seed : Option UInt64
  verbose : Bool
  deriving DecidableEq

inductive UsageError where
  | unknownOption (argument : String)
  | secondFile
  | missingValue (flag : String)
  | invalidValue (flag value : String)
  | noFile
  deriving DecidableEq

def UsageError.message : UsageError → String
  | .unknownOption argument => "Unknown option '" ++ argument ++ "'"
  | .secondFile => "More than one program file given"
  | .missingValue flag => "Missing value for " ++ flag
  | .invalidValue flag value => "Invalid value for " ++ flag ++ ": '" ++ value ++ "'"
  | .noFile => "No input file provided"

inductive Setting where
  | limit
  | seed
  deriving DecidableEq

def Setting.flag : Setting → String
  | .limit => "--max-steps"
  | .seed => "--seed"

inductive Item where
  | setting (which : Setting) (value : UInt64)
  | verbose
  | file (path : String)
  | faulty (error : UsageError)
  deriving DecidableEq

def Setting.item (which : Setting) (text : String) : Item :=
  match numeral? text with
  | some value => .setting which value
  | none => .faulty (.invalidValue which.flag text)

def Item.ofPlain (argument : String) : Item :=
  if argument = "-v" ∨ argument = "--verbose" then .verbose
  else if argument.toList.head? = some '-' then .faulty (.unknownOption argument)
  else .file argument

def Setting.ofFlag? (argument : String) : Option Setting :=
  if argument = Setting.limit.flag then some .limit
  else if argument = Setting.seed.flag then some .seed
  else none

theorem ofFlag_flag (which : Setting) : Setting.ofFlag? which.flag = some which := by cases which <;> decide

theorem flag_ofFlag {argument : String} {which : Setting} (found : Setting.ofFlag? argument = some which) :
    argument = which.flag := by
  unfold Setting.ofFlag? at found
  split at found
  · cases found
    assumption
  · split at found
    · cases found
      assumption
    · cases found

theorem flag_dash (which : Setting) : which.flag.toList.head? = some '-' := by cases which <;> decide

theorem item_value {which : Setting} {text : String} {value : UInt64} (writes : Writes text value) :
    which.item text = .setting which value := by
  rw [Setting.item,numeral_exact.mpr writes]

theorem item_invalid {which : Setting} {text : String} (bad : ¬ ∃ value, Writes text value) :
    which.item text = .faulty (.invalidValue which.flag text) := by
  unfold Setting.item
  cases found : numeral? text with
  | none => rfl
  | some value => exact absurd ⟨value,numeral_exact.mp found⟩ bad

-- Whatever follows a flag that takes a number is its value, even another flag.
def items : List String → List Item
  | [] => []
  | argument :: rest =>
    match Setting.ofFlag? argument, rest with
    | some which, value :: rest => which.item value :: items rest
    | some which, [] => [.faulty (.missingValue which.flag)]
    | none, rest => .ofPlain argument :: items rest

theorem items_flag (which : Setting) (text : String) (rest : List String) :
    items (which.flag :: text :: rest) = which.item text :: items rest := by simp [items,ofFlag_flag]

theorem items_lone (which : Setting) : items [which.flag] = [.faulty (.missingValue which.flag)] := by
  simp [items,ofFlag_flag]

theorem items_plain {argument : String} (noFlag : Setting.ofFlag? argument = none) (rest : List String) :
    items (argument :: rest) = .ofPlain argument :: items rest := by simp [items,noFlag]

structure Draft where
  path : Option String
  limit : Option UInt64
  seed : Option UInt64
  verbose : Bool
  deriving DecidableEq

namespace Draft

def blank : Draft := ⟨none,none,none,false⟩

def take (d : Draft) : Item → Except UsageError Draft
  | .setting .limit value => .ok { d with limit := some value }
  | .setting .seed value => .ok { d with seed := some value }
  | .verbose => .ok { d with verbose := true }
  | .file path => if d.path.isSome then .error .secondFile else .ok { d with path := some path }
  | .faulty error => .error error

def finish (d : Draft) : Except UsageError Options :=
  match d.path with
  | some path => .ok ⟨path,d.limit,d.seed,d.verbose⟩
  | none => .error .noFile

end Draft

def Options.parse (arguments : List String) : Except UsageError Options := do
  let draft ← (items arguments).foldlM Draft.take .blank
  draft.finish

end Funge.CommandLine

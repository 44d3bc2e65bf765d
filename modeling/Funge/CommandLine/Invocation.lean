import Funge.CommandLine.Options
import Funge.Machine

namespace Funge.CommandLine

inductive Entry where
  | missing
  | directory
  | unreadable
  | text (source : String)
  deriving DecidableEq

def Entry.ofBytes (bytes : ByteArray) : Entry :=
  match String.fromUTF8? bytes with
  | some source => .text source
  | none => .unreadable

structure Exit where
  code : Nat
  stdout : String
  stderr : String
  deriving DecidableEq

-- What an invocation finds around it: the name it was called by, how a word is made to stand
-- out, a source of chance for each seed and one without, and the files.
structure Surroundings (W : Type) where
  name : String
  emphasize : String → String
  seeded : UInt64 → W
  entropy : W
  find : String → Entry

namespace Surroundings
variable {W : Type} (around : Surroundings W)

def errorLine (message : String) : String := around.emphasize "Error:" ++ " " ++ message ++ "\n"

def usageLines : List String :=
  ["",
   "Usage: " ++ around.name ++ " <program.bf> [--max-steps N] [--seed N] [--verbose]",
   "",
   "Options:",
   "  --max-steps N   stop with an error after N steps without halting",
   "  --seed N        seed the random direction opcode '?'",
   "  -v, --verbose   print progress to stderr"]

def usage : String := .join (around.usageLines.map (· ++ "\n"))

def refuse (e : UsageError) : Exit := ⟨1,"",around.errorLine e.message ++ around.usage⟩

def notFound (path : String) : Exit := ⟨1,"",around.errorLine ("File '" ++ path ++ "' not found")⟩

end Surroundings

-- What exists and is no text is reported by the system's own account of the failure.
def directoryExit : Exit :=
  ⟨1,"","Error: Os \x7b code: 21, kind: IsADirectory, message: \"Is a directory\" \x7d\n"⟩

def unreadableExit : Exit :=
  ⟨1,"","Error: Error \x7b kind: InvalidData, message: \"stream did not contain valid UTF-8\" \x7d\n"⟩

namespace Options
variable {W : Type} (o : Options) (around : Surroundings W)

def notice (text : String) : String := if o.verbose then text else ""

def loadedNotice (source : String) : String :=
  o.notice ("Loaded " ++ o.path ++ " (" ++ Nat.repr (Text.lines source.toList).length ++ " rows).\n")

def haltedNotice (steps : UInt64) : String :=
  o.notice ("Halted after " ++ Nat.repr steps.toNat ++ " steps.\n")

def report (source : String) (result : Except BudgetSpent UInt64) (output : String) : Exit :=
  match result with
  | .ok steps => ⟨0,output,o.loadedNotice source ++ o.haltedNotice steps⟩
  | .error spent => ⟨1,output,o.loadedNotice source ++ "\n" ++ around.errorLine spent.message⟩

variable [WordSource W]

def start : Standard W := .fresh ((o.seed.map around.seeded).getD around.entropy)

-- There is an answer only if the run comes to an end: within the fuel if it has no budget.
def run (fuel : Nat) (source : String) : Option Exit :=
  match o.limit with
  | some limit =>
    let ran := (o.start around).runWithin source limit
    ran.1.map fun result => o.report around source result ran.2.output
  | none =>
    ((o.start around).run? source fuel).map fun final => o.report around source (.ok final.steps) final.output

def execute (fuel : Nat) : Option Exit :=
  match around.find o.path with
  | .missing => some (around.notFound o.path)
  | .directory => some directoryExit
  | .unreadable => some unreadableExit
  | .text source => o.run around fuel source

end Options

def invoke {W : Type} [WordSource W] (around : Surroundings W) (fuel : Nat) (arguments : List String) : Option Exit :=
  match Options.parse arguments with
  | .error e => some (around.refuse e)
  | .ok o => o.execute around fuel

end Funge.CommandLine

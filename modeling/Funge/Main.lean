import Funge.CommandLine.Invocation
import Funge.Random.Keystream

open Funge Funge.CommandLine

-- Reading a directory is refused with the system's error 21.
def entryAt (path : String) : IO Entry := do
  try
    return .ofBytes (← IO.FS.readBinFile path)
  catch
    | .noFileOrDirectory .. => return .missing
    | .inappropriateType _ 21 _ => return .directory
    | .inappropriateType .. => return .missing
    | failure => throw failure

def redden (word : String) : String := "\x1b[38;5;9m\x1b[1m" ++ word ++ "\x1b[0m"

def freshSeed : IO UInt64 := do
  let bytes ← IO.getRandomBytes 8
  return bytes.foldl (fun word byte => word * 256 + byte.toUInt64) 0

def main (arguments : List String) : IO UInt32 := do
  let entry ← match Options.parse arguments with
    | .ok options => entryAt options.path
    | .error _ => pure .missing
  let around : Surroundings Keystream :=
    { name := "befunge"
      emphasize := redden
      seeded := .ofSeed
      entropy := .ofSeed (← freshSeed)
      find := fun _ => entry }
  match invoke around UInt64.size arguments with
  | some exit =>
    (← IO.getStdout).putStr exit.stdout
    (← IO.getStdout).flush
    (← IO.getStderr).putStr exit.stderr
    return exit.code.toUInt32
  | none => return 1

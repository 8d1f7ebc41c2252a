import Workflow.Command

/-!
# Command line

`condition --expression TEXT` and `build --file PATH`, each with `--pretty` for indented text.
-/

set_option autoImplicit false

namespace Workflow.Main

def valueOf (flags : List String) : List String → Option String
  | [] => none
  | [_] => none
  | flag :: value :: rest =>
    if flags.contains flag then some value else valueOf flags (value :: rest)

def readFile (path : String) : IO (Option ByteArray) := do
  try
    return some (← IO.FS.readBinFile path)
  catch _ =>
    return none

def randomSeed : IO Nat := do
  let bytes ← IO.getRandomBytes 16
  return bytes.toList.foldl (fun n b => n * 256 + b.toNat) 0

def outcome (args : List String) : IO (Option Outcome) := do
  let indented := args.contains "--pretty" || args.contains "-p"
  match args with
  | "condition" :: rest =>
    return (valueOf ["--expression", "-e"] rest).map (Command.compileCondition indented)
  | "build" :: rest =>
    match valueOf ["--file", "-f"] rest with
    | none => return none
    | some path =>
      let source := IdSource.scattered 0 (← randomSeed)
      return some (Command.buildFlow indented source (← readFile path))
  | _ => return none

end Workflow.Main

def main (args : List String) : IO UInt32 := do
  match ← Workflow.Main.outcome args with
  | some o =>
    IO.print o.output
    IO.eprint o.errors
    return o.exitCode.toUInt32
  | none =>
    IO.eprintln "usage: condition --expression TEXT [--pretty] | build --file PATH [--pretty]"
    return 2

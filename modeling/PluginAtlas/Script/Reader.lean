import PluginAtlas.Failure
import PluginAtlas.Script.CommandLine
import PluginAtlas.Script.Detect
import PluginAtlas.Script.Parse
import PluginAtlas.Script.Payload
import PluginAtlas.Traced

/-!
# Reading scripts for their items

A script reader finds the items of a script. The native one reads the script itself;
the external one asks another program, which is given the path of the script. When that
program fails in any way the script has no items, and a notice says why.

## Main definitions

* `ScriptReader`: a way to find the items of a script.
* `itemsIn`, `nativeReader`: reads the script itself.
* `Launched`, `Launch`: what becomes of a program that is started.
* `External`, `External.reader`: asks another program.
-/

namespace PluginAtlas.Script

/-- A way to find the items of a script. -/
abbrev ScriptReader := SourceFile → Traced (Except Failure (List Item))

/-- The items in what a parser makes of a script. -/
def itemsIn (f : SourceFile) (p : Parsed) : Traced (List Item) := do
  if p.hasErrors then Traced.notify (.scriptSyntaxErrors f.path)
  return detect f p.root

/-- Finds the items in the syntax tree of the script. -/
def nativeReader (parser : Parser) : ScriptReader := fun f => do
  return .ok (← itemsIn f (parser (.ofPath f.path) f.source))

/-- What becomes of a program. -/
inductive Launched where
  | finished (output errors : String) (status : Int)
  | timedOut
  | unavailable (error : String)
deriving Inhabited

/-- What becomes of each program that is started. -/
abbrev Launch := List String → Launched

/-- A program that finds the items of scripts. -/
structure External where
  command : List String
  timeout : Seconds
deriving DecidableEq, Repr

namespace External

/-- The program of the settings, unless another command or time limit is stated. -/
def of (settings : Settings) (command : Option String) (timeout : Option Seconds) :
    Except CommandError External := do
  let line := match command with
    | none | some "" => settings.extractorCommand
    | some line => line
  let words ← commandWords line
  return ⟨words, Seconds.orElse timeout settings.extractorTimeout⟩

/-- The items in the output of a finished program. -/
def itemsOf (path output : String) (status : Int) : Traced (Except Failure (List Item)) :=
  match Payload.ofOutput output with
  | .error e =>
    match e.fault with
    | .digits count => pure (.error (.tooManyDigits count))
    | _ => pure (.ok [])
  | .ok payload => do
    Traced.notifyAll (payload.diagnostics.map (.extractorDiagnostic path))
    if status ≠ 0 then
      Traced.notify (.extractorExitStatus path status)
      return .ok []
    match payload.items with
    | none =>
      Traced.notify (.extractorWithoutPayload path)
      return .ok []
    | some items => return .ok (items.filterMap Item.ofJson?)

/-- Asks the program for the items of the script at a path. -/
def read (launch : Launch) (e : External) (path : String) :
    Traced (Except Failure (List Item)) := do
  if e.command.isEmpty then
    Traced.notify (.extractorNotConfigured path)
    return .ok []
  let arguments := e.command ++ [path]
  Traced.call (.process arguments e.timeout)
  match launch arguments with
  | .timedOut =>
    Traced.notify (.extractorTimeout path e.timeout.toJson)
    return .ok []
  | .unavailable error =>
    Traced.notify (.extractorFailed path error)
    return .ok []
  | .finished output errors status => itemsOf path (output ++ "\n" ++ errors) status

/-- The reader that asks the program. -/
def reader (launch : Launch) (e : External) : ScriptReader := fun f => e.read launch f.path

end External

end PluginAtlas.Script

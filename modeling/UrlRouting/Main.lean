import UrlRouting.CommandLine.Answer

/-!
The program, which carries out its command line on the files of the machine.
-/

namespace UrlRouting.CommandLine

def directory? (path : String) : Option String :=
  match path.toList.reverse.dropWhile (· != '/') with
  | [] => none
  | slash :: before => some (String.ofList (slash :: before).reverse)

def readText? (path : String) : IO (Option String) := do
  match ← (IO.FS.readFile path).toBaseIO with
  | .ok text => return some text
  | .error _ => return none

def writeText (path text : String) : IO Bool := do
  let write : IO Unit := do
    match directory? path with
    | some directory => IO.FS.createDirAll directory
    | none => pure ()
    IO.FS.writeFile path text
  match ← write.toBaseIO with
  | .ok _ => return true
  | .error _ => return false

def machineFiles : Files IO where
  isFile path := do return (← readText? path).isSome
  read := readText?
  write := writeText

end UrlRouting.CommandLine

def main (words : List String) : IO UInt32 := do
  let answer ← UrlRouting.CommandLine.run UrlRouting.CommandLine.machineFiles words
  IO.print answer.outputText
  IO.eprint answer.errorText
  return answer.exitCode

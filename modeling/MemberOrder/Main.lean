import MemberOrder.Outcome

/-!
# The program

Looks at every file that a run may ask about, and then carries out its outcome.
-/

namespace MemberOrder

def look (p : Path) : IO Sight := do
  try
    return .file (← IO.FS.readBinFile p.toString)
  catch e =>
    match e with
    | .inappropriateType _ 21 _ => return .directory
    | .inappropriateType _ _ _ => return .notDirectory
    | _ => return .missing

/-- The paths that a run with these arguments may look at. -/
def asked (env : Environment) (args : List String) : List Path :=
  Discovery.fileName ::
    match CommandLine.Invocation.read args with
    | .ok i =>
      i.config.toList ++
        match i.command with
        | .weights project _ _ _ => Discovery.candidates env.globalDirectory project
        | _ => []
    | .error _ => []

def directoryOf (name : String) : IO (Option Path) := do
  return (← IO.getEnv name).map Path.ofString

def perform (o : Outcome) : IO UInt32 := do
  if let some content := o.write then
    try
      IO.FS.writeFile Discovery.fileName.toString content
    catch e =>
      IO.eprintln ("Error: " ++ toString e)
      return 1
  IO.print o.stdout
  IO.eprint o.stderr
  return o.code

end MemberOrder

open MemberOrder in
def main (args : List String) : IO UInt32 := do
  let env : Environment :=
    { configDirectory := ← directoryOf "CLASS_ORDER_CONFIG_DIR", home := ← directoryOf "HOME" }
  let seen ← (asked env args).mapM fun p => do return (p, ← look p)
  let view : View := fun p => (seen.lookup p).getD .missing
  perform (CommandLine.run env view args)

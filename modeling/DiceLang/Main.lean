import DiceLang.CommandLine.Run

/-! The command line program. It looks at files only when a run asks for them, and then runs again. -/

namespace DiceLang.CommandLine

/-- Looks at a path. A folder can be opened but not read; a path through a file cannot be opened. -/
def lookAt (path : String) : IO Reading := do
  try
    return .file (← IO.FS.readBinFile path)
  catch e =>
    match e with
    | .noFileOrDirectory .. => return .missing
    | .inappropriateType (some _) .. => return .blocked
    | _ => return .folder

def environment : IO (List (String × String)) := do
  let names := ["YADROL_SAMPLE_SIZE", "YADROL_DEFAULT_TYPE", "YADROL_MODE", "YADROL_SEED"]
  names.filterMapM fun name => return (← IO.getEnv name).map fun value => (name, value)

def entropy : IO UInt64 := do
  return (← IO.getRandomBytes 8).foldl (fun n b => n * 256 + b.toUInt64) 0

partial def runWith (args : List String) (env : List (String × String)) (seed : UInt64)
    (known : List (String × Reading)) : IO Result := do
  match run args env seed fun path => (known.lookup path).getD .unread with
  | .done r => return r
  | .look path => runWith args env seed ((path, ← lookAt path) :: known)

end DiceLang.CommandLine

def main (args : List String) : IO UInt32 := do
  let env ← DiceLang.CommandLine.environment
  let r ← DiceLang.CommandLine.runWith args env (← DiceLang.CommandLine.entropy) []
  IO.print r.out
  IO.eprint r.err
  return r.exit.toUInt32

import DiceLang.CommandLine.Arguments
import DiceLang.Diagnostic
import DiceLang.Report

/-! Running the command line on a disk. -/

namespace DiceLang.CommandLine

structure Result where
  exit : UInt8
  out : String
  err : String
deriving DecidableEq, Inhabited

inductive Step where
  | done (r : Result)
  | look (path : String)
deriving DecidableEq, Inhabited

def versionText : String := "yadrol 0.1.0\n"

def usageText : String := "Usage: yadrol [OPTIONS] [FILE]\n\nFor more information, try '--help'.\n"

def helpText : String :=
  "Roll dice expressions or sample their distribution\n\n" ++
  "Usage: yadrol [OPTIONS] [FILE]\n\n" ++
  "Arguments:\n" ++
  "  [FILE]  Program to run\n\n" ++
  "Options:\n" ++
  "  -e, --expr <EXPR>                  Inline program to run instead of a file\n" ++
  "      --sample-size <SAMPLE_SIZE>    Evaluations per sampled output [env: YADROL_SAMPLE_SIZE=] " ++
  "[default: 100000]\n" ++
  "      --default-type <DEFAULT_TYPE>  Type of outputs without `as` [env: YADROL_DEFAULT_TYPE=] " ++
  "[default: number]\n" ++
  "      --mode <MODE>                  Mode of the implicit output (roll or sample) " ++
  "[env: YADROL_MODE=] [default: sample]\n" ++
  "      --seed <SEED>                  Seed for reproducible runs [env: YADROL_SEED=]\n" ++
  "      --import-dir <IMPORT_DIR>      Directory imports are resolved against\n" ++
  "  -v, --verbose...                   \n" ++
  "  -h, --help                         Print help\n" ++
  "  -V, --version                      Print version\n"

def Stop.result : Stop → Result
  | .usage => ⟨2, "", usageText⟩
  | .help => ⟨0, helpText, ""⟩
  | .version => ⟨0, versionText, ""⟩

def Request.options (r : Request) (seed : UInt64) : Options where
  sampleSize := (r.sampleSize.getD 100000).toNat
  defaultType := r.defaultType.getD (.kind .number)
  defaultMode := r.mode.getD .sample
  seed := r.seed.getD seed

def Request.folder (r : Request) : String :=
  r.importDir.getD ((r.file.map Path.parent).getD ".")

def Request.log (r : Request) (level : Nat) (line : String) : String :=
  if level ≤ r.verbosity then line ++ "\n" else ""

def inaccessible (path reason : String) : Step :=
  .done ⟨1, "", "Failed to access " ++ path ++ ": " ++ reason ++ "\n"⟩

def execute (r : Request) (seed : UInt64) (disk : Disk) (source text : String) : Step :=
  let session := Session.start (r.options seed) (Fetch.ofDisk disk [r.folder] true)
  let before := r.log 2 ("DEBUG yadrol: resolving imports import_dir=" ++ r.folder)
  match session.run source text with
  | (.ok records, session) =>
    let after := r.log 1 ("INFO yadrol::session: run complete outputs=" ++ toString records.length)
    .done ⟨0, Report.records session.heap records, before ++ after⟩
  | (.error (.interrupted (.failed ⟨.importing _ (.fetch (.unread path)), _, _⟩)), _) => .look path
  | (.error e, _) => .done ⟨1, "", before ++ e.report source⟩

def executeFile (r : Request) (seed : UInt64) (disk : Disk) (path : String) : Step :=
  match disk path with
  | .file content =>
    match String.fromUTF8? content with
    | some text => execute r seed disk path text
    | none => inaccessible path invalidTextMessage
  | .folder => inaccessible path "Is a directory (os error 21)"
  | .missing => inaccessible path "No such file or directory (os error 2)"
  | .blocked => inaccessible path "Not a directory (os error 20)"
  | .unread => .look path

def run (args : List String) (env : List (String × String)) (seed : UInt64) (disk : Disk) : Step :=
  match request args env with
  | .error stop => .done stop.result
  | .ok r =>
    match r.expr, r.file with
    | some text, _ => execute r seed disk "<expr>" text
    | none, some path => executeFile r seed disk path
    | none, none => .done Stop.usage.result

end DiceLang.CommandLine

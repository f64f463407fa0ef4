import DiceLang.Kind
import DiceLang.Text.Decimal

/-! The arguments of the command line and the environment variables that stand in for them. -/

namespace DiceLang.CommandLine

inductive Setting where
  | expr | sampleSize | defaultType | mode | seed | importDir
deriving DecidableEq, Inhabited

inductive Flag where
  | verbose | help | version
deriving DecidableEq, Inhabited

inductive Switch where
  | setting (s : Setting)
  | flag (f : Flag)
deriving DecidableEq, Inhabited

def Switch.ofLong? : String → Option Switch
  | "expr" => some (.setting .expr)
  | "sample-size" => some (.setting .sampleSize)
  | "default-type" => some (.setting .defaultType)
  | "mode" => some (.setting .mode)
  | "seed" => some (.setting .seed)
  | "import-dir" => some (.setting .importDir)
  | "verbose" => some (.flag .verbose)
  | "help" => some (.flag .help)
  | "version" => some (.flag .version)
  | _ => none

def Switch.ofShort? : Char → Option Switch
  | 'e' => some (.setting .expr)
  | 'v' => some (.flag .verbose)
  | 'h' => some (.flag .help)
  | 'V' => some (.flag .version)
  | _ => none

def Setting.variable? : Setting → Option String
  | .sampleSize => some "YADROL_SAMPLE_SIZE"
  | .defaultType => some "YADROL_DEFAULT_TYPE"
  | .mode => some "YADROL_MODE"
  | .seed => some "YADROL_SEED"
  | .expr | .importDir => none

structure Request where
  file : Option String
  expr : Option String
  sampleSize : Option UInt64
  defaultType : Option OutputType
  mode : Option OutputMode
  seed : Option UInt64
  importDir : Option String
  verbosity : Nat
deriving Inhabited

def Request.none : Request := ⟨.none, .none, .none, .none, .none, .none, .none, 0⟩

inductive Stop where
  | usage
  | help
  | version
deriving DecidableEq, Inhabited

def once {α : Type} (old value : Option α) : Except Stop (Option α) :=
  match old, value with
  | .none, some v => .ok (some v)
  | _, _ => .error .usage

def nonEmpty? (s : String) : Option String := if s.isEmpty then .none else some s

def Request.set (r : Request) (s : Setting) (value : String) : Except Stop Request := do
  match s with
  | .expr => return { r with expr := ← once r.expr (some value) }
  | .sampleSize =>
    return { r with sampleSize := ← once r.sampleSize (Decimal.uint64? value.toList) }
  | .defaultType => return { r with defaultType := ← once r.defaultType (OutputType.ofText value).toOption }
  | .mode => return { r with mode := ← once r.mode (OutputMode.ofText value).toOption }
  | .seed => return { r with seed := ← once r.seed (Decimal.uint64? value.toList) }
  | .importDir => return { r with importDir := ← once r.importDir (nonEmpty? value) }

def Request.setFile (r : Request) (path : String) : Except Stop Request :=
  return { r with file := ← once r.file (nonEmpty? path) }

def Request.isSet (r : Request) : Setting → Bool
  | .expr => r.expr.isSome
  | .sampleSize => r.sampleSize.isSome
  | .defaultType => r.defaultType.isSome
  | .mode => r.mode.isSome
  | .seed => r.seed.isSome
  | .importDir => r.importDir.isSome

def Request.raise (r : Request) : Flag → Except Stop Request
  | .verbose => .ok { r with verbosity := r.verbosity + 1 }
  | .help => .error .help
  | .version => .error .version

abbrev Pending := Request × Option Setting

/-- Options written together behind one dash. What follows one that takes a value is its value. -/
def shorts (r : Request) : List Char → Except Stop Pending
  | [] => .ok (r, none)
  | c :: rest =>
    match Switch.ofShort? c with
    | none => .error .usage
    | some (.flag f) => do shorts (← r.raise f) rest
    | some (.setting s) =>
      match rest with
      | [] => .ok (r, some s)
      | '=' :: value => return (← r.set s (String.ofList value), none)
      | value => return (← r.set s (String.ofList value), none)

def long (r : Request) (text : List Char) : Except Stop Pending :=
  let name := text.takeWhile (· != '=')
  match Switch.ofLong? (String.ofList name), text.drop name.length with
  | some (.setting s), [] => .ok (r, some s)
  | some (.setting s), _ :: value => return (← r.set s (String.ofList value), none)
  | some (.flag f), [] => return (← r.raise f, none)
  | _, _ => .error .usage

inductive Shape where
  | escape
  | long (text : List Char)
  | shorts (text : List Char)
  | plain

def shape : List Char → Shape
  | ['-', '-'] => .escape
  | '-' :: '-' :: text => .long text
  | '-' :: c :: text => .shorts (c :: text)
  | _ => .plain

/-- Reads arguments. Behind `--` all of them are files. -/
def arguments (r : Request) (waiting : Option Setting) (escaped : Bool) :
    List String → Except Stop Request
  | [] => if waiting.isSome then .error .usage else .ok r
  | arg :: args =>
    match escaped, waiting, shape arg.toList with
    | true, none, _ | false, none, .plain => do arguments (← r.setFile arg) none escaped args
    | false, some s, .plain => do arguments (← r.set s arg) none false args
    | false, none, .escape => arguments r none true args
    | false, none, .long text => do
      let (r, waiting) ← long r text
      arguments r waiting false args
    | false, none, .shorts text => do
      let (r, waiting) ← shorts r text
      arguments r waiting false args
    | _, some _, _ => .error .usage

def fromVariable (env : List (String × String)) (r : Request) (s : Setting) : Except Stop Request :=
  if r.isSet s then .ok r
  else match s.variable?.bind fun name => env.lookup name with
    | some value => r.set s value
    | none => .ok r

def request (args : List String) (env : List (String × String)) : Except Stop Request := do
  let r ← arguments .none none false args
  let r ← [Setting.sampleSize, .defaultType, .mode, .seed].foldlM (fromVariable env) r
  if r.expr.isSome = r.file.isSome then throw .usage
  return r

end DiceLang.CommandLine

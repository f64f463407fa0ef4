/-! Files and how imports find them. -/

namespace DiceLang

inductive Reading where
  | file (content : ByteArray)
  | folder
  | missing
  | blocked
  | unread
deriving Inhabited

abbrev Disk := String → Reading

namespace Path

def parts (path : String) : List String := path.splitOn "/"

def isAbsolute (path : String) : Bool := path.toList.head? == some '/'

def join (folder name : String) : String :=
  if folder.isEmpty || folder.toList.getLast? == some '/' then folder ++ name
  else folder ++ "/" ++ name

/-- Removes what adds nothing at the end of a path: slashes and single dots behind a slash. The path is
given last character first. -/
def trimEnd : List Char → List Char
  | ['/'] => ['/']
  | '/' :: s => trimEnd s
  | '.' :: '/' :: s => trimEnd ('/' :: s)
  | s => s
termination_by s => s.length

def parent (path : String) : String :=
  let before := (trimEnd path.toList.reverse).dropWhile (· != '/')
  match trimEnd before with
  | [] => "."
  | s => String.ofList s.reverse

end Path

/-- A folder from which paths lead on: the root, or the one so many levels above the working
directory. -/
inductive Base where
  | root
  | above (levels : Nat)
deriving DecidableEq, Inhabited

/-- A place in the tree of folders: the names that lead to it from a base, the innermost first. -/
structure Spot where
  base : Base
  names : List String
deriving DecidableEq, Inhabited

namespace Spot

def start (path : String) : Spot :=
  if Path.isAbsolute path then ⟨.root, []⟩ else ⟨.above 0, []⟩

def up : Spot → Spot
  | ⟨base, _ :: names⟩ => ⟨base, names⟩
  | ⟨.above n, []⟩ => ⟨.above (n + 1), []⟩
  | ⟨.root, []⟩ => ⟨.root, []⟩

def down (here : Spot) (name : String) : Spot := ⟨here.base, name :: here.names⟩

def step (here : Spot) (part : String) : Spot :=
  if part = "" ∨ part = "." then here else if part = ".." then here.up else here.down part

end Spot

structure Tree where
  nodes : List (Spot × Option ByteArray)
deriving Inhabited

namespace Tree

def empty : Tree := ⟨[]⟩

def node? (t : Tree) (here : Spot) : Option (Option ByteArray) :=
  if here.names.isEmpty then some none else t.nodes.lookup here

def put (t : Tree) (here : Spot) (content : Option ByteArray) : Tree := ⟨(here, content) :: t.nodes⟩

def addFolders (t : Tree) (here : Spot) : List String → Tree × Spot
  | [] => (t, here)
  | part :: rest =>
    let here := here.step part
    (if (t.node? here).isSome then t else t.put here none).addFolders here rest

def addFolder (t : Tree) (path : String) : Tree := (t.addFolders (.start path) (Path.parts path)).1

def addFile (t : Tree) (path : String) (content : ByteArray) : Tree :=
  let parts := Path.parts path
  let (t, folder) := t.addFolders (.start path) parts.dropLast
  t.put (folder.step (parts.getLastD "")) (some content)

def walk (t : Tree) (here : Spot) : List String → Reading
  | [] => .folder
  | part :: rest =>
    match t.node? (here.step part) with
    | none => .missing
    | some none => t.walk (here.step part) rest
    | some (some content) => if rest.isEmpty then .file content else .blocked

def read (t : Tree) : Disk := fun path =>
  if path.isEmpty then .missing else t.walk (.start path) (Path.parts path)

end Tree

inductive FetchError where
  | notFound (address : String)
  | absolute
  | invalidText (path : String)
  | unread (path : String)
deriving DecidableEq, Inhabited

def invalidTextMessage : String := "stream did not contain valid UTF-8"

def FetchError.message : FetchError → String
  | .notFound address => "no readable file for `" ++ address ++ "` in the search path"
  | .absolute => "absolute import paths are not allowed"
  | .invalidText path => "failed to read " ++ path ++ ": " ++ invalidTextMessage
  | .unread path => "nothing is known of " ++ path

abbrev Fetch := String → Except FetchError String

namespace Fetch

/-- Texts by address; a later one replaces an earlier one. -/
def ofTable (table : List (String × String)) : Fetch := fun address =>
  match table.reverse.lookup address with
  | some text => .ok text
  | none => .error (.notFound address)

def first (disk : Disk) (address : String) : List String → Except FetchError String
  | [] => .error (.notFound address)
  | path :: rest =>
    match disk path with
    | .file content =>
      match String.fromUTF8? content with
      | some text => .ok text
      | none => .error (.invalidText path)
    | .unread => .error (.unread path)
    | _ => first disk address rest

def ofDisk (disk : Disk) (folders : List String) (allowAbsolute : Bool) : Fetch := fun address =>
  if Path.isAbsolute address then
    if allowAbsolute then first disk address [address] else .error .absolute
  else first disk address (folders.map fun folder => Path.join folder address)

end Fetch

end DiceLang

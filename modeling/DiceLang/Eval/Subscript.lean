import DiceLang.Eval.Convert

/-! Reading and writing entries of containers. A list or map of subscripts stands for all of them. -/

namespace DiceLang.Eval

/-- The place that an index stands for; negative ones count from the end. -/
def place? (index : Int64) (length : Nat) : Option Nat :=
  let i := index.toInt
  if 0 ≤ i then some i.toNat
  else if 0 ≤ length + i then some (length + i).toNat else none

def itemAt (items : List Value) (index : Int64) : Value :=
  ((place? index items.length).bind fun i => items[i]?).getD .undefined

/-- Writes one element; undefined ones fill up to its place. -/
def putItem (items : List Value) (i : Nat) (v : Value) : List Value :=
  if i < items.length then items.set i v
  else items ++ List.replicate (i - items.length) .undefined ++ [v]

/-- A function that is read from a container is owned by it. -/
def own (container v : Value) : Eval Value :=
  match v with
  | .function _ scope f _ => newFunction scope f container
  | v => return v

/-- Reads from the heap `h`. What is read is put on the heap that the run has come to. -/
def readAt (h : Heap) (site : Expr) (container : Value) : List Container → Nat → Value → Eval Value
  | path, 0, _ => unfinished (.read path)
  | path, depth + 1, subscript => do
    match container, subscript with
    | _, .undefined | _, .boolean _ | _, .function .. => fail site (.invalidSubscript subscript.kind)
    | .list r, .number n => own container (itemAt (h.items r) n)
    | .map r, .string key => own container ((Entries.get? (h.entries r) key).getD .undefined)
    | .list _, .list subs | .map _, .list subs =>
      newList (← (h.items subs).mapM (readAt h site container (.list subs :: path) depth))
    | .list _, .map subs | .map _, .map subs =>
      let read (e : String × Value) : Eval (String × Value) :=
        return (e.1, ← readAt h site container (.map subs :: path) depth e.2)
      newMap (← (h.entries subs).mapM read)
    | _, _ => fail site (.subscriptContainer container.kind subscript.kind)

/-- Reads entries. Only a subscript that contains itself nests deeper than there are containers. -/
def subscript (site : Expr) (container subscript : Value) : Eval Value := do
  let h := (← get).env.heap
  readAt h site container [] (h.size + 1) subscript

def writeAt (again : Again) (site : Expr) (scope : ScopeId) (container : Value) :
    List Container → Nat → Value → Value → Eval Unit
  | path, 0, _, _ => unfinished (.write path)
  | path, depth + 1, subscript, v => do
    match container, subscript with
    | _, .undefined | _, .boolean _ | _, .function .. => fail site (.invalidSubscript subscript.kind)
    | .list r, .number n =>
      let old ← items r
      match place? n old.length with
      | some i =>
        if old.length ≤ i then makeRoom (i + 1)
        setItems r (putItem old i v)
      | none => fail site (.invalidSubscript .number)
    | .map r, .string key => setEntries r (Entries.put (← entries r) key v)
    | .list _, .list subs | .map _, .list subs =>
      let values ← elements again scope v
      let write (x : Value × Nat) : Eval Unit :=
        writeAt again site scope container (.list subs :: path) depth x.1 (values.getD x.2 .undefined)
      (← items subs).zipIdx.forM write
    | .list _, .map subs | .map _, .map subs =>
      let values ← namedElements again scope v
      let write (x : String × Value) : Eval Unit :=
        writeAt again site scope container (.map subs :: path) depth x.2
          ((Entries.get? values x.1).getD .undefined)
      (← entries subs).forM write
    | _, _ => fail site (.subscriptContainer container.kind subscript.kind)

mutual

def assign (again : Again) (scope : ScopeId) : Expr → Value → Eval Unit
  | .var _ name, v => setVariable scope name v
  | .binary loc .subscript left right, v => do
    let container ← again left scope none
    let subscript ← again right scope none
    writeAt again (.binary loc .subscript left right) scope container [] (← budget) subscript v
  | .list _ targets, v => do assignItems again scope targets (← elements again scope v)
  | .map _ targets, v => do assignEntries again scope targets (← namedElements again scope v)
  | target, _ => fail target .notAssignable

def assignItems (again : Again) (scope : ScopeId) : List Expr → List Value → Eval Unit
  | [], _ => return ()
  | target :: targets, vs => do
    assign again scope target (vs.headD .undefined)
    assignItems again scope targets vs.tail

def assignEntries (again : Again) (scope : ScopeId) :
    List (String × Expr) → List (String × Value) → Eval Unit
  | [], _ => return ()
  | (name, target) :: targets, vs => do
    assign again scope target ((Entries.get? vs name).getD .undefined)
    assignEntries again scope targets vs

end

end DiceLang.Eval

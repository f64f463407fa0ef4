import DiceLang.Proofs.Eval.Code
import DiceLang.Proofs.Scope.Stack

/-! A logic of steps. What is to hold of every run is said once for each primitive step and each way of
putting steps together; that it holds of every form of expression follows. -/

namespace DiceLang

def Outcome.OfKind (kind : Option Kind) : Outcome → Prop
  | .value v => ∀ k ∈ kind, v.kind = k
  | .distribution d => ∀ c ∈ d.counters, ∀ k ∈ kind, c.value.kind = k

/-- A fault that a step raises on its own account. The others are raised where an output starts and where
an import is resolved. -/
def Fault.Ordinary : Fault → Prop
  | .nestedOutput | .circularImport _ => False
  | _ => True

namespace Eval

structure Answers (code : Expr → Prop) (target : Option Kind) (v : Value) : Prop where
  made : v.Made code
  kind : ∀ k ∈ target, v.kind = k

def reporting (site : Expr) (mode : OutputMode) (name : String) (e : Expr) (kind : Option Kind)
    (body : Eval Outcome) : Eval Unit := do
  start site mode
  let outcome ← orAbandon body
  modify fun m => m.onLog fun log => log.finish name e kind outcome

def onExit {α : Type} (f : α → Machine → Machine) (g : Machine → Machine) :
    EStateM.Result Interrupt Machine α → EStateM.Result Interrupt Machine α
  | .ok a m => .ok a (f a m)
  | .error e m => .error e (g m)

lemma bind_run {α β : Type} {p : Eval α} {f : α → Eval β} {m n : Machine} {a : α} (h : p m = .ok a n) :
    (p >>= f) m = f a n := by
  simp only [Bind.bind, EStateM.bind, h]

lemma bind_run_error {α β : Type} {p : Eval α} {f : α → Eval β} {m n : Machine} {e : Interrupt}
    (h : p m = .error e n) : (p >>= f) m = .error e n := by
  simp only [Bind.bind, EStateM.bind, h]

lemma read_run {α : Type} (f : Machine → Eval α) (m : Machine) : (get >>= f) m = f m m := rfl

lemma ok_of_bind {α β : Type} {p : Eval α} {f : α → Eval β} {m n : Machine} {b : β}
    (h : (p >>= f) m = .ok b n) : ∃ a m', p m = .ok a m' ∧ f a m' = .ok b n := by
  simp only [Bind.bind, EStateM.bind] at h
  cases hp : p m with
  | ok a m' =>
    rw [hp] at h
    exact ⟨a, m', rfl, h⟩
  | error e m' =>
    rw [hp] at h
    cases h

lemma error_of_bind {α β : Type} {p : Eval α} {f : α → Eval β} {m n : Machine} {e : Interrupt}
    (h : (p >>= f) m = .error e n) :
    p m = .error e n ∨ ∃ a m', p m = .ok a m' ∧ f a m' = .error e n := by
  simp only [Bind.bind, EStateM.bind] at h
  cases hp : p m with
  | ok a m' =>
    rw [hp] at h
    exact .inr ⟨a, m', rfl, h⟩
  | error e' m' =>
    rw [hp] at h
    cases h
    exact .inl rfl

lemma nested_run {α : Type} (site : Expr) (body : Eval α) (m : Machine) : nested site body m =
    if h : m.depth.val < maxDepth then
      onExit (fun _ => Machine.shallower) Machine.shallower (body (m.deeper h))
    else .error (.failed (site.error (.recursionLimit maxDepth))) m := rfl

lemma inScope_run {α : Type} (parent : ScopeId) (body : ScopeId → Eval α) (m : Machine) :
    inScope parent body m =
      onExit (fun _ => release (m.env.enter parent).1.2) (release (m.env.enter parent).1.2)
        (body (m.env.enter parent).1.1 { m with env := (m.env.enter parent).2 }) := rfl

lemma resolving_run (site : Expr) (address : String) (body : Eval MapRef) (m : Machine) :
    resolving site address body m =
      match m.imports.begin? address with
      | none => .error (.failed (site.error (.circularImport address))) m
      | some imports =>
        onExit (fun r n => { n with imports := n.imports.complete address r })
          (fun n => { n with imports := n.imports.abort address })
          (body { m with imports := imports }) := by
  rw [resolving]
  cases m.imports.begin? address with
  | none => rfl
  | some imports =>
    dsimp only
    cases body { m with imports := imports } <;> rfl

lemma orAbandon_run {α : Type} (body : Eval α) (m : Machine) :
    orAbandon body m = onExit (fun _ n => n) (fun n => n.onLog RecordLog.abandon) (body m) := rfl

lemma start_run (site : Expr) (mode : OutputMode) (m : Machine) : start site mode m =
    if m.log.current.isSome then .error (.failed (site.error .nestedOutput)) m
    else .ok () { m with log := { m.log with current := some ⟨mode, #[]⟩ } } := by
  rw [start, read_run, RecordLog.start?]
  split <;> rfl

lemma throwDie_run (die : Value) (m : Machine) : throwDie die m =
    .ok (Dice.throw m.settings.budget die m.env.heap m.generator).1
      { m with
        env := ⟨(Dice.throw m.settings.budget die m.env.heap m.generator).2.1, m.env.arena⟩
        generator := (Dice.throw m.settings.budget die m.env.heap m.generator).2.2 } := rfl

lemma shuffle_run (vs : List Value) (m : Machine) : shuffle vs m =
    match m.generator.shuffle m.settings.budget vs with
    | some x => .ok x.1 { m with generator := x.2 }
    | none => .error (.unfinished (w := .draw)) m := by
  rw [shuffle, read_run]
  cases m.generator.shuffle m.settings.budget vs <;> rfl

def source (again : Again) (scope : ScopeId) (container : Expr) : Eval Value := do
  let v ← again container scope none
  if v.kind = .function then convertTo again scope .list v else pure v

def overContainer (again : Again) (site : Expr) (scope : ScopeId) (loop : ForEach) : Value → Eval Value
  | .list r => do
    let all ← items r
    let results ← inScope scope fun inner => overItems again loop inner 0 all #[]
    newList results.toList
  | .map r => do
    let all ← entries r
    let results ← inScope scope fun inner => overEntries again loop inner all #[]
    newMap results.toList
  | w => fail site (.loopContainer w.kind)

lemma ordinary_of_bindNamed {name : String} {v : Value} {binding : Binding} {fault : Fault}
    (h : bindNamed name v binding = .error fault) : fault.Ordinary := by
  induction binding with
  | nil =>
    cases h
    trivial
  | cons x rest ih =>
    rw [bindNamed] at h
    split at h
    · split at h
      · cases h
        trivial
      · cases h
    · cases hrest : bindNamed name v rest with
      | error fault' =>
        rw [hrest] at h
        cases h
        exact ih hrest
      | ok rest' =>
        rw [hrest] at h
        cases h

lemma ordinary_of_bind {params : List (String × Option Expr)} {positional : List Value}
    {named : List (String × Value)} {fault : Fault}
    (h : Eval.bind params positional named = .error fault) : fault.Ordinary := by
  rw [Eval.bind] at h
  split at h
  · cases h
    trivial
  · generalize bindPositional params positional = binding at h
    induction named generalizing binding with
    | nil => cases h
    | cons x named ih =>
      rw [List.foldlM_cons] at h
      cases hx : bindNamed x.1 x.2 binding with
      | error fault' =>
        rw [hx] at h
        cases h
        exact ordinary_of_bindNamed hx
      | ok next =>
        rw [hx] at h
        exact ih next h

def loaded (again : Again) (site : Expr) (address : String) :
    Except FetchError String → Eval MapRef
  | .error e => fail site (.importing address (.fetch e))
  | .ok text =>
    match parse address text with
    | .error errors => fail site (.importing address (.parse errors))
    | .ok program => do
      let scope ← modifyGet fun m => m.onEnv Environment.pushRoot
      evaluateAll again scope program
      bindings scope

def resolvedBy (site : Expr) (address : String) (answered : Except FetchError String → Eval MapRef) :
    Eval MapRef := do
  match (← get).imports.get? address with
  | some r => return r
  | none => resolving site address do answered ((← get).settings.fetch address)

lemma resolved_eq (again : Again) (site : Expr) (address : String) :
    resolved again site address = resolvedBy site address (loaded again site address) := rfl

lemma resolvedBy_run (site : Expr) (address : String)
    (answered : Except FetchError String → Eval MapRef) (m : Machine) :
    resolvedBy site address answered m =
      match m.imports.get? address with
      | some r => .ok r m
      | none =>
        match m.imports.begin? address with
        | none => .error (.failed (site.error (.circularImport address))) m
        | some imports =>
          onExit (fun r n => { n with imports := n.imports.complete address r })
            (fun n => { n with imports := n.imports.abort address })
            (answered (m.settings.fetch address) { m with imports := imports }) := by
  show (match m.imports.get? address with
    | some r => pure r
    | none => resolving site address do answered ((← get).settings.fetch address) : Eval MapRef) m = _
  cases m.imports.get? address with
  | some r => rfl
  | none => exact resolving_run site address _ m

structure Logic (code : Expr → Prop) where
  Holds {α : Type} : (Again → Eval α) → (α → Prop) → Prop
  ret {α : Type} {Q : α → Prop} {a : α} : Q a → Holds (fun _ => pure a) Q
  bind {α β : Type} {Q : α → Prop} {R : β → Prop} {p : Again → Eval α} {f : Again → α → Eval β} :
    Holds p Q → (∀ a, Q a → Holds (fun again => f again a) R) → Holds (fun again => p again >>= f again) R
  fail {α : Type} {Q : α → Prop} {site : Expr} {fault : Fault} :
    fault.Ordinary → code site → Holds (fun _ => fail site fault) Q
  read {α : Type} {Q : α → Prop} {f : Again → Machine → Eval α} :
    (∀ (again : Again) (m : Machine) (log : RecordLog) (fetch : Fetch),
      f again { m with log := log, settings := { m.settings with fetch := fetch } } = f again m) →
    (∀ m : Machine, m.env.heap.Made code → Holds (fun again => f again m) Q) →
    Holds (fun again => get >>= f again) Q
  onEnv {α : Type} {Q : α → Prop} {f : Environment → α × Environment} :
    (∀ env, (f env).2.arena.stack = env.arena.stack) →
    (∀ env, env.heap.Made code → env.heap.Becomes code (f env).2.heap ∧ Q (f env).1) →
    Holds (fun _ => modifyGet fun m => m.onEnv f) Q
  newFunction (scope : ScopeId) {f : Lambda} {owner : Value} : f.Made code → owner.Made code →
    Holds (fun _ => newFunction scope f owner) fun v => v.Made code ∧ v.kind = .function
  recordThrow (die : Value) (results : List Value) :
    Holds (fun _ => recordThrow die results) fun _ => True
  inScope {α : Type} {Q : α → Prop} {body : Again → ScopeId → Eval α} (parent : ScopeId) :
    (∀ scope, Holds (fun again => body again scope) Q) → Holds (fun again => inScope parent (body again)) Q
  reporting {loc : Location} {mode : OutputMode} {e : Expr} {type : Option OutputType}
    {label : Option Expr} {kind : Option Kind} {body : Again → Eval Outcome} (name : String) :
    code (.output loc mode e type label) → Holds body (Outcome.OfKind kind) →
    Holds (fun again => reporting (.output loc mode e type label) mode name e kind (body again))
      fun _ => True
  resolved {loc : Location} {space : Option String} {e : Expr}
    {answered : Again → Except FetchError String → Eval MapRef} (address : String) :
    code (.importing loc space e) →
    (∀ answer, (∀ text program, answer = .ok text → parse address text = .ok program →
      ∀ e ∈ program, code e) → Holds (fun again => answered again answer) fun _ => True) →
    Holds (fun again => resolvedBy (.importing loc space e) address (answered again)) fun _ => True

namespace Logic

variable {code : Expr → Prop} {α β : Type} (L : Logic code)

lemma imp {Q R : α → Prop} {p : Again → Eval α} (h : L.Holds p Q) (hi : ∀ a, Q a → R a) :
    L.Holds p R := by
  have hp : p = fun again => p again >>= pure := funext fun again => (bind_pure (p again)).symm
  rw [hp]
  exact L.bind h fun a ha => L.ret (hi a ha)

lemma budget : L.Holds (fun _ => budget) fun _ => True :=
  L.read (fun _ _ _ _ => rfl) fun _ _ => L.ret trivial

lemma items (r : ListRef) : L.Holds (fun _ => items r) fun vs => ∀ v ∈ vs, v.Made code :=
  L.read (fun _ _ _ _ => rfl) fun _ hm => L.ret (hm.items r)

lemma entries (r : MapRef) : L.Holds (fun _ => entries r) fun es => ∀ e ∈ es, e.2.Made code :=
  L.read (fun _ _ _ _ => rfl) fun _ hm => L.ret (hm.entries r)

lemma contents (c : Container) : L.Holds (fun _ => contents c) fun vs => ∀ v ∈ vs, v.Made code :=
  L.read (fun _ _ _ _ => rfl) fun _ hm => L.ret (hm.contents c)

lemma same (a b : Value) : L.Holds (fun _ => same a b) fun _ => True :=
  L.read (fun _ _ _ _ => rfl) fun _ _ => L.ret trivial

lemma valueOf (scope : ScopeId) (name : String) :
    L.Holds (fun _ => valueOf scope name) fun v => v.Made code :=
  L.read (fun _ _ _ _ => rfl) fun _ hm => L.ret (Environment.made_get hm scope name)

lemma setItems (r : ListRef) {items : List Value} (hi : ∀ v ∈ items, v.Made code) :
    L.Holds (fun _ => setItems r items) fun _ => True :=
  L.onEnv (fun _ => rfl) fun _ he => ⟨Heap.becomes_setList he r hi, trivial⟩

lemma setEntries (r : MapRef) {entries : List (String × Value)} (he : ∀ e ∈ entries, e.2.Made code) :
    L.Holds (fun _ => setEntries r entries) fun _ => True :=
  L.onEnv (fun _ => rfl) fun _ hh => ⟨Heap.becomes_setMap hh r he, trivial⟩

lemma newList {items : List Value} (hi : ∀ v ∈ items, v.Made code) :
    L.Holds (fun _ => newList items) fun v => v.Made code ∧ v.kind = .list :=
  L.onEnv (fun _ => rfl) fun _ he => ⟨Heap.becomes_newList he hi, trivial, rfl⟩

lemma newMap {entries : List (String × Value)} (he : ∀ e ∈ entries, e.2.Made code) :
    L.Holds (fun _ => newMap entries) fun v => v.Made code ∧ v.kind = .map :=
  L.onEnv (fun _ => rfl) fun _ hh => ⟨Heap.becomes_newMap hh he, trivial, rfl⟩

lemma define (scope : ScopeId) (name : String) {v : Value} (hv : v.Made code) :
    L.Holds (fun _ => define scope name v) fun _ => True :=
  L.onEnv (fun env => env.stack_define scope name v) fun _ he =>
    ⟨Environment.becomes_define he scope name hv, trivial⟩

lemma setVariable (scope : ScopeId) (name : String) {v : Value} (hv : v.Made code) :
    L.Holds (fun _ => setVariable scope name v) fun _ => True :=
  L.onEnv (fun env => env.stack_set scope name v) fun _ he =>
    ⟨Environment.becomes_set he scope name hv, trivial⟩

lemma bindings (scope : ScopeId) : L.Holds (fun _ => bindings scope) fun _ => True :=
  L.onEnv (fun env => env.stack_bindings scope) fun _ he => ⟨Environment.becomes_bindings he scope, trivial⟩

lemma toListValue {v : Value} (hv : v.Made code) :
    L.Holds (fun _ => toListValue v) fun w => w.Made code ∧ w.kind = .list :=
  L.onEnv (fun _ => rfl) fun _ he => ⟨Heap.becomes_toList he hv, trivial, rfl⟩

lemma toMapValue {v : Value} (hv : v.Made code) :
    L.Holds (fun _ => toMapValue v) fun w => w.Made code ∧ w.kind = .map :=
  L.onEnv (fun _ => rfl) fun _ he => ⟨Heap.becomes_toMap he hv, trivial, rfl⟩

lemma foldlM {P : α → Prop} {Q : β → Prop} {f : Again → β → α → Eval β}
    (hf : ∀ b a, Q b → P a → L.Holds (fun again => f again b a) Q) {xs : List α}
    (hx : ∀ x ∈ xs, P x) {b : β} (hb : Q b) : L.Holds (fun again => xs.foldlM (f again) b) Q := by
  induction xs generalizing b with
  | nil => exact L.ret hb
  | cons x xs ih =>
    rw [List.forall_mem_cons] at hx
    simp only [List.foldlM_cons]
    exact L.bind (hf b x hb hx.1) fun b hb => ih hx.2 hb

lemma mapM {P : α → Prop} {Q : β → Prop} {f : Again → α → Eval β}
    (hf : ∀ a, P a → L.Holds (fun again => f again a) Q) {xs : List α} (hx : ∀ x ∈ xs, P x) :
    L.Holds (fun again => xs.mapM (f again)) fun ys => ∀ y ∈ ys, Q y := by
  induction xs with
  | nil => exact L.ret (List.forall_mem_nil _)
  | cons x xs ih =>
    rw [List.forall_mem_cons] at hx
    simp only [List.mapM_cons]
    refine L.bind (hf x hx.1) fun y hy => L.bind (ih hx.2) fun ys hys => ?_
    exact L.ret (List.forall_mem_cons.mpr ⟨hy, hys⟩)

lemma forM {P : α → Prop} {f : Again → α → Eval PUnit}
    (hf : ∀ a, P a → L.Holds (fun again => f again a) fun _ => True) {xs : List α}
    (hx : ∀ x ∈ xs, P x) : L.Holds (fun again => xs.forM (f again)) fun _ => True := by
  induction xs with
  | nil => exact L.ret trivial
  | cons x xs ih =>
    rw [List.forall_mem_cons] at hx
    exact L.bind (hf x hx.1) fun _ _ => ih hx.2

def Asks : Prop :=
  ∀ (e : Expr) (scope : ScopeId) (target : Option Kind), code e →
    L.Holds (fun again => again e scope target) (Answers code target)

structure Converts : Prop where
  asks : L.Asks
  text {v : Value} : v.Made code →
    L.Holds (fun again => do (textFolding again).within (← Eval.budget) [] v) fun _ => True
  number {v : Value} : v.Made code →
    L.Holds (fun again => do (numberFolding again).within (← Eval.budget) [] v) fun _ => True
  wrap (scope : ScopeId) {v : Value} : v.Made code →
    L.Holds (fun _ => wrap scope v) fun w => w.Made code ∧ w.kind = .function

/-- What is to be shown of the steps that may be given up. All else is built from them and from nested
evaluations. -/
structure Serves : Prop extends L.Converts where
  closed : Closed code
  subscript {site : Expr} {container : Value} (key : Value) : code site → container.Made code →
    L.Holds (fun _ => subscript site container key) fun v => v.Made code
  writeAt {site : Expr} (scope : ScopeId) {container v : Value} (key : Value) : code site →
    container.Made code → v.Made code →
    L.Holds (fun again => do writeAt again site scope container [] (← Eval.budget) key v) fun _ => True
  makeRoom (n : Nat) : L.Holds (fun _ => makeRoom n) fun _ => True
  throwPlain {site : Expr} {die : Value} : code site → die.kind ≠ .function →
    L.Holds (fun again => throwOne again site die) fun v => v.Made code
  shuffle {vs : List Value} : (∀ v ∈ vs, v.Made code) →
    L.Holds (fun _ => shuffle vs) fun vs => ∀ v ∈ vs, v.Made code
  repeating {loc : Location} {form : RepeatForm} {body condition : Expr} {limit : Option Expr}
    (scope : ScopeId) : code (.repeating loc form body condition limit) →
    L.Holds (fun again => repeating again scope form body condition limit)
      fun v => v.Made code ∧ v.kind = .list

structure Uniform (L : Again → Logic code) : Prop where
  transfer {α : Type} {Q : α → Prop} {again again' : Again} {p p' : Again → Eval α} :
    p again = p' again' → (L again).Holds p Q → (L again').Holds p' Q
  nested {α : Type} {Q : α → Prop} {again : Again} {site : Expr} {body : Again → Eval α} :
    code site → (L again).Holds body Q → (L again).Holds (fun again => nested site (body again)) Q

section Calls

variable {L} (h : L.Asks)

include h

lemma argumentValues (scope : ScopeId) {binding : Binding} (hb : Binding.Made code binding) :
    L.Holds (fun again => argumentValues again scope binding) fun vs => ∀ x ∈ vs, x.2.Made code := by
  induction binding with
  | nil => exact L.ret (List.forall_mem_nil _)
  | cons x rest ih =>
    obtain ⟨⟨name, fallback⟩, bound⟩ := x
    rw [Binding.made_cons] at hb
    have hrest (v : Value) (hv : v.Made code) : L.Holds
        (fun again => do return (name, v) :: (← Eval.argumentValues again scope rest))
        fun vs => ∀ x ∈ vs, x.2.Made code :=
      L.bind (ih hb.2) fun _ hvs => L.ret (List.forall_mem_cons.mpr ⟨hv, hvs⟩)
    cases bound with
    | some v => exact L.bind (L.ret (hb.1.2 v rfl)) hrest
    | none =>
      cases fallback with
      | some e => exact L.bind (h e scope none (hb.1.1 e rfl)) fun v hv => hrest v hv.made
      | none => exact L.bind (L.ret (Value.made_scalar _)) hrest

omit h in
variable (L) in
lemma defineAll (scope : ScopeId) {vs : List (String × Value)} (hv : ∀ x ∈ vs, x.2.Made code) :
    L.Holds (fun _ => defineAll scope vs) fun _ => True := by
  induction vs with
  | nil => exact L.ret trivial
  | cons x vs ih =>
    rw [List.forall_mem_cons] at hv
    exact L.bind (L.define scope x.1 hv.1) fun _ _ => ih hv.2

lemma call {site : Expr} (hs : code site) (held : ScopeId) {f : Lambda} (hf : f.Made code)
    {owner : Value} (ho : owner.Made code) {positional : List Value}
    (hp : ∀ v ∈ positional, v.Made code) {named : List (String × Value)}
    (hn : ∀ x ∈ named, x.2.Made code) (target : Option Kind) :
    L.Holds (fun again => call again site held f owner positional named target) (Answers code target) := by
  unfold Eval.call
  cases hb : Eval.bind f.params positional named with
  | error _ => exact L.fail (ordinary_of_bind ‹_›) hs
  | ok binding =>
    refine L.bind (argumentValues h held (made_bind hf.2 hp hn hb)) fun vs hvs => ?_
    refine L.inScope held fun scope => L.bind (L.defineAll scope hvs) fun _ _ => ?_
    exact L.bind (L.define scope _ ho) fun _ _ => h f.body scope target hf.1

lemma callFor {v : Value} (hv : v.Made code) (k : Kind) (hk : v.kind = .function) :
    L.Holds (fun again => callFor again k v) (Answers code (some k)) := by
  cases v with
  | scalar s => cases s <;> cases hk
  | list | map => cases hk
  | function i held f owner =>
    exact call h hv.1.1 held hv.1 hv.2 (List.forall_mem_nil _) (List.forall_mem_nil _) _

lemma evaluateAll (scope : ScopeId) {es : List Expr} (he : ∀ e ∈ es, code e) :
    L.Holds (fun again => evaluateAll again scope es) fun _ => True := by
  induction es with
  | nil => exact L.ret trivial
  | cons e es ih =>
    rw [List.forall_mem_cons] at he
    exact L.bind (h e scope none he.1) fun _ _ => ih he.2

lemma values (scope : ScopeId) {es : List Expr} (he : ∀ e ∈ es, code e) :
    L.Holds (fun again => values again scope es) fun vs => ∀ v ∈ vs, v.Made code := by
  induction es with
  | nil => exact L.ret (List.forall_mem_nil _)
  | cons e es ih =>
    rw [List.forall_mem_cons] at he
    refine L.bind (h e scope none he.1) fun v hv => L.bind (ih he.2) fun vs hvs => ?_
    exact L.ret (List.forall_mem_cons.mpr ⟨hv.made, hvs⟩)

lemma namedValues (scope : ScopeId) {es : List (String × Expr)} (he : ∀ e ∈ es.map Prod.snd, code e) :
    L.Holds (fun again => namedValues again scope es) fun vs => ∀ x ∈ vs, x.2.Made code := by
  induction es with
  | nil => exact L.ret (List.forall_mem_nil _)
  | cons x es ih =>
    rw [List.map_cons, List.forall_mem_cons] at he
    refine L.bind (h x.2 scope none he.1) fun v hv => L.bind (ih he.2) fun vs hvs => ?_
    exact L.ret (List.forall_mem_cons.mpr ⟨hv.made, hvs⟩)

lemma number (scope : ScopeId) {e : Expr} (he : code e) :
    L.Holds (fun again => number again scope e) fun _ => True := by
  refine L.bind (h e scope _ he) fun v _ => ?_
  split <;> exact L.ret trivial

lemma boolean (scope : ScopeId) {e : Expr} (he : code e) :
    L.Holds (fun again => boolean again scope e) fun _ => True := by
  refine L.bind (h e scope _ he) fun v _ => ?_
  split <;> exact L.ret trivial

lemma string (scope : ScopeId) {e : Expr} (he : code e) :
    L.Holds (fun again => string again scope e) fun _ => True := by
  refine L.bind (h e scope _ he) fun v _ => ?_
  split <;> exact L.ret trivial

lemma list (scope : ScopeId) {e : Expr} (he : code e) :
    L.Holds (fun again => list again scope e) fun _ => True := by
  refine L.bind (h e scope _ he) fun v _ => ?_
  unfold listOf
  split
  · exact L.ret trivial
  · exact L.onEnv (fun _ => rfl) fun _ hh => ⟨Heap.becomes_newList hh (List.forall_mem_nil _), trivial⟩

lemma both (scope : ScopeId) {left right : Expr} (hl : code left) (hr : code right) :
    L.Holds (fun again => both again scope left right) fun x => x.1.Made code ∧ x.2.Made code :=
  L.bind (h left scope none hl) fun _ ha => L.bind (h right scope none hr) fun _ hb =>
    L.ret ⟨ha.made, hb.made⟩

lemma numbers (scope : ScopeId) {left right : Expr} (hl : code left) (hr : code right) :
    L.Holds (fun again => numbers again scope left right) fun _ => True :=
  L.bind (number h scope hl) fun _ _ => L.bind (number h scope hr) fun _ _ => L.ret trivial

end Calls

section Conversions

variable {L} (s : L.Converts)

include s

lemma convertTo (scope : ScopeId) (k : Kind) {v : Value} (hv : v.Made code) :
    L.Holds (fun again => convertTo again scope k v) (Answers code (some k)) := by
  have hanswer {k : Kind} (w : Value) (hw : w.Made code ∧ w.kind = k) : Answers code (some k) w :=
    ⟨hw.1, fun _ hk => hw.2.trans (Option.some.inj hk)⟩
  unfold Eval.convertTo
  split
  · exact L.ret (hanswer v ⟨hv, ‹v.kind = k›⟩)
  · split
    · exact L.ret (hanswer _ ⟨trivial, rfl⟩)
    · exact callFor s.asks hv _ ‹v.kind = .function›
    · simp only [← bind_assoc]
      exact L.bind (s.text hv) fun _ _ => L.ret (hanswer _ ⟨trivial, rfl⟩)
    · exact L.read (fun _ _ _ _ => rfl) fun _ _ => L.ret (hanswer _ ⟨trivial, rfl⟩)
    · simp only [← bind_assoc]
      exact L.bind (s.number hv) fun _ _ => L.ret (hanswer _ ⟨trivial, rfl⟩)
    · exact L.imp (L.toListValue hv) hanswer
    · exact L.imp (L.toMapValue hv) hanswer
    · exact L.imp (s.wrap scope hv) hanswer

lemma convert (scope : ScopeId) (target : Option Kind) {v : Value} (hv : v.Made code) :
    L.Holds (fun again => convert again scope target v) (Answers code target) := by
  cases target with
  | none => exact L.ret ⟨hv, fun _ hk => nomatch hk⟩
  | some k => exact convertTo s scope k hv

lemma elements (scope : ScopeId) {v : Value} (hv : v.Made code) :
    L.Holds (fun again => elements again scope v) fun vs => ∀ v ∈ vs, v.Made code := by
  refine L.bind (convertTo s scope .list hv) fun w _ => ?_
  split
  · exact L.items _
  · exact L.ret (List.forall_mem_nil _)

lemma namedElements (scope : ScopeId) {v : Value} (hv : v.Made code) :
    L.Holds (fun again => namedElements again scope v) fun es => ∀ e ∈ es, e.2.Made code := by
  refine L.bind (convertTo s scope .map hv) fun w _ => ?_
  split
  · exact L.entries _
  · exact L.ret (List.forall_mem_nil _)

lemma interpolate (scope : ScopeId) (fs : List Fragment) :
    L.Holds (fun again => interpolate again scope fs) fun _ => True := by
  have hfragment (f : Fragment) : L.Holds (fun again => fragment again scope f) fun _ => True := by
    cases f with
    | text s => exact L.ret trivial
    | hole name =>
      refine L.bind (L.valueOf scope name) fun v hv => ?_
      refine L.bind (convertTo s scope .string hv) fun w _ => ?_
      split <;> exact L.ret trivial
  induction fs with
  | nil => exact L.ret trivial
  | cons f fs ih => exact L.bind (hfragment f) fun _ _ => L.bind ih fun _ _ => L.ret trivial

omit s in
variable (L) in
lemma destination (scope : ScopeId) (space : Option String) :
    L.Holds (fun _ => destination scope space) fun _ => True := by
  cases space with
  | none => exact L.bindings scope
  | some name =>
    refine L.read (fun _ _ _ _ => rfl) fun m _ => ?_
    split
    · exact L.ret trivial
    · refine L.bind (Q := fun _ => True) ?_ fun r _ => ?_
      · exact L.onEnv (fun _ => rfl) fun _ hh => ⟨Heap.becomes_newMap hh (List.forall_mem_nil _), trivial⟩
      · exact L.bind (L.setVariable scope name (Value.made_map r)) fun _ _ => L.ret trivial

lemma loaded {site : Expr} (hs : code site) (address : String) {answer : Except FetchError String}
    (hanswer : ∀ text program, answer = .ok text → parse address text = .ok program →
      ∀ e ∈ program, code e) : L.Holds (fun again => loaded again site address answer) fun _ => True := by
  unfold Eval.loaded
  split
  · exact L.fail trivial hs
  · split
    · exact L.fail trivial hs
    · refine L.bind (Q := fun _ => True) ?_ fun scope _ => ?_
      · exact L.onEnv Environment.stack_pushRoot fun _ hh => ⟨Environment.becomes_pushRoot hh, trivial⟩
      · refine L.bind (evaluateAll s.asks scope ?_) fun _ _ => L.bindings scope
        exact hanswer _ _ rfl ‹_›

lemma importing {loc : Location} {space : Option String} {address : Expr}
    (hs : code (.importing loc space address)) (scope : ScopeId) (ha : code address) :
    L.Holds (fun again => importing again (.importing loc space address) scope space address)
      fun _ => True := by
  have hresolved (text : String) :
      L.Holds (fun again => Eval.resolved again (.importing loc space address) text) fun _ => True := by
    simp only [resolved_eq]
    exact L.resolved text hs fun answer hanswer => loaded s hs text hanswer
  refine L.bind (string s.asks scope ha) fun text _ => L.bind (hresolved text) fun source _ => ?_
  refine L.bind (L.destination scope space) fun target _ => ?_
  refine L.bind (L.entries source) fun added hadded => L.bind (L.entries target) fun old hold => ?_
  exact L.setEntries target (Entries.forall_putAll hold hadded)

lemma step {loop : ForEach} (ho : code loop.out) (hc : ∀ e ∈ loop.condition, code e)
    (scope : ScopeId) {index item : Value} (hindex : index.Made code) (hitem : item.Made code) :
    L.Holds (fun again => step again loop scope index item) fun r => ∀ v ∈ r, v.Made code := by
  have hholds : L.Holds (fun again => holds again scope loop.condition) fun _ => True := by
    cases hcondition : loop.condition with
    | none => exact L.ret trivial
    | some e => exact boolean s.asks scope (hc e hcondition)
  have hbody : L.Holds
      (fun again => do
        if ← holds again scope loop.condition then return some (← again loop.out scope none)
        return none) fun r : Option Value => ∀ v ∈ r, v.Made code := by
    refine L.bind hholds fun b _ => ?_
    cases b with
    | true =>
      refine L.bind (s.asks loop.out scope none ho) fun v hv => L.ret ?_
      simpa using hv.made
    | false => exact L.ret (by simp)
  refine L.bind (L.define scope loop.item hitem) fun _ _ => ?_
  cases loop.index with
  | none => exact hbody
  | some name => exact L.bind (L.define scope name hindex) fun _ _ => hbody

lemma overItems {loop : ForEach} (ho : code loop.out) (hc : ∀ e ∈ loop.condition, code e)
    (scope : ScopeId) (i : Nat) {items : List Value} (hi : ∀ v ∈ items, v.Made code)
    {results : Array Value} (hr : ∀ v ∈ results, v.Made code) :
    L.Holds (fun again => overItems again loop scope i items results) fun vs => ∀ v ∈ vs, v.Made code := by
  induction items generalizing i results with
  | nil => exact L.ret hr
  | cons item rest ih =>
    rw [List.forall_mem_cons] at hi
    refine L.bind (step s ho hc scope (Value.made_scalar _) hi.1) fun r hv => ih _ hi.2 fun v hmem => ?_
    rcases Array.mem_append.mp hmem with hmem | hmem
    · exact hr v hmem
    · exact hv v (by simpa using hmem)

lemma overEntries {loop : ForEach} (ho : code loop.out) (hc : ∀ e ∈ loop.condition, code e)
    (scope : ScopeId) {items : List (String × Value)} (hi : ∀ x ∈ items, x.2.Made code)
    {results : Array (String × Value)} (hr : ∀ x ∈ results, x.2.Made code) :
    L.Holds (fun again => overEntries again loop scope items results) fun xs => ∀ x ∈ xs, x.2.Made code := by
  induction items generalizing results with
  | nil => exact L.ret hr
  | cons item rest ih =>
    rw [List.forall_mem_cons] at hi
    refine L.bind (step s ho hc scope (Value.made_scalar _) hi.1) fun r hv => ih hi.2 fun x hmem => ?_
    rcases Array.mem_append.mp hmem with hmem | hmem
    · exact hr x hmem
    · obtain ⟨v, hmem, rfl⟩ := Array.mem_map.mp hmem
      exact hv v (by simpa using hmem)

lemma forEach {site container : Expr} (hs : code site) (hcontainer : code container)
    (scope : ScopeId) {loop : ForEach} (ho : code loop.out) (hc : ∀ e ∈ loop.condition, code e) :
    L.Holds (fun again => forEach again site container scope loop) fun v => v.Made code := by
  have hbody (v : Value) : L.Holds (fun again => overContainer again site scope loop v)
      fun v => v.Made code := by
    unfold overContainer
    split
    · refine L.bind (L.items _) fun all hall => ?_
      refine L.bind (L.inScope scope fun inner => overItems s ho hc inner 0 hall (by simp)) ?_
      intro results hr
      exact L.imp (L.newList (by simpa using hr)) fun _ hv => hv.1
    · refine L.bind (L.entries _) fun all hall => ?_
      refine L.bind (L.inScope scope fun inner => overEntries s ho hc inner hall (by simp)) ?_
      intro results hr
      exact L.imp (L.newMap (by simpa using hr)) fun _ hv => hv.1
    · exact L.fail trivial hs
  refine L.bind (s.asks container scope none hcontainer) fun v hv => ?_
  dsimp only
  split
  · exact L.bind (convertTo s scope .list hv.made) fun w _ => hbody w
  · exact L.bind (L.ret hv.made) fun w _ => hbody w

omit s in
lemma ofKind_incr {kind : Option Kind} {d : Distribution} (hd : Outcome.OfKind kind (.distribution d))
    (h : Heap) {v : Value} (hv : ∀ k ∈ kind, v.kind = k) :
    Outcome.OfKind kind (.distribution (d.incr h v)) := by
  have hcount (cs : List Counter) (hcs : ∀ c ∈ cs, ∀ k ∈ kind, c.value.kind = k) :
      ∀ c ∈ Distribution.countIn h v cs, ∀ k ∈ kind, c.value.kind = k := by
    induction cs with
    | nil => simpa [Distribution.countIn, Counter.single] using hv
    | cons c cs ih =>
      rw [List.forall_mem_cons] at hcs
      rw [Distribution.countIn]
      split
      · exact List.forall_mem_cons.mpr hcs
      · exact List.forall_mem_cons.mpr ⟨hcs.1, ih hcs.2⟩
  exact hcount d.counters hd

lemma sample (scope : ScopeId) {e : Expr} (he : code e) (kind : Option Kind) (n : Nat)
    {d : Distribution} (hd : Outcome.OfKind kind (.distribution d)) :
    L.Holds (fun again => sample again scope e kind n d) fun d => Outcome.OfKind kind (.distribution d) := by
  induction n generalizing d with
  | zero => exact L.ret hd
  | succ n ih =>
    refine L.bind (s.asks e scope kind he) fun v hv => ?_
    refine L.bind (Q := fun d => Outcome.OfKind kind (.distribution d)) ?_ fun d hd => ih hd
    exact L.read (fun _ _ _ _ => rfl) fun m _ => L.ret (ofKind_incr hd m.env.heap hv.kind)

lemma observe (scope : ScopeId) (mode : OutputMode) {e : Expr} (he : code e) (kind : Option Kind) :
    L.Holds (fun again => observe again scope mode e kind) (Outcome.OfKind kind) := by
  cases mode with
  | roll => exact L.bind (s.asks e scope kind he) fun v hv => L.ret hv.kind
  | sample =>
    refine L.read (fun _ _ _ _ => rfl) fun m _ => ?_
    exact L.bind (sample s scope he kind _ (List.forall_mem_nil _)) fun d hd => L.ret hd

lemma output {loc : Location} {mode : OutputMode} {e : Expr} {type : Option OutputType}
    {name : Option Expr} (hs : code (.output loc mode e type name)) (scope : ScopeId) (he : code e)
    (hn : ∀ n ∈ name, code n) :
    L.Holds (fun again => output again (.output loc mode e type name) scope mode e type name)
      fun _ => True := by
  refine L.read (fun _ _ _ _ => rfl) fun m _ => ?_
  have hreport (text : String) := L.reporting text hs
    (observe s scope mode he (type.getD m.settings.defaultType).target)
  cases name with
  | some n => exact L.bind (string s.asks scope (hn n rfl)) fun text _ => hreport text
  | none =>
    refine L.bind (Q := fun _ => True) ?_ fun text _ => hreport text
    exact L.read (fun _ _ _ _ => rfl) fun m _ => L.ret trivial

end Conversions

end Logic

end Eval

end DiceLang

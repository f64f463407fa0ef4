import DiceLang.Proofs.Eval.Tolerant

/-! Traits of steps: what holds of every evaluation, whatever code it comes to, because it holds of each
step. Along with a trait comes what the results are. -/

namespace DiceLang

lemma closed_true : Closed fun _ => True :=
  ⟨fun _ _ => trivial, fun _ => trivial, fun _ => trivial, fun _ => trivial, fun _ _ => trivial⟩

lemma Value.made_true (v : Value) : v.Made fun _ => True := by
  induction v with
  | scalar | list | map => trivial
  | function _ _ f owner ih => exact ⟨⟨trivial, fun _ _ _ _ => trivial⟩, ih⟩

lemma Heap.made_true (h : Heap) : h.Made fun _ => True :=
  ⟨fun _ v _ => v.made_true, fun _ e _ => e.2.made_true⟩

namespace Eval

variable {α β : Type}

def result? : EStateM.Result Interrupt Machine α → Option α
  | .ok a _ => some a
  | .error _ _ => none

lemma exists_of_result? {r : EStateM.Result Interrupt Machine α} {a : α} (h : result? r = some a) :
    ∃ m, r = .ok a m := by
  cases r with
  | ok b m =>
    cases h
    exact ⟨m, rfl⟩
  | error => cases h

def scalars? : EStateM.Result Interrupt Machine Value → Option (List (Option Scalar))
  | .ok (.list r) m => some ((m.env.heap.items r).map Value.scalar?)
  | _ => none

lemma exists_of_scalars? {r : EStateM.Result Interrupt Machine Value} {ss : List (Option Scalar)}
    (h : scalars? r = some ss) :
    ∃ q m, r = .ok (.list q) m ∧ (m.env.heap.items q).map Value.scalar? = ss := by
  cases r with
  | ok v m =>
    cases v with
    | list q => exact ⟨q, m, rfl, Option.some.inj h⟩
    | scalar | map | function => cases h
  | error e m => cases h

def Gives (p : Eval α) (Q : α → Prop) : Prop := ∀ m a n, p m = .ok a n → Q a

lemma gives_pure {Q : α → Prop} {a : α} (ha : Q a) : Gives (pure a) Q := by
  rintro _ _ _ ⟨⟩
  exact ha

lemma gives_fail {Q : α → Prop} (site : Expr) (fault : Fault) : Gives (fail site fault) Q := by
  rintro _ _ _ ⟨⟩

lemma Gives.bind {p : Eval α} {f : α → Eval β} {Q : α → Prop} {R : β → Prop} (hp : Gives p Q)
    (hf : ∀ a, Q a → Gives (f a) R) : Gives (p >>= f) R := by
  intro m b n hb
  obtain ⟨a, m', ha, hb⟩ := ok_of_bind hb
  exact hf a (hp m a m' ha) m' b n hb

lemma gives_then {p : Eval α} {f : α → Eval β} {R : β → Prop} (hf : ∀ a, Gives (f a) R) :
    Gives (p >>= f) R := by
  intro m b n hb
  obtain ⟨a, m', -, hb⟩ := ok_of_bind hb
  exact hf a m' b n hb

lemma gives_read {f : Machine → Eval α} {Q : α → Prop} (hf : ∀ m, Gives (f m) Q) :
    Gives (get >>= f) Q := fun m a n h => hf m m a n h

lemma gives_modifyGet {f : Machine → α × Machine} {Q : α → Prop} (hf : ∀ m, Q (f m).1) :
    Gives (modifyGet f) Q := by
  rintro m _ _ ⟨⟩
  exact hf m

lemma ok_of_onExit {f : α → Machine → Machine} {g : Machine → Machine}
    {r : EStateM.Result Interrupt Machine α} {a : α} {n : Machine}
    (h : onExit f g r = .ok a n) : ∃ m, r = .ok a m ∧ f a m = n := by
  cases r with
  | ok b m =>
    cases h
    exact ⟨m, rfl, rfl⟩
  | error e m => cases h

lemma Gives.nested {body : Eval α} {Q : α → Prop} (site : Expr) (h : Gives body Q) :
    Gives (nested site body) Q := by
  intro m a n ha
  rw [nested_run] at ha
  split at ha
  · obtain ⟨m', hbody, -⟩ := ok_of_onExit ha
    exact h _ a m' hbody
  · cases ha

lemma Gives.inScope {body : ScopeId → Eval α} {Q : α → Prop} (parent : ScopeId)
    (h : ∀ scope, Gives (body scope) Q) : Gives (inScope parent body) Q := by
  intro m a n ha
  rw [inScope_run] at ha
  obtain ⟨m', hbody, -⟩ := ok_of_onExit ha
  exact h _ _ a m' hbody

structure Trait (P : {α : Type} → Eval α → Prop) : Prop where
  ret {α : Type} (a : α) : P (pure a)
  bind {α β : Type} {p : Eval α} {f : α → Eval β} : P p →
    (∀ m a n, p m = .ok a n → P (f a)) → P (p >>= f)
  fail {α : Type} {fault : Fault} (site : Expr) : fault.Ordinary → P (fail site fault : Eval α)
  unfinished {α : Type} (w : Work) : P (unfinished w : Eval α)
  read {α : Type} {f : Machine → Eval α} :
    (∀ (m : Machine) (log : RecordLog) (fetch : Fetch),
      f { m with log := log, settings := { m.settings with fetch := fetch } } = f m) →
    (∀ m, P (f m)) → P (get >>= f)
  onEnv {α : Type} (f : Environment → α × Environment) : P (modifyGet fun m => m.onEnv f)
  newFunction (scope : ScopeId) (f : Lambda) (owner : Value) : P (newFunction scope f owner)
  throwDie (die : Value) : P (throwDie die)
  shuffle (vs : List Value) : P (shuffle vs)
  recordThrow (die : Value) (results : List Value) : P (recordThrow die results)
  nested {α : Type} {body : Eval α} (site : Expr) : P body → P (nested site body)
  inScope {α : Type} {body : ScopeId → Eval α} (parent : ScopeId) : (∀ scope, P (body scope)) →
    P (inScope parent body)
  reporting {body : Eval Outcome} {kind : Option Kind} (site : Expr) (mode : OutputMode)
    (name : String) (e : Expr) : P body → Gives body (Outcome.OfKind kind) →
    P (reporting site mode name e kind body)
  resolved {answered : Except FetchError String → Eval MapRef} (site : Expr) (address : String) :
    (∀ answer, P (answered answer)) → P (resolvedBy site address answered)

namespace Trait

variable {P : {α : Type} → Eval α → Prop} (t : Trait P)

def logic (again : Again) : Logic fun _ => True where
  Holds p Q := P (p again) ∧ Gives (p again) Q
  ret ha := ⟨t.ret _, gives_pure ha⟩
  bind hp hf := ⟨t.bind hp.1 fun m a n h => (hf a (hp.2 m a n h)).1, hp.2.bind fun a ha => (hf a ha).2⟩
  fail hfault _ := ⟨t.fail _ hfault, gives_fail _ _⟩
  read hf hp := by
    refine ⟨t.read (hf again) fun m => ?_, gives_read fun m => ?_⟩
    · exact (hp m m.env.heap.made_true).1
    · exact (hp m m.env.heap.made_true).2
  onEnv _ hf := ⟨t.onEnv _, gives_modifyGet fun m => (hf m.env m.env.heap.made_true).2⟩
  newFunction scope _ _ _ _ :=
    ⟨t.newFunction scope _ _, gives_modifyGet fun _ => ⟨Value.made_true _, rfl⟩⟩
  recordThrow die results := ⟨t.recordThrow die results, fun _ _ _ _ => trivial⟩
  inScope parent h := ⟨t.inScope parent fun s => (h s).1, .inScope parent fun s => (h s).2⟩
  reporting name _ h := ⟨t.reporting _ _ name _ h.1 h.2, fun _ _ _ _ => trivial⟩
  resolved address _ h := by
    refine ⟨t.resolved _ address fun answer => ?_, fun _ _ _ _ => trivial⟩
    exact (h answer fun _ _ _ _ _ _ => trivial).1

lemma uniform : Logic.Uniform t.logic where
  transfer heq h := ⟨heq ▸ h.1, heq ▸ h.2⟩
  nested _ h := ⟨t.nested _ h.1, h.2.nested _⟩

lemma tolerates (again : Again) : (t.logic again).Tolerates where
  unfinished w := ⟨t.unfinished w, by rintro _ _ _ ⟨⟩⟩
  throwDie die := ⟨t.throwDie die, fun _ _ _ _ v _ => v.made_true⟩
  shuffle _ := ⟨t.shuffle _, fun _ _ _ _ v _ => v.made_true⟩

lemma asks : (t.logic evaluate).Asks := Logic.asks_evaluate t.uniform t.tolerates closed_true

lemma serves : (t.logic evaluate).Serves := Logic.serves (t.tolerates evaluate) closed_true t.asks

end Trait

end Eval

end DiceLang

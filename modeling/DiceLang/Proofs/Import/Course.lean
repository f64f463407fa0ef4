import DiceLang.Proofs.Session

/-! The course of a run as far as imports go: the moments that it passes through, each with the addresses
that are being resolved, what is kept of the imports and what is done about them. -/

namespace DiceLang

namespace ImportCache

variable {c d : ImportCache} {address other : String}

structure Sound (c : ImportCache) : Prop where
  nodup : c.inProgress.Nodup
  unresolved : ∀ address ∈ c.inProgress, c.get? address = none

def Grows (c d : ImportCache) : Prop := ∀ address r, c.get? address = some r → d.get? address = some r

lemma begin?_eq_some :
    c.begin? address = some d ↔ address ∉ c.inProgress ∧ ⟨c.resolved, address :: c.inProgress⟩ = d := by
  rw [begin?]
  split <;> simp [*]

lemma begin?_eq_none : c.begin? address = none ↔ address ∈ c.inProgress := by
  rw [begin?]
  split <;> simp [*]

lemma Sound.begun (hc : c.Sound) (hnone : c.get? address = none) (hd : c.begin? address = some d) :
    d.Sound := by
  obtain ⟨hnew, rfl⟩ := begin?_eq_some.mp hd
  exact ⟨List.nodup_cons.mpr ⟨hnew, hc.nodup⟩, List.forall_mem_cons.mpr ⟨hnone, hc.unresolved⟩⟩

lemma inProgress_abort {rest : List String} (hc : c.inProgress = address :: rest)
    (hnew : address ∉ rest) : (c.abort address).inProgress = rest := by
  rw [abort, hc, List.filter_cons_of_neg (by simp)]
  apply List.filter_eq_self.mpr
  intro x hx
  exact bne_iff_ne.mpr fun h => hnew (h ▸ hx)

lemma get?_complete_of_ne (r : MapRef) (h : other ≠ address) :
    (c.complete address r).get? other = c.get? other := Entries.get?_put_ne _ r h

end ImportCache

namespace Eval

inductive ImportEvent where
  | imports (address : String)
  | fetches (address : String)
  | completes (address : String) (bindings : MapRef)

structure Moment where
  stack : List String
  cache : ImportCache
  event : Option ImportEvent

namespace Moment

def quiet (m : Machine) : Moment := ⟨[], m.imports, none⟩

def under (address : String) (x : Moment) : Moment := { x with stack := x.stack ++ [address] }

def closing (address : String) : EStateM.Result Interrupt Machine MapRef → Moment
  | .ok r n => ⟨[], n.imports, some (.completes address r)⟩
  | .error _ n => .quiet n

/-- What is resolved at the earlier moment is so at the later one, with the same bindings, and is not
fetched then. -/
def Before (x y : Moment) : Prop := ∀ address r, x.cache.get? address = some r →
  y.cache.get? address = some r ∧ y.event ≠ some (.fetches address)

end Moment

/-- A step that has nothing to do with imports and runs no other step. -/
inductive Plain : {α : Type} → Eval α → Prop
  | ret {α : Type} (a : α) : Plain (pure a)
  | fail {α : Type} {fault : Fault} (site : Expr) : fault.Ordinary → Plain (fail site fault : Eval α)
  | unfinished {α : Type} (w : Work) : Plain (unfinished w : Eval α)
  | onEnv {α : Type} (f : Environment → α × Environment) : Plain (modifyGet fun m => m.onEnv f)
  | newFunction (scope : ScopeId) (f : Lambda) (owner : Value) : Plain (newFunction scope f owner)
  | throwDie (die : Value) : Plain (throwDie die)
  | shuffle (vs : List Value) : Plain (shuffle vs)
  | recordThrow (die : Value) (results : List Value) : Plain (recordThrow die results)

inductive Passes : {α : Type} → Eval α → Machine → List Moment → Prop
  | plain {α : Type} {p : Eval α} (m : Machine) : Plain p →
      Passes p m [.quiet m, .quiet (after (p m))]
  | bind {α β : Type} {p : Eval α} {f : α → Eval β} {m n : Machine} {a : α} {t t' : List Moment} :
      p m = .ok a n → Passes p m t → Passes (f a) n t' → Passes (p >>= f) m (t ++ t')
  | stop {α β : Type} {p : Eval α} (f : α → Eval β) {m n : Machine} {e : Interrupt}
      {t : List Moment} : p m = .error e n → Passes p m t → Passes (p >>= f) m t
  | read {α : Type} {f : Machine → Eval α} {m : Machine} {t : List Moment} :
      Passes (f m) m t → Passes (get >>= f) m t
  | nested {α : Type} {body : Eval α} {m : Machine} {t : List Moment} (site : Expr)
      (hd : m.depth.val < maxDepth) : Passes body (m.deeper hd) t → Passes (nested site body) m t
  | tooDeep {α : Type} {m : Machine} (site : Expr) (body : Eval α) : ¬ m.depth.val < maxDepth →
      Passes (nested site body) m [.quiet m]
  | inScope {α : Type} {body : ScopeId → Eval α} {m : Machine} {t : List Moment} (parent : ScopeId) :
      Passes (body (m.env.enter parent).1.1) { m with env := (m.env.enter parent).2 } t →
      Passes (inScope parent body) m t
  | reporting {body : Eval Outcome} {m n : Machine} {t : List Moment} {site : Expr} {mode : OutputMode}
      (name : String) (e : Expr) (kind : Option Kind) : start site mode m = .ok () n → Passes body n t →
      Passes (reporting site mode name e kind body) m t
  | nestedOutput {m : Machine} {site : Expr} {mode : OutputMode} (name : String) (e : Expr)
      (kind : Option Kind) (body : Eval Outcome) : m.log.current.isSome = true →
      Passes (reporting site mode name e kind body) m [.quiet m]
  | found {m : Machine} {address : String} {r : MapRef} (site : Expr)
      (answered : Except FetchError String → Eval MapRef) : m.imports.get? address = some r →
      Passes (resolvedBy site address answered) m [⟨[], m.imports, some (.imports address)⟩]
  | circular {m : Machine} {address : String} (site : Expr)
      (answered : Except FetchError String → Eval MapRef) : m.imports.get? address = none →
      m.imports.begin? address = none →
      Passes (resolvedBy site address answered) m [⟨[], m.imports, some (.imports address)⟩]
  | loads {m : Machine} {address : String} {imports : ImportCache} {t : List Moment} (site : Expr)
      {answered : Except FetchError String → Eval MapRef} : m.imports.get? address = none →
      m.imports.begin? address = some imports →
      Passes (answered (m.settings.fetch address)) { m with imports := imports } t →
      Passes (resolvedBy site address answered) m
        (⟨[], m.imports, some (.imports address)⟩ :: ⟨[address], imports, some (.fetches address)⟩ ::
          (t.map (Moment.under address) ++ [.closing address (resolvedBy site address answered m)]))

def Traceable {α : Type} (p : Eval α) : Prop := ∀ m, ∃ t, Passes p m t

lemma Plain.traceable {α : Type} {p : Eval α} (h : Plain p) : Traceable p := fun m => ⟨_, .plain m h⟩

lemma Traceable.bind {α β : Type} {p : Eval α} {f : α → Eval β} (hp : Traceable p)
    (hf : ∀ m a n, p m = .ok a n → Traceable (f a)) : Traceable (p >>= f) := by
  intro m
  obtain ⟨t, ht⟩ := hp m
  cases hr : p m with
  | ok a n =>
    obtain ⟨t', ht'⟩ := hf m a n hr n
    exact ⟨t ++ t', .bind hr ht ht'⟩
  | error e n => exact ⟨t, .stop f hr ht⟩

lemma Traceable.resolvedBy {answered : Except FetchError String → Eval MapRef} (site : Expr)
    (address : String) (h : ∀ answer, Traceable (answered answer)) :
    Traceable (resolvedBy site address answered) := by
  intro m
  cases hget : m.imports.get? address with
  | some r => exact ⟨_, .found site answered hget⟩
  | none =>
    cases hbegin : m.imports.begin? address with
    | none => exact ⟨_, .circular site answered hget hbegin⟩
    | some imports =>
      obtain ⟨t, ht⟩ := h (m.settings.fetch address) { m with imports := imports }
      exact ⟨_, .loads site hget hbegin ht⟩

lemma Traceable.reporting {body : Eval Outcome} (site : Expr) (mode : OutputMode) (name : String)
    (e : Expr) (kind : Option Kind) (h : Traceable body) :
    Traceable (reporting site mode name e kind body) := by
  intro m
  by_cases hflight : m.log.current.isSome = true
  · exact ⟨_, .nestedOutput name e kind body hflight⟩
  · have hstart := start_run site mode m
    rw [if_neg hflight] at hstart
    obtain ⟨t, ht⟩ := h { m with log := { m.log with current := some ⟨mode, #[]⟩ } }
    exact ⟨t, .reporting name e kind hstart ht⟩

lemma trait_traceable : Trait Traceable where
  ret a := (Plain.ret a).traceable
  bind := Traceable.bind
  fail site hfault := (Plain.fail site hfault).traceable
  unfinished w := (Plain.unfinished w).traceable
  read _ h m := by
    obtain ⟨t, ht⟩ := h m m
    exact ⟨t, .read ht⟩
  onEnv f := (Plain.onEnv f).traceable
  newFunction scope f owner := (Plain.newFunction scope f owner).traceable
  throwDie die := (Plain.throwDie die).traceable
  shuffle vs := (Plain.shuffle vs).traceable
  recordThrow die results := (Plain.recordThrow die results).traceable
  nested site h m := by
    by_cases hd : m.depth.val < maxDepth
    · obtain ⟨t, ht⟩ := h (m.deeper hd)
      exact ⟨t, .nested site hd ht⟩
    · exact ⟨_, .tooDeep site _ hd⟩
  inScope parent h m := by
    obtain ⟨t, ht⟩ := h (m.env.enter parent).1.1 { m with env := (m.env.enter parent).2 }
    exact ⟨t, .inScope parent ht⟩
  reporting site mode name e h _ := h.reporting site mode name e _
  resolved site address h := Traceable.resolvedBy site address h

end Eval

end DiceLang

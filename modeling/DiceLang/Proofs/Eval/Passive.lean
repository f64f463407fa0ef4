import DiceLang.Proofs.TwoRuns.InOrder

/-! Records do not influence what is evaluated. They keep functions, though, so runs with other records may
free other scopes. -/

namespace DiceLang

namespace Machine

variable {P : ScopePairs} {m m' n n' : Machine}

def Meet (P : ScopePairs) (m m' : Machine) (s t : ScopeId) : Prop :=
  P s t ∨ ∃ i : Nat, m.env.arena.stack[i]? = some s ∧ m'.env.arena.stack[i]? = some t

/-- The machines may have other records, as long as they agree on whether an output is in flight, other slots
for their scopes, and other scopes that are out of use. From scopes that meet they search the same maps for
variables. -/
structure SameButRecords (P : ScopePairs) (m m' : Machine) : Prop where
  depth : m.depth = m'.depth
  identity : m.identity = m'.identity
  generator : m.generator = m'.generator
  imports : m.imports = m'.imports
  settings : m.settings = m'.settings
  inFlight : m.log.current.isSome = m'.log.current.isSome
  heap : Heap.Like P m.env.heap m'.env.heap
  tended : m.env.arena.Tends fun s => ∃ t, P s t
  tended' : m'.env.arena.Tends fun t => ∃ s, P s t
  layers : ∀ {s t}, m.Meet P m' s t → m.env.layers s = m'.env.layers t

def unrecorded (P : ScopePairs) (m m' : Machine) : Pairing where
  lasting := P
  passing s t := ∃ i : Nat, m.env.arena.stack[i]? = some s ∧ m'.env.arena.stack[i]? = some t
  left := m.env.arena.stack
  right := m'.env.arena.stack
  records := False
  mem_left := fun ⟨_, hs, _⟩ => Array.mem_of_getElem? hs
  mem_right := fun ⟨_, _, ht⟩ => Array.mem_of_getElem? ht

namespace SameButRecords

lemma twin (h : m.SameButRecords P m') : Twin m.depth m.depth (unrecorded P m m') m m' where
  depth := rfl
  depth' := congrArg Fin.val h.depth.symm
  heap := h.heap
  log := False.elim
  inFlight := h.inFlight
  identity := h.identity
  generator := h.generator
  imports := h.imports
  settings := h.settings
  stack := rfl
  stack' := rfl
  tended := h.tended
  tended' := h.tended'
  layers := h.layers

lemma withLog (h : m.SameButRecords P m') {log : RecordLog}
    (hflight : log.current.isSome = m'.log.current.isSome) :
    m.SameButRecords P { m' with log := log } :=
  { h with inFlight := h.inFlight.trans hflight.symm }

end SameButRecords

lemma InOrder.sameButRecords {kept : ScopeId → Prop} (h : m.InOrder kept) :
    m.SameButRecords (.diagonal kept) m where
  depth := rfl
  identity := rfl
  generator := rfl
  imports := rfl
  settings := rfl
  inFlight := rfl
  heap := h.heap
  tended := h.twin.tended
  tended' := h.twin.tended'
  layers := by
    rintro s t (⟨rfl, -⟩ | ⟨i, hs, ht⟩)
    · rfl
    · rw [Option.some.inj (hs.symm.trans ht)]

structure LeaveSame (P P' : ScopePairs) (m m' n n' : Machine) : Prop where
  grows : ∀ s t, P s t → P' s t
  same : n.SameButRecords P' n'
  left : n.env.arena.stack = m.env.arena.stack
  right : n'.env.arena.stack = m'.env.arena.stack
  lookups : ∀ s t, n.Meet P' n' s t → ∀ name, Like P' (n.env.lookup s name) (n'.env.lookup t name)

end Machine

lemma Twin.leaveSame {P : ScopePairs} {d : Nat} {π : Pairing} {m m' n n' : Machine}
    (hle : m.unrecorded P m' ≤ π) (ht : Twin d d π n n') : m.LeaveSame P π.lasting m' n n' := by
  have hleft : n.env.arena.stack = m.env.arena.stack := ht.stack.trans hle.left
  have hright : n'.env.arena.stack = m'.env.arena.stack := ht.stack'.trans hle.right
  have hscopes {s t : ScopeId} (hs : n.Meet π.lasting n' s t) : π.Scopes s t := by
    rw [Machine.Meet, hleft, hright] at hs
    exact hs.imp_right fun hst => hle.passing ▸ hst
  exact {
    grows := hle.lasting
    same := {
      depth := Fin.ext (ht.depth.trans ht.depth'.symm)
      identity := ht.identity
      generator := ht.generator
      imports := ht.imports
      settings := ht.settings
      inFlight := ht.inFlight
      heap := ht.heap
      tended := ht.tended
      tended' := ht.tended'
      layers := fun hs => ht.layers (hscopes hs) }
    left := hleft
    right := hright
    lookups := fun _ _ hs => ht.lookup (hscopes hs) }

namespace Eval

inductive SameOutcome (P : ScopePairs) (m m' : Machine) :
    EStateM.Result Interrupt Machine Value → EStateM.Result Interrupt Machine Value → Prop
  | ok {P' : ScopePairs} {v w : Value} {n n' : Machine} : m.LeaveSame P P' m' n n' → Like P' v w →
      n.env.heap.text v = n'.env.heap.text w → SameOutcome P m m' (.ok v n) (.ok w n')
  | error {P' : ScopePairs} {e : Interrupt} {n n' : Machine} : m.LeaveSame P P' m' n n' →
      SameOutcome P m m' (.error e n) (.error e n')

lemma EndAlike.sameOutcome {P : ScopePairs} {d : Nat} {m m' : Machine}
    {r r' : EStateM.Result Interrupt Machine Value} (h : EndAlike d d (m.unrecorded P m') r r') :
    SameOutcome P m m' r r' := by
  cases h with
  | ok hle ht hv => exact .ok (ht.leaveSame hle) hv (ht.heap.text_eq hv)
  | error hle ht => exact .error (ht.leaveSame hle)
  | left hne _ => exact absurd rfl hne
  | right hne _ => exact absurd rfl hne

lemma sameOutcome_evaluateBy {P : ScopePairs} {m m' : Machine} {s t : ScopeId}
    (hm : m.SameButRecords P m') (hs : m.Meet P m' s t) (τ τ' : Collector) (e : Expr)
    (target : Option Kind) :
    SameOutcome P m m' (evaluateBy τ e s target m) (evaluateBy τ' e t target m') := by
  have hscopes : (m.unrecorded P m').Scopes s t := hs
  exact (asksAlike_evaluateBy τ τ' hscopes e target m m' hm.twin).sameOutcome

end Eval

open Eval

end DiceLang

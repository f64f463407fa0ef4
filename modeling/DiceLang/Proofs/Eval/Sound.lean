import DiceLang.Proofs.Eval.Intact
import DiceLang.Proofs.TwoRuns.InOrder

/-! Machines as runs leave them: in order, and nothing dangles. From a scope that is in use every evaluation
leads to such a machine again, and what a scope binds is what is seen from it. -/

namespace DiceLang

namespace Environment

variable {env : Environment} {id : ScopeId} {r : MapRef}

lemma get_of_lookup {name : String} {v : Value} (h : env.lookup id name = some v) : env.get id name = v := by
  rw [get, h]
  rfl

structure Fronts (env : Environment) (id : ScopeId) (r : MapRef) : Prop where
  own : env.own id = some r
  first : (env.layers id).head? = some r
  stored : .map r ∈ env.heap.containers

lemma layers_define (env : Environment) (id j : ScopeId) (name : String) (v : Value) :
    (env.define id name v).layers j = env.layers j := by
  rw [layers, arena_define, ← layers]

lemma Fronts.define (hr : env.Fronts id r) (name : String) (v : Value) :
    (env.define id name v).Fronts id r := by
  refine ⟨?_, (env.layers_define id id name v).symm ▸ hr.first, ?_⟩
  · rw [Environment.own, arena_define]
    exact hr.own
  · rw [heap_define, hr.own]
    exact (env.heap.containers_setMap r _).ge hr.stored

lemma Fronts.lookup_define (hr : env.Fronts id r) (name other : String) (v : Value) :
    (env.define id name v).lookup id other = if other = name then some v else env.lookup id other := by
  have hheap : (env.define id name v).heap =
      env.heap.setMap r (Entries.put (env.heap.entries r) name v) := by
    rw [heap_define, hr.own]
    rfl
  obtain ⟨rest, hlayers⟩ := List.head?_eq_some_iff.mp hr.first
  rw [lookup_eq, lookup_eq, layers_define, hheap]
  by_cases hname : other = name
  · subst hname
    rw [if_pos rfl, hlayers, List.findSome?_cons, Heap.entries_setMap hr.stored, if_pos rfl,
      Entries.get?_put_self]
  · rw [if_neg hname]
    congr 1
    funext q
    rw [Heap.entries_setMap hr.stored]
    split_ifs with hq
    · rw [Entries.get?_put_ne _ v hname, hq]
    · rfl

end Environment

namespace Machine

variable {α : Type} {kept kept' kept'' : ScopeId → Prop} {m n n' : Machine} {scope : ScopeId} {v : Value}

structure Sound (kept : ScopeId → Prop) (m : Machine) : Prop where
  order : m.InOrder kept
  intact : m.env.Intact

def InUse (kept : ScopeId → Prop) (m : Machine) (scope : ScopeId) : Prop :=
  kept scope ∨ scope ∈ m.env.arena.stack

structure Has (kept : ScopeId → Prop) (m : Machine) (v : Value) : Prop where
  like : Like (.diagonal kept) v v
  stored : v.Stored m.env.heap.containers

structure Onward (kept : ScopeId → Prop) (m : Machine) (kept' : ScopeId → Prop) (n : Machine) : Prop where
  sound : n.Sound kept'
  kept : ∀ s, kept s → kept' s
  containers : m.env.heap.containers ⊆ n.env.heap.containers
  stack : n.env.arena.stack = m.env.arena.stack

lemma Onward.refl (hm : m.Sound kept) : m.Onward kept kept m := ⟨hm, fun _ hs => hs, subset_rfl, rfl⟩

lemma Onward.trans (h : m.Onward kept kept' n) (h' : n.Onward kept' kept'' n') : m.Onward kept kept'' n' where
  sound := h'.sound
  kept s hs := h'.kept s (h.kept s hs)
  containers := h.containers.trans h'.containers
  stack := h'.stack.trans h.stack

lemma Onward.has (h : m.Onward kept kept' n) (hv : m.Has kept v) : n.Has kept' v where
  like := Paired.mono (fun _ _ hst => ⟨hst.1, h.kept _ hst.2⟩) hv.like
  stored := hv.stored.mono h.containers

lemma Onward.inUse (h : m.Onward kept kept' n) (hs : m.InUse kept scope) : n.InUse kept' scope :=
  hs.imp (h.kept scope) fun hmem => h.stack ▸ hmem

lemma Sound.onward [Paired α] {p : Eval α} {Q : Finset Container → α → Prop} {a : α} (hm : m.Sound kept)
    (halike : Eval.Alike m.depth m.depth (.itself kept m.env.arena.stack) p p)
    (hsafe : Eval.Safe m.env.heap.containers p Q) (hkeeps : Eval.Keeps p) (h : p m = .ok a n) :
    ∃ kept', m.Onward kept kept' n ∧ Like (.diagonal kept') a a ∧ Q n.env.heap.containers a := by
  obtain ⟨kept', hle, horder, hlike⟩ := hm.order.after halike
  have hstack := (hkeeps m).stack
  have hlands := hsafe m hm.intact rfl
  rw [h] at hlands horder hstack
  cases hlands with
  | ok hintact hcs hQ => exact ⟨kept', ⟨⟨horder, hintact⟩, hle, hcs, hstack⟩, hlike a n h, hQ⟩

lemma Sound.evaluate {e : Expr} {target : Option Kind} (hm : m.Sound kept) (hs : m.InUse kept scope)
    (h : DiceLang.evaluate e scope target m = .ok v n) :
    ∃ kept', m.Onward kept kept' n ∧ n.Has kept' v := by
  obtain ⟨kept', honward, hlike, hstored⟩ := hm.onward
    (Eval.asksAlike_evaluate (Pairing.scopes_itself hs) e target)
    (Eval.asksSafely_evaluate _ e scope target) (keeps_evaluate e scope target) h
  exact ⟨kept', honward, hlike, hstored⟩

lemma Sound.define (hm : m.Sound kept) (hs : m.InUse kept scope) (name : String) (hv : m.Has kept v) :
    ∃ kept', m.Onward kept kept' { m with env := m.env.define scope name v } := by
  obtain ⟨kept', honward, -⟩ := hm.onward (p := Eval.define scope name v)
    (Eval.alike_define (Pairing.scopes_itself hs) name hv.like)
    (Eval.safe_define scope name hv.stored) (Eval.keeps_define scope name v) rfl
  exact ⟨kept', honward⟩

lemma Sound.fronts (hm : m.Sound kept) (hs : m.InUse kept scope) : ∃ r, m.env.Fronts scope r := by
  have hocc := hm.order.arena.occupied hs
  have hown := Arena.own_eq_head? hm.order.arena.layered hocc m.env.heap
  obtain ⟨f, hf⟩ := Option.ne_none_iff_exists'.mp hocc
  have hr : m.env.own scope = some f.bindings := by
    rw [show m.env.own scope = _ from m.env.arena.own_eq_bindings m.env.heap scope, hf]
    rfl
  obtain ⟨s, hscope, hbindings⟩ := Option.map_eq_some_iff.mp hr
  exact ⟨f.bindings, hr, hown.symm.trans hr, hbindings ▸ hm.intact.scopes.of_scope? hscope⟩

lemma Sound.enter (hm : m.Sound kept) (hs : m.InUse kept scope) :
    Sound kept { m with env := (m.env.enter scope).2 } ∧
      InUse kept { m with env := (m.env.enter scope).2 } (m.env.enter scope).1.1 := by
  have htwin := hm.order.twin.enter (Pairing.scopes_itself hs)
  have horder : InOrder kept { m with env := (m.env.enter scope).2 } :=
    ⟨htwin.tended.mono fun s hs => ⟨s, rfl, hs⟩, htwin.heap, htwin.log trivial⟩
  refine ⟨⟨horder, (hm.intact.enter scope).intact⟩, .inr ?_⟩
  rw [(m.env.stack_enter scope).1]
  exact Array.mem_push_self

end Machine

lemma Session.Serves.sound {s : Session} {vs : List Value} (h : s.Serves vs) :
    ∃ kept, s.machine.Sound kept ∧ kept Environment.global := by
  obtain ⟨kept, hs⟩ := h.orderly
  exact ⟨kept, ⟨hs.machine, h.intact.machine⟩, hs.global⟩

end DiceLang

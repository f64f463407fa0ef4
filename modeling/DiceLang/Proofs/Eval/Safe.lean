import DiceLang.Proofs.Eval.Tolerant
import DiceLang.Proofs.Scope.Intact

/-! Steps that let nothing dangle, whether they succeed or fail. No container is ever taken off the heap, so
what values refer to is followed along a run as a set of containers that only grows. -/

namespace DiceLang

namespace Eval

variable {α β : Type} {cs cs' : Finset Container} {Q : Finset Container → α → Prop}
  {R : Finset Container → β → Prop}

inductive Lands (cs : Finset Container) (Q : Finset Container → α → Prop) :
    EStateM.Result Interrupt Machine α → Prop
  | ok {a : α} {n : Machine} : n.env.Intact → cs ⊆ n.env.heap.containers →
      Q n.env.heap.containers a → Lands cs Q (.ok a n)
  | error {e : Interrupt} {n : Machine} : n.env.Intact → cs ⊆ n.env.heap.containers →
      Lands cs Q (.error e n)

def Safe (cs : Finset Container) (p : Eval α) (Q : Finset Container → α → Prop) : Prop :=
  ∀ m : Machine, m.env.Intact → m.env.heap.containers = cs → Lands cs Q (p m)

lemma Lands.of_subset {r : EStateM.Result Interrupt Machine α} (hr : Lands cs' Q r)
    (hle : cs ⊆ cs') : Lands cs Q r := by
  cases hr with
  | ok hn hcs ha => exact .ok hn (hle.trans hcs) ha
  | error hn hcs => exact .error hn (hle.trans hcs)

def Harmless (f : Machine → Machine) : Prop :=
  ∀ n : Machine, n.env.Intact → (f n).env.Intact ∧ (f n).env.heap = n.env.heap

lemma Lands.onExit {r : EStateM.Result Interrupt Machine α} (hr : Lands cs Q r)
    {f : α → Machine → Machine} {g : Machine → Machine} (hf : ∀ a, Harmless (f a)) (hg : Harmless g) :
    Lands cs Q (onExit f g r) := by
  cases hr with
  | @ok a n hn hcs ha =>
    obtain ⟨hafter, hheap⟩ := hf a n hn
    exact .ok hafter (hheap ▸ hcs) (hheap ▸ ha)
  | @error e n hn hcs =>
    obtain ⟨hafter, hheap⟩ := hg n hn
    exact .error hafter (hheap ▸ hcs)

lemma safe_pure {a : α} (ha : Q cs a) : Safe cs (pure a) Q := by
  rintro m hm rfl
  exact .ok hm subset_rfl ha

lemma safe_throw (e : Interrupt) : Safe cs (throw e) Q := by
  rintro m hm rfl
  exact .error hm subset_rfl

lemma safe_fail (site : Expr) (fault : Fault) : Safe cs (fail site fault) Q := safe_throw _

lemma safe_makeRoom (n : Nat) : Safe cs (makeRoom n) fun _ _ => True := by
  unfold makeRoom
  split
  · exact safe_pure trivial
  · exact safe_throw _

lemma Safe.bind {p : Eval α} {f : α → Eval β} (hp : Safe cs p Q)
    (hf : ∀ cs' a, cs ⊆ cs' → Q cs' a → Safe cs' (f a) R) : Safe cs (p >>= f) R := by
  intro m hm hcs
  have hlands := hp m hm hcs
  cases hr : p m with
  | ok a n =>
    rw [hr] at hlands
    cases hlands with
    | ok hn hle ha =>
      rw [bind_run hr]
      exact (hf _ a hle ha n hn rfl).of_subset hle
  | error e n =>
    rw [hr] at hlands
    cases hlands with
    | error hn hle =>
      rw [bind_run_error hr]
      exact .error hn hle

lemma Safe.imp {p : Eval α} {Q' : Finset Container → α → Prop} (hp : Safe cs p Q)
    (hi : ∀ cs' a, cs ⊆ cs' → Q cs' a → Q' cs' a) : Safe cs p Q' := by
  rw [← bind_pure p]
  exact hp.bind fun cs' a hle ha => safe_pure (hi cs' a hle ha)

lemma safe_read {f : Machine → Eval α}
    (hf : ∀ m : Machine, m.env.Intact → m.env.heap.containers = cs → Safe cs (f m) Q) :
    Safe cs (get >>= f) Q :=
  fun m hm hcs => hf m hm hcs m hm hcs

lemma safe_onEnv {f : Environment → α × Environment}
    (hf : ∀ env : Environment, env.Intact → env.heap.containers = cs →
      env.Grows (f env).2 ∧ Q (f env).2.heap.containers (f env).1) :
    Safe cs (modifyGet fun m => m.onEnv f) Q := by
  rintro m hm rfl
  obtain ⟨hgrows, ha⟩ := hf m.env hm rfl
  exact .ok hgrows.intact hgrows.containers ha

lemma safe_onHeap {f : Heap → α × Heap}
    (hf : ∀ h : Heap, h.Intact → h.containers = cs →
      (f h).2.Intact ∧ cs ⊆ (f h).2.containers ∧ Q (f h).2.containers (f h).1) :
    Safe cs (modifyGet fun m => m.onHeap f) Q := by
  refine safe_onEnv fun env he hcs => ?_
  obtain ⟨hh, hle, ha⟩ := hf env.heap he.heap hcs
  exact ⟨he.withHeap hh (hcs ▸ hle), ha⟩

lemma Safe.nested {body : Eval α} (h : Safe cs body Q) (site : Expr) : Safe cs (nested site body) Q := by
  rintro m hm rfl
  have hshallower : Harmless Machine.shallower := fun n hn => ⟨hn, rfl⟩
  rw [nested_run]
  split_ifs with hd
  · exact (h (m.deeper hd) hm rfl).onExit (fun _ => hshallower) hshallower
  · exact .error hm subset_rfl

lemma harmless_release (mark : Nat) : Harmless (release mark) :=
  fun _ hn => ⟨(hn.release mark).intact, rfl⟩

lemma safe_inScope {body : ScopeId → Eval α} (parent : ScopeId)
    (h : ∀ cs' scope, cs ⊆ cs' → Safe cs' (body scope) Q) : Safe cs (inScope parent body) Q := by
  rintro m hm rfl
  obtain ⟨hentered, hle⟩ := hm.enter parent
  have hbody := h _ (m.env.enter parent).1.1 hle { m with env := (m.env.enter parent).2 } hentered rfl
  rw [inScope_run]
  exact (hbody.of_subset hle).onExit (fun _ => harmless_release _) (harmless_release _)

lemma safe_items (r : ListRef) : Safe cs (items r) AllStored :=
  safe_read fun _ hm hcs => safe_pure (hcs ▸ hm.heap.items r)

lemma safe_entries (r : MapRef) : Safe cs (entries r) Entries.Proper :=
  safe_read fun _ hm hcs => safe_pure (hcs ▸ hm.heap.entries r)

lemma safe_contents (c : Container) : Safe cs (contents c) AllStored :=
  safe_read fun _ hm hcs => safe_pure (hcs ▸ hm.heap.contents c)

lemma safe_valueOf (scope : ScopeId) (name : String) : Safe cs (valueOf scope name) Value.Stored :=
  safe_read fun _ hm hcs => safe_pure (hcs ▸ hm.get scope name)

lemma safe_setItems (r : ListRef) {vs : List Value} (hvs : AllStored cs vs) :
    Safe cs (setItems r vs) fun _ _ => True := by
  refine safe_onHeap ?_
  rintro h hh rfl
  exact ⟨hh.setList r hvs, (h.containers_setList r vs).ge, trivial⟩

lemma safe_setEntries (r : MapRef) {es : List (String × Value)} (hes : Entries.Proper cs es) :
    Safe cs (setEntries r es) fun _ _ => True := by
  refine safe_onHeap ?_
  rintro h hh rfl
  exact ⟨hh.setMap r hes, (h.containers_setMap r es).ge, trivial⟩

lemma safe_newList {vs : List Value} (hvs : AllStored cs vs) : Safe cs (newList vs) Value.Stored := by
  refine safe_onHeap ?_
  rintro h hh rfl
  exact ⟨hh.newList hvs, (h.extends_newList vs).grows, (h.list_newList_mem vs).1⟩

lemma safe_newMap {es : List (String × Value)} (hes : Entries.Proper cs es) :
    Safe cs (newMap es) Value.Stored := by
  refine safe_onHeap ?_
  rintro h hh rfl
  exact ⟨hh.newMap hes, (h.extends_newMap es).grows, (h.map_newMap_mem es).1⟩

lemma safe_define (scope : ScopeId) (name : String) {v : Value} (hv : v.Stored cs) :
    Safe cs (define scope name v) fun _ _ => True := by
  refine safe_onEnv ?_
  rintro env he rfl
  exact ⟨he.define scope name hv, trivial⟩

lemma safe_setVariable (scope : ScopeId) (name : String) {v : Value} (hv : v.Stored cs) :
    Safe cs (setVariable scope name v) fun _ _ => True := by
  refine safe_onEnv ?_
  rintro env he rfl
  exact ⟨he.set scope name hv, trivial⟩

lemma safe_bindings (scope : ScopeId) : Safe cs (bindings scope) fun cs r => .map r ∈ cs :=
  safe_onEnv fun _ he _ => he.bindings scope

lemma safe_newFunction (scope : ScopeId) (f : Lambda) {owner : Value} (ho : owner.Stored cs) :
    Safe cs (newFunction scope f owner) Value.Stored := by
  rintro m hm rfl
  exact .ok (hm.capture scope).intact subset_rfl ho

lemma safe_recordThrow (die : Value) (results : List Value) :
    Safe cs (recordThrow die results) fun _ _ => True := by
  rintro m hm rfl
  exact .ok hm subset_rfl trivial

lemma safe_shuffle {vs : List Value} (hvs : AllStored cs vs) : Safe cs (shuffle vs) AllStored := by
  rintro m hm rfl
  rw [shuffle_run]
  cases hx : Generator.shuffle m.settings.budget vs m.generator with
  | some x => exact .ok hm subset_rfl fun v hv => hvs v (Generator.mem_of_mem_shuffle hx hv)
  | none => exact .error hm subset_rfl

lemma safe_throwDie (die : Value) :
    Safe cs (throwDie die) fun cs outcome => ∀ v, outcome = .face v → v.Stored cs := by
  -- Only a die that is a map puts its face on the heap.
  have hthrow (h : Heap) (hh : h.Intact) (attempts : Nat) (g : Generator) :
      (Dice.throw attempts die h g).2.1.Intact ∧
        h.containers ⊆ (Dice.throw attempts die h g).2.1.containers ∧
        ∀ v, (Dice.throw attempts die h g).1 = .face v →
          v.Stored (Dice.throw attempts die h g).2.1.containers := by
    rw [Dice.throw.eq_def]
    split
    · split
      · exact ⟨hh, subset_rfl, by rintro _ ⟨⟩; trivial⟩
      · split
        · exact ⟨hh, subset_rfl, by rintro _ ⟨⟩; trivial⟩
        · exact ⟨hh, subset_rfl, nofun⟩
    next r =>
      dsimp only
      split
      · exact ⟨hh, subset_rfl, by rintro _ ⟨⟩; trivial⟩
      · split
        · refine ⟨hh, subset_rfl, ?_⟩
          rintro _ ⟨⟩
          rw [List.getD_eq_getElem?_getD]
          exact Value.stored_getD fun v hv => hh.items r v (List.mem_of_getElem? hv)
        · exact ⟨hh, subset_rfl, nofun⟩
    next r =>
      dsimp only
      split
      · exact ⟨hh, subset_rfl, by rintro _ ⟨⟩; trivial⟩
      · split
        next k _ _ =>
          have hface : Entries.Proper h.containers ((h.entries r)[k]?).toList := by
            cases hk : (h.entries r)[k]? with
            | none => exact Entries.proper_nil
            | some e =>
              have he := (hh.entries r).stored e (List.mem_of_getElem? hk)
              exact ⟨List.forall_mem_singleton.mpr he, List.nodup_singleton e.1⟩
          refine ⟨hh.newMap hface, (h.extends_newMap _).grows, ?_⟩
          rintro _ ⟨⟩
          exact (h.map_newMap_mem _).1
        · exact ⟨hh, subset_rfl, nofun⟩
    · exact ⟨hh, subset_rfl, nofun⟩
    · exact ⟨hh, subset_rfl, nofun⟩
  rintro m hm rfl
  obtain ⟨hh, hle, hface⟩ := hthrow m.env.heap hm.heap m.settings.budget m.generator
  have hgrows := hm.withHeap hh hle
  rw [throwDie_run]
  exact .ok hgrows.intact hgrows.containers hface

lemma safe_foldlM {f : β → Value → Eval β}
    (hf : ∀ cs b v, Value.Stored cs v → Safe cs (f b v) fun _ _ => True) {vs : List Value}
    (hvs : AllStored cs vs) (b : β) :
    Safe cs (vs.foldlM f b) fun _ _ => True := by
  induction vs generalizing cs b with
  | nil => exact safe_pure trivial
  | cons v vs ih =>
    obtain ⟨hv, hvs⟩ := List.forall_mem_cons.mp hvs
    rw [List.foldlM_cons]
    exact (hf cs b v hv).bind fun cs' b hle _ => ih (AllStored.mono hvs hle) b

lemma safe_forM {f : α → Eval PUnit} {xs : List α}
    (hf : ∀ cs' x, cs ⊆ cs' → Safe cs' (f x) fun _ _ => True) : Safe cs (xs.forM f) fun _ _ => True := by
  induction xs generalizing cs with
  | nil => exact safe_pure trivial
  | cons x xs ih =>
    exact (hf cs x subset_rfl).bind fun cs' _ hle _ => ih fun cs'' x hle' => hf cs'' x (hle.trans hle')

lemma safe_mapM {P : Finset Container → α → β → Prop}
    (hP : ∀ cs cs' x y, cs ⊆ cs' → P cs x y → P cs' x y) {f : α → Eval β} {xs : List α}
    (hf : ∀ cs', cs ⊆ cs' → ∀ x ∈ xs, Safe cs' (f x) fun cs y => P cs x y) :
    Safe cs (xs.mapM f) fun cs ys => List.Forall₂ (P cs) xs ys := by
  induction xs generalizing cs with
  | nil => exact safe_pure .nil
  | cons x xs ih =>
    rw [List.mapM_cons]
    refine (hf cs subset_rfl x List.mem_cons_self).bind fun cs₁ y hle hy => ?_
    refine (ih fun cs' hle' z hz => hf cs' (hle.trans hle') z (List.mem_cons_of_mem _ hz)).bind ?_
    intro cs₂ ys hle' hys
    exact safe_pure (.cons (hP cs₁ cs₂ x y hle' hy) hys)

end Eval

end DiceLang

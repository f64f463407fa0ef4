import DiceLang.Eval.Evaluate
import DiceLang.Proofs.Expr.Tree

/-! The expressions that a run may come to evaluate. They stand in the program, in the functions that
values hold and in the texts that can be imported. -/

namespace DiceLang

variable {code : Expr → Prop}

structure Closed (code : Expr → Prop) : Prop where
  child {e c : Expr} : code e → c ∈ e.children → code c
  scalar (v : Scalar) : code (.scalar .builtin v)
  list {items : List Expr} : (∀ e ∈ items, code e) → code (.list .builtin items)
  map {entries : List (String × Expr)} : (∀ e ∈ entries, code e.2) → code (.map .builtin entries)
  lambda {params : List (String × Option Expr)} {body : Expr} :
    code body → (∀ p ∈ params, ∀ e ∈ p.2, code e) → code (.lambda .builtin params body)

lemma closed_within {P : Expr → Prop} (hscalar : ∀ v, P (.scalar .builtin v))
    (hlist : ∀ items, P (.list .builtin items)) (hmap : ∀ entries, P (.map .builtin entries))
    (hlambda : ∀ params body, P (.lambda .builtin params body)) :
    Closed fun e => ∀ n, Expr.Within n e → P n where
  child he hc := (Expr.forall_within.mp he).2 _ hc
  scalar v := Expr.forall_within.mpr ⟨hscalar v, List.forall_mem_nil _⟩
  list hitems := Expr.forall_within.mpr ⟨hlist _, hitems⟩
  map hentries := by
    refine Expr.forall_within.mpr ⟨hmap _, fun c hc => ?_⟩
    obtain ⟨e, he, rfl⟩ := List.mem_map.mp hc
    exact hentries e he
  lambda hbody hparams := by
    refine Expr.forall_within.mpr ⟨hlambda _ _, List.forall_mem_cons.mpr ⟨hbody, fun c hc => ?_⟩⟩
    obtain ⟨p, hp, hpc⟩ := List.mem_filterMap.mp hc
    exact hparams p hp c hpc

def Lambda.Made (code : Expr → Prop) (f : Lambda) : Prop :=
  code f.body ∧ ∀ p ∈ f.params, ∀ e ∈ p.2, code e

def Value.Made (code : Expr → Prop) : Value → Prop
  | .scalar _ | .list _ | .map _ => True
  | .function _ _ f owner => f.Made code ∧ owner.Made code

@[simp] lemma Value.made_scalar (v : Scalar) : (Value.scalar v).Made code := trivial

@[simp] lemma Value.made_list (r : ListRef) : (Value.list r).Made code := trivial

@[simp] lemma Value.made_map (r : MapRef) : (Value.map r).Made code := trivial

lemma Value.made_getD {o : Option Value} (h : ∀ v ∈ o, v.Made code) :
    (o.getD .undefined).Made code := by
  cases o with
  | none => trivial
  | some v => exact h v rfl

namespace Entries

variable {α : Type} {P : α → Prop} {es more : List (String × α)} {name : String} {v : α}

lemma forall_of_get? (h : ∀ e ∈ es, P e.2) (hv : get? es name = some v) : P v := by
  induction es with
  | nil => cases hv
  | cons e es ih =>
    rw [List.forall_mem_cons] at h
    rw [get?] at hv
    split at hv
    · obtain rfl := Option.some.inj hv
      exact h.1
    · exact ih h.2 hv

lemma forall_put (h : ∀ e ∈ es, P e.2) (hv : P v) : ∀ e ∈ put es name v, P e.2 := by
  induction es with
  | nil => simpa [put] using hv
  | cons e es ih =>
    rw [List.forall_mem_cons] at h
    rw [put]
    split
    · exact List.forall_mem_cons.mpr ⟨hv, h.2⟩
    · exact List.forall_mem_cons.mpr ⟨h.1, ih h.2⟩

lemma forall_putAll (h : ∀ e ∈ es, P e.2) (hmore : ∀ e ∈ more, P e.2) :
    ∀ e ∈ putAll es more, P e.2 := by
  induction more generalizing es with
  | nil => exact h
  | cons e more ih =>
    rw [List.forall_mem_cons] at hmore
    exact ih (forall_put h hmore.1) hmore.2

lemma forall_ofList (h : ∀ e ∈ es, P e.2) : ∀ e ∈ ofList es, P e.2 :=
  forall_putAll (List.forall_mem_nil _) h

end Entries

namespace Heap

variable {h h' : Heap}

lemma items_eq (h : Heap) (r : ListRef) : h.items r = (h.lists[r.index]?).getD [] :=
  Array.getD_eq_getD_getElem?

lemma entries_eq (h : Heap) (r : MapRef) : h.entries r = (h.maps[r.index]?).getD [] :=
  Array.getD_eq_getD_getElem?

structure Made (code : Expr → Prop) (h : Heap) : Prop where
  items : ∀ r, ∀ v ∈ h.items r, v.Made code
  entries : ∀ r, ∀ e ∈ h.entries r, e.2.Made code

lemma made_empty : empty.Made code := ⟨fun _ _ h => (nomatch h), fun _ _ h => (nomatch h)⟩

lemma Made.contents (hh : h.Made code) (c : Container) : ∀ v ∈ h.contents c, v.Made code := by
  cases c with
  | list r => exact hh.items r
  | map r =>
    intro v hv
    obtain ⟨e, he, rfl⟩ := List.mem_map.mp hv
    exact hh.entries r e he

structure Becomes (code : Expr → Prop) (h h' : Heap) : Prop where
  made : h'.Made code
  lists : h.lists.size ≤ h'.lists.size
  maps : h.maps.size ≤ h'.maps.size

lemma Becomes.refl (hh : h.Made code) : h.Becomes code h := ⟨hh, le_rfl, le_rfl⟩

lemma Becomes.trans {h₁ h₂ h₃ : Heap} (h : h₁.Becomes code h₂) (h' : h₂.Becomes code h₃) :
    h₁.Becomes code h₃ := ⟨h'.made, h.lists.trans h'.lists, h.maps.trans h'.maps⟩

lemma becomes_newList (hh : h.Made code) {items : List Value} (hi : ∀ v ∈ items, v.Made code) :
    h.Becomes code (h.newList items).2 := by
  refine ⟨⟨fun r v hv => ?_, hh.entries⟩, by simp [newList], le_rfl⟩
  rw [items_eq, newList, Array.getElem?_push] at hv
  split at hv
  · exact hi v hv
  · rw [← items_eq] at hv
    exact hh.items r v hv

lemma becomes_newMap (hh : h.Made code) {entries : List (String × Value)}
    (he : ∀ e ∈ entries, e.2.Made code) : h.Becomes code (h.newMap entries).2 := by
  refine ⟨⟨hh.items, fun r e hr => ?_⟩, le_rfl, by simp [newMap]⟩
  rw [entries_eq, newMap, Array.getElem?_push] at hr
  split at hr
  · exact he e hr
  · rw [← entries_eq] at hr
    exact hh.entries r e hr

lemma becomes_setList (hh : h.Made code) (r : ListRef) {items : List Value}
    (hi : ∀ v ∈ items, v.Made code) : h.Becomes code (h.setList r items) := by
  refine ⟨⟨fun s v hv => ?_, hh.entries⟩, by simp [setList], le_rfl⟩
  rw [items_eq, setList, Array.getElem?_setIfInBounds] at hv
  split at hv
  · split at hv
    · exact hi v hv
    · cases hv
  · rw [← items_eq] at hv
    exact hh.items s v hv

lemma becomes_setMap (hh : h.Made code) (r : MapRef) {entries : List (String × Value)}
    (he : ∀ e ∈ entries, e.2.Made code) : h.Becomes code (h.setMap r entries) := by
  refine ⟨⟨hh.items, fun s e hs => ?_⟩, le_rfl, by simp [setMap]⟩
  rw [entries_eq, setMap, Array.getElem?_setIfInBounds] at hs
  split at hs
  · split at hs
    · exact he e hs
    · cases hs
  · rw [← entries_eq] at hs
    exact hh.entries s e hs

lemma becomes_toList (hh : h.Made code) {v : Value} (hv : v.Made code) :
    h.Becomes code (h.toList v).2 := by
  rw [toList.eq_def]
  split
  · exact .refl hh
  · exact becomes_newList hh (hh.contents (.map _))
  · exact becomes_newList hh (List.forall_mem_nil _)
  · exact becomes_newList hh (by simpa using hv)

lemma becomes_toMap (hh : h.Made code) {v : Value} (hv : v.Made code) :
    h.Becomes code (h.toMap v).2 := by
  rw [toMap.eq_def]
  split
  · exact .refl hh
  next r =>
    refine becomes_newMap hh (Entries.forall_ofList fun e he => ?_)
    obtain ⟨x, hx, rfl⟩ := List.mem_map.mp he
    exact hh.items r x.1 (List.fst_mem_of_mem_zipIdx hx)
  · exact becomes_newMap hh (List.forall_mem_nil _)
  · exact becomes_newMap hh (by simpa using hv)

end Heap

namespace Environment

variable {env : Environment} {v : Value}

lemma made_get (h : env.heap.Made code) (scope : ScopeId) (name : String) :
    (env.get scope name).Made code := by
  refine Value.made_getD fun v hv => ?_
  obtain ⟨s, -, hs⟩ := List.exists_of_findSome?_eq_some hv
  exact Entries.forall_of_get? (h.entries s.bindings) hs

lemma becomes_putIn (h : env.heap.Made code) (s : Scope) (name : String) (hv : v.Made code) :
    env.heap.Becomes code (env.putIn s name v).heap :=
  Heap.becomes_setMap h _ (Entries.forall_put (h.entries _) hv)

lemma becomes_define (h : env.heap.Made code) (scope : ScopeId) (name : String) (hv : v.Made code) :
    env.heap.Becomes code (env.define scope name v).heap := by
  rw [define.eq_def]
  split
  · exact becomes_putIn h _ name hv
  · exact .refl h

lemma becomes_set (h : env.heap.Made code) (scope : ScopeId) (name : String) (hv : v.Made code) :
    env.heap.Becomes code (env.set scope name v).heap := by
  rw [set.eq_def]
  split
  · exact becomes_putIn h _ name hv
  · exact becomes_define h scope name hv

lemma becomes_bindings (h : env.heap.Made code) (scope : ScopeId) :
    env.heap.Becomes code (env.bindings scope).2.heap := by
  rw [bindings.eq_def]
  split
  · exact .refl h
  · exact Heap.becomes_newMap h (List.forall_mem_nil _)

lemma becomes_pushRoot (h : env.heap.Made code) : env.heap.Becomes code env.pushRoot.2.heap :=
  Heap.becomes_newMap h (List.forall_mem_nil _)

lemma becomes_enter (h : env.heap.Made code) (parent : ScopeId) :
    env.heap.Becomes code (env.enter parent).2.heap :=
  Heap.becomes_newMap h (List.forall_mem_nil _)

end Environment

structure Machine.Made (code : Expr → Prop) (m : Machine) : Prop where
  heap : m.env.heap.Made code
  fetched {address text : String} {program : List Expr} : m.settings.fetch address = .ok text →
    parse address text = .ok program → ∀ e ∈ program, code e

namespace Eval

structure Binding.Made (code : Expr → Prop) (binding : Binding) : Prop where
  fallback : ∀ x ∈ binding, ∀ e ∈ x.1.2, code e
  bound : ∀ x ∈ binding, ∀ v ∈ x.2, Value.Made code v

lemma Binding.made_cons {x : (String × Option Expr) × Option Value} {rest : Binding} :
    Binding.Made code (x :: rest) ↔
      ((∀ e ∈ x.1.2, code e) ∧ ∀ v ∈ x.2, Value.Made code v) ∧ Binding.Made code rest := by
  constructor
  · rintro ⟨hf, hb⟩
    rw [List.forall_mem_cons] at hf hb
    exact ⟨⟨hf.1, hb.1⟩, hf.2, hb.2⟩
  · rintro ⟨⟨hf, hb⟩, hrest⟩
    exact ⟨List.forall_mem_cons.mpr ⟨hf, hrest.fallback⟩, List.forall_mem_cons.mpr ⟨hb, hrest.bound⟩⟩

section Bound

variable {P : (String × Option Expr) × Option Value → Prop} {params : List (String × Option Expr)}
  {binding binding' : Binding} {named : List (String × Value)}

lemma forall_bindPositional {vs : List Value} (hnone : ∀ p ∈ params, P (p, none))
    (hsome : ∀ p ∈ params, ∀ v ∈ vs, P (p, some v)) : ∀ x ∈ bindPositional params vs, P x := by
  induction params generalizing vs with
  | nil => exact List.forall_mem_nil _
  | cons p params ih =>
    rw [List.forall_mem_cons] at hnone hsome
    cases vs with
    | nil => exact List.forall_mem_cons.mpr ⟨hnone.1, ih hnone.2 hsome.2⟩
    | cons v vs =>
      refine List.forall_mem_cons.mpr ⟨hsome.1 v List.mem_cons_self, ih hnone.2 fun q hq w hw => ?_⟩
      exact hsome.2 q hq w (List.mem_cons_of_mem _ hw)

lemma forall_bindNamed {name : String} {v : Value} (hv : ∀ p, P (p, none) → P (p, some v))
    (hb : ∀ x ∈ binding, P x) (h : bindNamed name v binding = .ok binding') :
    ∀ x ∈ binding', P x := by
  induction binding generalizing binding' with
  | nil => cases h
  | cons x rest ih =>
    obtain ⟨p, bound⟩ := x
    rw [List.forall_mem_cons] at hb
    rw [bindNamed] at h
    split at h
    · cases bound with
      | some w => cases h
      | none =>
        cases h
        exact List.forall_mem_cons.mpr ⟨hv p hb.1, hb.2⟩
    · cases hrest : bindNamed name v rest with
      | error fault =>
        rw [hrest] at h
        cases h
      | ok rest' =>
        rw [hrest] at h
        cases h
        exact List.forall_mem_cons.mpr ⟨hb.1, ih hb.2 hrest⟩

lemma forall_allNamed (hnamed : ∀ x ∈ named, ∀ p, P (p, none) → P (p, some x.2))
    (hb : ∀ x ∈ binding, P x)
    (h : named.foldlM (fun b arg => bindNamed arg.1 arg.2 b) binding = .ok binding') :
    ∀ x ∈ binding', P x := by
  induction named generalizing binding with
  | nil =>
    cases h
    exact hb
  | cons x named ih =>
    rw [List.forall_mem_cons] at hnamed
    rw [List.foldlM_cons] at h
    cases hx : bindNamed x.1 x.2 binding with
    | error fault =>
      rw [hx] at h
      cases h
    | ok next =>
      rw [hx] at h
      exact ih hnamed.2 (forall_bindNamed hnamed.1 hb hx) h

lemma forall_bind {positional : List Value} (hnone : ∀ p ∈ params, P (p, none))
    (hsome : ∀ p ∈ params, ∀ v ∈ positional, P (p, some v))
    (hnamed : ∀ x ∈ named, ∀ p, P (p, none) → P (p, some x.2))
    (h : Eval.bind params positional named = .ok binding) : ∀ x ∈ binding, P x := by
  rw [Eval.bind] at h
  split at h
  · cases h
  · exact forall_allNamed hnamed (forall_bindPositional hnone hsome) h

end Bound

lemma made_bind {params : List (String × Option Expr)} {positional : List Value}
    {named : List (String × Value)} {binding : Binding} (hp : ∀ p ∈ params, ∀ e ∈ p.2, code e)
    (hpos : ∀ v ∈ positional, v.Made code) (hn : ∀ x ∈ named, x.2.Made code)
    (h : Eval.bind params positional named = .ok binding) : Binding.Made code binding := by
  have hall : ∀ x ∈ binding, (∀ e ∈ x.1.2, code e) ∧ ∀ v ∈ x.2, Value.Made code v := by
    refine forall_bind (fun p hmem => ⟨hp p hmem, nofun⟩) (fun p hmem v hv => ⟨hp p hmem, ?_⟩)
      (fun x hx p hnone => ⟨hnone.1, ?_⟩) h
    · rintro _ ⟨⟩
      exact hpos v hv
    · rintro _ ⟨⟩
      exact hn x hx
  exact ⟨fun x hx => (hall x hx).1, fun x hx => (hall x hx).2⟩

end Eval

end DiceLang

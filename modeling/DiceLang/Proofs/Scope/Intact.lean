import DiceLang.Proofs.Eval.Code
import DiceLang.Proofs.Scope.Tended
import DiceLang.Proofs.Value.Copy

/-! Environments in which nothing dangles. Every container that a value or a scope refers to is on the heap,
and no map has a key twice. -/

namespace DiceLang

variable {cs cs' : Finset Container} {v : Value}

def Value.Stored (cs : Finset Container) : Value → Prop
  | .scalar _ => True
  | .list r => .list r ∈ cs
  | .map r => .map r ∈ cs
  | .function _ _ _ owner => owner.Stored cs

instance Value.decidableStored (cs : Finset Container) : (v : Value) → Decidable (v.Stored cs)
  | .scalar _ => .isTrue trivial
  | .list r => inferInstanceAs (Decidable (.list r ∈ cs))
  | .map r => inferInstanceAs (Decidable (.map r ∈ cs))
  | .function _ _ _ owner => owner.decidableStored cs

lemma Value.stored_scalar (s : Scalar) : (Value.scalar s).Stored cs := trivial

lemma Value.Stored.mono (hv : v.Stored cs) (hle : cs ⊆ cs') : v.Stored cs' := by
  induction v with
  | scalar s => trivial
  | list r => exact hle hv
  | map r => exact hle hv
  | function i held f owner ih => exact ih hv

lemma Value.Stored.mem {c : Container} (hv : v.Stored cs) (hc : v.container? = some c) : c ∈ cs := by
  cases v with
  | scalar | function => cases hc
  | list | map =>
    obtain rfl := Option.some.inj hc
    exact hv

lemma Value.stored_getD {o : Option Value} (ho : ∀ v ∈ o, v.Stored cs) :
    (o.getD .undefined).Stored cs := by
  cases o with
  | none => trivial
  | some v => exact ho v rfl

def AllStored (cs : Finset Container) (vs : List Value) : Prop := ∀ v ∈ vs, v.Stored cs

instance (cs : Finset Container) (vs : List Value) : Decidable (AllStored cs vs) :=
  inferInstanceAs (Decidable (∀ v ∈ vs, v.Stored cs))

lemma allStored_nil : AllStored cs [] := List.forall_mem_nil _

lemma AllStored.mono {vs : List Value} (hvs : AllStored cs vs) (hle : cs ⊆ cs') : AllStored cs' vs :=
  fun v hv => (hvs v hv).mono hle

namespace Entries

variable {α : Type} {es more : List (String × α)} {name : String}

def Stored (cs : Finset Container) (es : List (String × Value)) : Prop := ∀ e ∈ es, e.2.Stored cs

lemma Stored.mono {es : List (String × Value)} (hes : Stored cs es) (hle : cs ⊆ cs') :
    Stored cs' es :=
  fun e he => (hes e he).mono hle

lemma Stored.get {es : List (String × Value)} (hes : Stored cs es) (name : String) :
    ((get? es name).getD .undefined).Stored cs :=
  Value.stored_getD fun _ hv => forall_of_get? hes hv

structure Proper (cs : Finset Container) (es : List (String × Value)) : Prop where
  stored : Stored cs es
  keys : (es.map Prod.fst).Nodup

instance (cs : Finset Container) (es : List (String × Value)) : Decidable (Proper cs es) :=
  decidable_of_iff ((∀ e ∈ es, e.2.Stored cs) ∧ (es.map Prod.fst).Nodup)
    ⟨fun h => ⟨h.1, h.2⟩, fun h => ⟨h.stored, h.keys⟩⟩

lemma Proper.mono {es : List (String × Value)} (hes : Proper cs es) (hle : cs ⊆ cs') : Proper cs' es :=
  ⟨hes.stored.mono hle, hes.keys⟩

lemma stored_nil : Stored cs [] := List.forall_mem_nil _

lemma proper_nil : Proper cs [] := ⟨stored_nil, List.nodup_nil⟩

lemma put_of_notMem (h : name ∉ es.map Prod.fst) (v : α) : put es name v = es ++ [(name, v)] := by
  induction es with
  | nil => rfl
  | cons e es ih =>
    rw [List.map_cons, List.mem_cons, not_or] at h
    rw [put, if_neg (Ne.symm h.1), ih h.2, List.cons_append]

lemma keys_put_of_mem (h : name ∈ es.map Prod.fst) (v : α) :
    (put es name v).map Prod.fst = es.map Prod.fst := by
  induction es with
  | nil => cases h
  | cons e es ih =>
    rw [put]
    split_ifs with hname
    · rw [List.map_cons, List.map_cons, hname]
    · have hrest : name ∈ es.map Prod.fst := by
        rcases List.mem_cons.mp h with heq | hmem
        · exact absurd heq.symm hname
        · exact hmem
      rw [List.map_cons, List.map_cons, ih hrest]

lemma keys_put (es : List (String × α)) (name : String) (v : α) : (put es name v).map Prod.fst =
    if name ∈ es.map Prod.fst then es.map Prod.fst else es.map Prod.fst ++ [name] := by
  split_ifs with hname
  · exact keys_put_of_mem hname v
  · rw [put_of_notMem hname, List.map_append]
    rfl

lemma nodup_put (h : (es.map Prod.fst).Nodup) (name : String) (v : α) :
    ((put es name v).map Prod.fst).Nodup := by
  by_cases hname : name ∈ es.map Prod.fst
  · rwa [keys_put_of_mem hname]
  · rw [put_of_notMem hname, List.map_append, List.map_singleton, ← List.concat_eq_append]
    exact h.concat hname

lemma nodup_putAll (h : (es.map Prod.fst).Nodup) (more : List (String × α)) :
    ((putAll es more).map Prod.fst).Nodup := by
  induction more generalizing es with
  | nil => exact h
  | cons e more ih => exact ih (nodup_put h e.1 e.2)

lemma Proper.put {es : List (String × Value)} (hes : Proper cs es) (name : String)
    (hv : v.Stored cs) : Proper cs (put es name v) :=
  ⟨forall_put hes.stored hv, nodup_put hes.keys name v⟩

lemma Proper.putAll {es more : List (String × Value)} (hes : Proper cs es) (hmore : Stored cs more) :
    Proper cs (putAll es more) :=
  ⟨forall_putAll hes.stored hmore, nodup_putAll hes.keys more⟩

lemma proper_ofList {es : List (String × Value)} (hes : Stored cs es) : Proper cs (ofList es) :=
  proper_nil.putAll hes

lemma putAll_of_nodup (h : ((es ++ more).map Prod.fst).Nodup) : putAll es more = es ++ more := by
  induction more generalizing es with
  | nil => exact (List.append_nil es).symm
  | cons e more ih =>
    have hsplit : es ++ e :: more = es ++ [e] ++ more := by simp
    have hnew : e.1 ∉ es.map Prod.fst := by
      rw [List.map_append, List.map_cons, List.nodup_append] at h
      exact fun hmem => h.2.2 e.1 hmem e.1 List.mem_cons_self rfl
    have hput : putAll es (e :: more) = putAll (es ++ [e]) more := by
      rw [putAll, List.foldl_cons, put_of_notMem hnew]
      rfl
    rw [hsplit] at h ⊢
    rw [hput, ih h]

lemma ofList_of_nodup (h : (es.map Prod.fst).Nodup) : ofList es = es := by
  rw [ofList, putAll_of_nodup h, List.nil_append]

end Entries

namespace Heap

variable {h h' : Heap}

structure Intact (h : Heap) : Prop where
  items : ∀ r, AllStored h.containers (h.items r)
  entries : ∀ r, Entries.Proper h.containers (h.entries r)

lemma intact_of_forall (hlists : ∀ vs ∈ h.lists.toList, AllStored h.containers vs)
    (hmaps : ∀ es ∈ h.maps.toList, Entries.Proper h.containers es) : h.Intact := by
  constructor
  · intro r
    rw [items_eq]
    cases hr : h.lists[r.index]? with
    | none => exact allStored_nil
    | some vs => exact hlists vs (Array.mem_toList_iff.mpr (Array.mem_of_getElem? hr))
  · intro r
    rw [entries_eq]
    cases hr : h.maps[r.index]? with
    | none => exact Entries.proper_nil
    | some es => exact hmaps es (Array.mem_toList_iff.mpr (Array.mem_of_getElem? hr))

lemma intact_empty : empty.Intact := intact_of_forall (List.forall_mem_nil _) (List.forall_mem_nil _)

lemma Intact.contents (hh : h.Intact) (c : Container) : AllStored h.containers (h.contents c) := by
  cases c with
  | list r => exact hh.items r
  | map r =>
    intro v hv
    obtain ⟨e, he, rfl⟩ := List.mem_map.mp hv
    exact (hh.entries r).stored e he

lemma Intact.sound (hh : h.Intact) (hv : v.Stored h.containers) : h.Sound v := by
  have hlies {c : Container} (hc : h.Lies v c) : c ∈ h.containers := by
    induction hc using Relation.ReflTransGen.head_induction_on with
    | refl => exact hv.mem (container?_value c)
    | head hw _ ih =>
      obtain ⟨d, -, hmem⟩ := hw
      exact ih (hh.contents d _ hmem)
  exact ⟨fun c hc => hlies hc, fun r _ => (hh.entries r).keys⟩

lemma Intact.update (hh : h.Intact) (hle : h.containers ⊆ h'.containers) {vs : List Value}
    {es : List (String × Value)} (hvs : AllStored h'.containers vs)
    (hes : Entries.Proper h'.containers es) (hitems : ∀ r, h'.items r = vs ∨ h'.items r = h.items r)
    (hentries : ∀ r, h'.entries r = es ∨ h'.entries r = h.entries r) : h'.Intact where
  items r := by
    rcases hitems r with hr | hr
    · rwa [hr]
    · rw [hr]
      exact (hh.items r).mono hle
  entries r := by
    rcases hentries r with hr | hr
    · rwa [hr]
    · rw [hr]
      exact (hh.entries r).mono hle

lemma Intact.newList (hh : h.Intact) {vs : List Value} (hvs : AllStored h.containers vs) :
    (h.newList vs).2.Intact := by
  have hle := (h.extends_newList vs).grows
  refine hh.update hle (hvs.mono hle) Entries.proper_nil (fun r => ?_) fun r => .inr rfl
  rw [items_eq, items_eq, Heap.newList, Array.getElem?_push]
  split
  · exact .inl rfl
  · exact .inr rfl

lemma Intact.newMap (hh : h.Intact) {es : List (String × Value)}
    (hes : Entries.Proper h.containers es) : (h.newMap es).2.Intact := by
  have hle := (h.extends_newMap es).grows
  refine hh.update hle allStored_nil (hes.mono hle) (fun r => .inr rfl) fun r => ?_
  rw [entries_eq, entries_eq, Heap.newMap, Array.getElem?_push]
  split
  · exact .inl rfl
  · exact .inr rfl

lemma containers_setList (h : Heap) (r : ListRef) (vs : List Value) :
    (h.setList r vs).containers = h.containers := by
  simp only [containers, setList, Array.size_setIfInBounds]

lemma containers_setMap (h : Heap) (r : MapRef) (es : List (String × Value)) :
    (h.setMap r es).containers = h.containers := by
  simp only [containers, setMap, Array.size_setIfInBounds]

lemma entries_setMap {r : MapRef} (hr : .map r ∈ h.containers)
    (es : List (String × Value)) (q : MapRef) :
    (h.setMap r es).entries q = if q = r then es else h.entries q := by
  rw [map_mem_containers] at hr
  obtain ⟨i⟩ := r
  obtain ⟨j⟩ := q
  by_cases hij : j = i
  · subst hij
    simp [setMap, Heap.entries, hr]
  · have hne : (MapRef.mk j) ≠ ⟨i⟩ := fun heq => hij (congrArg MapRef.index heq)
    simp [setMap, Heap.entries, hne, Ne.symm hij]

lemma Intact.setList (hh : h.Intact) (r : ListRef) {vs : List Value}
    (hvs : AllStored h.containers vs) : (h.setList r vs).Intact := by
  have hcs := h.containers_setList r vs
  rw [← hcs] at hvs
  refine hh.update hcs.ge hvs Entries.proper_nil (fun q => ?_) fun q => .inr rfl
  rw [items_eq, items_eq, Heap.setList, Array.getElem?_setIfInBounds]
  split
  · split
    · exact .inl rfl
    next heq hout =>
      rw [← heq, Array.getElem?_eq_none (Nat.le_of_not_lt hout)]
      exact .inr rfl
  · exact .inr rfl

lemma Intact.setMap (hh : h.Intact) (r : MapRef) {es : List (String × Value)}
    (hes : Entries.Proper h.containers es) : (h.setMap r es).Intact := by
  have hcs := h.containers_setMap r es
  rw [← hcs] at hes
  refine hh.update hcs.ge allStored_nil hes (fun q => .inr rfl) fun q => ?_
  rw [entries_eq, entries_eq, Heap.setMap, Array.getElem?_setIfInBounds]
  split
  · split
    · exact .inl rfl
    next heq hout =>
      rw [← heq, Array.getElem?_eq_none (Nat.le_of_not_lt hout)]
      exact .inr rfl
  · exact .inr rfl

end Heap

namespace Arena

variable {a : Arena} {P : MapRef → Prop} {id : ScopeId} {s : Scope} {r : MapRef}

def Binds (a : Arena) (P : MapRef → Prop) : Prop := ∀ s, some s ∈ a.slots → P s.bindings

lemma Binds.of_scope? (ha : a.Binds P) (hs : a.scope? id = some s) : P s.bindings := by
  rw [scope?, Array.getD_eq_getD_getElem?] at hs
  cases hslot : a.slots[id.index]? with
  | none =>
    rw [hslot] at hs
    cases hs
  | some slot =>
    rw [hslot] at hs
    obtain rfl : slot = some s := hs
    exact ha s (Array.mem_of_getElem? hslot)

lemma Binds.layers (ha : a.Binds P) (id : ScopeId) : ∀ r ∈ a.layers id, P r := by
  have hchain (n : Nat) (id : ScopeId) : ∀ s ∈ a.chainWithin n id, P s.bindings := by
    induction n generalizing id with
    | zero => exact List.forall_mem_nil _
    | succ n ih =>
      rw [chainWithin]
      split
      · exact List.forall_mem_nil _
      next s hs =>
        split
        · exact List.forall_mem_cons.mpr ⟨ha.of_scope? hs, ih _⟩
        · exact List.forall_mem_singleton.mpr (ha.of_scope? hs)
  intro r hr
  obtain ⟨s, hs, rfl⟩ := List.mem_map.mp hr
  exact hchain _ id s hs

lemma Binds.mono {P' : MapRef → Prop} (ha : a.Binds P) (hle : ∀ r, P r → P' r) : a.Binds P' :=
  fun s hs => hle _ (ha s hs)

lemma Binds.setSlot (ha : a.Binds P) (id : ScopeId) {o : Option Scope}
    (ho : ∀ s ∈ o, P s.bindings) : (a.setSlot id o).Binds P := by
  intro s hs
  rcases Array.mem_or_eq_of_mem_setIfInBounds hs with hs | rfl
  · exact ha s hs
  · exact ho s rfl

lemma Binds.hold (ha : a.Binds P) (id : ScopeId) : (a.hold id).Binds P := by
  rw [Arena.hold]
  cases hs : a.scope? id with
  | some s =>
    have hbound := ha.of_scope? hs
    refine ha.setSlot id ?_
    rintro _ ⟨⟩
    exact hbound
  | none => exact ha

lemma Binds.unhold (ha : a.Binds P) (id : ScopeId) : (a.unhold id).Binds P := by
  rw [Arena.unhold]
  cases hs : a.scope? id with
  | some s =>
    have hbound := ha.of_scope? hs
    refine ha.setSlot id ?_
    rintro _ ⟨⟩
    exact hbound
  | none => exact ha

lemma bindings_child (a : Arena) (parent : Option ScopeId) (r : MapRef) :
    (a.child parent r).bindings = r := by
  rw [child]
  split <;> rfl

lemma Binds.allocate (ha : a.Binds P) (parent : Option ScopeId) (hr : P r) :
    (a.allocate parent r).2.Binds P := by
  have hheld (s : Scope) : (a.holdParent s).Binds P := by
    rw [holdParent]
    split
    · split
      · exact ha.hold _
      · exact ha
    · exact ha
  have hchild : P (a.child parent r).bindings := by rwa [bindings_child]
  rw [Arena.allocate]
  dsimp only
  split
  · refine (hheld _).setSlot _ ?_
    rintro _ ⟨⟩
    exact hchild
  · intro s hs
    rcases Array.mem_push.mp hs with hs | hs
    · exact hheld _ s hs
    · obtain rfl := Option.some.inj hs
      exact hchild

lemma Binds.unholdParent (ha : a.Binds P) (s : Scope) : (a.unholdParent s).Binds P := by
  rw [Arena.unholdParent]
  split
  · split
    · exact ha.unhold _
    · exact ha
  · exact ha

lemma Binds.dropAll (ha : a.Binds P) (cs : List Capture) : (cs.foldl drop a).Binds P := by
  induction cs generalizing a with
  | nil => exact ha
  | cons c cs ih =>
    refine ih ?_
    rw [drop]
    split
    · exact ha
    · exact ha.unhold c.scope

lemma Binds.freeSlot (ha : a.Binds P) (id : ScopeId) : (a.freeSlot id).Binds P := by
  rw [Arena.freeSlot]
  split
  · exact ha
  · have hfreed : Binds { a.setSlot id none with free := a.free.push id.index } P :=
      ha.setSlot id (by rintro _ ⟨⟩)
    exact (hfreed.unholdParent _).dropAll _

lemma Binds.settle (ha : a.Binds P) (id : ScopeId) : (a.settle id).Binds P := by
  rw [Arena.settle]
  split
  · exact ha
  · exact ha.freeSlot id

lemma Binds.sweep (ha : a.Binds P) : a.sweep.Binds P := by
  have honce {a : Arena} (ha : a.Binds P) : a.sweepOnce.Binds P := by
    rw [sweepOnce, ← Array.foldl_toList]
    have hfold (ids : List ScopeId) {a : Arena} (ha : a.Binds P) :
        (ids.foldl Arena.settle a).Binds P := by
      induction ids generalizing a with
      | nil => exact ha
      | cons id ids ih => exact ih (ha.settle id)
    exact hfold _ ha
  have hrounds (n : Nat) {a : Arena} (ha : a.Binds P) : (sweepRounds n a).Binds P := by
    induction n generalizing a with
    | zero => exact ha
    | succ n ih =>
      rw [sweepRounds]
      split
      · exact honce ha
      · exact ih (honce ha)
  exact hrounds _ ha

lemma Binds.release (ha : a.Binds P) (mark : Nat) : (a.release mark).Binds P := by
  have hunwind (n : Nat) {a : Arena} (ha : a.Binds P) : (unwind n a).Binds P := by
    induction n generalizing a with
    | zero => exact ha
    | succ n ih =>
      rw [unwind]
      split
      · exact ha
      · have hpopped : Binds { a with stack := a.stack.pop } P := ha
        exact ih (hpopped.settle _)
  rw [Arena.release]
  dsimp only
  split
  · exact (hunwind _ ha).sweep
  · exact hunwind _ ha

end Arena

namespace Environment

variable {env env' : Environment}

structure Intact (env : Environment) : Prop where
  heap : env.heap.Intact
  scopes : env.arena.Binds fun r => .map r ∈ env.heap.containers

structure Grows (env env' : Environment) : Prop where
  intact : env'.Intact
  containers : env.heap.containers ⊆ env'.heap.containers

namespace Intact

lemma refl (he : env.Intact) : env.Grows env := ⟨he, subset_rfl⟩

lemma withHeap (he : env.Intact) {h : Heap} (hh : h.Intact)
    (hle : env.heap.containers ⊆ h.containers) : env.Grows ⟨h, env.arena⟩ :=
  ⟨⟨hh, he.scopes.mono fun _ hr => hle hr⟩, hle⟩

lemma withArena (he : env.Intact) {a : Arena}
    (ha : a.Binds fun r => .map r ∈ env.heap.containers) : env.Grows ⟨env.heap, a⟩ :=
  ⟨⟨he.heap, ha⟩, subset_rfl⟩

lemma get (he : env.Intact) (id : ScopeId) (name : String) :
    (env.get id name).Stored env.heap.containers := by
  refine Value.stored_getD fun v hv => ?_
  obtain ⟨s, -, hs⟩ := List.exists_of_findSome?_eq_some hv
  exact Entries.forall_of_get? (he.heap.entries s.bindings).stored hs

lemma putIn (he : env.Intact) (s : Scope) (name : String) (hv : v.Stored env.heap.containers) :
    env.Grows (env.putIn s name v) :=
  he.withHeap (he.heap.setMap _ ((he.heap.entries s.bindings).put name hv))
    (env.heap.containers_setMap _ _).ge

lemma define (he : env.Intact) (id : ScopeId) (name : String) (hv : v.Stored env.heap.containers) :
    env.Grows (env.define id name v) := by
  rw [define.eq_def]
  split
  · exact he.putIn _ name hv
  · exact he.refl

lemma set (he : env.Intact) (id : ScopeId) (name : String) (hv : v.Stored env.heap.containers) :
    env.Grows (env.set id name v) := by
  rw [set.eq_def]
  split
  · exact he.putIn _ name hv
  · exact he.define id name hv

lemma newMap (he : env.Intact) : env.Grows ⟨(env.heap.newMap []).2, env.arena⟩ :=
  he.withHeap (he.heap.newMap Entries.proper_nil) (env.heap.extends_newMap []).grows

lemma bindings (he : env.Intact) (id : ScopeId) :
    env.Grows (env.bindings id).2 ∧
      .map (env.bindings id).1 ∈ (env.bindings id).2.heap.containers := by
  rw [bindings.eq_def]
  cases hs : env.arena.scope? id with
  | some s => exact ⟨he.refl, he.scopes.of_scope? hs⟩
  | none => exact ⟨he.newMap, (env.heap.map_newMap_mem []).1⟩

lemma pushRoot (he : env.Intact) : env.Grows env.pushRoot.2 := by
  have hnew := he.newMap
  refine ⟨⟨hnew.intact.heap, ?_⟩, hnew.containers⟩
  exact hnew.intact.scopes.allocate none (env.heap.map_newMap_mem []).1

lemma enter (he : env.Intact) (parent : ScopeId) : env.Grows (env.enter parent).2 := by
  have hnew := he.newMap
  refine ⟨⟨hnew.intact.heap, ?_⟩, hnew.containers⟩
  exact hnew.intact.scopes.allocate (some parent) (env.heap.map_newMap_mem []).1

lemma capture (he : env.Intact) (id : ScopeId) : env.Grows (env.capture id).2 :=
  he.withArena (he.scopes.hold id)

lemma release (he : env.Intact) (mark : Nat) : env.Grows (env.release mark) :=
  he.withArena (he.scopes.release mark)

end Intact

lemma intact_initial : initial.Intact :=
  Grows.intact (Intact.pushRoot ⟨Heap.intact_empty, fun _ hs => nomatch hs⟩)

end Environment

end DiceLang

import DiceLang.Eval.Evaluate
import DiceLang.Proofs.Eval.Code
import Mathlib

/-! Values of two runs that are alike: they differ at most in the scopes of functions. Nothing that is
computed from values depends on these, be it an order, a text or a copy. -/

namespace DiceLang

abbrev ScopePairs := ScopeId → ScopeId → Prop

def ScopePairs.diagonal (kept : ScopeId → Prop) : ScopePairs := fun s t => s = t ∧ kept s

class Paired (α : Type) where
  scopes : α → List ScopeId
  /-- The data differs at most in the scopes of functions, and these are paired. -/
  Like : ScopePairs → α → α → Prop
  imp {P Q : ScopePairs} {a b : α} : (∀ s ∈ scopes a, ∀ t ∈ scopes b, P s t → Q s t) → Like P a b →
    Like Q a b
  self {P : ScopePairs} {a : α} : Like P a a → Like (.diagonal fun s => P s s) a a

export Paired (Like)

variable {α β : Type} {P Q : ScopePairs}

lemma Paired.mono [Paired α] {a b : α} (h : ∀ s t, P s t → Q s t) (hab : Like P a b) : Like Q a b :=
  imp (fun s _ t _ => h s t) hab

def Value.scopes : Value → List ScopeId
  | .function _ s _ owner => s :: owner.scopes
  | .scalar _ | .list _ | .map _ => []

inductive Value.Like (P : ScopePairs) : Value → Value → Prop
  | scalar (v : Scalar) : Like P (.scalar v) (.scalar v)
  | list (r : ListRef) : Like P (.list r) (.list r)
  | map (r : MapRef) : Like P (.map r) (.map r)
  | function {i : Nat} {s t : ScopeId} {f : Lambda} {v w : Value} : P s t → Like P v w →
      Like P (.function i s f v) (.function i t f w)

lemma Value.Like.imp {v w : Value} (h : ∀ s ∈ v.scopes, ∀ t ∈ w.scopes, P s t → Q s t)
    (hv : Value.Like P v w) : Value.Like Q v w := by
  induction hv with
  | scalar v => exact .scalar v
  | list r => exact .list r
  | map r => exact .map r
  | function hs _ ih =>
    refine .function (h _ List.mem_cons_self _ List.mem_cons_self hs) (ih fun s hs t ht => ?_)
    exact h s (List.mem_cons_of_mem _ hs) t (List.mem_cons_of_mem _ ht)

lemma Value.Like.self {v : Value} (hv : Value.Like P v v) :
    Value.Like (.diagonal fun s => P s s) v v := by
  induction v with
  | scalar v => exact .scalar v
  | list r => exact .list r
  | map r => exact .map r
  | function i s f owner ih =>
    cases hv with
    | function hs ho => exact .function ⟨rfl, hs⟩ (ih ho)

namespace Paired

instance : Paired ScopeId where
  scopes s := [s]
  Like P := P
  imp h := h _ List.mem_cons_self _ List.mem_cons_self
  self h := ⟨rfl, h⟩

instance : Paired Value := ⟨Value.scopes, Value.Like, Value.Like.imp, Value.Like.self⟩

abbrev plain (α : Type) : Paired α := ⟨fun _ => [], fun _ => Eq, fun _ h => h, fun h => h⟩

instance : Paired Unit := plain _
instance : Paired Bool := plain _
instance : Paired Nat := plain _
instance : Paired Int64 := plain _
instance : Paired String := plain _
instance : Paired ListRef := plain _
instance : Paired MapRef := plain _

lemma imp_left [Paired α] {a b : α} {us vs : List ScopeId}
    (h : ∀ s ∈ scopes a ++ us, ∀ t ∈ scopes b ++ vs, P s t → Q s t) (hab : Like P a b) : Like Q a b :=
  imp (fun s hs t ht => h s (List.mem_append_left us hs) t (List.mem_append_left vs ht)) hab

lemma imp_right [Paired α] {a b : α} {us vs : List ScopeId}
    (h : ∀ s ∈ us ++ scopes a, ∀ t ∈ vs ++ scopes b, P s t → Q s t) (hab : Like P a b) : Like Q a b :=
  imp (fun s hs t ht => h s (List.mem_append_right us hs) t (List.mem_append_right vs ht)) hab

instance [Paired α] : Paired (List α) where
  scopes xs := xs.flatMap scopes
  Like P := List.Forall₂ (Like P)
  imp h hxs := by
    induction hxs with
    | nil => exact .nil
    | cons hx _ ih =>
      rw [List.flatMap_cons, List.flatMap_cons] at h
      refine .cons (imp_left h hx) (ih fun s hs t ht => ?_)
      exact h s (List.mem_append_right _ hs) t (List.mem_append_right _ ht)
  self hxs := List.forall₂_same.mpr fun x hx => self (List.forall₂_same.mp hxs x hx)

instance [Paired α] : Paired (Array α) where
  scopes xs := scopes xs.toList
  Like P xs ys := Like P xs.toList ys.toList
  imp h hxs := imp (α := List α) h hxs
  self hxs := self (α := List α) hxs

instance [Paired α] : Paired (Option α) where
  scopes o := o.elim [] scopes
  Like P := Option.Rel (Like P)
  imp h hab := by
    cases hab with
    | some hab => exact .some (imp h hab)
    | none => exact .none
  self ha := by
    cases ha with
    | some ha => exact .some (self ha)
    | none => exact .none

instance [Paired α] [Paired β] : Paired (α × β) where
  scopes x := scopes x.1 ++ scopes x.2
  Like P x y := Like P x.1 y.1 ∧ Like P x.2 y.2
  imp h hxy := ⟨imp_left h hxy.1, imp_right h hxy.2⟩
  self hx := ⟨self hx.1, self hx.2⟩

end Paired

section Lists

variable [Paired α] {x y : α} {xs ys us vs : List α} {as bs : Array α}

lemma like_nil : Like P ([] : List α) [] := .nil

lemma like_cons (hx : Like P x y) (hxs : Like P xs ys) : Like P (x :: xs) (y :: ys) := .cons hx hxs

lemma like_singleton (hx : Like P x y) : Like P [x] [y] := like_cons hx like_nil

lemma like_append (hxs : Like P xs ys) (hus : Like P us vs) : Like P (xs ++ us) (ys ++ vs) :=
  List.rel_append hxs hus

lemma like_replicate (hx : Like P x y) (n : Nat) : Like P (List.replicate n x) (List.replicate n y) := by
  induction n with
  | zero => exact like_nil
  | succ n ih => exact like_cons hx ih

lemma like_set (hxs : Like P xs ys) (hx : Like P x y) (i : Nat) : Like P (xs.set i x) (ys.set i y) := by
  induction hxs generalizing i with
  | nil => exact like_nil
  | cons h hrest ih =>
    cases i with
    | zero => exact like_cons hx hrest
    | succ i => exact like_cons h (ih i)

lemma like_getElem? (hxs : Like P xs ys) (i : Nat) : Like P xs[i]? ys[i]? := by
  induction hxs generalizing i with
  | nil => exact .none
  | cons h _ ih =>
    cases i with
    | zero => exact .some h
    | succ i => simpa using ih i

lemma like_getD {o o' : Option α} (ho : Like P o o') (hx : Like P x y) : Like P (o.getD x) (o'.getD y) := by
  cases ho with
  | some h => exact h
  | none => exact hx

lemma isSome_of_like {o o' : Option α} (ho : Like P o o') : o.isSome = o'.isSome := by
  cases ho <;> rfl

lemma like_toList {o o' : Option α} (ho : Like P o o') : Like P o.toList o'.toList := by
  cases ho with
  | some h => exact like_singleton h
  | none => exact like_nil

lemma like_push (has : Like P as bs) (hx : Like P x y) : Like P (as.push x) (bs.push y) := by
  change Like P (as.push x).toList (bs.push y).toList
  rw [Array.toList_push, Array.toList_push]
  exact like_append has (like_singleton hx)

lemma like_empty : Like P (#[] : Array α) #[] := like_nil (α := α)

lemma like_appendArray {cs ds : Array α} (has : Like P as bs) (hcs : Like P cs ds) :
    Like P (as ++ cs) (bs ++ ds) := by
  change Like P (as ++ cs).toList (bs ++ ds).toList
  rw [Array.toList_append, Array.toList_append]
  exact like_append has hcs

lemma like_mapArray [Paired β] {f g : α → β} (hfg : ∀ {x y}, Like P x y → Like P (f x) (g y))
    (has : Like P as bs) : Like P (as.map f) (bs.map g) := by
  change Like P (as.map f).toList (bs.map g).toList
  rw [Array.toList_map, Array.toList_map]
  exact List.rel_map (fun _ _ h => hfg h) has

lemma like_toArray {o o' : Option α} (ho : Like P o o') : Like P o.toArray o'.toArray := by
  cases ho with
  | some h => exact like_singleton h
  | none => exact like_nil (α := α)

lemma like_zipIdx (hxs : Like P xs ys) (n : Nat) : Like P (xs.zipIdx n) (ys.zipIdx n) := by
  induction hxs generalizing n with
  | nil => exact like_nil
  | cons h _ ih => exact like_cons ⟨h, rfl⟩ (ih (n + 1))

lemma exists_zipped (hxs : Like P xs ys) :
    ∃ zs : List (α × α), zs.map Prod.fst = xs ∧ zs.map Prod.snd = ys ∧ ∀ z ∈ zs, Like P z.1 z.2 := by
  induction hxs with
  | nil => exact ⟨[], rfl, rfl, List.forall_mem_nil _⟩
  | @cons x y _ _ h _ ih =>
    obtain ⟨zs, rfl, rfl, hzs⟩ := ih
    exact ⟨(x, y) :: zs, rfl, rfl, List.forall_mem_cons.mpr ⟨h, hzs⟩⟩

lemma like_of_zipped {zs : List (α × α)} (hzs : ∀ z ∈ zs, Like P z.1 z.2) :
    Like P (zs.map Prod.fst) (zs.map Prod.snd) := by
  change List.Forall₂ _ _ _
  rw [List.forall₂_map_left_iff, List.forall₂_map_right_iff, List.forall₂_same]
  exact hzs

lemma like_mergeSort {le le' : α → α → Bool} (hxs : Like P xs ys)
    (hle : ∀ {a b c d : α}, Like P a b → Like P c d → le a c = le' b d) :
    Like P (xs.mergeSort le) (ys.mergeSort le') := by
  obtain ⟨zs, rfl, rfl, hzs⟩ := exists_zipped hxs
  let lt (a b : α × α) : Bool := le a.1 b.1
  have hleft : (zs.mergeSort lt).map Prod.fst = (zs.map Prod.fst).mergeSort le :=
    List.map_mergeSort fun _ _ _ _ => rfl
  have hright : (zs.mergeSort lt).map Prod.snd = (zs.map Prod.snd).mergeSort le' :=
    List.map_mergeSort fun a ha b hb => hle (hzs a ha) (hzs b hb)
  rw [← hleft, ← hright]
  exact like_of_zipped fun z hz => hzs z ((List.mergeSort_perm zs lt).subset hz)

end Lists

namespace Entries

variable [Paired α] {es fs : List (String × α)} {more others : List (String × α)} {v w : α}

lemma like_get? (hes : Like P es fs) (name : String) : Like P (get? es name) (get? fs name) := by
  induction hes with
  | nil => exact .none
  | @cons e f _ _ h _ ih =>
    obtain ⟨k, v⟩ := e
    obtain ⟨k', w⟩ := f
    obtain ⟨rfl, hv⟩ : k = k' ∧ Like P v w := h
    rw [get?, get?]
    split
    · exact .some hv
    · exact ih

lemma like_put (hes : Like P es fs) (name : String) (hv : Like P v w) :
    Like P (put es name v) (put fs name w) := by
  induction hes with
  | nil => exact like_singleton ⟨rfl, hv⟩
  | @cons e f _ _ h hrest ih =>
    obtain ⟨k, u⟩ := e
    obtain ⟨k', u'⟩ := f
    obtain ⟨rfl, hu⟩ : k = k' ∧ Like P u u' := h
    rw [put, put]
    split
    · exact like_cons ⟨rfl, hv⟩ hrest
    · exact like_cons ⟨rfl, hu⟩ ih

lemma like_putAll (hes : Like P es fs) (hmore : Like P more others) :
    Like P (putAll es more) (putAll fs others) := by
  induction hmore generalizing es fs with
  | nil => exact hes
  | @cons e f _ _ h _ ih =>
    obtain ⟨k, u⟩ := e
    obtain ⟨k', u'⟩ := f
    obtain ⟨rfl, hu⟩ : k = k' ∧ Like P u u' := h
    exact ih (like_put hes k hu)

lemma like_ofList (hes : Like P es fs) : Like P (ofList es) (ofList fs) := like_putAll like_nil hes

lemma like_values (hes : Like P es fs) : Like P (values es) (values fs) :=
  List.rel_map (fun _ _ h => h.2) hes

end Entries

namespace Value

variable {v w : Value}

lemma Like.kind_eq (hv : Paired.Like P v w) : v.kind = w.kind := by
  cases hv <;> rfl

lemma Like.container?_eq (hv : Paired.Like P v w) : v.container? = w.container? := by
  cases hv <;> rfl

lemma Like.scalar?_eq (hv : Paired.Like P v w) : v.scalar? = w.scalar? := by
  cases hv <;> rfl

lemma like_undefined : Paired.Like P Value.undefined Value.undefined := Value.Like.scalar _

lemma like_list {r r' : ListRef} (h : r = r') : Paired.Like P (Value.list r) (Value.list r') :=
  h ▸ Value.Like.list r

lemma like_map {r r' : MapRef} (h : r = r') : Paired.Like P (Value.map r) (Value.map r') :=
  h ▸ Value.Like.map r

end Value

structure Heap.Like (P : ScopePairs) (h h' : Heap) : Prop where
  lists : h.lists.size = h'.lists.size
  maps : h.maps.size = h'.maps.size
  items : ∀ r, Paired.Like P (h.items r) (h'.items r)
  entries : ∀ r, Paired.Like P (h.entries r) (h'.entries r)

namespace Heap

variable {h h' : Heap} {v w : Value} {xs ys : List Value} {es fs : List (String × Value)}

def scopes (h : Heap) : List ScopeId := Paired.scopes h.lists ++ Paired.scopes h.maps

lemma mem_scopes_of_list {s : ScopeId} {r : ListRef} (hs : s ∈ Paired.scopes (h.items r)) : s ∈ h.scopes := by
  rw [items_eq] at hs
  cases hr : h.lists[r.index]? with
  | none => simp [hr, Paired.scopes] at hs
  | some xs =>
    rw [hr] at hs
    exact List.mem_append_left _ (List.mem_flatMap.mpr ⟨xs, Array.mem_toList_iff.mpr
      (Array.mem_of_getElem? hr), hs⟩)

lemma mem_scopes_of_map {s : ScopeId} {r : MapRef} (hs : s ∈ Paired.scopes (h.entries r)) :
    s ∈ h.scopes := by
  rw [entries_eq] at hs
  cases hr : h.maps[r.index]? with
  | none => simp [hr, Paired.scopes] at hs
  | some xs =>
    rw [hr] at hs
    exact List.mem_append_right _ (List.mem_flatMap.mpr ⟨xs, Array.mem_toList_iff.mpr
      (Array.mem_of_getElem? hr), hs⟩)

lemma Like.imp (himp : ∀ s ∈ h.scopes, ∀ t ∈ h'.scopes, P s t → Q s t) (hh : Like P h h') :
    Like Q h h' where
  lists := hh.lists
  maps := hh.maps
  items r := Paired.imp (fun s hs t ht => himp s (mem_scopes_of_list hs) t (mem_scopes_of_list ht))
    (hh.items r)
  entries r := Paired.imp (fun s hs t ht => himp s (mem_scopes_of_map hs) t (mem_scopes_of_map ht))
    (hh.entries r)

lemma Like.mono (hle : ∀ s t, P s t → Q s t) (hh : Like P h h') : Like Q h h' :=
  hh.imp fun s _ t _ => hle s t

lemma Like.self (hh : Like P h h) : Like (.diagonal fun s => P s s) h h :=
  ⟨rfl, rfl, fun r => Paired.self (hh.items r), fun r => Paired.self (hh.entries r)⟩

lemma like_empty : Like P empty empty := ⟨rfl, rfl, fun _ => like_nil, fun _ => like_nil⟩

lemma Like.size_eq (hh : Like P h h') : h.size = h'.size := by
  rw [size, size, hh.lists, hh.maps]

lemma Like.contents (hh : Like P h h') (c : Container) :
    Paired.Like P (h.contents c) (h'.contents c) := by
  cases c with
  | list r => exact hh.items r
  | map r => exact Entries.like_values (hh.entries r)

lemma Like.fst_newList (hh : Like P h h') (xs ys : List Value) :
    (h.newList xs).1 = (h'.newList ys).1 := congrArg ListRef.mk hh.lists

lemma Like.fst_newMap (hh : Like P h h') (es fs : List (String × Value)) :
    (h.newMap es).1 = (h'.newMap fs).1 := congrArg MapRef.mk hh.maps

lemma Like.newList (hh : Like P h h') (hxs : Paired.Like P xs ys) :
    Like P (h.newList xs).2 (h'.newList ys).2 := by
  refine ⟨by simp [Heap.newList, hh.lists], hh.maps, fun r => ?_, hh.entries⟩
  have hr := hh.items r
  simp only [items_eq, Heap.newList, Array.getElem?_push, hh.lists] at hr ⊢
  split
  · exact hxs
  · exact hr

lemma Like.newMap (hh : Like P h h') (hes : Paired.Like P es fs) :
    Like P (h.newMap es).2 (h'.newMap fs).2 := by
  refine ⟨hh.lists, by simp [Heap.newMap, hh.maps], hh.items, fun r => ?_⟩
  have hr := hh.entries r
  simp only [entries_eq, Heap.newMap, Array.getElem?_push, hh.maps] at hr ⊢
  split
  · exact hes
  · exact hr

lemma Like.setList (hh : Like P h h') (r : ListRef) (hxs : Paired.Like P xs ys) :
    Like P (h.setList r xs) (h'.setList r ys) := by
  refine ⟨by simp [Heap.setList, hh.lists], hh.maps, fun s => ?_, hh.entries⟩
  have hs := hh.items s
  simp only [items_eq, Heap.setList, Array.getElem?_setIfInBounds, hh.lists] at hs ⊢
  split
  · split
    · exact hxs
    · exact like_nil
  · exact hs

lemma Like.setMap (hh : Like P h h') (r : MapRef) (hes : Paired.Like P es fs) :
    Like P (h.setMap r es) (h'.setMap r fs) := by
  refine ⟨hh.lists, by simp [Heap.setMap, hh.maps], hh.items, fun s => ?_⟩
  have hs := hh.entries s
  simp only [entries_eq, Heap.setMap, Array.getElem?_setIfInBounds, hh.maps] at hs ⊢
  split
  · split
    · exact hes
    · exact like_nil
  · exact hs

lemma Like.isTrue_eq (hh : Like P h h') (hv : Paired.Like P v w) : h.isTrue v = h'.isTrue w := by
  have hempty {α : Type} [Paired α] {xs ys : List α} (hxs : Paired.Like P xs ys) :
      xs.isEmpty = ys.isEmpty := by
    cases hxs <;> rfl
  cases hv with
  | scalar | function => rfl
  | list r => exact congrArg (!·) (hempty (hh.items r))
  | map r => exact congrArg (!·) (hempty (hh.entries r))

lemma Like.toList (hh : Like P h h') (hv : Paired.Like P v w) :
    (h.toList v).1 = (h'.toList w).1 ∧ Like P (h.toList v).2 (h'.toList w).2 := by
  have hnew {xs ys : List Value} (hxs : Paired.Like P xs ys) :
      (h.newList xs).1 = (h'.newList ys).1 ∧ Like P (h.newList xs).2 (h'.newList ys).2 :=
    ⟨hh.fst_newList xs ys, hh.newList hxs⟩
  cases hv with
  | scalar v =>
    cases v with
    | undefined => exact hnew like_nil
    | string | boolean | number => exact hnew (like_singleton (Value.Like.scalar _))
  | list r => exact ⟨rfl, hh⟩
  | map r => exact hnew (Entries.like_values (hh.entries r))
  | function hs ho => exact hnew (like_singleton (Value.Like.function hs ho))

lemma like_numbered (hxs : Paired.Like P xs ys) : Paired.Like P (numbered xs) (numbered ys) := by
  refine List.rel_map ?_ (like_zipIdx hxs 0)
  rintro ⟨x, i⟩ ⟨y, j⟩ ⟨hx, rfl⟩
  exact ⟨rfl, hx⟩

lemma Like.toMap (hh : Like P h h') (hv : Paired.Like P v w) :
    (h.toMap v).1 = (h'.toMap w).1 ∧ Like P (h.toMap v).2 (h'.toMap w).2 := by
  have hnew {es fs : List (String × Value)} (hes : Paired.Like P es fs) :
      (h.newMap es).1 = (h'.newMap fs).1 ∧ Like P (h.newMap es).2 (h'.newMap fs).2 :=
    ⟨hh.fst_newMap es fs, hh.newMap hes⟩
  cases hv with
  | scalar v =>
    cases v with
    | undefined => exact hnew like_nil
    | string | boolean | number => exact hnew (like_singleton ⟨rfl, Value.Like.scalar _⟩)
  | list r => exact hnew (Entries.like_ofList (like_numbered (hh.items r)))
  | map r => exact ⟨rfl, hh⟩
  | function hs ho => exact hnew (like_singleton ⟨rfl, Value.Like.function hs ho⟩)

lemma orderLists_congr {order order' : Value → Value → Ordering} {us vs : List Value}
    (horder : ∀ {a b c d : Value}, Paired.Like P a b → Paired.Like P c d → order a c = order' b d)
    (hxs : Paired.Like P xs ys) (hus : Paired.Like P us vs) :
    orderLists order xs us = orderLists order' ys vs := by
  induction hxs generalizing us vs with
  | nil => cases hus <;> rfl
  | cons hx _ ih =>
    cases hus with
    | nil => rfl
    | cons hu hrest =>
      simp only [orderLists, horder hx hu]
      split
      · exact ih hrest
      · rfl

lemma Like.orderWithin_eq (hh : Like P h h') {a b c d : Value} (hab : Paired.Like P a b)
    (hcd : Paired.Like P c d) (fuel : Nat) (path : List (Container × Container)) :
    h.orderWithin fuel path a c = h'.orderWithin fuel path b d := by
  induction fuel generalizing path a b c d with
  | zero => rfl
  | succ fuel ih =>
    have hcontents (x y : Container) (path : List (Container × Container)) :
        orderLists (h.orderWithin fuel path) (h.contents x) (h.contents y) =
          orderLists (h'.orderWithin fuel path) (h'.contents x) (h'.contents y) :=
      orderLists_congr (fun hab hcd => ih hab hcd path) (hh.contents x) (hh.contents y)
    cases hab <;> cases hcd <;>
      simp only [orderWithin, Value.kind, Value.container?, hcontents] <;> rfl

lemma Like.order_eq (hh : Like P h h') {a b c d : Value} (hab : Paired.Like P a b)
    (hcd : Paired.Like P c d) : h.order a c = h'.order b d := by
  rw [order, order, hh.size_eq]
  exact hh.orderWithin_eq hab hcd _ _

lemma Like.same_eq (hh : Like P h h') {a b c d : Value} (hab : Paired.Like P a b)
    (hcd : Paired.Like P c d) : h.same a c = h'.same b d := by
  rw [same, same, hh.order_eq hab hcd]

lemma Like.sort (hh : Like P h h') (hxs : Paired.Like P xs ys) :
    Paired.Like P (h.sort xs) (h'.sort ys) :=
  like_mergeSort hxs fun hab hcd => by rw [hh.order_eq hab hcd]

lemma Like.textWithin_eq (hh : Like P h h') (hv : Paired.Like P v w) (fuel : Nat)
    (path : List Container) : h.textWithin fuel path v = h'.textWithin fuel path w := by
  induction fuel generalizing path v w with
  | zero => rfl
  | succ fuel ih =>
    have hmap {α : Type} [Paired α] {xs ys : List α} {f g : α → String} (hxs : Paired.Like P xs ys)
        (hfg : ∀ x y, Paired.Like P x y → f x = g y) : xs.map f = ys.map g := by
      rw [← List.forall₂_eq_eq_eq]
      exact List.rel_map (fun x y h => hfg x y h) hxs
    cases hv with
    | scalar | function => rfl
    | list r =>
      have hitems := hmap (hh.items r) fun x y hx => ih hx (.list r :: path)
      simp only [textWithin, hitems]
    | map r =>
      have hentries := hmap (f := fun e : String × Value =>
          Printer.key e.1 ++ ": " ++ h.textWithin fuel (.map r :: path) e.2)
        (g := fun e => Printer.key e.1 ++ ": " ++ h'.textWithin fuel (.map r :: path) e.2)
        (hh.entries r) fun x y hx => by rw [show x.1 = y.1 from hx.1, ih hx.2]
      simp only [textWithin, hentries]

lemma Like.text_eq (hh : Like P h h') (hv : Paired.Like P v w) : h.text v = h'.text w := by
  rw [text, text, hh.size_eq]
  exact hh.textWithin_eq hv _ _

lemma Like.exprWithin_eq (hh : Like P h h') (hv : Paired.Like P v w) (depth : Nat) :
    h.exprWithin depth v = h'.exprWithin depth w := by
  induction depth generalizing v w with
  | zero => rfl
  | succ depth ih =>
    have hmapM {α β : Type} [Paired α] {xs ys : List α} {f g : α → Option β}
        (hxs : Paired.Like P xs ys) (hfg : ∀ x y, Paired.Like P x y → f x = g y) :
        xs.mapM f = ys.mapM g := by
      induction hxs with
      | nil => rfl
      | cons hx _ ih => rw [List.mapM_cons, List.mapM_cons, hfg _ _ hx, ih]
    cases hv with
    | scalar | function => rfl
    | list r => simp only [exprWithin, hmapM (hh.items r) fun x y hx => ih hx]
    | map r =>
      have hentries := hmapM
        (f := fun e : String × Value => (h.exprWithin depth e.2).map fun x => (e.1, x))
        (g := fun e => (h'.exprWithin depth e.2).map fun x => (e.1, x))
        (hh.entries r) fun x y hx => by rw [show x.1 = y.1 from hx.1, ih hx.2]
      simp only [exprWithin, hentries]

lemma Like.expr?_eq (hh : Like P h h') (hv : Paired.Like P v w) : h.expr? v = h'.expr? w := by
  rw [expr?, expr?, hh.size_eq]
  exact hh.exprWithin_eq hv _

end Heap

end DiceLang

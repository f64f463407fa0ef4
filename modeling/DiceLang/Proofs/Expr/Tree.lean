import DiceLang.Expr.Printer
import Mathlib

/-! Expressions as trees: what stands inside what, and what is left of a tree without its places. -/

namespace DiceLang.Expr

def children : Expr → List Expr
  | .scalar .. | .interpolation .. | .scopeVariables .. | .var .. => []
  | .list _ items => items
  | .map _ entries => entries.map Prod.snd
  | .lambda _ params body => body :: params.filterMap Prod.snd
  | .unary _ _ operand => [operand]
  | .binary _ _ left right => [left, right]
  | .forEach _ _ _ out container condition => out :: container :: condition.toList
  | .repeating _ _ body condition limit => body :: condition :: limit.toList
  | .conditional _ condition whenTrue whenFalse => [condition, whenTrue, whenFalse]
  | .call _ callee positional named => callee :: (positional ++ named.map Prod.snd)
  | .output _ _ expression _ name => expression :: name.toList
  | .importing _ _ address => [address]

inductive Within (n : Expr) : Expr → Prop where
  | self : Within n n
  | inside {c e : Expr} : c ∈ e.children → Within n c → Within n e

lemma Within.trans {a b c : Expr} (h : Within a b) (h' : Within b c) : Within a c := by
  induction h' with
  | self => exact h
  | inside hc _ ih => exact .inside hc ih

lemma forall_within {P : Expr → Prop} {e : Expr} :
    (∀ n, Within n e → P n) ↔ P e ∧ ∀ c ∈ e.children, ∀ n, Within n c → P n := by
  constructor
  · intro h
    exact ⟨h e .self, fun c hc n hn => h n (.inside hc hn)⟩
  · rintro ⟨he, hc⟩ n hn
    cases hn with
    | self => exact he
    | inside hm hn => exact hc _ hm n hn

lemma forall_within_leaf {P : Expr → Prop} {e : Expr} (h : e.children = []) (he : P e) :
    ∀ n, Within n e → P n := by
  rw [forall_within, h]
  exact ⟨he, List.forall_mem_nil _⟩

lemma sizeOf_optional {c : Expr} {o : Option Expr} (h : c ∈ o.toList) : sizeOf c < sizeOf o := by
  obtain rfl := Option.mem_toList.mp h
  simp

lemma sizeOf_entry {c : Expr} {entries : List (String × Expr)} (h : c ∈ entries.map Prod.snd) :
    sizeOf c < sizeOf entries := by
  obtain ⟨⟨name, c⟩, hx, rfl⟩ := List.mem_map.mp h
  have hs := List.sizeOf_lt_of_mem hx
  simp only [Prod.mk.sizeOf_spec] at hs ⊢
  omega

lemma sizeOf_default {c : Expr} {params : List (String × Option Expr)}
    (h : c ∈ params.filterMap Prod.snd) : sizeOf c < sizeOf params := by
  obtain ⟨⟨name, d⟩, hx, rfl⟩ := List.mem_filterMap.mp h
  have hs := List.sizeOf_lt_of_mem hx
  simp only [Prod.mk.sizeOf_spec, Option.some.sizeOf_spec] at hs ⊢
  omega

lemma sizeOf_child {c e : Expr} (h : c ∈ e.children) : sizeOf c < sizeOf e := by
  cases e with
  | scalar | interpolation | scopeVariables | var => simp [children] at h
  | list loc items =>
    have hs : sizeOf c < sizeOf items := List.sizeOf_lt_of_mem h
    simp only [list.sizeOf_spec]
    omega
  | map loc entries =>
    have hs := sizeOf_entry h
    simp only [map.sizeOf_spec]
    omega
  | lambda loc params body =>
    simp only [lambda.sizeOf_spec]
    rcases List.mem_cons.mp h with rfl | h
    · omega
    · have hs := sizeOf_default h
      omega
  | forEach loc index item out container condition =>
    simp only [children, List.mem_cons, forEach.sizeOf_spec] at h ⊢
    rcases h with rfl | rfl | h
    · omega
    · omega
    · have hs := sizeOf_optional h
      omega
  | repeating loc form body condition limit =>
    simp only [children, List.mem_cons, repeating.sizeOf_spec] at h ⊢
    rcases h with rfl | rfl | h
    · omega
    · omega
    · have hs := sizeOf_optional h
      omega
  | call loc callee positional named =>
    simp only [children, List.mem_cons, List.mem_append, call.sizeOf_spec] at h ⊢
    rcases h with rfl | h | h
    · omega
    · have hs := List.sizeOf_lt_of_mem h
      omega
    · have hs := sizeOf_entry h
      omega
  | output loc mode expression type name =>
    simp only [children, List.mem_cons, output.sizeOf_spec] at h ⊢
    rcases h with rfl | h
    · omega
    · have hs := sizeOf_optional h
      omega
  | unary | binary | conditional | importing =>
    simp only [children, List.mem_cons, List.not_mem_nil, or_false] at h
    rcases h with rfl | rfl | rfl <;> simp <;> omega

@[elab_as_elim]
lemma children_induction {P : Expr → Prop} (step : ∀ e, (∀ c ∈ e.children, P c) → P e) (e : Expr) :
    P e :=
  step e fun c _ => children_induction step c
termination_by sizeOf e
decreasing_by exact sizeOf_child ‹_›

def mapChildren (g : Expr → Expr) : Expr → Expr
  | .scalar loc v => .scalar loc v
  | .interpolation loc fs => .interpolation loc fs
  | .list loc items => .list loc (items.map g)
  | .map loc entries => .map loc (entries.map fun x => (x.1, g x.2))
  | .lambda loc params body => .lambda loc (params.map fun x => (x.1, x.2.map g)) (g body)
  | .unary loc op operand => .unary loc op (g operand)
  | .binary loc op left right => .binary loc op (g left) (g right)
  | .forEach loc index item out container condition =>
    .forEach loc index item (g out) (g container) (condition.map g)
  | .repeating loc form body condition limit =>
    .repeating loc form (g body) (g condition) (limit.map g)
  | .conditional loc condition whenTrue whenFalse =>
    .conditional loc (g condition) (g whenTrue) (g whenFalse)
  | .call loc callee positional named =>
    .call loc (g callee) (positional.map g) (named.map fun x => (x.1, g x.2))
  | .scopeVariables loc which => .scopeVariables loc which
  | .output loc mode expression type name => .output loc mode (g expression) type (name.map g)
  | .importing loc space address => .importing loc space (g address)
  | .var loc name => .var loc name

lemma children_mapChildren (g : Expr → Expr) (e : Expr) :
    (e.mapChildren g).children = e.children.map g := by
  cases e with
  | lambda loc params body =>
    simp only [mapChildren, children, List.map_cons, List.filterMap_map, List.map_filterMap]
    rfl
  | forEach loc index item out container condition => cases condition <;> rfl
  | repeating loc form body condition limit => cases limit <;> rfl
  | output loc mode expression type name => cases name <;> rfl
  | _ => simp [mapChildren, children]

lemma mapChildren_congr {f g : Expr → Expr} {e : Expr} (h : ∀ c ∈ e.children, f c = g c) :
    e.mapChildren f = e.mapChildren g := by
  have entries {xs : List (String × Expr)} (hx : ∀ c ∈ xs.map Prod.snd, f c = g c) :
      (xs.map fun x => (x.1, f x.2)) = xs.map fun x => (x.1, g x.2) :=
    List.map_congr_left fun x hm => by rw [hx x.2 (List.mem_map_of_mem hm)]
  have optional {o : Option Expr} (ho : ∀ c ∈ o.toList, f c = g c) : o.map f = o.map g := by
    cases o with
    | none => rfl
    | some c => rw [Option.map_some, Option.map_some, ho c (by simp)]
  cases e with
  | scalar | interpolation | scopeVariables | var => rfl
  | list loc items =>
    have hi : items.map f = items.map g := List.map_congr_left h
    rw [mapChildren, mapChildren, hi]
  | map loc xs => rw [mapChildren, mapChildren, entries h]
  | lambda loc params body =>
    simp only [children, List.mem_cons, forall_eq_or_imp] at h
    have hp : (params.map fun x => (x.1, x.2.map f)) = params.map fun x => (x.1, x.2.map g) :=
      List.map_congr_left fun x hm => by
        rw [optional fun c hc => h.2 c (List.mem_filterMap.mpr ⟨x, hm, Option.mem_toList.mp hc⟩)]
    rw [mapChildren, mapChildren, hp, h.1]
  | unary | binary | conditional | importing =>
    simp only [children, List.mem_cons, forall_eq_or_imp] at h
    simp only [mapChildren, h]
  | forEach loc index item out container condition =>
    simp only [children, List.mem_cons, forall_eq_or_imp] at h
    rw [mapChildren, mapChildren, h.1, h.2.1, optional h.2.2]
  | repeating loc form body condition limit =>
    simp only [children, List.mem_cons, forall_eq_or_imp] at h
    rw [mapChildren, mapChildren, h.1, h.2.1, optional h.2.2]
  | call loc callee positional named =>
    simp only [children, List.mem_cons, List.mem_append, forall_eq_or_imp] at h
    have hp : positional.map f = positional.map g :=
      List.map_congr_left fun c hc => h.2 c (.inl hc)
    rw [mapChildren, mapChildren, h.1, hp, entries fun c hc => h.2 c (.inr hc)]
  | output loc mode expression type name =>
    simp only [children, List.mem_cons, forall_eq_or_imp] at h
    rw [mapChildren, mapChildren, h.1, optional h.2]

lemma mapChildren_eq_self {g : Expr → Expr} {e : Expr} (h : ∀ c ∈ e.children, g c = c) :
    e.mapChildren g = e := by
  rw [mapChildren_congr h]
  cases e <;> simp [mapChildren]

mutual

def rewrite (f : Expr → Expr) : Expr → Expr
  | .scalar loc v => f (.scalar loc v)
  | .interpolation loc fs => f (.interpolation loc fs)
  | .list loc items => f (.list loc (rewriteAll f items))
  | .map loc entries => f (.map loc (rewriteEntries f entries))
  | .lambda loc params body => f (.lambda loc (rewriteDefaults f params) (rewrite f body))
  | .unary loc op operand => f (.unary loc op (rewrite f operand))
  | .binary loc op left right => f (.binary loc op (rewrite f left) (rewrite f right))
  | .forEach loc index item out container condition =>
    f (.forEach loc index item (rewrite f out) (rewrite f container) (rewriteOptional f condition))
  | .repeating loc form body condition limit =>
    f (.repeating loc form (rewrite f body) (rewrite f condition) (rewriteOptional f limit))
  | .conditional loc condition whenTrue whenFalse =>
    f (.conditional loc (rewrite f condition) (rewrite f whenTrue) (rewrite f whenFalse))
  | .call loc callee positional named =>
    f (.call loc (rewrite f callee) (rewriteAll f positional) (rewriteEntries f named))
  | .scopeVariables loc which => f (.scopeVariables loc which)
  | .output loc mode expression type name =>
    f (.output loc mode (rewrite f expression) type (rewriteOptional f name))
  | .importing loc space address => f (.importing loc space (rewrite f address))
  | .var loc name => f (.var loc name)

def rewriteAll (f : Expr → Expr) : List Expr → List Expr
  | [] => []
  | e :: es => rewrite f e :: rewriteAll f es

def rewriteEntries (f : Expr → Expr) : List (String × Expr) → List (String × Expr)
  | [] => []
  | (name, e) :: es => (name, rewrite f e) :: rewriteEntries f es

def rewriteDefaults (f : Expr → Expr) :
    List (String × Option Expr) → List (String × Option Expr)
  | [] => []
  | (name, e) :: es => (name, rewriteOptional f e) :: rewriteDefaults f es

def rewriteOptional (f : Expr → Expr) : Option Expr → Option Expr
  | none => none
  | some e => some (rewrite f e)

end

lemma rewriteAll_eq (f : Expr → Expr) (es : List Expr) : rewriteAll f es = es.map (rewrite f) := by
  induction es with
  | nil => rfl
  | cons e es ih => rw [rewriteAll, ih, List.map_cons]

lemma rewriteOptional_eq (f : Expr → Expr) (e : Option Expr) :
    rewriteOptional f e = e.map (rewrite f) := by
  cases e <;> rfl

lemma rewriteEntries_eq (f : Expr → Expr) (es : List (String × Expr)) :
    rewriteEntries f es = es.map fun x => (x.1, rewrite f x.2) := by
  induction es with
  | nil => rfl
  | cons e es ih => rw [rewriteEntries, ih, List.map_cons]

lemma rewriteDefaults_eq (f : Expr → Expr) (es : List (String × Option Expr)) :
    rewriteDefaults f es = es.map fun x => (x.1, x.2.map (rewrite f)) := by
  induction es with
  | nil => rfl
  | cons e es ih => rw [rewriteDefaults, ih, rewriteOptional_eq, List.map_cons]

lemma rewrite_eq (f : Expr → Expr) (e : Expr) : rewrite f e = f (e.mapChildren (rewrite f)) := by
  cases e <;> simp only [rewrite, mapChildren, rewriteAll_eq, rewriteEntries_eq,
    rewriteDefaults_eq, rewriteOptional_eq]

end DiceLang.Expr

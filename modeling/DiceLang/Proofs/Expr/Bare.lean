import DiceLang.Proofs.Expr.Tree

/-! Trees without their places. The text of an expression is a matter of its bare tree alone. -/

namespace DiceLang.Printer

lemma nodes_eq (look : Lookup) (es : List Expr) : nodes look es = es.map (node look) := by
  induction es with
  | nil => rfl
  | cons e es ih => rw [nodes, ih, List.map_cons]

lemma entryNodes_eq (look : Lookup) (es : List (String × Expr)) :
    entryNodes look es = es.map fun x => key x.1 ++ ": " ++ node look x.2 := by
  induction es with
  | nil => rfl
  | cons e es ih => rw [entryNodes, ih, List.map_cons]

lemma argumentNodes_eq (look : Lookup) (es : List (String × Expr)) :
    argumentNodes look es = es.map fun x => x.1 ++ ": " ++ node look x.2 := by
  induction es with
  | nil => rfl
  | cons e es ih => rw [argumentNodes, ih, List.map_cons]

lemma paramNodes_eq (look : Lookup) (es : List (String × Option Expr)) :
    paramNodes look es =
      es.map fun x => x.1 ++ if isUndefined x.2 then "" else clause look ": " .sequence x.2 := by
  induction es with
  | nil => rfl
  | cons e es ih => rw [paramNodes, ih, List.map_cons]

end DiceLang.Printer

namespace DiceLang.Expr

def place (loc : Location) : Expr → Expr
  | .scalar _ v => .scalar loc v
  | .interpolation _ fs => .interpolation loc fs
  | .list _ items => .list loc items
  | .map _ entries => .map loc entries
  | .lambda _ params body => .lambda loc params body
  | .unary _ op operand => .unary loc op operand
  | .binary _ op left right => .binary loc op left right
  | .forEach _ index item out container condition =>
    .forEach loc index item out container condition
  | .repeating _ form body condition limit => .repeating loc form body condition limit
  | .conditional _ condition whenTrue whenFalse => .conditional loc condition whenTrue whenFalse
  | .call _ callee positional named => .call loc callee positional named
  | .scopeVariables _ which => .scopeVariables loc which
  | .output _ mode expression type name => .output loc mode expression type name
  | .importing _ space address => .importing loc space address
  | .var _ name => .var loc name

def trimmed : Expr → Expr
  | .lambda loc params body =>
    .lambda loc (params.map fun x => (x.1, if Printer.isUndefined x.2 then none else x.2)) body
  | .forEach loc index item out container condition =>
    .forEach loc index item out container (if Printer.isTrue condition then none else condition)
  | e => e

def bare : Expr → Expr := rewrite fun e => (e.place .builtin).trimmed

def Alike (a b : Expr) : Prop := a.bare = b.bare

lemma bare_eq (e : Expr) : e.bare = ((e.mapChildren bare).place .builtin).trimmed :=
  rewrite_eq _ e

structure SameForm (a b : Expr) : Prop where
  precedence : a.precedence = b.precedence
  entryName? : Printer.entryName? a = Printer.entryName? b
  isVar : ∀ name, Printer.isVar name a = Printer.isVar name b
  isUndefined : Printer.isUndefined (some a) = Printer.isUndefined (some b)
  isTrue : Printer.isTrue (some a) = Printer.isTrue (some b)

lemma SameForm.refl (e : Expr) : SameForm e e := ⟨rfl, rfl, fun _ => rfl, rfl, rfl⟩

lemma SameForm.trans {a b c : Expr} (h : SameForm a b) (h' : SameForm b c) : SameForm a c :=
  ⟨h.precedence.trans h'.precedence, h.entryName?.trans h'.entryName?,
    fun name => (h.isVar name).trans (h'.isVar name), h.isUndefined.trans h'.isUndefined,
    h.isTrue.trans h'.isTrue⟩

lemma sameForm_mapChildren (g : Expr → Expr) (e : Expr) : SameForm (e.mapChildren g) e := by
  cases e <;> exact ⟨rfl, rfl, fun _ => rfl, rfl, rfl⟩

lemma sameForm_place (loc : Location) (e : Expr) : SameForm (e.place loc) e := by
  cases e with
  | scalar _ v =>
    rcases v with _ | s | b | n
    · exact ⟨rfl, rfl, fun _ => rfl, rfl, rfl⟩
    · exact ⟨rfl, rfl, fun _ => rfl, rfl, rfl⟩
    · cases b <;> exact ⟨rfl, rfl, fun _ => rfl, rfl, rfl⟩
    · exact ⟨rfl, rfl, fun _ => rfl, rfl, rfl⟩
  | _ => exact ⟨rfl, rfl, fun _ => rfl, rfl, rfl⟩

lemma sameForm_trimmed (e : Expr) : SameForm e.trimmed e := by
  cases e <;> exact ⟨rfl, rfl, fun _ => rfl, rfl, rfl⟩

lemma sameForm_bare (e : Expr) : SameForm e.bare e := by
  rw [bare_eq]
  exact ((sameForm_trimmed _).trans (sameForm_place _ _)).trans (sameForm_mapChildren _ _)

@[simp] lemma bare_scalar (loc : Location) (v : Scalar) :
    (scalar loc v).bare = .scalar .builtin v := rfl

@[simp] lemma bare_interpolation (loc : Location) (fs : List Fragment) :
    (interpolation loc fs).bare = .interpolation .builtin fs := rfl

@[simp] lemma bare_list (loc : Location) (items : List Expr) :
    (list loc items).bare = .list .builtin (items.map bare) := bare_eq _

@[simp] lemma bare_map (loc : Location) (entries : List (String × Expr)) :
    (map loc entries).bare = .map .builtin (entries.map fun x => (x.1, x.2.bare)) := bare_eq _

lemma eq_undefined_of_isUndefined {d : Option Expr} (h : Printer.isUndefined d = true) :
    ∃ loc, d = some (.scalar loc .undefined) := by
  unfold Printer.isUndefined at h
  split at h
  · exact ⟨_, rfl⟩
  · cases h

lemma eq_true_of_isTrue {c : Option Expr} (h : Printer.isTrue c = true) :
    ∃ loc, c = some (.scalar loc (.boolean true)) := by
  unfold Printer.isTrue at h
  split at h
  · exact ⟨_, rfl⟩
  · cases h

lemma isUndefined_map {g : Expr → Expr} (hf : ∀ c, SameForm (g c) c) (e : Option Expr) :
    Printer.isUndefined (e.map g) = Printer.isUndefined e := by
  cases e with
  | none => rfl
  | some e => exact (hf e).isUndefined

lemma isTrue_map {g : Expr → Expr} (hf : ∀ c, SameForm (g c) c) (e : Option Expr) :
    Printer.isTrue (e.map g) = Printer.isTrue e := by
  cases e with
  | none => rfl
  | some e => exact (hf e).isTrue

def bareDefault (e : Option Expr) : Option Expr :=
  if Printer.isUndefined e then none else e.map bare

def bareCondition (e : Option Expr) : Option Expr :=
  if Printer.isTrue e then none else e.map bare

@[simp] lemma bare_lambda (loc : Location) (params : List (String × Option Expr)) (body : Expr) :
    (lambda loc params body).bare =
      .lambda .builtin (params.map fun x => (x.1, bareDefault x.2)) body.bare := by
  rw [bare_eq]
  simp only [mapChildren, place, trimmed, List.map_map, Function.comp_def,
    isUndefined_map sameForm_bare, bareDefault]

@[simp] lemma bare_unary (loc : Location) (op : UnaryOp) (operand : Expr) :
    (unary loc op operand).bare = .unary .builtin op operand.bare := rfl

@[simp] lemma bare_binary (loc : Location) (op : BinaryOp) (left right : Expr) :
    (binary loc op left right).bare = .binary .builtin op left.bare right.bare := rfl

@[simp] lemma bare_forEach (loc : Location) (index : Option String) (item : String)
    (out container : Expr) (condition : Option Expr) :
    (forEach loc index item out container condition).bare =
      .forEach .builtin index item out.bare container.bare (bareCondition condition) := by
  rw [bare_eq]
  simp only [mapChildren, place, trimmed, isTrue_map sameForm_bare, bareCondition]

@[simp] lemma bare_repeating (loc : Location) (form : RepeatForm) (body condition : Expr)
    (limit : Option Expr) :
    (repeating loc form body condition limit).bare =
      .repeating .builtin form body.bare condition.bare (limit.map bare) := bare_eq _

@[simp] lemma bare_conditional (loc : Location) (condition whenTrue whenFalse : Expr) :
    (conditional loc condition whenTrue whenFalse).bare =
      .conditional .builtin condition.bare whenTrue.bare whenFalse.bare := rfl

@[simp] lemma bare_call (loc : Location) (callee : Expr) (positional : List Expr)
    (named : List (String × Expr)) :
    (call loc callee positional named).bare =
      .call .builtin callee.bare (positional.map bare) (named.map fun x => (x.1, x.2.bare)) :=
  bare_eq _

@[simp] lemma bare_scopeVariables (loc : Location) (which : ScopeSelector) :
    (scopeVariables loc which).bare = .scopeVariables .builtin which := rfl

@[simp] lemma bare_output (loc : Location) (mode : OutputMode) (expression : Expr)
    (type : Option OutputType) (name : Option Expr) :
    (output loc mode expression type name).bare =
      .output .builtin mode expression.bare type (name.map bare) := bare_eq _

@[simp] lemma bare_importing (loc : Location) (space : Option String) (address : Expr) :
    (importing loc space address).bare = .importing .builtin space address.bare := rfl

@[simp] lemma bare_var (loc : Location) (name : String) : (var loc name).bare = .var .builtin name :=
  rfl

lemma Alike.unary {a b : Expr} (h : a.Alike b) (loc loc' : Location) (op : UnaryOp) :
    (Expr.unary loc op a).Alike (.unary loc' op b) := by
  rw [Alike, bare_unary, bare_unary, h]

lemma Alike.binary {a b c d : Expr} (h : a.Alike c) (h' : b.Alike d) (loc loc' : Location)
    (op : BinaryOp) : (Expr.binary loc op a b).Alike (.binary loc' op c d) := by
  rw [Alike, bare_binary, bare_binary, h, h']

lemma Alike.repeating {a b c d : Expr} (h : a.Alike c) (h' : b.Alike d) {limit limit' : Option Expr}
    (hl : limit.map bare = limit'.map bare) (loc loc' : Location) (form : RepeatForm) :
    (Expr.repeating loc form a b limit).Alike (.repeating loc' form c d limit') := by
  rw [Alike, bare_repeating, bare_repeating, h, h', hl]

lemma Alike.importing {a b : Expr} (h : a.Alike b) (loc loc' : Location) (space : Option String) :
    (Expr.importing loc space a).Alike (.importing loc' space b) := by
  rw [Alike, bare_importing, bare_importing, h]

section

variable {look : Lookup} {g : Expr → Expr} (hf : ∀ c, SameForm (g c) c)

include hf

lemma enclose_sameForm (e : Expr) (level : Precedence) (text : String) :
    Printer.enclose (g e) level text = Printer.enclose e level text := by
  simp only [Printer.enclose, (hf e).precedence]

lemma clause_map (lead : String) (level : Precedence) (e : Option Expr)
    (hn : ∀ c ∈ e.toList, Printer.node look (g c) = Printer.node look c) :
    Printer.clause look lead level (e.map g) = Printer.clause look lead level e := by
  cases e with
  | none => rfl
  | some e => simp only [Option.map_some, Printer.clause, enclose_sameForm hf, hn e (by simp)]

omit hf in
lemma entries_map {entries : List (String × Expr)} (lead : String → String)
    (hn : ∀ c ∈ entries.map Prod.snd, Printer.node look (g c) = Printer.node look c) :
    (entries.map fun x => lead x.1 ++ Printer.node look (g x.2)) =
      entries.map fun x => lead x.1 ++ Printer.node look x.2 := by
  apply List.map_congr_left
  intro x hx
  rw [hn x.2 (List.mem_map_of_mem hx)]

lemma node_mapChildren {e : Expr}
    (hn : ∀ c ∈ e.children, Printer.node look (g c) = Printer.node look c) :
    Printer.node look (e.mapChildren g) = Printer.node look e := by
  cases e with
  | scalar | interpolation | scopeVariables | var => rfl
  | list loc items =>
    have hi : (items.map fun e => Printer.node look (g e)) = items.map (Printer.node look) :=
      List.map_congr_left hn
    simp only [mapChildren, Printer.node, Printer.nodes_eq, List.map_map, Function.comp_def, hi]
  | map loc entries =>
    have he := entries_map (fun name => Printer.key name ++ ": ") hn
    simp only [mapChildren, Printer.node, Printer.entryNodes_eq, List.map_map, Function.comp_def, he]
  | lambda loc params body =>
    simp only [children, List.mem_cons, forall_eq_or_imp] at hn
    have hp : (params.map fun x => x.1 ++ if Printer.isUndefined (x.2.map g) then ""
        else Printer.clause look ": " .sequence (x.2.map g)) =
        params.map fun x => x.1 ++ if Printer.isUndefined x.2 then ""
          else Printer.clause look ": " .sequence x.2 := by
      apply List.map_congr_left
      intro x hx
      rw [isUndefined_map hf, clause_map hf _ _ _ fun c hc =>
        hn.2 c (List.mem_filterMap.mpr ⟨x, hx, Option.mem_toList.mp hc⟩)]
    simp only [mapChildren, Printer.node, Printer.paramNodes_eq, List.map_map, Function.comp_def,
      hp, hn.1]
  | unary loc op operand =>
    have ho := hn operand (by simp [children])
    simp only [mapChildren, Printer.node, enclose_sameForm hf, ho]
  | binary loc op left right =>
    have hl := hn left (by simp [children])
    have hr := hn right (by simp [children])
    simp only [mapChildren, Printer.node, enclose_sameForm hf, (hf right).entryName?, hl, hr]
  | forEach loc index item out container condition =>
    simp only [children, List.mem_cons, forall_eq_or_imp] at hn
    simp only [mapChildren, Printer.node, enclose_sameForm hf, (hf out).isVar, isTrue_map hf, hn.1,
      hn.2.1, clause_map hf _ _ condition hn.2.2]
  | repeating loc form body condition limit =>
    simp only [children, List.mem_cons, forall_eq_or_imp] at hn
    simp only [mapChildren, Printer.node, enclose_sameForm hf, hn.1, hn.2.1,
      clause_map hf _ _ limit hn.2.2]
  | conditional loc condition whenTrue whenFalse =>
    simp only [children, List.mem_cons, forall_eq_or_imp] at hn
    simp only [mapChildren, Printer.node, enclose_sameForm hf, hn.1, hn.2.1, hn.2.2.1]
  | call loc callee positional named =>
    simp only [children, List.mem_cons, List.mem_append, forall_eq_or_imp] at hn
    have hp : (positional.map fun e => Printer.node look (g e)) =
        positional.map (Printer.node look) :=
      List.map_congr_left fun c hc => hn.2 c (.inl hc)
    have hm := entries_map (fun name => name ++ ": ") fun c hc => hn.2 c (.inr hc)
    simp only [mapChildren, Printer.node, enclose_sameForm hf, Printer.nodes_eq,
      Printer.argumentNodes_eq, List.map_map, Function.comp_def, hp, hm, hn.1]
  | output loc mode expression type name =>
    simp only [children, List.mem_cons, forall_eq_or_imp] at hn
    simp only [mapChildren, Printer.node, enclose_sameForm hf, hn.1, clause_map hf _ _ name hn.2]
  | importing loc space address =>
    have ha := hn address (by simp [children])
    simp only [mapChildren, Printer.node, enclose_sameForm hf, ha]

end

lemma node_place (look : Lookup) (loc : Location) (e : Expr) :
    Printer.node look (e.place loc) = Printer.node look e := by
  cases e <;> simp only [place, Printer.node]

lemma node_trimmed (look : Lookup) (e : Expr) :
    Printer.node look e.trimmed = Printer.node look e := by
  cases e with
  | lambda loc params body =>
    have hp : (params.map fun x => x.1 ++
        if Printer.isUndefined (if Printer.isUndefined x.2 then none else x.2) then ""
        else Printer.clause look ": " .sequence (if Printer.isUndefined x.2 then none else x.2)) =
        params.map fun x => x.1 ++ if Printer.isUndefined x.2 then ""
          else Printer.clause look ": " .sequence x.2 := by
      apply List.map_congr_left
      intro x _
      by_cases h : Printer.isUndefined x.2
      · rw [if_pos h, if_pos h]
        rfl
      · simp only [h, Bool.false_eq_true, if_false]
    simp only [trimmed, Printer.node, Printer.paramNodes_eq, List.map_map, Function.comp_def, hp]
  | forEach loc index item out container condition =>
    by_cases h : Printer.isTrue condition
    · simp only [trimmed, Printer.node, h, if_true, Printer.clause, ite_self]
    · simp only [trimmed, h, Bool.false_eq_true, if_false]
  | _ => rfl

lemma node_bare (look : Lookup) (e : Expr) : Printer.node look e.bare = Printer.node look e := by
  induction e using children_induction with
  | step e ih => rw [bare_eq, node_trimmed, node_place, node_mapChildren sameForm_bare ih]

lemma children_place (loc : Location) (e : Expr) : (e.place loc).children = e.children := by
  cases e <;> rfl

lemma forall_children_trimmed {P : Expr → Prop} (hs : ∀ loc v, P (.scalar loc v)) (e : Expr) :
    (∀ c ∈ e.trimmed.children, P c) ↔ ∀ c ∈ e.children, P c := by
  cases e with
  | lambda loc params body =>
    simp only [trimmed, children, List.mem_cons, forall_eq_or_imp, and_congr_right_iff,
      List.mem_filterMap, List.mem_map]
    intro _
    constructor
    · rintro h c ⟨⟨name, d⟩, hx, rfl⟩
      by_cases hu : Printer.isUndefined (some c)
      · obtain ⟨loc, ⟨⟩⟩ := eq_undefined_of_isUndefined hu
        exact hs loc _
      · exact h c ⟨(name, some c), ⟨(name, some c), hx, by simp only [hu]; rfl⟩, rfl⟩
    · rintro h c ⟨_, ⟨⟨name, d⟩, hx, rfl⟩, hc⟩
      by_cases hu : Printer.isUndefined d
      · simp [hu] at hc
      · simp only [hu] at hc
        exact h c ⟨(name, d), hx, hc⟩
  | forEach loc index item out container condition =>
    by_cases ht : Printer.isTrue condition
    · obtain ⟨loc', rfl⟩ := eq_true_of_isTrue ht
      simp only [trimmed, Printer.isTrue, if_true, children, Option.toList, List.mem_cons,
        forall_eq_or_imp, List.not_mem_nil, false_imp_iff, implies_true, and_true, hs]
    · simp only [trimmed, ht, Bool.false_eq_true, if_false]
  | _ => exact Iff.rfl

lemma forall_within_bare {P : Expr → Prop} (hs : ∀ loc v, P (.scalar loc v))
    (hb : ∀ e, P e.bare ↔ P e) (e : Expr) :
    (∀ n, Within n e.bare → P n) ↔ ∀ n, Within n e → P n := by
  induction e using children_induction with
  | step e ih =>
    have hs' (loc : Location) (v : Scalar) : ∀ n, Within n (.scalar loc v) → P n :=
      forall_within_leaf rfl (hs loc v)
    rw [forall_within, forall_within, hb e]
    refine and_congr_right fun _ => ?_
    rw [bare_eq, forall_children_trimmed hs', children_place, children_mapChildren]
    simp only [List.forall_mem_map]
    exact forall₂_congr ih

lemma Alike.source_eq {a b : Expr} (h : a.Alike b) : a.source = b.source := by
  have hs (e : Expr) : e.bare.source = e.source := by
    simp only [source, label, enclose_sameForm sameForm_bare, node_bare]
  rw [← hs a, ← hs b, h]

end DiceLang.Expr

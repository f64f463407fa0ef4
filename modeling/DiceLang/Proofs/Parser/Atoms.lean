import DiceLang.Proofs.Lists
import DiceLang.Proofs.Parser.Spine

/-! Reading atoms, calls and subscripts. -/

namespace DiceLang.Parser

open Printer (commas keyWord optionalWords paramWord argumentWord callArguments scalarWords Led Linked)

variable {α β : Type} {again : Again} {rest ws vs : List Lexeme} {t u : Expr}
  {f : β → List Lexeme} {g : β → Expr}

lemma plainText?_plainFragments (s : String) :
    plainText? (Lexer.plainFragments s) = some s := by
  unfold Lexer.plainFragments
  split
  · subst s
    rfl
  · simp [plainText?]

lemma gives_atom {l : Lexeme} (h : ∀ loc, ∃ e, atom? loc l = some e ∧ e.Alike t) :
    Gives (primary again) [l] rest (·.Alike t) := by
  refine comes_here fun start => comes_peek (comes_location fun loc => ?_)
  obtain ⟨e, he, ha⟩ := h loc
  rw [List.cons_append, List.headD_cons, he]
  exact comes_advance (comes_end ha)

lemma atom?_string (loc : Location) (s : String) :
    atom? loc (.text (Lexer.plainFragments s)) = some (.scalar loc (.string s)) := by
  simp [atom?, literal, plainText?_plainFragments]

lemma derives_atom {l : Lexeme} (hl : l.lead? = some .atom)
    (h : ∀ loc, ∃ e, atom? loc l = some e ∧ e.Alike t) : Derives [l] .atom t :=
  .of_gives ⟨l, [], .atom, rfl, hl, le_rfl⟩ (Printer.linked_singleton _ l) rfl
    fun _ _ _ _ => gives_atom h

lemma derives_scalar (loc : Location) (v : Scalar) : Derives (scalarWords v) .atom (.scalar loc v) := by
  rcases v with _ | s | b | n
  · exact derives_atom rfl fun _ => ⟨_, rfl, rfl⟩
  · exact derives_atom rfl fun loc => ⟨_, atom?_string loc s, rfl⟩
  · cases b <;> exact derives_atom rfl fun _ => ⟨_, rfl, rfl⟩
  · exact derives_atom rfl fun _ => ⟨_, rfl, rfl⟩

lemma derives_interpolation (loc : Location) {fs : List Fragment} (h : plainText? fs = none) :
    Derives [.text fs] .atom (.interpolation loc fs) :=
  derives_atom rfl fun loc => ⟨.interpolation loc fs, by simp [atom?, literal, h], rfl⟩

lemma derives_var (loc : Location) (name : String) : Derives [.name name] .atom (.var loc name) :=
  derives_atom rfl fun _ => ⟨_, rfl, rfl⟩

lemma derives_scopeVariables (loc : Location) (which : ScopeSelector) :
    Derives [.keyword which.word] .atom (.scopeVariables loc which) := by
  refine derives_atom (by cases which <;> rfl) fun loc' => ⟨.scopeVariables loc' which, ?_, rfl⟩
  cases which <;> rfl

def Follows (close : Mark) (ws : List Lexeme) : Prop :=
  ws.headD .eof = .mark .comma ∨ ws.headD .eof = .mark close

structure Closes (close : Mark) : Prop where
  link : (Lexeme.mark close).link? = none
  lead : (Lexeme.mark close).lead? = none
  ne_comma : close ≠ .comma
  ne_colon : close ≠ .colon

lemma Follows.stops {close : Mark} {ws : List Lexeme} (hc : Closes close) (h : Follows close ws)
    (rank : Nat) : Stops rank ws := by
  intro p hp
  rcases h with h | h
  · rw [h] at hp
    cases hp
  · rw [h, hc.link] at hp
    cases hp

lemma Follows.not_colon {close : Mark} {ws : List Lexeme} (hc : Closes close) (h : Follows close ws) :
    ws.headD .eof ≠ .mark .colon := by
  rcases h with h | h
  · rw [h]
    simp
  · rw [h]
    simpa using hc.ne_colon

lemma length_le_commas {ws : List Lexeme} {wss : List (List Lexeme)} (h : ws ∈ wss) :
    ws.length ≤ (commas wss).length := by
  induction wss using Printer.commas.induct with
  | case1 => simp at h
  | case2 vs =>
    obtain rfl : ws = vs := by simpa using h
    exact le_rfl
  | case3 us vs wss ih =>
    simp only [commas, List.length_append, List.length_cons]
    rcases List.mem_cons.mp h with rfl | h
    · omega
    · have := ih h
      omega

lemma led_ne_close {close : Mark} (hclose : Closes close) {ws : List Lexeme} (h : Led 0 ws)
    (next : List Lexeme) :
    ¬((ws ++ next).headD .eof = .mark close ∨ (ws ++ next).headD .eof = .eof) := by
  obtain ⟨p, hp, _⟩ := led_head h next
  rintro (hl | hl)
  · rw [hl, hclose.lead] at hp
    cases hp
  · rw [hl] at hp
    cases hp

lemma gives_commaItems {close : Mark} (hclose : Closes close) {item : Parse α} {xs : List β}
    {Q : α → β → Prop}
    (h : ∀ x ∈ xs, ∀ next, Follows close next → Gives item (f x) next (Q · x))
    (hled : ∀ x ∈ xs, Led 0 (f x)) (bound : List Token)
    (hb : (commas (xs.map f) ++ .mark close :: rest).length ≤ bound.length) :
    Gives (commaItems close item bound) (commas (xs.map f)) (.mark close :: rest)
      (List.Forall₂ Q · xs) := by
  induction xs generalizing bound with
  | nil =>
    cases bound with
    | nil => simp at hb
    | cons t bound =>
      refine comes_peek ?_
      rw [if_pos (.inl rfl)]
      exact comes_end .nil
  | cons x xs ih =>
    obtain ⟨hx, hxs⟩ := List.forall_mem_cons.mp h
    obtain ⟨hledx, hledxs⟩ := List.forall_mem_cons.mp hled
    cases bound with
    | nil => simp at hb
    | cons t bound =>
      cases xs with
      | nil =>
        show Gives _ (f x) _ _
        refine comes_peek ?_
        rw [if_neg (led_ne_close hclose hledx _)]
        refine (hx _ (.inr rfl)).last fun a ha => comes_refuse ?_ (comes_end (.cons ha .nil))
        simpa using hclose.ne_comma
      | cons y ys =>
        rw [List.map_cons, List.map_cons, commas] at hb ⊢
        refine comes_peek ?_
        rw [if_neg (led_ne_close hclose (hledx.append _) _)]
        refine (hx _ (.inl rfl)).bind fun a ha => comes_accept ?_
        refine (ih hxs hledxs bound ?_).last fun as has => comes_end (.cons ha has)
        simp only [List.map_cons, List.length_append, List.length_cons] at hb ⊢
        omega

lemma gives_commaList {close : Mark} (hclose : Closes close) {item : Parse α} {xs : List β}
    {Q : α → β → Prop}
    (h : ∀ x ∈ xs, ∀ next, Follows close next → Gives item (f x) next (Q · x))
    (hled : ∀ x ∈ xs, Led 0 (f x)) :
    Gives (commaList close item) (commas (xs.map f) ++ [.mark close]) rest
      (List.Forall₂ Q · xs) := by
  intro c hc
  have hb : (commas (xs.map f) ++ .mark close :: rest).length ≤ c.rest.length := by
    rw [c.length_rest, hc, List.append_assoc]
    rfl
  exact (gives_commaItems hclose h hled c.rest hb).bind
    (fun as has => comes_expect fun _ => comes_end has) c hc

lemma closes_closeParen : Closes .closeParen := ⟨rfl, rfl, by simp, by simp⟩

lemma closes_closeBracket : Closes .closeBracket := ⟨rfl, rfl, by simp, by simp⟩

lemma closes_closeBrace : Closes .closeBrace := ⟨rfl, rfl, by simp, by simp⟩

lemma derives_compound {l : Lexeme} (hl : l.lead? = some .atom) (hatom : ∀ loc, atom? loc l = none)
    (h : ∀ depth rest start, (l :: ws).length ≤ depth →
      Gives (compound (parseAt depth) start) (l :: ws) rest (·.Alike t)) : Derives (l :: ws) .atom t := by
  refine .of_gives ⟨l, ws, .atom, rfl, hl, le_rfl⟩ (Printer.linked_of_ne ?_ ws) rfl ?_
  · rintro x rfl
    cases hatom .builtin
  · exact fun depth rest hd _ => gives_compound hatom fun start => h depth rest start hd

lemma derives_list {xs : List β} (h : ∀ x ∈ xs, Derives (f x) .sequence (g x)) (loc : Location) :
    Derives (.mark .openBracket :: (commas (xs.map f) ++ [.mark .closeBracket])) .atom
      (.list loc (xs.map g)) := by
  refine derives_compound rfl (fun _ => rfl) fun depth rest start hd => comes_accept ?_
  simp only [List.length_cons, List.length_append] at hd
  have hitems : Gives (commaList .closeBracket (parseAt depth .sequence))
      (commas (xs.map f) ++ [.mark .closeBracket]) rest
      (List.Forall₂ (fun a x => a.Alike (g x)) · xs) := by
    refine gives_commaList closes_closeBracket ?_ fun x hx => (h x hx).led
    intro x hx next hn
    have hlen := length_le_commas (List.mem_map_of_mem (f := f) hx)
    exact (h x hx).nested (by omega) (hn.stops closes_closeBracket 0)
  refine hitems.last fun as has => comes_locationFrom fun loc => comes_end ?_
  simp only [Expr.Alike, Expr.bare_list, List.map_map]
  rw [map_eq_of_forall₂ has]
  rfl

lemma gives_entryName (s : String) : Gives entryName [keyWord s] rest (· = s) := by
  rw [keyWord]
  split
  · exact comes_peek (comes_advance (comes_end rfl))
  · refine comes_peek ?_
    simp only [List.cons_append, List.headD_cons, plainText?_plainFragments]
    exact comes_advance (comes_end rfl)

lemma gives_entry {s : String} (h : Gives (again .sequence) ws rest (·.Alike t)) :
    Gives (entry again) (keyWord s :: .mark .colon :: ws) rest
      fun x => (x.1, x.2.bare) = (s, t.bare) := by
  refine (gives_entryName s).bind ?_
  rintro s rfl
  exact comes_expect fun _ => h.last fun e ha => comes_end (congrArg (Prod.mk s) ha)

lemma led_keyWord (s : String) (ws : List Lexeme) : Led 0 (keyWord s :: ws) := by
  unfold keyWord
  split <;> exact ⟨_, _, .atom, rfl, rfl, Nat.zero_le _⟩

lemma derives_map {xs : List (String × β)} (h : ∀ x ∈ xs, Derives (f x.2) .sequence (g x.2))
    (loc : Location) :
    Derives (.mark .openBrace :: (commas (xs.map fun x => keyWord x.1 :: .mark .colon :: f x.2) ++
      [.mark .closeBrace])) .atom (.map loc (xs.map fun x => (x.1, g x.2))) := by
  refine derives_compound rfl (fun _ => rfl) fun depth rest start hd =>
    comes_refuse (by simp) (comes_accept ?_)
  simp only [List.length_cons, List.length_append] at hd
  have hentries : Gives (commaList .closeBrace (entry (parseAt depth)))
      (commas (xs.map fun x => keyWord x.1 :: .mark .colon :: f x.2) ++ [.mark .closeBrace])
      rest (List.Forall₂ (fun a x => (a.1, a.2.bare) = (x.1, (g x.2).bare)) · xs) := by
    refine gives_commaList closes_closeBrace ?_ fun x _ => led_keyWord _ _
    intro x hx next hn
    have hlen := length_le_commas (List.mem_map_of_mem
      (f := fun x => keyWord x.1 :: .mark .colon :: f x.2) hx)
    simp only [List.length_cons] at hlen
    exact gives_entry ((h x hx).nested (by omega) (hn.stops closes_closeBrace 0))
  refine hentries.last fun as has => comes_locationFrom fun loc => comes_end ?_
  simp only [Expr.Alike, Expr.bare_map, List.map_map]
  rw [map_eq_of_forall₂ has]
  rfl

lemma gives_param {x : String × Option β}
    (h : ∀ d ∈ x.2, Gives (again .sequence) (f d) rest (·.Alike (g d)))
    (hr : rest.headD .eof ≠ .mark .colon) :
    Gives (param again) (paramWord f x) rest
      fun y => (y.1, Expr.bareDefault y.2) = (x.1, Expr.bareDefault (x.2.map g)) := by
  obtain ⟨name, d⟩ := x
  refine comes_expectName fun span => ?_
  cases d with
  | none => exact comes_refuse hr (comes_end rfl)
  | some d =>
    refine comes_accept ((h d rfl).last fun e ha => comes_end ?_)
    have hb : Expr.bareDefault (some e) = Expr.bareDefault (some (g d)) := by
      have hu : Printer.isUndefined (some e) = Printer.isUndefined (some (g d)) := by
        rw [← (Expr.sameForm_bare e).isUndefined, ← (Expr.sameForm_bare (g d)).isUndefined, ha]
      simp only [Expr.bareDefault, hu, Option.map_some]
      rw [ha]
    exact congrArg (Prod.mk name) hb

lemma derives_lambda {params : List (String × Option β)}
    (hp : ∀ x ∈ params, ∀ d ∈ x.2, Derives (f d) .sequence (g d)) (hb : Derives ws .sequence t)
    (loc : Location) :
    Derives (.keyword .fun :: .mark .openParen ::
      (commas (params.map (paramWord f)) ++
        .mark .closeParen :: .mark .openBrace :: (ws ++ [.mark .closeBrace]))) .atom
      (.lambda loc (params.map fun x => (x.1, x.2.map g)) t) := by
  refine derives_compound rfl (fun _ => rfl) fun depth rest start hd =>
    comes_refuse (by simp) <| comes_refuse (by simp) <| comes_accept <| comes_expect fun _ => ?_
  simp only [List.length_cons, List.length_append] at hd
  have hparams (rest : List Lexeme) : Gives (commaList .closeParen (param (parseAt depth)))
      (commas (params.map (paramWord f)) ++ [.mark .closeParen]) rest
      (List.Forall₂ (fun a x =>
        (a.1, Expr.bareDefault a.2) = (x.1, Expr.bareDefault (x.2.map g))) · params) := by
    refine gives_commaList closes_closeParen ?_ fun x _ => ⟨_, _, .atom, rfl, rfl, Nat.zero_le _⟩
    intro x hx next hn
    refine gives_param ?_ (hn.not_colon closes_closeParen)
    intro d he
    have hlen := length_le_commas (List.mem_map_of_mem (f := paramWord f) hx)
    have hword : (paramWord f x).length = (f d).length + 2 := by
      simp [paramWord, Option.mem_def.mp he, optionalWords]
    exact (hp x hx d he).nested (by omega) (hn.stops closes_closeParen 0)
  have hbody (brace : Span) : Gives (body (parseAt depth) brace) ws (.mark .closeBrace :: rest)
      (·.Alike t) := by
    refine comes_peek ?_
    rw [if_neg (led_ne hb.led (by rintro p ⟨⟩) _)]
    exact hb.nested (by omega) (stops_of_none rfl 0 rest)
  rw [List.append_cons]
  refine (hparams _).bind fun ps hps => comes_expect fun brace => ?_
  refine (hbody brace).bind fun b hb => comes_expect fun _ => comes_locationFrom fun loc => comes_end ?_
  simp only [Expr.Alike, Expr.bare_lambda, List.map_map] at hb ⊢
  rw [map_eq_of_forall₂ hps, hb]
  rfl

section Names

variable {m : Mark} {γ : Type} {n : Option String → Parse γ} {j : α → Parse γ}
  {R : α → Prop}

lemma comes_named {name : String} (h : Comes (n (some name)) j ws rest R) :
    Comes (acceptNameBefore m >>= n) j (.name name :: .mark m :: ws) rest R := by
  intro c hc
  have hname : c.nameBefore? m = some name := Cursor.nameBefore?_eq_some.mpr ⟨_, hc⟩
  rw [run_bind (by rw [acceptNameBefore_eq, hname])]
  exact h _ (Cursor.advance_of_words (Cursor.advance_of_words hc))

lemma comes_unnamed (hn : ∀ name ls, ws ++ rest ≠ .name name :: .mark m :: ls)
    (h : Comes (n none) j ws rest R) : Comes (acceptNameBefore m >>= n) j ws rest R := by
  intro c hc
  have hnone : c.nameBefore? m = none := by
    by_contra hsome
    obtain ⟨s, hsome⟩ := Option.ne_none_iff_exists'.mp hsome
    obtain ⟨ls, hls⟩ := Cursor.nameBefore?_eq_some.mp hsome
    exact hn s ls (hc.symm.trans hls)
  rw [run_bind (by rw [acceptNameBefore_eq, hnone])]
  exact h c hc

end Names

lemma ne_name_before {m : Mark} {rank : Nat} {ws next : List Lexeme} (hl : Linked rank ws) (hne : ws ≠ [])
    (hm : ∀ p, (Lexeme.mark m).link? = some p → p.rank < rank) (hn : next.headD .eof ≠ .mark m)
    (name : String) (ls : List Lexeme) : ws ++ next ≠ .name name :: .mark m :: ls := by
  intro heq
  match ws, hne with
  | [w], _ =>
    obtain ⟨rfl, hnext⟩ := List.cons.inj heq
    have hnext : next = .mark m :: ls := hnext
    exact hn (by rw [hnext, List.headD_cons])
  | w :: v :: ws, _ =>
    obtain ⟨rfl, hrest⟩ := List.cons.inj heq
    obtain ⟨rfl, _⟩ := List.cons.inj hrest
    obtain ⟨p, hp, hle⟩ := hl name _ ws rfl
    exact absurd (hm p hp) (Nat.not_lt.mpr hle)

def inOrder : Bool → List (Option String × β) → Bool
  | _, [] => true
  | seen, arg :: args => (arg.1.isSome || !seen) && inOrder arg.1.isSome args

lemma gives_argument {seen : Bool} {arg : Option String × β} (hs : arg.1.isSome || !seen)
    (hf : Follows .closeParen rest) (he : Led 0 (f arg.2) ∧ Linked 0 (f arg.2))
    (h : Gives (again .sequence) (f arg.2) rest (·.Alike (g arg.2))) :
    Gives (argument again seen) (argumentWord f arg) rest
      fun a => (a.1, a.2.bare) = (arg.1, (g arg.2).bare) := by
  obtain ⟨name, e⟩ := arg
  cases name with
  | none =>
    refine comes_unnamed ?_ ?_
    · exact ne_name_before he.2 he.1.ne_nil (by rintro p ⟨⟩) (hf.not_colon closes_closeParen)
    · have hseen : seen = false := by simpa using hs
      dsimp only
      rw [hseen, if_neg (by simp)]
      exact h.last fun e' ha => comes_end (congrArg (Prod.mk none) ha)
  | some name => exact comes_named (h.last fun e' ha => comes_end (congrArg (Prod.mk (some name)) ha))

def bareArguments (xs : List Expr × List (String × Expr)) : List Expr × List (String × Expr) :=
  (xs.1.map Expr.bare, xs.2.map fun x => (x.1, x.2.bare))

lemma bareArguments_add {a b : Option String × Expr} {xs ys : List Expr × List (String × Expr)}
    (hab : (a.1, a.2.bare) = (b.1, b.2.bare)) (h : bareArguments xs = bareArguments ys) :
    bareArguments (addArgument a xs) = bareArguments (addArgument b ys) := by
  obtain ⟨name, e⟩ := a
  obtain ⟨name', e'⟩ := b
  obtain ⟨rfl, he⟩ := Prod.mk.inj hab
  obtain ⟨h₁, h₂⟩ := Prod.mk.inj h
  cases name <;> simp_all [bareArguments, addArgument]

def sorted (g : β → Expr) (args : List (Option String × β)) : List Expr × List (String × Expr) :=
  args.foldr (fun arg => addArgument (arg.1, g arg.2)) ([], [])

lemma gives_argumentItems {arg : Option String × β} {args : List (Option String × β)}
    {seen : Bool} (ho : inOrder seen (arg :: args) = true)
    (he : ∀ x ∈ arg :: args, Led 0 (f x.2) ∧ Linked 0 (f x.2))
    (h : ∀ x ∈ arg :: args, ∀ next, Follows .closeParen next →
      Gives (again .sequence) (f x.2) next (·.Alike (g x.2))) (bound : List Token)
    (hb : (commas ((arg :: args).map (argumentWord f)) ++ .mark .closeParen :: rest).length ≤
      bound.length) :
    Gives (argumentItems again bound seen) (commas ((arg :: args).map (argumentWord f)))
      (.mark .closeParen :: rest)
      fun xs => bareArguments xs = bareArguments (sorted g (arg :: args)) := by
  induction args generalizing arg seen bound with
  | nil =>
    simp only [inOrder, Bool.and_true] at ho
    cases bound with
    | nil => simp at hb
    | cons t bound =>
      have hf : Follows .closeParen (.mark .closeParen :: rest) := .inr rfl
      refine (gives_argument ho hf (he arg (by simp)) (h arg (by simp) _ hf)).last fun a ha => ?_
      exact comes_refuse (by simp) (comes_end (bareArguments_add ha rfl))
  | cons y ys ih =>
    rw [inOrder, Bool.and_eq_true] at ho
    cases bound with
    | nil => simp at hb
    | cons t bound =>
      rw [List.map_cons, List.map_cons, commas] at hb ⊢
      have hf : Follows .closeParen (.mark .comma ::
          (commas ((y :: ys).map (argumentWord f)) ++ .mark .closeParen :: rest)) := .inl rfl
      refine (gives_argument ho.1 hf (he arg (by simp)) (h arg (by simp) _ hf)).bind fun a ha => ?_
      have hname : a.1 = arg.1 := (Prod.mk.inj ha).1
      refine comes_accept ((ih ?_ (fun x hm => he x (List.mem_cons_of_mem _ hm))
        (fun x hm => h x (List.mem_cons_of_mem _ hm)) bound ?_).last fun xs hx =>
          comes_end (bareArguments_add ha hx))
      · rw [hname]
        exact ho.2
      · simp only [List.map_cons, List.length_append, List.length_cons] at hb ⊢
        omega

lemma gives_arguments {args : List (Option String × β)} (ho : inOrder false args = true)
    (he : ∀ x ∈ args, Led 0 (f x.2) ∧ Linked 0 (f x.2))
    (h : ∀ x ∈ args, ∀ next, Follows .closeParen next →
      Gives (again .sequence) (f x.2) next (·.Alike (g x.2))) :
    Gives (arguments again) (commas (args.map (argumentWord f))) (.mark .closeParen :: rest)
      fun xs => bareArguments xs = bareArguments (sorted g args) := by
  cases args with
  | nil =>
    show Gives _ [] _ _
    refine comes_peek ?_
    rw [List.nil_append, List.headD_cons, if_pos rfl]
    exact comes_end rfl
  | cons arg args =>
    refine comes_peek ?_
    have hled : Led 0 (argumentWord f arg) := by
      have harg := (he arg (by simp)).1
      obtain ⟨name, e⟩ := arg
      cases name with
      | none => exact harg
      | some name => exact ⟨_, _, .atom, rfl, rfl, Nat.zero_le _⟩
    have hled' : Led 0 (commas ((arg :: args).map (argumentWord f))) := by
      cases args with
      | nil => exact hled
      | cons => exact hled.append _
    rw [if_neg (led_ne hled' (by rintro p ⟨⟩) _)]
    exact fun c hc => gives_argumentItems ho he h c.rest (by rw [c.length_rest, hc]) c hc

lemma inOrder_named (named : List (String × β)) (seen : Bool) :
    inOrder seen (named.map fun x => (some x.1, x.2)) = true := by
  induction named generalizing seen with
  | nil => rfl
  | cons x named ih => simp [inOrder, ih]

lemma inOrder_callArguments (positional : List β) (named : List (String × β)) :
    inOrder false (callArguments positional named) = true := by
  induction positional with
  | nil => exact inOrder_named named false
  | cons e positional ih => simpa [callArguments, inOrder] using ih

lemma sorted_callArguments (positional : List β) (named : List (String × β)) :
    sorted g (callArguments positional named) =
      (positional.map g, named.map fun x => (x.1, g x.2)) := by
  have hn : sorted g (named.map fun x => (some x.1, x.2)) =
      ([], named.map fun x => (x.1, g x.2)) := by
    induction named with
    | nil => rfl
    | cons x named ih => simp_all [sorted, addArgument]
  induction positional with
  | nil => exact hn
  | cons e positional ih => simp_all [sorted, callArguments, addArgument]

section Suffixes

variable {first : Parse Expr} {left : Expr}

lemma Leads.call {positional : List Expr} {named : List (String × Expr)}
    {Q : List Expr × List (String × Expr) → Prop}
    (h : Leads first (suffixes again) ws (.mark .openParen :: (vs ++ .mark .closeParen :: rest))
      (·.Alike left))
    (ha : Gives (arguments again) vs (.mark .closeParen :: rest) Q)
    (hq : ∀ xs, Q xs → bareArguments xs = bareArguments (positional, named)) (loc : Location) :
    Leads first (suffixes again) (ws ++ .mark .openParen :: (vs ++ [.mark .closeParen])) rest
      (·.Alike (.call loc left positional named)) := by
  refine Leads.step (by simpa using h) (by simp) fun t bound e he => comes_accept ?_
  refine ha.bind fun xs hx => comes_expect fun close => comes_location fun loc => comes_end ?_
  obtain ⟨h₁, h₂⟩ := Prod.mk.inj (hq xs hx)
  simp only [Expr.Alike, Expr.bare_call] at he ⊢
  rw [he, h₁, h₂]

lemma Leads.subscript {right : Expr}
    (h : Leads first (suffixes again) ws (.mark .openBracket :: (vs ++ .mark .closeBracket :: rest))
      (·.Alike left))
    (hr : Gives (again .sequence) vs (.mark .closeBracket :: rest) (·.Alike right))
    (loc : Location) :
    Leads first (suffixes again) (ws ++ .mark .openBracket :: (vs ++ [.mark .closeBracket])) rest
      (·.Alike (.binary loc .subscript left right)) := by
  refine Leads.step (by simpa using h) (by simp) fun t bound e he =>
    comes_refuse (by simp) <| comes_accept ?_
  exact hr.bind fun r hr => comes_expect fun close => comes_location fun loc =>
    comes_end (he.binary hr _ _ _)

lemma Leads.entry {name : String}
    (h : Leads first (suffixes again) ws (.mark .dot :: .name name :: rest) (·.Alike left))
    (loc loc' : Location) :
    Leads first (suffixes again) (ws ++ [.mark .dot, .name name]) rest
      (·.Alike (.binary loc .subscript left (.scalar loc' (.string name)))) :=
  Leads.step h (by simp) fun t bound e he => comes_refuse (by simp) <| comes_refuse (by simp) <|
    comes_accept <| comes_expectName fun span => comes_location fun loc =>
      comes_end (he.binary (by rfl) _ _ _)

end Suffixes

lemma derives_call (hc : Derives ws .subscript t) {positional : List β} {named : List (String × β)}
    (hp : ∀ x ∈ positional, Derives (f x) .sequence (g x))
    (hn : ∀ x ∈ named, Derives (f x.2) .sequence (g x.2)) (loc : Location) :
    Derives (ws ++ .mark .openParen ::
        (commas ((callArguments positional named).map (argumentWord f)) ++ [.mark .closeParen]))
      .subscript (.call loc t (positional.map g) (named.map fun x => (x.1, g x.2))) := by
  refine .of_leads (hc.led.append _)
    (hc.linked.append (p := .subscript) rfl le_rfl _ hc.led.ne_nil) rfl ?_
  intro depth rest hd hs
  simp only [List.length_append, List.length_cons] at hd
  have harg : ∀ x ∈ callArguments positional named, Derives (f x.2) .sequence (g x.2) := by
    intro x hx
    rcases List.mem_append.mp hx with hx | hx
    · obtain ⟨e, he, rfl⟩ := List.mem_map.mp hx
      exact hp e he
    · obtain ⟨y, hy, rfl⟩ := List.mem_map.mp hx
      exact hn y hy
  have hargs : Gives (arguments (parseAt depth))
      (commas ((callArguments positional named).map (argumentWord f))) (.mark .closeParen :: rest)
      fun xs => bareArguments xs = bareArguments (sorted g (callArguments positional named)) := by
    refine gives_arguments (inOrder_callArguments positional named)
      (fun x hx => ⟨(harg x hx).led, (harg x hx).linked⟩) ?_
    intro x hx next hf
    have hlen := length_le_commas (List.mem_map_of_mem (f := argumentWord f) hx)
    have hlen' : (f x.2).length ≤ (argumentWord f x).length := by
      obtain ⟨name, e⟩ := x
      cases name with
      | none => exact le_rfl
      | some name =>
        simp only [argumentWord, List.length_cons]
        omega
    exact (harg x hx).nested (by omega) (hf.stops closes_closeParen 0)
  have hlead := hc.leads rfl depth (.mark .openParen ::
    (commas ((callArguments positional named).map (argumentWord f)) ++ .mark .closeParen :: rest))
    (by omega) (stops_of_link (p := .subscript) rfl (by decide) _)
  refine hlead.call hargs ?_ loc
  intro xs hx
  rw [hx, sorted_callArguments]

lemma derives_subscript (hl : Derives ws .subscript t) (hr : Derives vs .sequence u) (loc : Location) :
    Derives (ws ++ .mark .openBracket :: (vs ++ [.mark .closeBracket])) .subscript
      (.binary loc .subscript t u) := by
  refine .of_leads (hl.led.append _)
    (hl.linked.append (p := .subscript) rfl le_rfl _ hl.led.ne_nil) rfl ?_
  intro depth rest hd hs
  simp only [List.length_append, List.length_cons] at hd
  have hlead := hl.leads rfl depth (.mark .openBracket :: (vs ++ .mark .closeBracket :: rest))
    (by omega) (stops_of_link (p := .subscript) rfl (by decide) _)
  exact hlead.subscript (hr.nested (by omega) (stops_of_none rfl 0 rest)) loc

lemma derives_entry (hl : Derives ws .subscript t) (name : String) (loc loc' : Location) :
    Derives (ws ++ [.mark .dot, .name name]) .subscript
      (.binary loc .subscript t (.scalar loc' (.string name))) := by
  refine .of_leads (hl.led.append _)
    (hl.linked.append (p := .subscript) rfl le_rfl _ hl.led.ne_nil) rfl ?_
  intro depth rest hd hs
  simp only [List.length_append, List.length_cons] at hd
  have hlead := hl.leads rfl depth (.mark .dot :: .name name :: rest) (by omega)
    (stops_of_link (p := .subscript) rfl (by decide) _)
  exact hlead.entry loc loc'

end DiceLang.Parser

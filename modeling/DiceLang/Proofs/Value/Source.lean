import DiceLang.Proofs.Expr.RoundTrip
import DiceLang.Proofs.Lists
import DiceLang.Proofs.Value.Unfolding
import DiceLang.Value.Printer

/-! The text of a value as source text. A number below zero is read as a sign before a number, and the
least number of all has no text that can be read. -/

namespace DiceLang

open Relation (ReflTransGen TransGen)

namespace DataTree

mutual

def expr : DataTree → Expr
  | .undefined => .scalar .builtin .undefined
  | .string s => .scalar .builtin (.string s)
  | .boolean b => .scalar .builtin (.boolean b)
  | .number n => .scalar .builtin (.number n)
  | .list items => .list .builtin (exprs items)
  | .map entries => .map .builtin (entryExprs entries)

def exprs : List DataTree → List Expr
  | [] => []
  | t :: ts => expr t :: exprs ts

def entryExprs : List (String × DataTree) → List (String × Expr)
  | [] => []
  | (key, t) :: ts => (key, expr t) :: entryExprs ts

end

mutual

def numbers : DataTree → List Int64
  | .number n => [n]
  | .list items => numbersAll items
  | .map entries => numbersIn entries
  | _ => []

def numbersAll : List DataTree → List Int64
  | [] => []
  | t :: ts => numbers t ++ numbersAll ts

def numbersIn : List (String × DataTree) → List Int64
  | [] => []
  | (_, t) :: ts => numbers t ++ numbersIn ts

end

@[simp] lemma expr_ofScalar (v : Scalar) : (ofScalar v).expr = .scalar .builtin v := by
  cases v <;> rfl

@[simp] lemma expr_list (items : List DataTree) :
    (list items).expr = .list .builtin (items.map expr) := by
  have hall : exprs items = items.map expr := by
    induction items with
    | nil => rfl
    | cons t ts ih => rw [exprs, ih, List.map_cons]
  rw [expr, hall]

@[simp] lemma expr_map (entries : List (String × DataTree)) :
    (map entries).expr = .map .builtin (entries.map fun x => (x.1, x.2.expr)) := by
  have hall : entryExprs entries = entries.map fun x => (x.1, x.2.expr) := by
    induction entries with
    | nil => rfl
    | cons x entries ih => rw [entryExprs, ih, List.map_cons]
  rw [expr, hall]

@[simp] lemma numbers_list (items : List DataTree) :
    (list items).numbers = items.flatMap numbers := by
  have hall : numbersAll items = items.flatMap numbers := by
    induction items with
    | nil => rfl
    | cons t ts ih => rw [numbersAll, ih, List.flatMap_cons]
  rw [numbers, hall]

@[simp] lemma numbers_map (entries : List (String × DataTree)) :
    (map entries).numbers = entries.flatMap fun x => x.2.numbers := by
  have hall : numbersIn entries = entries.flatMap fun x => x.2.numbers := by
    induction entries with
    | nil => rfl
    | cons x entries ih => rw [numbersIn, ih, List.flatMap_cons]
  rw [numbers, hall]

lemma mem_numbers {t : DataTree} {n : Int64} :
    n ∈ t.numbers ↔ t = .number n ∨ ∃ c ∈ t.children, n ∈ c.numbers := by
  cases t with
  | number k => simp [numbers, children, eq_comm]
  | list items => simp
  | map entries =>
    simp only [numbers_map, children_map, List.mem_flatMap, List.mem_map, exists_exists_and_eq_and,
      reduceCtorEq, false_or]
  | _ => simp [numbers, children]

end DataTree

namespace Heap

variable {h : Heap} {v : Value} {t : DataTree} {fuel : Nat}

lemma Unfolds.items {r : ListRef} {items : List DataTree}
    (hu : h.Unfolds (.list r) (.list items)) :
    List.Forall₂ (fun w s => w ∈ h.items r ∧ h.Unfolds w s) (h.items r) items := by
  cases hu with
  | list _ _ hlen hall =>
    exact List.forall₂_iff_zip.mpr ⟨hlen, fun hp => ⟨(List.of_mem_zip hp).1, hall _ hp⟩⟩

lemma Unfolds.entries {r : MapRef} {entries : List (String × DataTree)}
    (hu : h.Unfolds (.map r) (.map entries)) :
    List.Forall₂ (fun e x => e.2 ∈ h.contents (.map r) ∧ e.1 = x.1 ∧ h.Unfolds e.2 x.2)
      (h.entries r) entries := by
  cases hu with
  | map _ _ hkeys hall =>
    have hlen : (h.entries r).length = entries.length := by simpa using congrArg List.length hkeys
    rw [List.forall₂_iff_get]
    refine ⟨hlen, fun i hi hj => ⟨?_, ?_, ?_⟩⟩
    · exact List.mem_map_of_mem (List.get_mem _ _)
    · have hi' := List.getElem_of_eq hkeys (i := i) (by simpa using hi)
      simpa using hi'
    · refine hall ((h.entries r)[i].2, entries[i].2) (List.mem_iff_getElem.mpr ⟨i, ?_, ?_⟩)
      · simpa using ⟨hi, hj⟩
      · simp

lemma exists_value_of_mem {vs : List Value} {ts : List DataTree}
    (hall : List.Forall₂ h.Unfolds vs ts) (ht : t ∈ ts) : ∃ w ∈ vs, h.Unfolds w t := by
  induction hall with
  | nil => cases ht
  | @cons v s vs ts hv _ ih =>
    rcases List.mem_cons.mp ht with rfl | ht
    · exact ⟨v, List.mem_cons_self, hv⟩
    · obtain ⟨w, hw, hwt⟩ := ih ht
      exact ⟨w, List.mem_cons_of_mem _ hw, hwt⟩

lemma Unfolds.eq_number {n : Int64} (hu : h.Unfolds v (.number n)) : v = .number n := by
  generalize hn : DataTree.number n = t at hu
  cases hu with
  | scalar s =>
    cases s with
    | number => rw [(DataTree.number.inj hn)]
    | _ => cases hn
  | list | map => cases hn

lemma Unfolds.mem_numbers (hu : h.Unfolds v t) {n : Int64} :
    n ∈ t.numbers ↔ ReflTransGen h.Holds v (.number n) := by
  induction t using DataTree.children_induction generalizing v with
  | step t ih =>
    rw [DataTree.mem_numbers]
    constructor
    · rintro (rfl | ⟨s, hs, hn⟩)
      · rw [hu.eq_number]
      · cases hc : v.container? with
        | none =>
          cases hu with
          | scalar s => cases s <;> cases hs
          | list | map => cases hc
        | some c =>
          obtain ⟨w, hw, hws⟩ := exists_value_of_mem (hu.contents hc) hs
          exact .head ⟨c, hc, hw⟩ ((ih s hs hws).mp hn)
    · intro hn
      rcases hn.cases_head with rfl | ⟨w, ⟨c, hc, hw⟩, hn⟩
      · exact .inl (hu.unique (.scalar (.number n)))
      · obtain ⟨s, hs, hws⟩ := exists_unfolds_of_mem (hu.contents hc) hw
        exact .inr ⟨s, hs, (ih s hs hws).mpr hn⟩

lemma Unfolds.exprWithin_eq (hu : h.Unfolds v t) (hfuel : (h.met v).card < fuel) :
    h.exprWithin fuel v = some t.expr := by
  induction fuel generalizing v t with
  | zero => omega
  | succ fuel ih =>
    have hbelow {w : Value} (hw : h.Holds v w) : (h.met w).card < fuel := by
      have hlt := card_met_lt (hu.plain.acyclic v .refl) hw
      omega
    cases id hu with
    | scalar v => rw [exprWithin, DataTree.expr_ofScalar]
    | list r items =>
      have hall := mapM_eq_some (f := h.exprWithin fuel) (g := DataTree.expr) <|
        hu.items.imp fun w s hw => ih hw.2 (hbelow ⟨_, rfl, hw.1⟩)
      simp [exprWithin, hall]
    | map r entries =>
      have hall := mapM_eq_some
        (f := fun e : String × Value => (h.exprWithin fuel e.2).map fun x => (e.1, x))
        (g := fun x : String × DataTree => (x.1, x.2.expr)) <|
        hu.entries.imp fun e x hx => by rw [ih hx.2.2 (hbelow ⟨_, rfl, hx.1⟩), Option.map_some, hx.2.1]
      simp [exprWithin, hall]

lemma Unfolds.textWithin_eq (hu : h.Unfolds v t) (hfuel : (h.met v).card < fuel)
    {path : List Container} (hpath : ∀ c ∈ path, TransGen h.Holds c.value v) :
    h.textWithin fuel path v = Printer.node (fun _ => none) t.expr := by
  induction fuel generalizing v t path with
  | zero => omega
  | succ fuel ih =>
    have hacyclic := hu.plain.acyclic v .refl
    -- A container is not met inside itself, so nothing is left out.
    have hbelow {c : Container} (hc : c.value = v) {w : Value} (hw : h.Holds v w) {s : DataTree}
        (hs : h.Unfolds w s) :
        h.textWithin fuel (c :: path) w = Printer.node (fun _ => none) s.expr := by
      have hlt := card_met_lt hacyclic hw
      refine ih hs (by omega) fun c' hc' => ?_
      rcases List.mem_cons.mp hc' with rfl | hc'
      · exact .single (hc ▸ hw)
      · exact (hpath c' hc').tail hw
    cases id hu with
    | scalar v => simp [textWithin, Printer.node]
    | list r items =>
      have hall := map_eq_of_forall₂ (f := h.textWithin fuel (.list r :: path))
        (g := fun s : DataTree => Printer.node (fun _ => none) s.expr) <|
        hu.items.imp fun w s hw => hbelow rfl ⟨_, rfl, hw.1⟩ hw.2
      rw [textWithin, if_neg fun hr => hacyclic (hpath (.list r) hr), hall]
      simp [Printer.node, Printer.nodes_eq, Function.comp_def]
    | map r entries =>
      have hall := map_eq_of_forall₂
        (f := fun e => Printer.key e.1 ++ ": " ++ h.textWithin fuel (.map r :: path) e.2)
        (g := fun x : String × DataTree =>
          Printer.key x.1 ++ ": " ++ Printer.node (fun _ => none) x.2.expr) <|
        hu.entries.imp fun e x hx => by rw [hx.2.1, hbelow rfl ⟨_, rfl, hx.1⟩ hx.2.2]
      rw [textWithin, if_neg fun hr => hacyclic (hpath (.map r) hr)]
      dsimp only
      rw [hall]
      simp [Printer.node, Printer.entryNodes_eq, Function.comp_def]

lemma Unfolds.expr?_eq (hu : h.Unfolds v t) : h.expr? v = some t.expr :=
  hu.exprWithin_eq (Nat.lt_succ_of_le (h.card_met_le v))

lemma Unfolds.toList_text (hu : h.Unfolds v t) :
    (h.text v).toList = Printer.spelling (fun _ => none) t.expr := by
  rw [text, hu.textWithin_eq (Nat.lt_succ_of_le (h.card_met_le v)) (by simp), Printer.spelling]

end Heap

namespace Expr

def signed : Expr → Expr := rewrite writeSign

lemma signed_number (loc : Location) (n : Int64) : (scalar loc (.number n)).signed =
    if n < 0 then .unary loc .minus (.scalar loc (.number (-n))) else .scalar loc (.number n) := rfl

@[simp] lemma signed_list (loc : Location) (items : List Expr) :
    (list loc items).signed = .list loc (items.map signed) := rewrite_eq _ _

@[simp] lemma signed_map (loc : Location) (entries : List (String × Expr)) :
    (map loc entries).signed = .map loc (entries.map fun x => (x.1, x.2.signed)) := rewrite_eq _ _

end Expr

namespace DataTree

lemma fits_signed {t : DataTree} (hmin : Int64.minValue ∉ t.numbers) : t.expr.signed.Fits false := by
  induction t using children_induction with
  | step t ih =>
    rw [mem_numbers, not_or, not_exists] at hmin
    have hin {c : DataTree} (hc : c ∈ t.children) : c.expr.signed.Fits false :=
      ih c hc fun hn => hmin.2 c ⟨hc, hn⟩
    cases t with
    | undefined | string | boolean => exact Expr.fits_scalar _ trivial
    | number n =>
      rw [expr, Expr.signed_number]
      split
      · have hnonneg := neg_nonneg_of_ne ‹_› fun heq => hmin.1 (congrArg number heq)
        exact Expr.fits_unary (b := false) rfl (Expr.fits_scalar _ hnonneg) nofun
      · exact Expr.fits_scalar _ (Int64.not_lt.mp ‹_›)
    | list items =>
      rw [expr_list, Expr.signed_list, List.map_map]
      apply Expr.fits_list
      rw [List.forall_mem_map]
      exact fun c hc => hin hc
    | map entries =>
      rw [expr_map, Expr.signed_map, List.map_map]
      apply Expr.fits_map
      rw [List.forall_mem_map]
      exact fun x hx => hin (List.mem_map_of_mem hx)

lemma reread_signed (t : DataTree) : t.expr.signed.reread = t.expr.signed := by
  induction t using children_induction with
  | step t ih =>
    cases t with
    | undefined | string | boolean => rfl
    | number n =>
      rw [expr, Expr.signed_number]
      split <;> rfl
    | list items =>
      rw [expr_list, Expr.signed_list, Expr.reread_list, List.map_map, List.map_map, List.map_map]
      exact congrArg _ (List.map_congr_left ih)
    | map entries =>
      rw [expr_map, Expr.signed_map, Expr.reread_map, List.map_map, List.map_map, List.map_map]
      refine congrArg _ (List.map_congr_left fun x hx => ?_)
      exact congrArg (Prod.mk x.1) (ih x.2 (List.mem_map_of_mem hx))

lemma node_signed {t : DataTree} (hmin : Int64.minValue ∉ t.numbers) (look : Lookup) :
    Printer.node look t.expr.signed = Printer.node look t.expr := by
  induction t using children_induction with
  | step t ih =>
    rw [mem_numbers, not_or, not_exists] at hmin
    have hin {c : DataTree} (hc : c ∈ t.children) :
        Printer.node look c.expr.signed = Printer.node look c.expr :=
      ih c hc fun hn => hmin.2 c ⟨hc, hn⟩
    cases t with
    | undefined | string | boolean => rfl
    | number n =>
      rw [expr, Expr.signed_number]
      split
      · have hne : n ≠ Int64.minValue := fun heq => hmin.1 (congrArg number heq)
        have hnonneg := Int64.not_lt.mpr (neg_nonneg_of_ne ‹_› hne)
        simp only [Printer.node, Printer.unary, Printer.enclose, Expr.precedence, if_neg hnonneg,
          Printer.scalar, ofInt64_neg ‹_› hne]
        rfl
      · rfl
    | list items =>
      have hall : items.map (fun c => Printer.node look c.expr.signed) =
          items.map fun c => Printer.node look c.expr := List.map_congr_left fun c hc => hin hc
      simp only [expr_list, Expr.signed_list, Printer.node, Printer.nodes_eq, List.map_map,
        Function.comp_def, hall]
    | map entries =>
      have hall : entries.map (fun x => Printer.key x.1 ++ ": " ++ Printer.node look x.2.expr.signed) =
          entries.map fun x => Printer.key x.1 ++ ": " ++ Printer.node look x.2.expr :=
        List.map_congr_left fun x hx => by rw [hin (List.mem_map_of_mem hx)]
      simp only [expr_map, Expr.signed_map, Printer.node, Printer.entryNodes_eq, List.map_map,
        Function.comp_def, hall]

end DataTree

namespace Lexer

def Reading.problem? : Reading → Option LexicalProblem
  | .problem p => some p
  | _ => none

def faults (s : List Char) : List LexicalProblem := (readings s).filterMap Reading.problem?

lemma faults_of_lexeme {s t : List Char} {l : Lexeme}
    (h : readings s = .lexeme l :: readings t) : faults s = faults t := by
  rw [faults, h, List.filterMap_cons_none rfl, faults]

lemma Reads.faults_eq {s : List Char} {ls : List Lexeme} (h : Reads s ls) {rest : List Char}
    (hr : Ends rest) : faults (s ++ rest) = faults rest := by
  have hnone : (ls.map Reading.lexeme).filterMap Reading.problem? = [] := by
    simp [List.filterMap_map, Function.comp_def, Reading.problem?]
  rw [faults, h rest (hr.apart s), List.filterMap_append, hnone, List.nil_append, faults]

def Overflows (s : List Char) (k : Nat) : Prop :=
  ∀ rest, Ends rest → faults (s ++ rest) = List.replicate k .numberRange ++ faults rest

lemma Reads.overflows {s : List Char} {ls : List Lexeme} (h : Reads s ls) : Overflows s 0 :=
  fun _ hr => h.faults_eq hr

lemma overflows_commas {α : Type} (text : α → String) (k : α → Nat) {xs : List α}
    (h : ∀ x ∈ xs, Overflows (text x).toList (k x)) :
    Overflows (", ".intercalate (xs.map text)).toList (xs.map k).sum := by
  intro rest hr
  induction xs with
  | nil => simp
  | cons x xs ih =>
    rw [List.forall_mem_cons] at h
    cases xs with
    | nil => simpa using h.1 rest hr
    | cons y ys =>
      have hhead := h.1 (',' :: ' ' :: ((", ".intercalate ((y :: ys).map text)).toList ++ rest))
        (by rw [ends_cons]; decide)
      have hsplit : (", ".intercalate ((x :: y :: ys).map text)).toList ++ rest = (text x).toList ++
          ',' :: ' ' :: ((", ".intercalate ((y :: ys).map text)).toList ++ rest) := by
        simp [String.intercalate_cons_cons]
      have hcomma (s : List Char) : faults (',' :: ' ' :: s) = faults s :=
        faults_of_lexeme (l := .mark .comma) (by simp)
      rw [hsplit, hhead, hcomma, ih h.2, ← List.append_assoc, List.replicate_append_replicate]
      simp

lemma Overflows.enclosed {s : List Char} {k : Nat} (h : Overflows s k) {a b : Char} {l l' : Lexeme}
    (ha : ∀ t, readings (a :: t) = .lexeme l :: readings t)
    (hb : ∀ t, readings (b :: t) = .lexeme l' :: readings t) (hw : isWordChar b = false) :
    Overflows (a :: (s ++ [b])) k := by
  intro rest _
  rw [List.cons_append, faults_of_lexeme (ha _), List.append_assoc, List.singleton_append,
    h (b :: rest) (by rw [ends_cons]; exact hw), faults_of_lexeme (hb rest)]

lemma overflows_minValue : Overflows (Decimal.ofInt64 Int64.minValue).toList 1 := by
  intro rest hr
  have htext : (Decimal.ofInt64 Int64.minValue).toList = '-' :: "9223372036854775808".toList := by
    decide +kernel
  have hdigit : ∀ d ∈ rest.head?, d.isDigit = false := by
    intro d hd
    obtain ⟨rest, rfl⟩ := List.head?_eq_some_iff.mp hd
    by_contra hdig
    rw [ends_cons, isDigit_isWordChar (by simpa using hdig)] at hr
    cases hr
  rw [htext, List.cons_append, faults_of_lexeme (readings_minus (by simp)), faults,
    readings_digits (by decide) (by decide) hdigit, List.filterMap_append]
  congr 1

end Lexer

namespace DataTree

lemma overflows_entry {key : String} {s : List Char} {k : Nat} (h : Lexer.Overflows s k) :
    Lexer.Overflows ((Printer.key key).toList ++ ':' :: ' ' :: s) k := by
  intro rest hr
  rw [List.append_assoc, List.cons_append,
    (Printer.reads_key key).faults_eq ((Lexer.ends_cons _ _).mpr rfl)]
  have hcolon : Lexer.faults (':' :: ' ' :: (s ++ rest)) = Lexer.faults (s ++ rest) :=
    Lexer.faults_of_lexeme (l := .mark .colon) (by simp)
  exact hcolon.trans (h rest hr)

lemma overflows_zero {t : DataTree} (hmin : Int64.minValue ∉ t.numbers) :
    Lexer.Overflows (Printer.spelling (fun _ => none) t.expr) 0 := by
  have hreads := (Printer.spelt _ (fits_signed hmin).wellFormed fun n _ => n.isLeast_none).reads
    ((Expr.fill_none _).symm ▸ (fits_signed hmin).plain)
  rw [Printer.Says, Printer.spelling, node_signed hmin] at hreads
  exact hreads.overflows

lemma overflows (t : DataTree) :
    Lexer.Overflows (Printer.spelling (fun _ => none) t.expr) (t.numbers.count Int64.minValue) := by
  induction t using children_induction with
  | step t ih =>
    cases t with
    | list items =>
      have hall := Lexer.overflows_commas (fun c : DataTree => Printer.node (fun _ => none) c.expr)
        (fun c => c.numbers.count Int64.minValue) ih
      rw [numbers_list, List.count_flatMap]
      simpa [Printer.spelling, Printer.node, Printer.nodes_eq, Function.comp_def] using
        hall.enclosed (fun t => (Lexer.readings_single t).2.2.1)
          (fun t => (Lexer.readings_single t).2.2.2.1) (by decide)
    | map entries =>
      have hall := Lexer.overflows_commas
        (fun x : String × DataTree =>
          Printer.key x.1 ++ ": " ++ Printer.node (fun _ => none) x.2.expr)
        (fun x => x.2.numbers.count Int64.minValue) fun x (hx : x ∈ entries) => by
          simpa [Printer.spelling] using overflows_entry (ih x.2 (List.mem_map_of_mem hx))
      rw [numbers_map, List.count_flatMap]
      simpa [Printer.spelling, Printer.node, Printer.entryNodes_eq, Function.comp_def] using
        hall.enclosed (fun t => (Lexer.readings_single t).2.2.2.2.1)
          (fun t => (Lexer.readings_single t).2.2.2.2.2.1) (by decide)
    | number n =>
      by_cases hn : n = Int64.minValue
      · subst hn
        exact Lexer.overflows_minValue
      · rw [numbers, List.count_singleton, beq_false_of_ne hn]
        exact overflows_zero (by simpa [numbers] using Ne.symm hn)
    | undefined | string | boolean => exact overflows_zero (by simp [numbers])

end DataTree

lemma lex_of_faults {text : String} (h : Lexer.faults text.toList ≠ []) :
    ∃ es, lex text = .error es ∧ es.map LexicalError.problem = Lexer.faults text.toList := by
  have hproblems (placed : List (Lexer.Reading × Span)) :
      (placed.filterMap Lexer.error?).map LexicalError.problem =
        (placed.map Prod.fst).filterMap Lexer.Reading.problem? := by
    induction placed with
    | nil => rfl
    | cons x placed ih =>
      obtain ⟨r, span⟩ := x
      cases r <;> simp_all [Lexer.error?, Lexer.Reading.problem?, List.filterMap_cons]
  have hsaid (ps : List Lexer.Piece) : (Lexer.said ps).filterMap Lexer.Reading.problem? =
      (ps.map Lexer.Piece.reading).filterMap Lexer.Reading.problem? := by
    induction ps with
    | nil => rfl
    | cons p ps ih =>
      obtain ⟨text, r⟩ := p
      cases r <;> simp_all [Lexer.said, Lexer.Reading.problem?, List.filterMap_cons]
  have hmap := hproblems (Lexer.place .start (Lexer.pieces text.toList))
  rw [Lexer.place_fst, ← hsaid] at hmap
  refine ⟨_, ?_, hmap⟩
  rw [lex, if_neg]
  rw [List.isEmpty_iff]
  intro hnil
  rw [hnil] at hmap
  exact h hmap.symm

variable {h : Heap} {v : Value}

/-- The text of a value is read as the expression of that value, with signs before the numbers below
zero. It is refused exactly if the least number of all lies in the value, and for no other reason. -/
theorem text_read_as_expression (hv : h.Plain v) (name : String) :
    ∃ e, h.expr? v = some e ∧
      (¬ ReflTransGen h.Holds v (.number Int64.minValue) →
        ∃ e', parse name (h.text v) = .ok [e'] ∧ e'.Alike e.signed) ∧
      (ReflTransGen h.Holds v (.number Int64.minValue) →
        ∃ es, parse name (h.text v) = .error es ∧ es ≠ [] ∧
          ∀ x ∈ es, x.fault = .lexical .numberRange) := by
  obtain ⟨t, ht⟩ := hv.exists_unfolds
  rw [← ht.mem_numbers]
  refine ⟨t.expr, ht.expr?_eq, fun hmin => ?_, fun hmin => ?_⟩
  · have hsource : t.expr.signed.source = h.text v := by
      rw [← String.toList_inj, Expr.toList_source, ht.toList_text, Printer.spelling,
        DataTree.node_signed hmin, Printer.spelling]
    obtain ⟨e', hp, ha⟩ := parse_source (DataTree.fits_signed hmin).wellFormed
      (DataTree.fits_signed hmin).plain name
    rw [hsource] at hp
    rw [DataTree.reread_signed] at ha
    exact ⟨e', hp, ha⟩
  · have hfaults : Lexer.faults (h.text v).toList =
        List.replicate (t.numbers.count Int64.minValue) .numberRange := by
      rw [ht.toList_text]
      simpa [Lexer.faults] using t.overflows [] Lexer.ends_nil
    have hne : Lexer.faults (h.text v).toList ≠ [] := by
      rw [hfaults, Ne, List.replicate_eq_nil_iff]
      exact (List.count_pos_iff.mpr hmin).ne'
    obtain ⟨es, hl, hes⟩ := lex_of_faults hne
    refine ⟨_, by rw [parse, hl], ?_, ?_⟩
    · rintro hnil
      rw [List.map_eq_nil_iff.mp hnil] at hes
      exact hne hes.symm
    · rw [List.forall_mem_map]
      intro x hx
      have hmem : x.problem ∈ Lexer.faults (h.text v).toList := hes ▸ List.mem_map_of_mem hx
      rw [hfaults] at hmem
      exact congrArg _ (List.eq_of_mem_replicate hmem)

def Heap.quoting : Heap :=
  ⟨#[[.number (-5), .map ⟨0⟩]], #[[("d6", .string "\"\x7bx\x7d\n"), ("", .boolean false)]]⟩

lemma Heap.unfolds_quoting : Heap.quoting.Unfolds (.list ⟨0⟩)
    (.list [.number (-5), .map [("d6", .string "\"\x7bx\x7d\n"), ("", .boolean false)]]) := by
  have hmap : Heap.quoting.Unfolds (.map ⟨0⟩)
      (.map [("d6", .string "\"\x7bx\x7d\n"), ("", .boolean false)]) := by
    refine .map _ _ rfl ?_
    have hs := Unfolds.scalar (h := quoting) (.string "\"\x7bx\x7d\n")
    have hb := Unfolds.scalar (h := quoting) (.boolean false)
    exact List.forall_mem_cons.mpr ⟨hs, List.forall_mem_cons.mpr ⟨hb, nofun⟩⟩
  refine .list _ _ rfl ?_
  exact List.forall_mem_cons.mpr
    ⟨.scalar (.number (-5)), List.forall_mem_cons.mpr ⟨hmap, nofun⟩⟩

theorem quoted_keys_read_back :
    ∃ e e', Heap.quoting.expr? (.list ⟨0⟩) = some e ∧
      parse "main" (Heap.quoting.text (.list ⟨0⟩)) = .ok [e'] ∧ e'.Alike e.signed := by
  have hu := Heap.unfolds_quoting
  obtain ⟨e, he, hread, -⟩ := text_read_as_expression hu.plain "main"
  obtain ⟨e', hp, ha⟩ := hread (by rw [← hu.mem_numbers]; decide)
  exact ⟨e, e', he, hp, ha⟩

theorem least_number_refused :
    ∃ v e, Heap.empty.Plain v ∧ Heap.empty.expr? v = some e ∧
      ¬ ∃ e', parse "main" (Heap.empty.text v) = .ok [e'] ∧ e'.Alike e.signed := by
  refine ⟨.number Int64.minValue, _, (Heap.Unfolds.scalar _).plain, rfl, ?_⟩
  rintro ⟨e', hp, -⟩
  have hno : (parse "main" (Heap.empty.text (.number Int64.minValue))).isOk = false := by
    decide +kernel
  rw [hp] at hno
  cases hno

end DiceLang

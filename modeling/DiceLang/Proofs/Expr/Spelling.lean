import DiceLang.Proofs.Label.Fill
import DiceLang.Proofs.Token.Glue

/-! The text of an expression says its words, and so does a label. -/

namespace DiceLang.Printer

open Lexer

def spelling (look : Lookup) (e : Expr) : List Char := (node look e).toList

def spellingAt (look : Lookup) (level : Precedence) (e : Expr) : List Char :=
  (enclose e level (node look e)).toList

abbrev Says (look : Lookup) (e : Expr) : Prop := Reads (spelling look e) (labelWords look e)

variable {look : Lookup}

lemma spellingAt_of_lt {e : Expr} {level : Precedence} (h : e.precedence.rank < level.rank) :
    spellingAt look level e = '(' :: (spelling look e ++ [')']) := by
  simp [spellingAt, enclose, h, spelling]

lemma spellingAt_of_le {e : Expr} {level : Precedence} (h : level.rank ≤ e.precedence.rank) :
    spellingAt look level e = spelling look e := by
  rw [spellingAt, enclose, if_neg (Nat.not_lt.mpr h), spelling]

lemma reads_enclosed {e : Expr} (h : Says look e) (level : Precedence) :
    Reads (spellingAt look level e) (labelWordsAt look level e) := by
  by_cases hl : e.precedence.rank < level.rank
  · rw [spellingAt_of_lt hl, labelWordsAt, enclosed_of_lt hl]
    intro rest _
    have hp := h (')' :: rest) (Ends.apart (by rw [ends_cons]; decide) _)
    simp [hp]
  · rw [spellingAt_of_le (Nat.not_lt.mp hl), labelWordsAt, enclosed_of_le (Nat.not_lt.mp hl)]
    exact h

lemma keyword_blank (k : Keyword) (rest : List Char) :
    readings (k.text.toList ++ ' ' :: rest) = .lexeme (.keyword k) :: readings rest := by
  rw [readings_keyword k (by rw [ends_cons]; decide), readings_space]

lemma reads_name {s : String} (h : isPlainName s = true) : Reads s.toList [.name s] := by
  intro rest hr
  refine readings_name h (hr ?_)
  simp only [isPlainName, Bool.and_eq_true] at h
  obtain ⟨c, hl⟩ : ∃ c, s.toList.getLast? = some c := by
    refine Option.ne_none_iff_exists'.mp fun hn => ?_
    rw [List.getLast?_eq_none_iff] at hn
    simp [hn, isIdentifier] at h
  rw [hl, Option.any_some]
  exact isWordChar_of_isIdentifier h.1.1 c (List.mem_of_getLast? hl)

lemma isPlainName_ne_nil {s : String} (h : isPlainName s = true) : s.toList ≠ [] :=
  (reads_name h).ne_nil (by simp)

lemma reads_key (s : String) : Reads (key s).toList [keyWord s] := by
  rw [key, keyWord]
  split
  · exact reads_name ‹_›
  · exact fun rest _ => readings_quoted s rest

lemma reads_keyword_first (k : Keyword) {b : List Char} {lb : List Lexeme} (hb : Reads b lb)
    (hne : b ≠ []) : Reads (k.text.toList ++ ' ' :: b) (.keyword k :: lb) := by
  intro rest hr
  rw [apart_append (by simp), apart_cons hne] at hr
  rw [List.append_assoc, List.cons_append, keyword_blank, hb rest hr]
  rfl

lemma reads_spaced {a b w : List Char} {la lb : List Lexeme} {l : Lexeme} (ha : Reads a la)
    (hb : Reads b lb) (hne : b ≠ [])
    (hw : ∀ s, readings (w ++ ' ' :: s) = .lexeme l :: readings s) :
    Reads (a ++ ' ' :: (w ++ ' ' :: b)) (la ++ l :: lb) := by
  intro rest hr
  rw [apart_append (by simp), apart_cons (by simp), apart_append (by simp), apart_cons hne] at hr
  rw [List.append_assoc, List.cons_append, ha.before_blank, List.append_assoc, List.cons_append, hw,
    hb rest hr]
  simp

lemma reads_mark_blank {a b : List Char} {la lb : List Lexeme} {c : Char} {m : Mark}
    (hm : ∀ s, readings (c :: s) = .lexeme (.mark m) :: readings s) (hc : isWordChar c = false)
    (ha : Reads a la) (hb : Reads b lb) (hne : b ≠ []) :
    Reads (a ++ c :: ' ' :: b) (la ++ .mark m :: lb) := by
  have hcb : Reads (c :: ' ' :: b) (.mark m :: lb) := by
    intro rest hr
    rw [apart_cons (by simp), apart_cons hne] at hr
    rw [List.cons_append, List.cons_append, hm, readings_space, hb rest hr]
    rfl
  exact ha.append hcb (by simp) ((ends_cons _ _).mpr hc)

lemma reads_colon {a : List Char} {l : Lexeme} (ha : Reads a [l]) {e : Expr}
    (he : Says look e) :
    Reads (a ++ ':' :: ' ' :: spelling look e) (l :: .mark .colon :: labelWords look e) :=
  reads_mark_blank (fun s => (readings_single s).2.2.2.2.2.2.2.1) (by decide) ha he
    (he.ne_nil (labelWords_ne_nil look e))

lemma reads_clause {a : List Char} {la : List Lexeme} (ha : Reads a la) {lead : String} {k : Keyword}
    (hk : lead.toList = ' ' :: (k.text.toList ++ [' '])) (level : Precedence) {o : Option Expr}
    (ho : ∀ e ∈ o, Says look e) :
    Reads (a ++ (clause look lead level o).toList)
      (la ++ clauseWords look [.keyword k] level o) := by
  cases o with
  | none => simpa [clause, clauseWords] using ha
  | some e =>
    have he := reads_enclosed (ho e rfl) level
    have h := reads_spaced ha he (he.ne_nil (labelWordsAt_ne_nil look level e)) (keyword_blank k)
    simpa [clause, clauseWords, hk, spellingAt, labelWordsAt] using h

lemma readings_commas {ts : List String} {ws : List (List Lexeme)}
    (h : List.Forall₂ (fun t w => Reads t.toList w) ts ws) (rest : List Char) (hr : Ends rest) :
    readings ((", ".intercalate ts).toList ++ rest) =
      (commas ws).map .lexeme ++ readings rest := by
  induction h with
  | nil => simp [commas]
  | @cons t w ts ws ht hs ih =>
    cases hs with
    | nil => simpa [commas] using ht rest (hr.apart _)
    | @cons t' w' ts ws ht' hs =>
      have hc := ht (',' :: ' ' :: ((", ".intercalate (t' :: ts)).toList ++ rest))
        (Ends.apart (by rw [ends_cons]; decide) _)
      have hj : (", ".intercalate (t :: t' :: ts)).toList ++ rest =
          t.toList ++ ',' :: ' ' :: ((", ".intercalate (t' :: ts)).toList ++ rest) := by
        simp [String.intercalate_cons_cons]
      rw [hj, hc, (readings_single _).2.2.2.2.2.2.1, readings_space, ih]
      simp [commas]

lemma reads_list {loc : Location} {items : List Expr}
    (h : ∀ e ∈ items, Says look e) :
    Says look (.list loc items) := by
  intro rest _
  have hf : List.Forall₂ (fun t w => Reads t.toList w) (items.map (node look))
      (items.map (labelWords look)) := by
    rw [List.forall₂_map_left_iff, List.forall₂_map_right_iff, List.forall₂_same]
    exact h
  have hc := readings_commas hf (']' :: rest) (by rw [ends_cons]; decide)
  simp only [spelling, node, nodes_eq, labelWords, wordsAll_eq, String.toList_append, String.reduceToList,
    List.cons_append, List.nil_append, List.append_assoc, readings_single, hc, List.map_cons,
    List.map_append, List.map_nil]

lemma reads_map {loc : Location} {entries : List (String × Expr)}
    (h : ∀ x ∈ entries, Says look x.2) :
    Says look (.map loc entries) := by
  intro rest _
  have hf : List.Forall₂ (fun t w => Reads t.toList w)
      (entries.map fun x => key x.1 ++ ": " ++ node look x.2)
      (entries.map fun x => keyWord x.1 :: .mark .colon :: labelWords look x.2) := by
    rw [List.forall₂_map_left_iff, List.forall₂_map_right_iff, List.forall₂_same]
    intro x hx
    simpa [spelling] using reads_colon (reads_key x.1) (h x hx)
  have hc := readings_commas hf ('\x7d' :: rest) (by rw [ends_cons]; decide)
  simp only [spelling, node, entryNodes_eq, labelWords, entryWords_eq, String.toList_append,
    String.reduceToList, List.cons_append, List.nil_append, List.append_assoc, readings_single, hc,
    List.map_cons, List.map_append, List.map_nil]

lemma reads_param {x : String × Option Expr} (hx : isPlainName x.1 = true)
    (h : ∀ e ∈ x.2, Says look e) :
    Reads (x.1 ++ if isUndefined x.2 then "" else clause look ": " .sequence x.2).toList
      (paramWord (labelWords look) (x.1, writtenDefault x.2)) := by
  obtain ⟨name, d⟩ := x
  by_cases hu : isUndefined d = true
  · simpa [paramWord, writtenDefault, optionalWords, hu] using reads_name hx
  · rw [paramWord, writtenDefault, if_neg hu, if_neg hu]
    cases d with
    | none => simpa [clause, optionalWords] using reads_name hx
    | some e =>
      have ht : spellingAt look .sequence e = spelling look e := spellingAt_of_le (Nat.zero_le _)
      have hc := reads_colon (reads_name hx) (h e rfl)
      rw [← ht] at hc
      simpa [clause, optionalWords, spellingAt] using hc

lemma reads_lambda {loc : Location} {params : List (String × Option Expr)} {body : Expr}
    (hx : ∀ x ∈ params, isPlainName x.1 = true)
    (hd : ∀ x ∈ params, ∀ e ∈ x.2, Says look e)
    (hb : Says look body) :
    Says look (.lambda loc params body) := by
  intro rest _
  have hf : List.Forall₂ (fun t w => Reads t.toList w)
      (params.map fun x => x.1 ++ if isUndefined x.2 then ""
        else clause look ": " .sequence x.2)
      (params.map fun x => paramWord (labelWords look) (x.1, writtenDefault x.2)) := by
    rw [List.forall₂_map_left_iff, List.forall₂_map_right_iff, List.forall₂_same]
    exact fun x hm => reads_param (hx x hm) (hd x hm)
  have ht : spelling look (.lambda loc params body) = Keyword.fun.text.toList ++ '(' ::
      ((", ".intercalate (params.map fun x => x.1 ++ if isUndefined x.2 then ""
        else clause look ": " .sequence x.2)).toList ++
        ')' :: ' ' :: '\x7b' :: ' ' :: (spelling look body ++ [' ', '\x7d'])) := by
    simp [spelling, node, paramNodes_eq, Keyword.text]
  have hc := readings_commas hf
    (')' :: ' ' :: '\x7b' :: ' ' :: (spelling look body ++ [' ', '\x7d'] ++ rest))
    (by rw [ends_cons]; decide)
  have hb' := hb.before_blank ('\x7d' :: rest)
  rw [ht, List.append_assoc, readings_keyword .fun (by simp [isWordChar])]
  simp only [List.cons_append, List.append_assoc, List.nil_append] at hc ⊢
  simp only [readings_single, hc, readings_space, hb', labelWords, paramWords_eq, List.map_cons,
    List.map_append, List.append_assoc, List.cons_append, List.map_nil, List.nil_append]

lemma readings_opening {op : UnaryOp} (hop : op ≠ .die) {s : List Char}
    (hs : op = .minus → ∀ t, s ≠ '-' :: '-' :: t) :
    readings ((opening op).toList ++ s) = (openingWords op).map .lexeme ++ readings s := by
  cases op with
  | plus => exact (readings_single s).2.2.2.2.2.2.2.2.2
  | minus => exact readings_minus (hs rfl)
  | not => exact keyword_blank .not s
  | best sel =>
    have ht : (opening (.best sel)).toList ++ s =
        sel.word.text.toList ++ ' ' :: (Keyword.of.text.toList ++ ' ' :: s) := by
      rw [Selector.word_text]
      simp [opening, Keyword.text]
    rw [ht, keyword_blank, keyword_blank]
    rfl
  | draw =>
    have ht : (opening .draw).toList ++ s =
        Keyword.draw.text.toList ++ ' ' :: (Keyword.from.text.toList ++ ' ' :: s) := by
      simp [opening, Keyword.text]
    rw [ht, keyword_blank, keyword_blank]
    rfl
  | die => exact absurd rfl hop
  | count => exact keyword_blank .count s
  | convert k =>
    have ht : (opening (.convert k)).toList ++ s = k.word.text.toList ++ ' ' :: s := by
      simp [opening, Kind.word_text]
    rw [ht, keyword_blank]
    rfl
  | reorder r =>
    have ht : (opening (.reorder r)).toList ++ s = r.word.text.toList ++ ' ' :: s := by
      simp [opening, Reorder.word_text]
    rw [ht, keyword_blank]
    rfl

lemma reads_unary {loc : Location} {op : UnaryOp} {operand : Expr} (hop : op ≠ .die)
    (hd : op = .minus → ∀ rest t, spellingAt look .best operand ++ rest ≠ '-' :: '-' :: t)
    (h : Says look operand) :
    Says look (.unary loc op operand) := by
  intro rest hr
  have h' := reads_enclosed h (operandLevel op)
  have hne := h'.ne_nil (labelWordsAt_ne_nil look _ operand)
  have ht : spelling look (.unary loc op operand) =
      (opening op).toList ++ spellingAt look (operandLevel op) operand := by
    cases op <;> simp_all [spelling, node, unary, spellingAt]
  rw [ht] at hr ⊢
  rw [apart_append hne] at hr
  rw [List.append_assoc, readings_opening hop, h' rest hr, labelWords, List.map_append, List.append_assoc]
  · rfl
  · rintro rfl
    exact hd rfl rest

lemma reads_keyword_between {a b : List Char} {la lb : List Lexeme} (k k' : Keyword) (ha : Reads a la)
    (hb : Reads b lb) (hne : b ≠ []) :
    Reads (k.text.toList ++ ' ' :: (a ++ ' ' :: (k'.text.toList ++ ' ' :: b)))
      (.keyword k :: (la ++ .keyword k' :: lb)) :=
  reads_keyword_first k (reads_spaced ha hb hne (keyword_blank k')) (by simp)

def isSpaced : BinaryOp → Bool
  | .bestOf _ | .drawMany | .dice | .subscript | .sequence => false
  | _ => true

def jointText (op : BinaryOp) : List Char :=
  match op.joint with
  | .keyword k => k.text.toList
  | .mark m => m.text.toList
  | _ => []

lemma readings_joint (op : BinaryOp) (s : List Char) :
    readings (jointText op ++ ' ' :: s) = .lexeme op.joint :: readings s := by
  cases op with
  | and | or | indexOf | bestOf | drawMany | dice => exact keyword_blank _ s
  | _ => exact readings_mark_space _ s

lemma binary_spaced {op : BinaryOp} (h : isSpaced op = true) (a b : String) :
    (binary op a b).toList = a.toList ++ ' ' :: (jointText op ++ ' ' :: b.toList) := by
  cases op with
  | bestOf | drawMany | dice | subscript | sequence => simp [isSpaced] at h
  | arithmetic op => simp [binary, jointText, BinaryOp.joint, op.mark_text]
  | compare op => simp [binary, jointText, BinaryOp.joint, op.mark_text]
  | _ => simp [binary, jointText, BinaryOp.joint, Mark.text, Keyword.text]

lemma spelling_binary (look : Lookup) (loc : Location) {op : BinaryOp} (left right : Expr)
    (h : op ≠ .subscript) :
    spelling look (.binary loc op left right) =
      (binary op (enclose left (leftLevel op) (node look left))
        (enclose right (rightLevel op) (node look right))).toList := by
  rw [spelling, node]
  rintro name rfl
  exact absurd rfl h

lemma reads_binary {loc : Location} {op : BinaryOp} {left right : Expr} (hd : op ≠ .dice)
    (hs : op ≠ .subscript) (hl : Says look left)
    (hr : Says look right) :
    Says look (.binary loc op left right) := by
  have ha := reads_enclosed hl (leftLevel op)
  have hb := reads_enclosed hr (rightLevel op)
  have hne := hb.ne_nil (labelWordsAt_ne_nil look _ right)
  rw [Says, spelling_binary look loc left right hs, labelWords_binary look left right hs]
  cases op with
  | dice => exact absurd rfl hd
  | subscript => exact absurd rfl hs
  | bestOf sel =>
    have h := reads_keyword_between sel.word .of ha hb hne
    rw [sel.word_text] at h
    simpa [binary, binaryWords, BinaryOp.joint, spellingAt, Keyword.text] using h
  | drawMany =>
    have h := reads_keyword_between .draw .from ha hb hne
    simpa [binary, binaryWords, BinaryOp.joint, spellingAt, Keyword.text] using h
  | sequence =>
    have h := reads_mark_blank (fun s => (readings_single s).2.2.2.2.2.2.2.2.1) (by decide) ha hb hne
    simpa [binary, binaryWords, BinaryOp.joint, spellingAt] using h
  | _ =>
    rw [binary_spaced rfl]
    exact reads_spaced ha hb hne (readings_joint _)

structure Suffix (s : List Char) (ls : List Lexeme) : Prop where
  reads : Reads s ls
  ne_nil : s ≠ []
  ends : Ends s

lemma suffix_subscript {right : Expr} (h : Says look right) :
    Suffix ('[' :: (spellingAt look .sequence right ++ [']']))
      (.mark .openBracket :: (labelWordsAt look .sequence right ++ [.mark .closeBracket])) := by
  refine ⟨?_, by simp, by rw [ends_cons]; decide⟩
  intro rest _
  have hs := reads_enclosed h .sequence (']' :: rest) (Ends.apart (by rw [ends_cons]; decide) _)
  simp [hs]

lemma suffix_entry {name : String} (h : isPlainName name = true) :
    Suffix ('.' :: name.toList) [.mark .dot, .name name] := by
  refine ⟨?_, by simp, by rw [ends_cons]; decide⟩
  intro rest hr
  obtain ⟨c, s, hs⟩ := List.exists_cons_of_ne_nil (isPlainName_ne_nil h)
  have hc : c ≠ '.' := by
    simp only [isPlainName, hs, isIdentifier, Bool.and_eq_true] at h
    exact isLetter_ne h.1.1.1 (by decide)
  rw [List.cons_append, readings_dot (by simp [hs, hc]),
    reads_name h rest ((apart_cons (isPlainName_ne_nil h)).mp hr)]
  rfl

lemma suffix_arguments {positional : List Expr} {named : List (String × Expr)}
    (hp : ∀ e ∈ positional, Says look e)
    (hx : ∀ x ∈ named, isPlainName x.1 = true ∧ Says look x.2) :
    Suffix ('(' :: ((", ".intercalate (positional.map (node look) ++
        named.map fun x => x.1 ++ ": " ++ node look x.2)).toList ++ [')']))
      (.mark .openParen :: (commas (positional.map (labelWords look) ++
        named.map fun x => .name x.1 :: .mark .colon :: labelWords look x.2) ++ [.mark .closeParen])) := by
  refine ⟨?_, by simp, by rw [ends_cons]; decide⟩
  intro rest _
  have hf : List.Forall₂ (fun t w => Reads t.toList w)
      (positional.map (node look) ++
        named.map fun x => x.1 ++ ": " ++ node look x.2)
      (positional.map (labelWords look) ++
        named.map fun x => .name x.1 :: .mark .colon :: labelWords look x.2) := by
    refine List.rel_append ?_ ?_
    · rw [List.forall₂_map_left_iff, List.forall₂_map_right_iff, List.forall₂_same]
      exact hp
    · rw [List.forall₂_map_left_iff, List.forall₂_map_right_iff, List.forall₂_same]
      intro x hm
      simpa [spelling] using reads_colon (reads_name (hx x hm).1) (hx x hm).2
  have hc := readings_commas hf (')' :: rest) (by rw [ends_cons]; decide)
  simp only [List.cons_append, List.append_assoc, List.nil_append, readings_single, hc, List.map_cons,
    List.map_append, List.map_nil]

lemma exists_suffix_subscript {loc : Location} {left right : Expr}
    (h : Says look right) :
    ∃ s ls, Suffix s ls ∧
      spelling look (.binary loc .subscript left right) = spellingAt look .subscript left ++ s ∧
      labelWords look (.binary loc .subscript left right) = labelWordsAt look .subscript left ++ ls := by
  cases hn : entryName? right with
  | none =>
    refine ⟨_, _, suffix_subscript h, ?_, ?_⟩
    · simp [spelling, node, hn, binary, spellingAt, leftLevel, rightLevel]
    · simp [labelWords, hn, operatorWords, binaryWords, labelWordsAt, BinaryOp.joint, leftLevel, rightLevel]
  | some name =>
    have hp : isPlainName name = true := by
      unfold entryName? at hn
      split at hn
      · split at hn
        · obtain rfl := Option.some.inj hn
          assumption
        · simp at hn
      · simp at hn
    refine ⟨_, _, suffix_entry hp, ?_, ?_⟩
    · simp [spelling, node, hn, spellingAt, leftLevel]
    · simp [labelWords, hn, operatorWords, labelWordsAt, leftLevel]

lemma exists_suffix_call (loc : Location) (callee : Expr) {positional : List Expr}
    {named : List (String × Expr)} (hp : ∀ e ∈ positional, Says look e)
    (hx : ∀ x ∈ named, isPlainName x.1 = true ∧ Says look x.2) :
    ∃ s ls, Suffix s ls ∧ spelling look (.call loc callee positional named) =
        spellingAt look .subscript callee ++ s ∧
      labelWords look (.call loc callee positional named) = labelWordsAt look .subscript callee ++ ls := by
  refine ⟨_, _, suffix_arguments hp hx, ?_, ?_⟩
  · simp [spelling, node, spellingAt, nodes_eq, argumentNodes_eq]
  · simp [labelWords, labelWordsAt, wordsAll_eq, argumentWords_eq]

def indexText : Option String → List Char
  | some i => i.toList ++ [',', ' ']
  | none => []

def typeText : Option OutputType → List Char
  | some t => ' ' :: (Keyword.as.text.toList ++ ' ' :: t.keyword.toList)
  | none => []

lemma reads_loop_head {index : Option String} {item : String} {b : List Char} {lb : List Lexeme}
    (hi : ∀ i ∈ index, isPlainName i = true) (hx : isPlainName item = true) (hb : Reads b lb)
    (hne : b ≠ []) :
    Reads (indexText index ++ (item.toList ++ ' ' :: (Keyword.in.text.toList ++ ' ' :: b)))
      (indexWords index ++ .name item :: .keyword .in :: lb) := by
  have h := reads_spaced (reads_name hx) hb hne (keyword_blank .in)
  cases index with
  | none => exact h
  | some i =>
    have h' := reads_mark_blank (fun s => (readings_single s).2.2.2.2.2.2.1) (by decide)
      (reads_name (hi i rfl)) h (by simp)
    simpa [indexText, indexWords] using h'

lemma reads_condition {a : List Char} {la : List Lexeme} (ha : Reads a la) {condition : Option Expr}
    (h : ∀ e ∈ condition, Says look e) :
    Reads (a ++ (if isTrue condition then "" else clause look " if " .or condition).toList)
      (la ++ if isTrue condition then [] else clauseWords look [.keyword .if] .or condition) := by
  by_cases ht : isTrue condition = true
  · simpa [ht] using ha
  · have hk : " if ".toList = ' ' :: (Keyword.if.text.toList ++ [' ']) := rfl
    simpa [ht] using reads_clause ha hk .or h

lemma reads_forEach {loc : Location} {index : Option String} {item : String} {out container : Expr}
    {condition : Option Expr} (hi : ∀ i ∈ index, isPlainName i = true)
    (hx : isPlainName item = true) (ho : Says look out)
    (hc : Says look container)
    (hd : ∀ e ∈ condition, Says look e) :
    Says look (.forEach loc index item out container condition) := by
  have hc' := reads_enclosed hc .or
  have hne := hc'.ne_nil (labelWordsAt_ne_nil look .or container)
  have h := reads_loop_head hi hx (reads_condition hc' hd) (by simp [hne])
  by_cases hv : isVar item out = true
  · have h' := reads_keyword_first .for h (by simp)
    cases index <;>
      simpa [Says, spelling, node, labelWords, hv, spellingAt, labelWordsAt, indexText, Keyword.text] using h'
  · have h' := reads_spaced (reads_enclosed ho .or) h (by simp) (keyword_blank .for)
    cases index <;>
      simpa [Says, spelling, node, labelWords, hv, spellingAt, labelWordsAt, indexText, Keyword.text] using h'

lemma reads_repeating {loc : Location} {form : RepeatForm} {body condition : Expr}
    {limit : Option Expr} (hb : Says look body)
    (hc : Says look condition)
    (hl : ∀ e ∈ limit, Says look e) :
    Says look (.repeating loc form body condition limit) := by
  have hb' := reads_enclosed hb .or
  have hc' := reads_enclosed hc .or
  have hbne := hb'.ne_nil (labelWordsAt_ne_nil look .or body)
  have hcne := hc'.ne_nil (labelWordsAt_ne_nil look .or condition)
  have hk : " limit ".toList = ' ' :: (Keyword.limit.text.toList ++ [' ']) := rfl
  cases form with
  | before =>
    have h := reads_keyword_between .while .repeat hc' (reads_clause hb' hk .or hl)
      (by simp [hbne])
    simpa [Says, spelling, node, labelWords, repeatWords, spellingAt, labelWordsAt, Keyword.text] using h
  | after =>
    have h := reads_keyword_between .repeat .while hb' (reads_clause hc' hk .or hl)
      (by simp [hcne])
    simpa [Says, spelling, node, labelWords, repeatWords, spellingAt, labelWordsAt, Keyword.text] using h
  | once =>
    have h := reads_keyword_between .repeat .if hb' hc' hcne
    simpa [Says, spelling, node, labelWords, repeatWords, spellingAt, labelWordsAt, Keyword.text] using h

lemma reads_conditional {loc : Location} {condition whenTrue whenFalse : Expr}
    (hc : Says look condition)
    (ht : Says look whenTrue)
    (hf : Says look whenFalse) :
    Says look (.conditional loc condition whenTrue whenFalse) := by
  have hf' := reads_enclosed hf .control
  have hne := hf'.ne_nil (labelWordsAt_ne_nil look .control whenFalse)
  have h := reads_keyword_between .if .then (reads_enclosed hc .or)
    (reads_spaced (reads_enclosed ht .or) hf' hne (keyword_blank .else)) (by simp)
  simpa [Says, spelling, node, labelWords, spellingAt, labelWordsAt, Keyword.text] using h

lemma reads_type {a : List Char} {la : List Lexeme} (ha : Reads a la) (type : Option OutputType) :
    Reads (a ++ typeText type) (la ++ typeWords type) := by
  cases type with
  | none => simpa [typeText, typeWords] using ha
  | some t =>
    obtain ⟨ht, hne⟩ : Reads t.keyword.toList [t.lexeme] ∧ t.keyword.toList ≠ [] := by
      cases t with
      | native => exact ⟨reads_name (s := "native") (by decide), by decide⟩
      | kind k =>
        have hk : (OutputType.kind k).keyword = k.word.text := k.word_text.symm
        rw [hk]
        constructor
        · intro rest hr
          refine readings_keyword k.word (hr ?_)
          cases k <;> decide
        · cases k <;> decide
    exact reads_spaced ha ht hne (keyword_blank .as)

lemma reads_output {loc : Location} {mode : OutputMode} {e : Expr} {type : Option OutputType}
    {name : Option Expr} (he : Says look e)
    (hn : ∀ e ∈ name, Says look e) :
    Says look (.output loc mode e type name) := by
  have he' := reads_enclosed he .assign
  have hne := he'.ne_nil (labelWordsAt_ne_nil look .assign e)
  have ht := reads_type he' type
  cases name with
  | none =>
    have h := reads_keyword_first mode.word ht (by simp [hne])
    rw [mode.word_text] at h
    cases type <;>
      simpa [Says, spelling, node, labelWords, clause, clauseWords, spellingAt, labelWordsAt, typeText,
        Keyword.text] using h
  | some s =>
    have hs := reads_enclosed (hn s rfl) .atom
    have hsne := hs.ne_nil (labelWordsAt_ne_nil look .atom s)
    have hb : Reads (' ' :: spellingAt look .atom s) (labelWordsAt look .atom s) := by
      intro rest hr
      rw [List.cons_append, readings_space, hs rest ((apart_cons hsne).mp hr)]
    have h := reads_keyword_first mode.word (ht.append hb (by simp) (by rw [ends_cons]; decide))
      (by simp)
    rw [mode.word_text] at h
    cases type <;>
      simpa [Says, spelling, node, labelWords, clause, clauseWords, spellingAt, labelWordsAt, typeText,
        Keyword.text] using h

lemma reads_importing {loc : Location} {space : Option String} {address : Expr}
    (hs : ∀ s ∈ space, isPlainName s = true) (ha : Says look address) :
    Says look (.importing loc space address) := by
  have ha' := reads_enclosed ha .assign
  have hne := ha'.ne_nil (labelWordsAt_ne_nil look .assign address)
  cases space with
  | none =>
    have h := reads_keyword_first .import ha' hne
    simpa [Says, spelling, node, labelWords, spaceWords, spellingAt, labelWordsAt, Keyword.text] using h
  | some s =>
    have h := reads_keyword_first .import
      (reads_spaced (reads_name (hs s rfl)) ha' hne (readings_mark_space .assign)) (by simp)
    simpa [Says, spelling, node, labelWords, spaceWords, spellingAt, labelWordsAt, Keyword.text,
      Mark.text] using h

/-- At a strong place a text begins with a dash only where a negative number stands for a name. -/
def Dashed (s : List Char) : Prop := ∀ t, s = '-' :: t → t.head?.any Char.isDigit = true

lemma Dashed.ne_dash {s : List Char} (h : Dashed s) (hne : s ≠ []) (rest t : List Char) :
    s ++ rest ≠ '-' :: '-' :: t := by
  intro heq
  obtain ⟨c, s, rfl⟩ := List.exists_cons_of_ne_nil hne
  obtain ⟨rfl, htail⟩ := List.cons.inj heq
  have hd := h s rfl
  cases s with
  | nil => simp at hd
  | cons d s =>
    obtain ⟨rfl, _⟩ := List.cons.inj htail
    simp at hd

lemma dashed_cons {c : Char} (hc : c ≠ '-') (s : List Char) : Dashed (c :: s) := by
  intro t heq
  exact absurd (List.cons.inj heq).1 hc

lemma Dashed.append {a b : List Char} (ha : Dashed a) (hb : Dashed b) : Dashed (a ++ b) := by
  cases a with
  | nil => exact hb
  | cons c a =>
    intro t heq
    obtain ⟨rfl, rfl⟩ := List.cons.inj heq
    have hd := ha a rfl
    cases a with
    | nil => simp at hd
    | cons d a => exact hd

lemma exists_digit {n : Int64} (h : 0 ≤ n) :
    ∃ c t, (Decimal.ofInt64 n).toList = c :: t ∧ c.isDigit = true := by
  obtain ⟨k, hk, _⟩ := exists_digits h
  obtain ⟨c, t, ht⟩ := List.exists_cons_of_ne_nil (Nat.toDigits_ne_nil (n := k) (b := 10))
  have hall := all_isDigit_toDigits k
  rw [ht] at hk hall
  exact ⟨c, t, hk, List.all_eq_true.mp hall c List.mem_cons_self⟩

lemma dashed_scalar {v : Scalar} (h : v ≠ .number Int64.minValue) : Dashed (scalar v).toList := by
  cases v with
  | number n =>
    by_cases hn : n < 0
    · have hmin : n ≠ Int64.minValue := fun heq => h (congrArg _ heq)
      obtain ⟨c, t, ht, hc⟩ := exists_digit (neg_nonneg_of_ne hn hmin)
      rw [scalar, ofInt64_neg hn hmin, String.toList_append, ht]
      rintro s heq
      obtain ⟨_, rfl⟩ := List.cons.inj heq
      simpa using hc
    · obtain ⟨c, t, ht, hc⟩ := exists_digit (Int64.not_lt.mp hn)
      rw [scalar, ht]
      exact dashed_cons (isDigit_ne hc (by decide)) t
  | boolean b => cases b <;> exact dashed_cons (by decide) _
  | undefined => exact dashed_cons (by decide) _
  | string s =>
    rw [scalar, quoted, String.append_assoc, String.toList_append]
    exact dashed_cons (by decide) _

lemma dashed_name {name : String}
    (h : isPlainName name = true ∨ isCapitalName name.toList = true) : Dashed name.toList := by
  have hi : isIdentifier name.toList = true := by
    rcases h with h | h
    · simp only [isPlainName, Bool.and_eq_true] at h
      exact h.1.1
    · simp only [isCapitalName, Bool.and_eq_true] at h
      exact h.1
  cases hs : name.toList with
  | nil => exact fun _ heq => by cases heq
  | cons c t =>
    rw [hs] at hi
    simp only [isIdentifier, Bool.and_eq_true] at hi
    exact dashed_cons (isLetter_ne hi.1 (by decide)) t

lemma dashed_at {e : Expr} {level : Precedence}
    (h : level.rank ≤ e.precedence.rank → Dashed (spelling look e)) :
    Dashed (spellingAt look level e) := by
  by_cases hp : e.precedence.rank < level.rank
  · rw [spellingAt_of_lt hp]
    exact dashed_cons (by decide) _
  · rw [spellingAt_of_le (Nat.not_lt.mp hp)]
    exact h (Nat.not_lt.mp hp)

lemma dashed_spelling (e : Expr) (h : e.WellFormed)
    (hmin : ∀ n, Expr.Within n e → n.isLeast look = false)
    (hp : Precedence.best.rank ≤ e.precedence.rank) : Dashed (spelling look e) := by
  induction e using Expr.children_induction with
  | step e ih =>
    obtain ⟨hr, hc⟩ := Expr.wellFormed_iff.mp h
    obtain ⟨hme, hmc⟩ := Expr.forall_within.mp hmin
    have strong {c : Expr} (hm : c ∈ e.children) (level : Precedence)
        (hl : Precedence.best.rank ≤ level.rank) : Dashed (spellingAt look level c) :=
      dashed_at fun hle => ih c hm (hc c hm) (hmc c hm) (hl.trans hle)
    cases e with
    | scalar loc v =>
      refine dashed_scalar ?_
      rintro rfl
      exact absurd (show (0 : Int64) ≤ Int64.minValue from hr) (by decide)
    | unary loc op operand =>
      cases op with
      | plus | minus | not => exact absurd hp (by simp [Expr.precedence, UnaryOp.precedence, Precedence.rank])
      | best sel => cases sel <;> simp [Dashed, spelling, node, unary, opening, Selector.keyword]
      | convert k => cases k <;> simp [Dashed, spelling, node, unary, opening, Kind.keyword]
      | reorder r => cases r <;> simp [Dashed, spelling, node, unary, opening, Reorder.keyword]
      | die => simp [Dashed, spelling, node, unary, toList_thrown, spaceAfterCount]
      | _ => simp [Dashed, spelling, node, unary, opening]
    | binary loc op left right =>
      have hleft : left ∈ (Expr.binary loc op left right).children := by simp [Expr.children]
      cases op with
      | dice =>
        rw [spelling_binary look loc left right (by simp), binary, toList_thrown]
        refine (strong hleft .unary (by decide)).append ?_
        split <;> exact dashed_cons (by decide) _
      | subscript =>
        have hl := strong hleft .subscript (by decide)
        cases hn : entryName? right with
        | none =>
          have ht : spelling look (.binary loc .subscript left right) =
              spellingAt look .subscript left ++ '[' :: (spellingAt look .sequence right ++ [']']) := by
            simp [spelling, node, hn, binary, spellingAt, leftLevel, rightLevel]
          rw [ht]
          exact hl.append (dashed_cons (by decide) _)
        | some name =>
          have ht : spelling look (.binary loc .subscript left right) =
              spellingAt look .subscript left ++ '.' :: name.toList := by
            simp [spelling, node, hn, spellingAt, leftLevel]
          rw [ht]
          exact hl.append (dashed_cons (by decide) _)
      | bestOf sel =>
        rw [spelling_binary look loc left right (by simp)]
        cases sel <;> simp [Dashed, binary, Selector.keyword]
      | drawMany =>
        rw [spelling_binary look loc left right (by simp)]
        simp [Dashed, binary]
      | arithmetic op =>
        cases op <;>
          exact absurd hp (by simp [Expr.precedence, BinaryOp.precedence, Precedence.rank])
      | _ => exact absurd hp (by simp [Expr.precedence, BinaryOp.precedence, Precedence.rank])
    | call loc callee positional named =>
      have hl := strong (c := callee) (by simp [Expr.children]) .subscript (by decide)
      rw [spelling, node, String.append_assoc, String.append_assoc, String.toList_append]
      exact hl.append (by simp [Dashed])
    | scopeVariables loc which => cases which <;> simp [Dashed, spelling, node, ScopeSelector.keyword]
    | var loc name =>
      cases hl : look name with
      | none =>
        have ht : spelling look (.var loc name) = name.toList := by simp [spelling, node, hl]
        rw [ht]
        exact dashed_name hr
      | some v =>
        have ht : spelling look (.var loc name) = (scalar v).toList := by simp [spelling, node, hl]
        rw [ht]
        refine dashed_scalar ?_
        rintro rfl
        simp [Expr.isLeast, hl] at hme
    | interpolation | list | map | lambda => simp [Dashed, spelling, node, interpolated]
    | _ => exact absurd hp (by simp [Expr.precedence, Precedence.rank])

structure Spelt (look : Lookup) (e : Expr) : Prop where
  reads : (e.fill look).isGlued = false → Says look e
  hooks : Precedence.unary.rank ≤ e.precedence.rank → hooksOn (spelling look e) = true →
    Hooks (spelling look e) (labelWords look e)
  glued : (e.fill look).isGlued = true → (spelling look e).head?.any Char.isUpper = true

lemma Spelt.of_reads {e : Expr} (h : Says look e) (hg : (e.fill look).isGlued = false)
    (hh : Precedence.unary.rank ≤ e.precedence.rank → hooksOn (spelling look e) = false) :
    Spelt look e where
  reads _ := h
  hooks hp ho := by simp [hh hp] at ho
  glued h := by simp [hg] at h

lemma Spelt.ne_nil {e : Expr} (h : Spelt look e) : spelling look e ≠ [] := by
  by_cases hg : (e.fill look).isGlued = true
  · intro hn
    have hu := h.glued hg
    simp [hn] at hu
  · exact (h.reads (by simpa using hg)).ne_nil (labelWords_ne_nil look e)

lemma rank_of_isGlued {e : Expr} (h : e.isGlued = true) :
    Precedence.subscript.rank ≤ e.precedence.rank := by
  cases e with
  | var | call => simp [Expr.precedence, Precedence.rank]
  | binary loc op left right =>
    cases op with
    | subscript => exact le_rfl
    | _ => simp [Expr.isGlued] at h
  | _ => simp [Expr.isGlued] at h

lemma hooksOn_append {a : List Char} (h : a ≠ []) (b : List Char) :
    hooksOn (a ++ b) = hooksOn a := by
  obtain ⟨c, t, rfl⟩ := List.exists_cons_of_ne_nil h
  rfl

lemma Spelt.suffix {e base : Expr} {s : List Char} {ls : List Lexeme} (hb : Spelt look base)
    (hs : Suffix s ls) (ht : spelling look e = spellingAt look .subscript base ++ s)
    (hw : labelWords look e = labelWordsAt look .subscript base ++ ls)
    (hg : (e.fill look).isGlued = (base.fill look).isGlued) : Spelt look e where
  reads h := by
    rw [Says, ht, hw]
    exact (reads_enclosed (hb.reads (hg ▸ h)) _).append hs.reads hs.ne_nil hs.ends
  hooks _ ho := by
    rw [ht] at ho ⊢
    rw [hw]
    by_cases hp : base.precedence.rank < Precedence.subscript.rank
    · rw [spellingAt_of_lt hp] at ho
      simp [hooksOn] at ho
    · have hp := Nat.not_lt.mp hp
      rw [spellingAt_of_le hp] at ho ⊢
      rw [labelWordsAt, enclosed_of_le hp]
      rw [hooksOn_append hb.ne_nil] at ho
      exact (hb.hooks (Nat.le_trans (by decide) hp) ho).append hs.reads hs.ne_nil hs.ends
  glued h := by
    have h' : (base.fill look).isGlued = true := hg ▸ h
    rw [ht, spellingAt_of_le (rank_of_isGlued (Expr.isGlued_of_fill h')),
      List.head?_append_of_ne_nil _ hb.ne_nil]
    exact hb.glued h'

lemma Spelt.die {e : Expr} (h : Spelt look e) {die : String}
    (hd : die = enclose e .unary (node look e)) :
    die.toList ≠ [] ∧
      Hooks ((if spaceBeforeDie die then [' '] else []) ++ die.toList) (labelWordsAt look .unary e) := by
  have ht : die.toList = spellingAt look .unary e := by rw [hd, spellingAt]
  by_cases hp : e.precedence.rank < Precedence.unary.rank
  · have hg : (e.fill look).isGlued = false := by
      by_contra hg
      have hr := rank_of_isGlued (Expr.isGlued_of_fill (by simpa using hg))
      exact absurd (Nat.lt_of_le_of_lt hr hp) (by decide)
    have hne : die.toList ≠ [] := by simp [ht, spellingAt_of_lt hp]
    refine ⟨hne, hooks_die hne ?_ ?_⟩
    · intro _
      rw [ht]
      exact reads_enclosed (h.reads hg) _
    · intro ho
      rw [ht, spellingAt_of_lt hp] at ho
      simp [hooksOn] at ho
  · have hp := Nat.not_lt.mp hp
    have hts : die.toList = spelling look e := ht.trans (spellingAt_of_le hp)
    rw [labelWordsAt, enclosed_of_le hp]
    refine ⟨hts ▸ h.ne_nil, hooks_die (hts ▸ h.ne_nil) ?_ ?_⟩
    · intro hu
      rw [hts] at hu ⊢
      refine h.reads ?_
      by_contra hg
      simp [h.glued (by simpa using hg)] at hu
    · intro ho
      rw [hts] at ho ⊢
      exact h.hooks hp ho

lemma isCapitalName_of_isPlainName {s : String} (h : isPlainName s = true)
    (hh : hooksOn s.toList = true) : isCapitalName s.toList = true := by
  simp only [isPlainName, Bool.and_eq_true] at h
  obtain ⟨c, t, hs⟩ := List.exists_cons_of_ne_nil (l := s.toList) (by
    intro hn
    simp [hn, hooksOn] at hh)
  rw [hs] at h hh ⊢
  simp only [isIdentifier, Bool.and_eq_true] at h
  have hd := isLetter_not_isDigit h.1.1.1
  simp only [hooksOn, List.head?_cons, Option.any_some, hd, Bool.or_false] at hh
  exact isCapitalName_iff.mpr ⟨c, t, rfl, hh, h.1.1.2⟩

lemma reads_keyword (k : Keyword) : Reads k.text.toList [.keyword k] := by
  intro rest hr
  refine readings_keyword k (hr ?_)
  cases k <;> decide

lemma reads_number {n : Int64} (h : 0 ≤ n) : Reads (Decimal.ofInt64 n).toList [.number n] := by
  intro rest hr
  obtain ⟨k, hk, _⟩ := exists_digits h
  have hl : (Decimal.ofInt64 n).toList.getLast?.any isWordChar = true := by
    rw [hk]
    obtain ⟨c, hc⟩ := Option.ne_none_iff_exists'.mp fun hn =>
      Nat.toDigits_ne_nil (n := k) (b := 10) (List.getLast?_eq_none_iff.mp hn)
    rw [hc, Option.any_some]
    exact isDigit_isWordChar (List.all_eq_true.mp (all_isDigit_toDigits k) c
      (List.mem_of_getLast? hc))
  refine readings_number h fun d hd => ?_
  have he := hr hl
  cases rest with
  | nil => simp at hd
  | cons c rest =>
    obtain rfl : c = d := by simpa using hd
    by_contra hdig
    rw [ends_cons, isDigit_isWordChar (by simpa using hdig)] at he
    simp at he

lemma reads_constant {v : Scalar} (h : v ≠ .number Int64.minValue) :
    Reads (scalar v).toList (constantWords v) := by
  cases v with
  | undefined => exact reads_keyword .undef
  | string s => exact fun rest _ => readings_quoted s rest
  | boolean b =>
    cases b with
    | true => exact reads_keyword .true
    | false => exact reads_keyword .false
  | number n =>
    rw [scalar, constantWords]
    by_cases hn : n < 0
    · have hmin : n ≠ Int64.minValue := fun heq => h (congrArg _ heq)
      obtain ⟨c, t, ht, hc⟩ := exists_digit (neg_nonneg_of_ne hn hmin)
      have habs := reads_number (neg_nonneg_of_ne hn hmin)
      rw [if_pos hn, ofInt64_neg hn hmin, String.toList_append]
      intro rest hr
      rw [apart_append (by simp [ht])] at hr
      have hm : readings ('-' :: ((Decimal.ofInt64 (-n)).toList ++ rest)) =
          .lexeme (.mark .minus) :: readings ((Decimal.ofInt64 (-n)).toList ++ rest) := by
        refine readings_minus fun s heq => ?_
        rw [ht] at heq
        exact isDigit_ne hc (d := '-') (by decide) (List.cons.inj heq).1
      rw [habs rest hr] at hm
      exact hm
    · rw [if_neg hn]
      exact reads_number (Int64.not_lt.mp hn)

lemma hooks_constant {v : Scalar} (hmin : v ≠ .number Int64.minValue) (h : hooksOn (scalar v).toList = true) :
    Hooks (scalar v).toList (constantWords v) := by
  cases v with
  | number n =>
    by_cases hn : n < 0
    · rw [scalar, ofInt64_neg hn fun heq => hmin (congrArg _ heq)] at h
      simp [hooksOn] at h
    · rw [constantWords, if_neg hn]
      exact hooks_number (Int64.not_lt.mp hn)
  | undefined => simp [scalar, hooksOn] at h
  | string s => simp [scalar, quoted, hooksOn] at h
  | boolean b => cases b <;> simp [scalar, hooksOn] at h

lemma spelt_constant {e : Expr} {v : Scalar} (ht : spelling look e = (scalar v).toList)
    (hw : labelWords look e = constantWords v) (hg : (e.fill look).isGlued = false)
    (h : v ≠ .number Int64.minValue) : Spelt look e where
  reads _ := by
    rw [Says, ht, hw]
    exact reads_constant h
  hooks _ ho := by
    rw [ht] at ho ⊢
    rw [hw]
    exact hooks_constant h ho
  glued h' := by simp [hg] at h'

lemma spelt_scalar {loc : Location} {v : Scalar} (h : (Expr.scalar loc v).Regular) :
    Spelt look (.scalar loc v) := by
  have hw : labelWords look (.scalar loc v) = constantWords v := by
    cases v with
    | number n => simp [labelWords, scalarWords, constantWords, Int64.not_lt.mpr h]
    | _ => rfl
  refine spelt_constant rfl hw rfl ?_
  rintro rfl
  exact absurd (show (0 : Int64) ≤ Int64.minValue from h) (by decide)

lemma spelt_name {loc : Location} {name : String} (hn : look name = none)
    (h : isPlainName name = true ∨ isCapitalName name.toList = true) :
    Spelt look (.var loc name) := by
  have ht : spelling look (.var loc name) = name.toList := by simp [spelling, node, hn]
  have hw : labelWords look (.var loc name) = [.name name] := by simp [labelWords, hn]
  have hf : ((Expr.var loc name).fill look).isGlued = isDiceWord name.toList := by
    simp [Expr.fill_var, Expr.fillNode, hn, Expr.isGlued]
  refine ⟨?_, ?_, ?_⟩
  · intro hg
    rw [Says, ht, hw]
    rcases h with h | h
    · exact reads_name h
    · refine reads_name ?_
      obtain ⟨c, t, hs, hc, _⟩ := isCapitalName_iff.mp h
      have hk := ofText?_eq_none (w := name.toList) (c := c) (by simp [hs]) (isUpper_not_isLower hc)
      rw [String.ofList_toList] at hk
      have hd : isDiceWord name.toList = false := hf ▸ hg
      simp only [isCapitalName, Bool.and_eq_true] at h
      simp [isPlainName, h.1, hk, hd]
  · intro _ ho
    rw [ht] at ho ⊢
    rw [hw]
    rcases h with h | h
    · exact hooks_name (isCapitalName_of_isPlainName h ho)
    · exact hooks_name h
  · intro hg
    have hd : isDiceWord name.toList = true := hf ▸ hg
    have hc : isCapitalName name.toList = true := by
      rcases h with h | h
      · simp [isPlainName, hd] at h
      · exact h
    obtain ⟨c, t, hs, hc, _⟩ := isCapitalName_iff.mp hc
    simp [ht, hs, hc]

lemma spelt_var {loc : Location} {name : String}
    (h : isPlainName name = true ∨ isCapitalName name.toList = true)
    (hmin : (Expr.var loc name).isLeast look = false) : Spelt look (.var loc name) := by
  cases hl : look name with
  | none => exact spelt_name hl h
  | some v =>
    refine spelt_constant (v := v) (by simp [spelling, node, hl]) (by simp [labelWords, hl])
      (by simp [Expr.fill_var, Expr.fillNode, hl, Expr.isGlued_constant]) ?_
    rintro rfl
    simp [Expr.isLeast, hl] at hmin

lemma spelt_unary {loc : Location} {op : UnaryOp} {operand : Expr}
    (hg : op ≠ .die → (operand.fill look).isGlued = false)
    (hd : Dashed (spellingAt look .best operand)) (h : Spelt look operand) :
    Spelt look (.unary loc op operand) := by
  by_cases hop : op = .die
  · subst hop
    obtain ⟨hne, hdie⟩ := h.die rfl
    refine .of_reads ?_ rfl fun hp => absurd hp (by simp [Expr.precedence, UnaryOp.precedence,
      Precedence.rank])
    have hw : labelWords look (.unary loc .die operand) =
        .keyword .d :: labelWordsAt look .unary operand := by
      rw [labelWords]
      rfl
    have ht : spelling look (.unary loc .die operand) =
        (thrown "" (enclose operand .unary (node look operand))).toList := by
      simp [spelling, node, unary, operandLevel]
    rw [Says, ht, hw]
    exact reads_die hne hdie
  · have hne := (reads_enclosed (h.reads (hg hop)) .best).ne_nil (labelWordsAt_ne_nil look _ operand)
    refine .of_reads (reads_unary hop (fun _ => hd.ne_dash hne) (h.reads (hg hop))) rfl fun hp => ?_
    cases op with
    | count => simp [spelling, node, unary, opening, hooksOn]
    | convert k => cases k <;> simp [spelling, node, unary, opening, Kind.keyword, hooksOn]
    | reorder r => cases r <;> simp [spelling, node, unary, opening, Reorder.keyword, hooksOn]
    | _ => exact absurd hp (by simp [Expr.precedence, UnaryOp.precedence, Precedence.rank])

lemma spelt_binary {loc : Location} {op : BinaryOp} {left right : Expr}
    (hgl : op ≠ .subscript → (left.fill look).isGlued = false)
    (hgr : op ≠ .dice → (right.fill look).isGlued = false) (hl : Spelt look left)
    (hr : Spelt look right) : Spelt look (.binary loc op left right) := by
  by_cases hs : op = .subscript
  · subst hs
    obtain ⟨s, ls, hx, ht, hw⟩ := exists_suffix_subscript (hr.reads (hgr (by simp)))
    exact hl.suffix hx ht hw rfl
  · have hl' := hl.reads (hgl hs)
    have hg : ((Expr.binary loc op left right).fill look).isGlued = false := by
      cases op with
      | subscript => exact absurd rfl hs
      | _ => rfl
    have hrank : (Expr.binary loc op left right).precedence.rank < Precedence.unary.rank := by
      cases op with
      | subscript => exact absurd rfl hs
      | arithmetic op => cases op <;> simp [Expr.precedence, BinaryOp.precedence, Precedence.rank]
      | _ => simp [Expr.precedence, BinaryOp.precedence, Precedence.rank]
    refine .of_reads ?_ hg fun hp => absurd hp (Nat.not_le.mpr hrank)
    by_cases hd : op = .dice
    · subst hd
      obtain ⟨hne, hh⟩ := hr.die rfl
      have ha := reads_enclosed hl' .unary
      have ht := spelling_binary look loc left right hs
      rw [Says, ht, labelWords_binary look left right hs]
      exact reads_dice ha (ha.ne_nil (labelWordsAt_ne_nil look .unary left)) hne hh
    · exact reads_binary hd hs hl' (hr.reads (hgr hd))

lemma spelt (e : Expr) (h : e.WellFormed)
    (hmin : ∀ n, Expr.Within n e → n.isLeast look = false) : Spelt look e := by
  induction e using Expr.children_induction with
  | step e ih =>
    obtain ⟨hr, hc⟩ := Expr.wellFormed_iff.mp h
    obtain ⟨hme, hmc⟩ := Expr.forall_within.mp hmin
    replace ih : ∀ c ∈ e.children, Spelt look c := fun c hm => ih c hm (hc c hm) (hmc c hm)
    have reads {c : Expr} (hm : c ∈ e.children) (hg : c.isGlued = false) : Says look c :=
      (ih c hm).reads (Expr.isGlued_fill hg)
    have weak {e : Expr} {p : Precedence} (h : e.precedence = p) (hp : p.rank < 17) :
        Precedence.unary.rank ≤ e.precedence.rank → hooksOn (spelling look e) = false :=
      fun hp' => absurd hp' (Nat.not_le.mpr (h ▸ hp))
    cases e with
    | scalar loc v => exact spelt_scalar hr
    | interpolation loc fs =>
      exact .of_reads (fun rest _ => readings_interpolated hr.1 rest) rfl fun _ => by
        simp [spelling, node, interpolated, hooksOn]
    | list loc items =>
      exact .of_reads (reads_list fun e hm => reads hm (hr e hm)) rfl fun _ => by
        simp [spelling, node, hooksOn]
    | map loc entries =>
      refine .of_reads (reads_map fun x hm => reads ?_ (hr x hm)) rfl fun _ => by
        simp [spelling, node, hooksOn]
      exact List.mem_map_of_mem hm
    | lambda loc params body =>
      refine .of_reads (reads_lambda (fun x hm => (hr.1 x hm).1) (fun x hm e he => reads ?_
        ((hr.1 x hm).2 e he)) (reads (by simp [Expr.children]) hr.2)) rfl fun _ => by
        simp [spelling, node, hooksOn]
      exact List.mem_cons_of_mem _ (List.mem_filterMap.mpr ⟨x, hm, he⟩)
    | unary loc op operand =>
      have hm : operand ∈ (Expr.unary loc op operand).children := by simp [Expr.children]
      exact spelt_unary (fun hop => Expr.isGlued_fill (hr.2 hop))
        (dashed_at (dashed_spelling operand (hc _ hm) (hmc _ hm))) (ih operand hm)
    | binary loc op left right =>
      exact spelt_binary (fun hop => Expr.isGlued_fill (hr.1 hop))
        (fun hop => Expr.isGlued_fill (hr.2 hop)) (ih left (by simp [Expr.children]))
        (ih right (by simp [Expr.children]))
    | forEach loc index item out container condition =>
      obtain ⟨hi, hx, ho, hk, hd⟩ := hr
      exact .of_reads (reads_forEach hi hx (reads (by simp [Expr.children]) ho)
        (reads (by simp [Expr.children]) hk) fun e he => reads
          (by simp [Expr.children, Option.mem_def.mp he]) (hd e he)) rfl
        (weak rfl (p := .control) (by decide))
    | repeating loc form body condition limit =>
      obtain ⟨hb, hk, hl, _⟩ := hr
      exact .of_reads (reads_repeating (reads (by simp [Expr.children]) hb)
        (reads (by simp [Expr.children]) hk) fun e he => reads
          (by simp [Expr.children, Option.mem_def.mp he]) (hl e he)) rfl
        (weak rfl (p := .control) (by decide))
    | conditional loc condition whenTrue whenFalse =>
      obtain ⟨hk, ht, hf⟩ := hr
      exact .of_reads (reads_conditional (reads (by simp [Expr.children]) hk)
        (reads (by simp [Expr.children]) ht) (reads (by simp [Expr.children]) hf)) rfl
        (weak rfl (p := .control) (by decide))
    | call loc callee positional named =>
      obtain ⟨s, ls, hx, ht, hw⟩ := exists_suffix_call loc callee
        (fun e hm => reads (by simp [Expr.children, hm]) (hr.1 e hm))
        (fun x hm => ⟨(hr.2 x hm).1, reads (List.mem_cons_of_mem _ (List.mem_append_right _
          (List.mem_map_of_mem hm))) (hr.2 x hm).2⟩)
      exact (ih callee (by simp [Expr.children])).suffix hx ht hw rfl
    | scopeVariables loc which =>
      have ht : spelling look (.scopeVariables loc which) = which.word.text.toList := by
        rw [which.word_text]
        rfl
      refine .of_reads ?_ rfl fun _ => by rw [ht]; cases which <;> decide
      rw [Says, ht, labelWords]
      intro rest hrest
      refine readings_keyword _ (hrest ?_)
      cases which <;> decide
    | output loc mode expression type name =>
      exact .of_reads (reads_output (reads (by simp [Expr.children]) hr.1) fun e he => reads
        (by simp [Expr.children, Option.mem_def.mp he])
        (Expr.isLiteral_not_isGlued (hr.2 e he))) rfl (weak rfl (p := .output) (by decide))
    | importing loc space address =>
      exact .of_reads (reads_importing hr.1 (reads (by simp [Expr.children]) hr.2)) rfl
        (weak rfl (p := .output) (by decide))
    | var loc name => exact spelt_var hr hme

end DiceLang.Printer

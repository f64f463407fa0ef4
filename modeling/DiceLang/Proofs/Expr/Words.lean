import DiceLang.Proofs.Expr.Bare
import DiceLang.Proofs.Token.Reading

/-! The words of an expression: what its text says to a reader who sees tokens and no characters. In a
label some names stand for scalars, and the scalars are written in their place. -/

namespace DiceLang

def Selector.word : Selector → Keyword
  | .highest => .highest
  | .lowest => .lowest
  | .first => .first
  | .last => .last

def Kind.word : Kind → Keyword
  | .undefined => .undef
  | .string => .string
  | .boolean => .boolean
  | .number => .number
  | .list => .list
  | .map => .map
  | .function => .fun

def Reorder.word : Reorder → Keyword
  | .sort => .sorted
  | .reverse => .reversed
  | .shuffle => .shuffled

def ScopeSelector.word : ScopeSelector → Keyword
  | .inner => .local
  | .outer => .outer
  | .outermost => .global

def OutputMode.word : OutputMode → Keyword
  | .roll => .roll
  | .sample => .sample

def OutputType.lexeme : OutputType → Lexeme
  | .native => .name "native"
  | .kind k => .keyword k.word

def Arithmetic.mark : Arithmetic → Mark
  | .add => .plus
  | .sub => .minus
  | .mul => .star
  | .div => .slash
  | .mod => .percent

def Comparison.mark : Comparison → Mark
  | .eq => .equal
  | .ne => .notEqual
  | .lt => .less
  | .gt => .greater
  | .le => .atMost
  | .ge => .atLeast

lemma Selector.word_text (s : Selector) : s.word.text = s.keyword := by cases s <;> rfl

lemma Kind.word_text (k : Kind) : k.word.text = k.keyword := by cases k <;> rfl

lemma Reorder.word_text (r : Reorder) : r.word.text = r.keyword := by cases r <;> rfl

lemma ScopeSelector.word_text (s : ScopeSelector) : s.word.text = s.keyword := by cases s <;> rfl

lemma OutputMode.word_text (m : OutputMode) : m.word.text = m.keyword := by cases m <;> rfl

lemma Arithmetic.mark_text (op : Arithmetic) : op.mark.text = op.text := by cases op <;> rfl

lemma Comparison.mark_text (op : Comparison) : op.mark.text = op.text := by cases op <;> rfl

def BinaryOp.joint : BinaryOp → Lexeme
  | .arithmetic op => .mark op.mark
  | .compare op => .mark op.mark
  | .same => .mark .same
  | .notSame => .mark .notSame
  | .and => .keyword .and
  | .or => .keyword .or
  | .append => .mark .append
  | .indexOf => .keyword .in
  | .range => .mark .dots
  | .bestOf _ => .keyword .of
  | .drawMany => .keyword .from
  | .dice => .keyword .d
  | .assign => .mark .assign
  | .subscript => .mark .openBracket
  | .sequence => .mark .semicolon

namespace Printer

open Lexer (plainFragments)

def enclosed (e : Expr) (level : Precedence) (ws : List Lexeme) : List Lexeme :=
  if e.precedence.rank < level.rank then .mark .openParen :: (ws ++ [.mark .closeParen]) else ws

def commas : List (List Lexeme) → List Lexeme
  | [] => []
  | [ws] => ws
  | ws :: vs :: rest => ws ++ .mark .comma :: commas (vs :: rest)

def scalarWords : Scalar → List Lexeme
  | .undefined => [.keyword .undef]
  | .boolean true => [.keyword .true]
  | .boolean false => [.keyword .false]
  | .number n => [.number n]
  | .string s => [.text (plainFragments s)]

def keyWord (s : String) : Lexeme := if isPlainName s then .name s else .text (plainFragments s)

def openingWords : UnaryOp → List Lexeme
  | .plus => [.mark .plus]
  | .minus => [.mark .minus]
  | .not => [.keyword .not]
  | .best s => [.keyword s.word, .keyword .of]
  | .draw => [.keyword .draw, .keyword .from]
  | .die => [.keyword .d]
  | .count => [.keyword .count]
  | .convert k => [.keyword k.word]
  | .reorder r => [.keyword r.word]

def binaryWords (op : BinaryOp) (left right : List Lexeme) : List Lexeme :=
  match op with
  | .bestOf s => .keyword s.word :: (left ++ op.joint :: right)
  | .drawMany => .keyword .draw :: (left ++ op.joint :: right)
  | .subscript => left ++ op.joint :: (right ++ [.mark .closeBracket])
  | op => left ++ op.joint :: right

def operatorWords (op : BinaryOp) (entry : Option String) (left right : List Lexeme) : List Lexeme :=
  match op, entry with
  | .subscript, some name => left ++ [.mark .dot, .name name]
  | op, _ => binaryWords op left right

def indexWords : Option String → List Lexeme
  | some i => [.name i, .mark .comma]
  | none => []

def repeatWords (form : RepeatForm) (round test limit : List Lexeme) : List Lexeme :=
  match form with
  | .before => .keyword .while :: (test ++ .keyword .repeat :: (round ++ limit))
  | .after => .keyword .repeat :: (round ++ .keyword .while :: (test ++ limit))
  | .once => .keyword .repeat :: (round ++ .keyword .if :: test)

def optionalWords (lead : List Lexeme) : Option (List Lexeme) → List Lexeme
  | none => []
  | some ws => lead ++ ws

def argumentWord {α : Type} (f : α → List Lexeme) : Option String × α → List Lexeme
  | (none, e) => f e
  | (some name, e) => .name name :: .mark .colon :: f e

def paramWord {α : Type} (f : α → List Lexeme) (x : String × Option α) : List Lexeme :=
  .name x.1 :: optionalWords [.mark .colon] (x.2.map f)

def writtenDefault (e : Option Expr) : Option Expr := if isUndefined e then none else e

def writtenCondition (e : Option Expr) : Option Expr := if isTrue e then none else e

def callArguments {α : Type} (positional : List α) (named : List (String × α)) :
    List (Option String × α) :=
  (positional.map fun e => (none, e)) ++ named.map fun x => (some x.1, x.2)

def typeWords : Option OutputType → List Lexeme
  | some t => [.keyword .as, t.lexeme]
  | none => []

def spaceWords : Option String → List Lexeme
  | some s => [.name s, .mark .assign]
  | none => []

def constantWords : Scalar → List Lexeme
  | .number n => if n < 0 then [.mark .minus, .number (-n)] else [.number n]
  | v => scalarWords v

lemma eq_string_of_entryName {e : Expr} {name : String} (h : entryName? e = some name) :
    ∃ loc, e = .scalar loc (.string name) := by
  unfold entryName? at h
  split at h
  next loc s =>
    split at h
    · obtain rfl := Option.some.inj h
      exact ⟨loc, rfl⟩
    · simp at h
  · simp at h

lemma eq_var_of_isVar {name : String} {e : Expr} (h : isVar name e = true) :
    ∃ loc, e = .var loc name := by
  unfold isVar at h
  split at h
  next loc s =>
    exact ⟨loc, by rw [beq_iff_eq.mp h]⟩
  · simp at h

mutual

def labelWords (look : Lookup) : Expr → List Lexeme
  | .scalar _ v => scalarWords v
  | .interpolation _ fs => [.text fs]
  | .list _ items => .mark .openBracket :: (commas (wordsAll look items) ++ [.mark .closeBracket])
  | .map _ entries => .mark .openBrace :: (commas (entryWords look entries) ++ [.mark .closeBrace])
  | .lambda _ params body =>
    .keyword .fun :: .mark .openParen :: (commas (paramWords look params) ++
      .mark .closeParen :: .mark .openBrace :: (labelWords look body ++ [.mark .closeBrace]))
  | .unary _ op operand =>
    openingWords op ++ enclosed operand (operandLevel op) (labelWords look operand)
  | .binary _ op left right =>
    operatorWords op (entryName? right) (enclosed left (leftLevel op) (labelWords look left))
      (enclosed right (rightLevel op) (labelWords look right))
  | .forEach _ index item out container condition =>
    (if isVar item out then [] else enclosed out .or (labelWords look out)) ++ .keyword .for ::
      (indexWords index ++ .name item :: .keyword .in ::
        (enclosed container .or (labelWords look container) ++
          if isTrue condition then [] else clauseWords look [.keyword .if] .or condition))
  | .repeating _ form body condition limit =>
    repeatWords form (enclosed body .or (labelWords look body))
      (enclosed condition .or (labelWords look condition))
      (clauseWords look [.keyword .limit] .or limit)
  | .conditional _ condition whenTrue whenFalse =>
    .keyword .if :: (enclosed condition .or (labelWords look condition) ++ .keyword .then ::
      (enclosed whenTrue .or (labelWords look whenTrue) ++ .keyword .else ::
        enclosed whenFalse .control (labelWords look whenFalse)))
  | .call _ callee positional named =>
    enclosed callee .subscript (labelWords look callee) ++ .mark .openParen ::
      (commas (wordsAll look positional ++ argumentWords look named) ++ [.mark .closeParen])
  | .scopeVariables _ which => [.keyword which.word]
  | .output _ mode expression type name =>
    .keyword mode.word :: (enclosed expression .assign (labelWords look expression) ++
      (typeWords type ++ clauseWords look [] .atom name))
  | .importing _ space address =>
    .keyword .import :: (spaceWords space ++ enclosed address .assign (labelWords look address))
  | .var _ name =>
    match look name with
    | some v => constantWords v
    | none => [.name name]

def wordsAll (look : Lookup) : List Expr → List (List Lexeme)
  | [] => []
  | e :: es => labelWords look e :: wordsAll look es

def entryWords (look : Lookup) : List (String × Expr) → List (List Lexeme)
  | [] => []
  | (name, e) :: es => (keyWord name :: .mark .colon :: labelWords look e) :: entryWords look es

def argumentWords (look : Lookup) : List (String × Expr) → List (List Lexeme)
  | [] => []
  | (name, e) :: es => (.name name :: .mark .colon :: labelWords look e) :: argumentWords look es

def paramWords (look : Lookup) : List (String × Option Expr) → List (List Lexeme)
  | [] => []
  | (name, e) :: es =>
    (.name name :: if isUndefined e then [] else clauseWords look [.mark .colon] .sequence e) ::
      paramWords look es

def clauseWords (look : Lookup) (lead : List Lexeme) (level : Precedence) : Option Expr → List Lexeme
  | none => []
  | some e => lead ++ enclosed e level (labelWords look e)

end

def labelWordsAt (look : Lookup) (level : Precedence) (e : Expr) : List Lexeme :=
  enclosed e level (labelWords look e)

abbrev words (e : Expr) : List Lexeme := labelWords (fun _ => none) e

abbrev wordsAt (level : Precedence) (e : Expr) : List Lexeme := labelWordsAt (fun _ => none) level e

section

variable (look : Lookup)

lemma labelWords_binary {loc : Location} {op : BinaryOp} (left right : Expr) (h : op ≠ .subscript) :
    labelWords look (.binary loc op left right) =
      binaryWords op (labelWordsAt look (leftLevel op) left)
        (labelWordsAt look (rightLevel op) right) := by
  rw [labelWords, operatorWords]
  · rfl
  · rintro name rfl
    exact absurd rfl h

lemma wordsAll_eq (es : List Expr) : wordsAll look es = es.map (labelWords look) := by
  induction es with
  | nil => rfl
  | cons e es ih => rw [wordsAll, ih, List.map_cons]

lemma entryWords_eq (es : List (String × Expr)) :
    entryWords look es = es.map fun x => keyWord x.1 :: .mark .colon :: labelWords look x.2 := by
  induction es with
  | nil => rfl
  | cons e es ih => rw [entryWords, ih, List.map_cons]

lemma argumentWords_eq (es : List (String × Expr)) :
    argumentWords look es = es.map fun x => .name x.1 :: .mark .colon :: labelWords look x.2 := by
  induction es with
  | nil => rfl
  | cons e es ih => rw [argumentWords, ih, List.map_cons]

lemma clauseWords_eq (lead : List Lexeme) (level : Precedence) (e : Option Expr) :
    clauseWords look lead level e = optionalWords lead (e.map (labelWordsAt look level)) := by
  cases e with
  | none => rw [clauseWords, Option.map_none, optionalWords]
  | some e => rw [clauseWords, Option.map_some, optionalWords, labelWordsAt]

lemma labelWords_forEach (loc : Location) (index : Option String) (item : String)
    (out container : Expr) (condition : Option Expr) :
    labelWords look (.forEach loc index item out container condition) =
      (if isVar item out then [] else labelWordsAt look .or out) ++ .keyword .for ::
        (indexWords index ++ .name item :: .keyword .in :: (labelWordsAt look .or container ++
          optionalWords [.keyword .if] ((writtenCondition condition).map (labelWordsAt look .or)))) := by
  rw [labelWords, clauseWords_eq, writtenCondition]
  by_cases ht : isTrue condition = true
  · simp [ht, optionalWords, labelWordsAt]
  · simp [ht, labelWordsAt]

lemma labelWords_call (loc : Location) (callee : Expr) (positional : List Expr)
    (named : List (String × Expr)) :
    labelWords look (.call loc callee positional named) =
      labelWordsAt look .subscript callee ++ .mark .openParen ::
        (commas ((callArguments positional named).map (argumentWord (labelWords look))) ++
          [.mark .closeParen]) := by
  rw [labelWords, wordsAll_eq, argumentWords_eq]
  simp [callArguments, argumentWord, Function.comp_def, labelWordsAt]

lemma paramWords_eq (es : List (String × Option Expr)) :
    paramWords look es = es.map fun x => paramWord (labelWords look) (x.1, writtenDefault x.2) := by
  induction es with
  | nil => rfl
  | cons x es ih =>
    have hle (e : Expr) : enclosed e .sequence (labelWords look e) = labelWords look e :=
      if_neg (Nat.not_lt_zero _)
    obtain ⟨name, d⟩ := x
    rw [paramWords, ih, List.map_cons, paramWord, writtenDefault]
    by_cases hu : isUndefined d
    · simp [hu, optionalWords]
    · cases d <;> simp [hu, clauseWords, optionalWords, hle]

lemma labelWords_lambda (loc : Location) (params : List (String × Option Expr)) (body : Expr) :
    labelWords look (.lambda loc params body) = .keyword .fun :: .mark .openParen ::
      (commas (params.map fun x => paramWord (labelWords look) (x.1, writtenDefault x.2)) ++
        .mark .closeParen :: .mark .openBrace :: (labelWords look body ++ [.mark .closeBrace])) := by
  rw [labelWords, paramWords_eq]

lemma constantWords_ne_nil (v : Scalar) : constantWords v ≠ [] := by
  cases v with
  | number n => by_cases hn : n < 0 <;> simp [constantWords, hn]
  | boolean b => cases b <;> simp [constantWords, scalarWords]
  | _ => simp [constantWords, scalarWords]

lemma labelWords_ne_nil (e : Expr) : labelWords look e ≠ [] := by
  cases e with
  | scalar loc v =>
    rcases v with _ | s | b | n
    case boolean => cases b <;> simp [labelWords, scalarWords]
    all_goals simp [labelWords, scalarWords]
  | unary loc op operand => cases op <;> simp [labelWords, openingWords]
  | binary loc op left right =>
    by_cases hs : op = .subscript
    · subst hs
      cases hn : entryName? right <;> simp [labelWords, operatorWords, binaryWords, hn]
    · rw [labelWords_binary look left right hs]
      cases op <;> simp [binaryWords]
  | repeating loc form body condition limit => cases form <;> simp [labelWords, repeatWords]
  | var loc name =>
    rw [labelWords]
    split
    · exact constantWords_ne_nil _
    · simp
  | _ => simp [labelWords]

lemma labelWordsAt_ne_nil (level : Precedence) (e : Expr) : labelWordsAt look level e ≠ [] := by
  rw [labelWordsAt, enclosed]
  split
  · simp
  · exact labelWords_ne_nil look e

end

end Printer

end DiceLang

import DiceLang.Expr.Parser
import DiceLang.Proofs.Expr.Tree
import DiceLang.Proofs.Token.Reading

/-! What every tree that comes from a text has in common. Names stand for themselves, except that a name
that would be read as dice may follow a `d`: `dXd6` is `d` before the name `Xd6`. -/

namespace DiceLang

def Lexer.isCapitalName (s : List Char) : Bool := isIdentifier s && s.head?.any Char.isUpper

def UnaryOp.isWritten : UnaryOp → Bool
  | .convert k => k != .undefined && k != .function
  | _ => true

namespace Expr

/-- Whether the text of the expression begins with a name that would be read as dice. -/
def isGlued : Expr → Bool
  | .var _ name => Printer.isDiceWord name.toList
  | .call _ callee _ _ => callee.isGlued
  | .binary _ .subscript left _ => left.isGlued
  | _ => false

def isLiteral : Expr → Bool
  | .scalar _ (.string _) => true
  | .interpolation .. => true
  | _ => false

def Regular : Expr → Prop
  | .scalar _ (.number n) => 0 ≤ n
  | .scalar .. | .scopeVariables .. => True
  | .interpolation _ fs => Lexer.tidy fs = true ∧ Parser.plainText? fs = none
  | .list _ items => ∀ e ∈ items, e.isGlued = false
  | .map _ entries => ∀ x ∈ entries, x.2.isGlued = false
  | .lambda _ params body =>
    (∀ x ∈ params, Printer.isPlainName x.1 = true ∧ ∀ e ∈ x.2, e.isGlued = false) ∧
      body.isGlued = false
  | .unary _ op operand => op.isWritten = true ∧ (op ≠ .die → operand.isGlued = false)
  | .binary _ op left right =>
    (op ≠ .subscript → left.isGlued = false) ∧ (op ≠ .dice → right.isGlued = false)
  | .forEach _ index item out container condition =>
    (∀ i ∈ index, Printer.isPlainName i = true) ∧ Printer.isPlainName item = true ∧
      out.isGlued = false ∧ container.isGlued = false ∧ ∀ e ∈ condition, e.isGlued = false
  | .repeating _ form body condition limit =>
    body.isGlued = false ∧ condition.isGlued = false ∧ (∀ e ∈ limit, e.isGlued = false) ∧
      (form = .once → ∃ loc, limit = some (.scalar loc (.number 1)))
  | .conditional _ condition whenTrue whenFalse =>
    condition.isGlued = false ∧ whenTrue.isGlued = false ∧ whenFalse.isGlued = false
  | .call _ _ positional named =>
    (∀ e ∈ positional, e.isGlued = false) ∧
      ∀ x ∈ named, Printer.isPlainName x.1 = true ∧ x.2.isGlued = false
  | .output _ _ expression _ name =>
    expression.isGlued = false ∧ ∀ e ∈ name, e.isLiteral = true
  | .importing _ space address =>
    (∀ s ∈ space, Printer.isPlainName s = true) ∧ address.isGlued = false
  | .var _ name => Printer.isPlainName name = true ∨ Lexer.isCapitalName name.toList = true

def WellFormed (e : Expr) : Prop := ∀ n, Within n e → n.Regular

lemma wellFormed_iff {e : Expr} : e.WellFormed ↔ e.Regular ∧ ∀ c ∈ e.children, c.WellFormed :=
  forall_within

lemma WellFormed.within {n e : Expr} (h : e.WellFormed) (hn : Within n e) : n.WellFormed :=
  fun m hm => h m (hm.trans hn)

lemma WellFormed.regular {e : Expr} (h : e.WellFormed) : e.Regular := h e .self

lemma WellFormed.child {c e : Expr} (h : e.WellFormed) (hc : c ∈ e.children) : c.WellFormed :=
  (wellFormed_iff.mp h).2 c hc

lemma isLiteral_not_isGlued {e : Expr} (h : e.isLiteral = true) : e.isGlued = false := by
  cases e <;> simp_all [isLiteral, isGlued]

end Expr

end DiceLang

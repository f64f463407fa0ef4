/-! Places in a source text. A position counts lines and columns from one, columns in characters
and offsets in bytes of UTF-8. -/

namespace DiceLang

structure Position where
  line : Nat
  column : Nat
  offset : Nat
deriving DecidableEq, Inhabited

namespace Position

def start : Position := ⟨1, 1, 0⟩

def next (p : Position) (c : Char) : Position :=
  if c = '\n' then ⟨p.line + 1, 1, p.offset + c.utf8Size⟩
  else ⟨p.line, p.column + 1, p.offset + c.utf8Size⟩

def after (p : Position) (text : List Char) : Position :=
  text.foldl next p

@[simp] theorem after_nil (p : Position) : p.after [] = p := rfl

@[simp] theorem after_cons (p : Position) (c : Char) (text : List Char) :
    p.after (c :: text) = (p.next c).after text := rfl

theorem after_append (p : Position) (s t : List Char) :
    p.after (s ++ t) = (p.after s).after t := by
  simp [after]

end Position

structure Span where
  first : Position
  last : Position
deriving DecidableEq, Inhabited

namespace Span

def length (s : Span) : Nat := s.last.offset - s.first.offset

def isEmpty (s : Span) : Bool := s.length == 0

/-- The smallest span that covers both. Where both begin or end at one offset, the places of `s`
are kept. -/
def union (s t : Span) : Span where
  first := if t.first.offset < s.first.offset then t.first else s.first
  last := if s.last.offset < t.last.offset then t.last else s.last

end Span

structure Location where
  source : String
  span : Span
deriving DecidableEq, Inhabited

namespace Location

def builtin : Location := ⟨"<builtin>", ⟨⟨0, 0, 0⟩, ⟨0, 0, 0⟩⟩⟩

def upTo (a b : Location) : Location := ⟨a.source, a.span.union b.span⟩

def text (a : Location) : String :=
  a.source ++ ":" ++ toString a.span.first.line ++ ":" ++ toString a.span.first.column

end Location

end DiceLang

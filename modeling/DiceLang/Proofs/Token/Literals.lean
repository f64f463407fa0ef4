import DiceLang.Proofs.Token.Tiling

/-! String literals written out and read again. What the lexer finds in a literal, of whatever text, is
tidy, and tidy fragments are read back from their interpolation as they are. -/

namespace DiceLang

namespace Lexer

def sole (text : String) (l : Lexeme) : List Token :=
  let finish := Position.start.after text.toList
  [⟨l, ⟨.start, finish⟩⟩, ⟨.eof, ⟨finish, finish⟩⟩]

/-- The fragments are read from a literal of some text. The rest of that text may hold anything. -/
def Found (fs : List Fragment) : Prop :=
  ∃ text : String, ∃ p ∈ pieces text.toList, p.reading = .lexeme (.text fs)

variable {fs : List Fragment} {text : String}

lemma Found.tidy (h : Found fs) : tidy fs = true := by
  obtain ⟨text, p, hp, hread⟩ := h
  have hsaid : Reading.lexeme (.text fs) ∈ readings text.toList :=
    List.mem_filter.mpr ⟨List.mem_map.mpr ⟨p, hp, hread⟩, by simp⟩
  exact fits_of_clean (clean_readings text.toList) (List.mem_filterMap.mpr ⟨_, hsaid, rfl⟩)

lemma found_of_lex {tokens : List Token} (h : lex text = .ok tokens)
    (hm : .text fs ∈ tokens.map Token.lexeme) : Found fs := by
  obtain ⟨-, rfl⟩ := lex_eq_ok h
  rw [List.map_append, tokens_lexeme, List.mem_append] at hm
  rcases hm with hm | hm
  · obtain ⟨r, hr, hfs⟩ := List.mem_filterMap.mp hm
    obtain ⟨p, hp, rfl⟩ := List.mem_map.mp (List.mem_filter.mp hr).1
    refine ⟨text, p, hp, ?_⟩
    cases hread : p.reading with
    | blank | problem => rw [hread] at hfs; cases hfs
    | lexeme l => rw [hread] at hfs; exact congrArg _ (Option.some.inj hfs)
  · cases List.mem_singleton.mp hm

lemma lex_interpolated (h : tidy fs = true) :
    lex (Printer.interpolated fs) = .ok (sole (Printer.interpolated fs) (.text fs)) := by
  have hp := pieces_interpolated h []
  rw [List.append_nil, pieces] at hp
  rw [lex, hp]
  rfl

end Lexer

/-- Quoted text is read as that text and nothing else, from the first quote to the last. The fragments that
literals are read as are exactly those that come back unchanged when they are written as an interpolation. -/
theorem literals_read_back :
    (∀ s : String, lex (Printer.quoted s) =
      .ok (Lexer.sole (Printer.quoted s) (.text (if s = "" then [] else [.text s])))) ∧
    ∀ fs : List Fragment, Lexer.Found fs ↔
      lex (Printer.interpolated fs) = .ok (Lexer.sole (Printer.interpolated fs) (.text fs)) := by
  refine ⟨fun s => ?_, fun fs => ⟨fun h => Lexer.lex_interpolated h.tidy, fun h => ?_⟩⟩
  · rw [Lexer.quoted_eq_interpolated]
    exact Lexer.lex_interpolated (Lexer.tidy_plainFragments s)
  · exact Lexer.found_of_lex h List.mem_cons_self

example : Lexer.Found [.text "1\"", .hole "x"] := ⟨"? \"1\\\"\x7b x \x7d\" ?", by decide +kernel⟩

end DiceLang

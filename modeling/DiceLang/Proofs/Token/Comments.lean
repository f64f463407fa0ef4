import DiceLang.Proofs.Token.Names

/-! Comments. Two slashes begin one, up to the end of the line, wherever the lexer comes to them, unless a
carriage return stands in the line that no line feed follows. -/

namespace DiceLang

namespace Lexer

variable {c : Char} {s t before rest : List Char} {x : Piece} {front behind : List Piece}

def StrayReturn (s : List Char) : Prop :=
  ∃ line rest, s = line ++ '\r' :: rest ∧ (∀ c ∈ line, c ≠ '\r' ∧ c ≠ '\n') ∧ rest.head? ≠ some '\n'

def Reaches (before rest : List Char) : Prop :=
  ∃ ps, covered ps = before ∧ pieces (before ++ rest) = ps ++ pieces rest

lemma StrayReturn.of_cons (h : StrayReturn (c :: s)) (hc : c ≠ '\r') : StrayReturn s := by
  obtain ⟨line, rest, hs, hline, hrest⟩ := h
  cases line with
  | nil => exact absurd (List.cons.inj hs).1 hc
  | cons d line =>
    obtain ⟨-, rfl⟩ := List.cons.inj hs
    exact ⟨line, rest, rfl, (List.forall_mem_cons.mp hline).2, hrest⟩

lemma comment?_eq_none_iff : comment? ('/' :: '/' :: s) = none ↔ StrayReturn s := by
  simp only [comment?, drop_takeWhile]
  constructor
  · intro h
    split at h
    · cases h
    next rest hno hr =>
      refine ⟨s.takeWhile fun c => !isLineEnd c, rest, ?_, fun c hc => ?_, fun hd => ?_⟩
      · rw [← hr, List.takeWhile_append_dropWhile]
      · simpa [isLineEnd] using List.mem_takeWhile_imp hc
      · obtain ⟨rest, rfl⟩ := List.head?_eq_some_iff.mp hd
        exact hno rest rfl
    · cases h
  · rintro ⟨line, rest, rfl, hline, hrest⟩
    have hpos : ∀ c ∈ line, (!isLineEnd c) = true := fun c hc => by simpa [isLineEnd] using hline c hc
    have hdrop : (line ++ '\r' :: rest).dropWhile (fun c => !isLineEnd c) = '\r' :: rest := by
      rw [List.dropWhile_append_of_pos hpos]
      rfl
    rw [hdrop]
    split
    next heq =>
      obtain ⟨-, rfl⟩ := List.cons.inj heq
      exact absurd rfl hrest
    · rfl
    next hno =>
      exact absurd rfl (hno rest)

def slashPiece : Piece := ⟨['/'], .lexeme (.mark .slash)⟩

lemma markPiece_slash (s : List Char) : markPiece '/' s = slashPiece := by
  simp [markPiece, Mark.leading?, Mark.all, Mark.text, slashPiece]

lemma pieces_slash (h : comment? ('/' :: s) = none) : pieces ('/' :: s) = slashPiece :: pieces s := by
  have hleading : leading '/' s = [slashPiece] := by
    rw [leading, h, markPiece_slash]
    rfl
  rw [pieces, hleading]
  rfl

lemma pieces_two_slashes (h : StrayReturn s) :
    pieces ('/' :: '/' :: s) = slashPiece :: slashPiece :: pieces s := by
  have hnext : comment? ('/' :: s) = none := by
    cases s with
    | nil => rfl
    | cons c s =>
      by_cases hc : c = '/'
      · subst hc
        exact comment?_eq_none_iff.mpr (h.of_cons (by decide))
      · unfold comment?
        split
        · simp_all
        · rfl
  rw [pieces_slash (comment?_eq_none_iff.mpr h), pieces_slash hnext]

lemma reading_wordPieces {w : List Char} (m : Mark) : ∀ x ∈ wordPieces w, x.reading ≠ .lexeme (.mark m) := by
  have hdie (s : List Char) : ∀ x ∈ dieType s, x.reading ≠ .lexeme (.mark m) := by
    unfold dieType digitsPiece
    split
    · simp
    · split
      · split <;> simp
      · simp [namePiece]
  unfold wordPieces
  split
  · simp
  · split <;> try split
    all_goals simp [namePiece, diePiece]
    all_goals exact hdie _

lemma leading_of_slash (h : leading c t = front ++ x :: behind) (hx : x.reading = .lexeme (.mark .slash)) :
    c = '/' ∧ comment? (c :: t) = none ∧ front = [] ∧ x = slashPiece := by
  have hsingle {y : Piece} (h : [y] = front ++ x :: behind) : front = [] ∧ y = x := by
    cases front with
    | nil => exact ⟨rfl, (List.cons.inj h).1⟩
    | cons => simp at h
  unfold leading at h
  split at h
  · obtain ⟨-, rfl⟩ := hsingle h
    cases hx
  · split at h
    · obtain ⟨-, rfl⟩ := hsingle h
      cases hx
    · split at h
      · obtain ⟨-, rfl⟩ := hsingle h
        unfold quotedPiece at hx
        split at hx
        · cases hx
        · dsimp only at hx
          split at hx <;> cases hx
      · split at h
        · obtain ⟨-, rfl⟩ := hsingle h
          unfold digitsPiece at hx
          split at hx <;> cases hx
        · split at h
          · have hmem : x ∈ front ++ x :: behind := by simp
            rw [← h] at hmem
            exact absurd hx (reading_wordPieces _ x hmem)
          · obtain ⟨hfront, rfl⟩ := hsingle h
            unfold markPiece at hx
            cases hm : Mark.leading? (c :: t) with
            | some m =>
              rw [hm] at hx
              cases hx
              obtain rfl : '/' = c := by simpa [Mark.text] using List.find?_some hm
              exact ⟨rfl, ‹_›, hfront, markPiece_slash t⟩
            | none =>
              rw [hm] at hx
              cases hx

lemma eq_of_after_eq {a b a' b' : List Char} (h : a ++ b = a' ++ b')
    (hp : Position.start.after a = Position.start.after a') : a = a' := by
  have hlonger {u v : List Char} (hp : Position.start.after u = Position.start.after (u ++ v)) : v = [] := by
    by_contra hne
    have hlt := Position.offset_lt_after (Position.start.after u) hne
    rw [← Position.after_append, ← hp] at hlt
    exact lt_irrefl _ hlt
  rcases List.append_eq_append_iff.mp h with ⟨u, rfl, -⟩ | ⟨u, rfl, -⟩
  · rw [hlonger hp, List.append_nil]
  · rw [hlonger hp.symm, List.append_nil]

lemma slash_of_lex {text : String} {tokens : List Token} (h : lex text = .ok tokens) {a : Token}
    (ha : a ∈ tokens) (hl : a.lexeme = .mark .slash) : ∃ ps t, text.toList = covered ps ++ '/' :: t ∧
      pieces text.toList = ps ++ pieces ('/' :: t) ∧ comment? ('/' :: t) = none ∧
      a.span = ⟨Position.start.after (covered ps), Position.start.after (covered ps ++ ['/'])⟩ := by
  obtain ⟨before, behind, rfl⟩ := List.append_of_mem ha
  obtain ⟨ps, x, qs, hpieces, hx, hspan, -⟩ := exists_piece_of_lex h (by simp [hl])
  obtain ⟨rs, c, t, front, _, htext, hcomes, hleading, rfl⟩ := exists_leading hpieces
  obtain ⟨rfl, hcomment, rfl, rfl⟩ := leading_of_slash hleading (hl ▸ hx)
  rw [List.append_nil] at hspan
  exact ⟨rs, t, htext, hcomes, hcomment, hspan⟩

lemma stray_of_adjacent {text : String} {tokens : List Token} (h : lex text = .ok tokens) {a b : Token}
    (ha : a ∈ tokens) (hb : b ∈ tokens) (hla : a.lexeme = .mark .slash) (hlb : b.lexeme = .mark .slash)
    (hab : a.span.last = b.span.first) : ∃ ps s, text.toList = covered ps ++ '/' :: '/' :: s ∧
      pieces text.toList = ps ++ pieces ('/' :: '/' :: s) ∧ StrayReturn s ∧
      a.span.first = Position.start.after (covered ps) := by
  obtain ⟨ps, t, htext, hcomes, hcomment, hspan⟩ := slash_of_lex h ha hla
  obtain ⟨ps', s, htext', -, -, hspan'⟩ := slash_of_lex h hb hlb
  rw [hspan, hspan'] at hab
  have hends : (covered ps ++ ['/']) ++ t = covered ps' ++ '/' :: s := by
    rw [List.append_assoc, ← htext', htext]
    rfl
  rw [← eq_of_after_eq hends hab] at hends
  obtain rfl := List.append_cancel_left hends
  exact ⟨ps, s, htext, hcomes, comment?_eq_none_iff.mp hcomment, by rw [hspan]⟩

end Lexer

open Lexer in
/-- Two slashes that touch are tokens exactly where the lexer comes to `//` and the first carriage return or
line feed behind it is a carriage return without a line feed. Where every carriage return of the text is
followed by a line feed there are none. -/
theorem adjacent_slashes_iff_stray_return {text : String} {tokens : List Token}
    (h : lex text = .ok tokens) :
    (∀ before rest, text.toList = before ++ rest →
      ((∃ a ∈ tokens, ∃ b ∈ tokens, a.lexeme = .mark .slash ∧ b.lexeme = .mark .slash ∧
          a.span.first = Position.start.after before ∧ a.span.last = b.span.first) ↔
        Reaches before rest ∧ ∃ s, rest = '/' :: '/' :: s ∧ StrayReturn s)) ∧
    ((∀ before rest, text.toList = before ++ '\r' :: rest → rest.head? = some '\n') →
      ∀ a ∈ tokens, ∀ b ∈ tokens, a.lexeme = .mark .slash → b.lexeme = .mark .slash →
        a.span.last ≠ b.span.first) := by
  refine ⟨fun before rest htext => ⟨?_, ?_⟩, fun hreturns a ha b hb hla hlb hab => ?_⟩
  · rintro ⟨a, ha, b, hb, hla, hlb, hfirst, hab⟩
    obtain ⟨ps, s, htext', hcomes, hstray, hfirst'⟩ := stray_of_adjacent h ha hb hla hlb hab
    obtain rfl := eq_of_after_eq (htext'.symm.trans htext) (hfirst'.symm.trans hfirst)
    obtain rfl := List.append_cancel_left (htext'.symm.trans htext)
    exact ⟨⟨ps, rfl, htext ▸ hcomes⟩, s, rfl, hstray⟩
  · rintro ⟨⟨ps, rfl, hcomes⟩, s, rfl, hstray⟩
    obtain ⟨-, rfl⟩ := lex_eq_ok h
    rw [htext, hcomes, pieces_two_slashes hstray, place_append, List.filterMap_append]
    let p := Position.start.after (covered ps)
    refine ⟨⟨.mark .slash, p, p.after ['/']⟩, ?_,
      ⟨.mark .slash, p.after ['/'], (p.after ['/']).after ['/']⟩, ?_, rfl, rfl, rfl, rfl⟩
    · exact List.mem_append_left _ (List.mem_append_right _ List.mem_cons_self)
    · exact List.mem_append_left _ (List.mem_append_right _ (List.mem_cons_of_mem _ List.mem_cons_self))
  · obtain ⟨ps, s, htext, -, ⟨line, rest, rfl, -, hrest⟩, -⟩ := stray_of_adjacent h ha hb hla hlb hab
    refine hrest (hreturns (covered ps ++ '/' :: '/' :: line) rest ?_)
    simpa using htext

theorem slashes_before_stray_return : ∃ tokens, lex "1 //\r" = .ok tokens ∧
    Lexer.Reaches ['1', ' '] ['/', '/', '\r'] ∧
    ∃ a ∈ tokens, ∃ b ∈ tokens, a.lexeme = .mark .slash ∧ b.lexeme = .mark .slash ∧
      a.span.first = ⟨1, 3, 2⟩ ∧ a.span.last = b.span.first := by
  have hlex : lex "1 //\r" = .ok [⟨.number 1, ⟨1, 1, 0⟩, ⟨1, 2, 1⟩⟩, ⟨.mark .slash, ⟨1, 3, 2⟩, ⟨1, 4, 3⟩⟩,
      ⟨.mark .slash, ⟨1, 4, 3⟩, ⟨1, 5, 4⟩⟩, ⟨.eof, ⟨1, 6, 5⟩, ⟨1, 6, 5⟩⟩] := by decide +kernel
  have hreaches : Lexer.Reaches ['1', ' '] ['/', '/', '\r'] :=
    ⟨[⟨['1'], .lexeme (.number 1)⟩, ⟨[' '], .blank⟩], rfl, by decide +kernel⟩
  have hstray : Lexer.StrayReturn ['\r'] := ⟨[], [], rfl, by simp, by simp⟩
  exact ⟨_, hlex, hreaches, ((adjacent_slashes_iff_stray_return hlex).1 ['1', ' '] ['/', '/', '\r'] rfl).mpr
    ⟨hreaches, _, rfl, hstray⟩⟩

theorem stray_return_uncovers_slashes :
    ((lex "1 //\r").toOption.map fun ts => ts.map Token.lexeme) =
      some [.number 1, .mark .slash, .mark .slash, .eof] ∧
    ((lex "1 //\r\n").toOption.map fun ts => ts.map Token.lexeme) = some [.number 1, .eof] := by
  decide +kernel

end DiceLang

import DiceLang.Proofs.Lists
import DiceLang.Proofs.Token.Lexemes

/-! Tokens tile their text. Read from the front, a text is a row of spaces, comments and slices of tokens,
and each place on the way says how much of the text lies before it. -/

namespace DiceLang

namespace Position

def Locates (p : Position) (text : List Char) : Prop :=
  ∃ before rest, text = before ++ rest ∧ p.offset = (String.ofList before).utf8ByteSize ∧
    p.line = 1 + before.count '\n' ∧ p.column = 1 + (before.rtakeWhile (· ≠ '\n')).length

lemma start_after (text : List Char) : start.after text =
    ⟨1 + text.count '\n', 1 + (text.rtakeWhile (· ≠ '\n')).length, (String.ofList text).utf8ByteSize⟩ := by
  induction text using List.reverseRecOn with
  | nil => rfl
  | append_singleton text c ih =>
    have hsize : (String.ofList (text ++ [c])).utf8ByteSize =
        (String.ofList text).utf8ByteSize + c.utf8Size := by simp
    rw [after_append, ih, after_cons, after_nil, next, hsize, List.count_append]
    by_cases hc : c = '\n'
    · rw [if_pos hc, List.rtakeWhile_concat_neg _ _ _ (by simp [hc]), hc]
      rfl
    · rw [if_neg hc, List.rtakeWhile_concat_pos _ _ _ (by simp [hc]), List.length_append,
        List.count_singleton, beq_false_of_ne hc]
      rfl

lemma locates_after (before rest : List Char) : (start.after before).Locates (before ++ rest) := by
  refine ⟨before, rest, rfl, ?_⟩
  rw [start_after]
  exact ⟨rfl, rfl, rfl⟩

lemma offset_after (p : Position) (text : List Char) :
    (p.after text).offset = p.offset + (String.ofList text).utf8ByteSize := by
  induction text generalizing p with
  | nil => rfl
  | cons c text ih =>
    have hnext : (p.next c).offset = p.offset + c.utf8Size := by
      rw [next]
      split <;> rfl
    have hsize : (String.ofList (c :: text)).utf8ByteSize =
        c.utf8Size + (String.ofList text).utf8ByteSize := by simp
    rw [after_cons, ih, hnext, hsize, Nat.add_assoc]

lemma offset_lt_after (p : Position) {text : List Char} (h : text ≠ []) :
    p.offset < (p.after text).offset := by
  obtain ⟨c, text, rfl⟩ := List.exists_cons_of_ne_nil h
  have hsize : (String.ofList (c :: text)).utf8ByteSize =
      c.utf8Size + (String.ofList text).utf8ByteSize := by simp
  have hpos := c.utf8Size_pos
  rw [offset_after, hsize]
  omega

lemma Locates.offset_le {p : Position} {text : String} (h : p.Locates text.toList) :
    p.offset ≤ text.utf8ByteSize := by
  obtain ⟨before, rest, htext, hoffset, -⟩ := h
  have hsize := congrArg String.utf8ByteSize (congrArg String.ofList htext)
  rw [String.ofList_toList, String.ofList_append, String.utf8ByteSize_append] at hsize
  omega

end Position

namespace Lexer

inductive Written : List Char → List Stroke → Prop
  | done : Written [] []
  | plain {c : Char} {s : List Char} {ks : List Stroke} : c ≠ '"' → c ≠ '\\' → c ≠ '\x7b' →
      Written s ks → Written (c :: s) (.char c :: ks)
  | escaped (c : Char) {s : List Char} {ks : List Stroke} : Written s ks →
      Written ('\\' :: c :: s) (.char (unescape c) :: ks)
  | hole {inside s : List Char} {ks : List Stroke} : '\x7d' ∉ inside → Written s ks →
      Written ('\x7b' :: (inside ++ '\x7d' :: s)) (.hole inside :: ks)

def Stroke.trimmed : Stroke → Stroke
  | .char c => .char c
  | .hole inside => .hole (Text.trim inside)

def Denotes (slice : List Char) : Lexeme → Prop
  | .name s => slice = s.toList ∧ isIdentifier slice = true
  | .number n => slice ≠ [] ∧ slice.all Char.isDigit = true ∧ (Decimal.ofDigits slice : Int) = n.toInt
  | .text fs => ∃ inside strokes, slice = '"' :: (inside ++ ['"']) ∧ Written inside strokes ∧
      tidy fs = true ∧ fs.flatMap fragmentStrokes = strokes.map Stroke.trimmed
  | .keyword k => slice = k.text.toList
  | .mark m => slice = m.text.toList
  | .eof => False

def AtLineEnd (s : List Char) : Prop :=
  s = [] ∨ ['\n'] <+: s ∨ ['\r', '\n'] <+: s

/-- From the place `p` on, the text is spaces, comments up to the end of their lines, and the slices of
the tokens one after another, with the end behind the last. -/
inductive Tiled : Position → List Char → List Token → Prop
  | finish (p : Position) : Tiled p [] [⟨.eof, ⟨p, p⟩⟩]
  | space {p : Position} {c : Char} {s : List Char} {ts : List Token} : isSpace c = true →
      Tiled (p.next c) s ts → Tiled p (c :: s) ts
  | comment {p : Position} {line s : List Char} {ts : List Token} :
      (∀ c ∈ line, c ≠ '\r' ∧ c ≠ '\n') → AtLineEnd s →
      Tiled (p.after ('/' :: '/' :: line)) s ts → Tiled p ('/' :: '/' :: (line ++ s)) ts
  | token {p : Position} {l : Lexeme} {slice s : List Char} {ts : List Token} : Denotes slice l →
      Tiled (p.after slice) s ts → Tiled p (slice ++ s) (⟨l, ⟨p, p.after slice⟩⟩ :: ts)

lemma Denotes.ne_nil {slice : List Char} {l : Lexeme} (h : Denotes slice l) : slice ≠ [] := by
  rintro rfl
  cases l with
  | name s => exact absurd h.2 (by decide)
  | number n => exact h.1 rfl
  | text fs =>
    obtain ⟨inside, strokes, hs, -⟩ := h
    cases hs
  | keyword k =>
    have hk := isIdentifier_keyword k
    rw [← (show [] = k.text.toList from h)] at hk
    exact absurd hk (by decide)
  | mark m =>
    have hm : [] = m.text.toList := h
    cases m <;> revert hm <;> decide
  | eof => exact h

section Tiled

variable {p : Position} {s : List Char} {ts : List Token}

lemma Tiled.spaces {blank : List Char} (hb : ∀ c ∈ blank, isSpace c = true)
    (h : Tiled (p.after blank) s ts) : Tiled p (blank ++ s) ts := by
  induction blank generalizing p with
  | nil => exact h
  | cons c blank ih =>
    rw [List.forall_mem_cons] at hb
    exact .space hb.1 (ih hb.2 h)

lemma Tiled.starts_behind (h : Tiled p s ts) : ∀ t ∈ ts, p.offset ≤ t.span.first.offset := by
  induction h with
  | finish p => simp
  | @space p c s ts _ _ ih =>
    have hlt := p.offset_lt_after (List.cons_ne_nil c [])
    exact fun t ht => hlt.le.trans (ih t ht)
  | @comment p line s ts _ _ _ ih =>
    have hlt := p.offset_lt_after (List.cons_ne_nil '/' ('/' :: line))
    exact fun t ht => hlt.le.trans (ih t ht)
  | @token p l slice s ts hd _ ih =>
    have hlt := p.offset_lt_after hd.ne_nil
    rw [List.forall_mem_cons]
    exact ⟨le_rfl, fun t ht => hlt.le.trans (ih t ht)⟩

lemma Tiled.in_order (h : Tiled p s ts) :
    ts.Pairwise fun a b => a.span.last.offset ≤ b.span.first.offset := by
  induction h with
  | finish p => exact List.pairwise_singleton _ _
  | space _ _ ih | comment _ _ _ ih => exact ih
  | token _ h ih => exact List.pairwise_cons.mpr ⟨h.starts_behind, ih⟩

lemma Tiled.ends (h : Tiled p s ts) : ∃ body, ts = body ++ [⟨.eof, ⟨p.after s, p.after s⟩⟩] ∧
    ∀ t ∈ body, t.lexeme ≠ .eof ∧ t.span.first.offset < t.span.last.offset := by
  induction h with
  | finish p => exact ⟨[], rfl, nofun⟩
  | space _ _ ih => exact ih
  | @comment p line s ts _ _ _ ih =>
    rw [← Position.after_append] at ih
    exact ih
  | @token p l slice s ts hd _ ih =>
    obtain ⟨body, rfl, hbody⟩ := ih
    refine ⟨⟨l, ⟨p, p.after slice⟩⟩ :: body, by rw [Position.after_append]; rfl, ?_⟩
    rw [List.forall_mem_cons]
    refine ⟨⟨?_, p.offset_lt_after hd.ne_nil⟩, hbody⟩
    rintro rfl
    exact hd

end Tiled

def covered (ps : List Piece) : List Char := ps.flatMap Piece.text

@[simp] lemma covered_nil : covered [] = [] := rfl

@[simp] lemma covered_cons (x : Piece) (ps : List Piece) : covered (x :: ps) = x.text ++ covered ps := rfl

lemma covered_singleton (x : Piece) : covered [x] = x.text := List.append_nil _

lemma covered_append (ps qs : List Piece) : covered (ps ++ qs) = covered ps ++ covered qs :=
  List.flatMap_append

lemma length_covered (ps : List Piece) : (covered ps).length = width ps := by
  induction ps with
  | nil => rfl
  | cons x ps ih => rw [covered_cons, List.length_append, ih, width]

lemma covered_dieType (s : List Char) : covered (dieType s) = s := by
  unfold dieType
  by_cases hs : s.isEmpty = true
  · rw [if_pos hs]
    exact (List.isEmpty_iff.mp hs).symm
  · rw [if_neg hs]
    split <;> simp [namePiece]

lemma covered_wordPieces (w : List Char) : covered (wordPieces w) = w := by
  unfold wordPieces
  split
  · simp
  · split <;> try split
    all_goals simp [namePiece, diePiece, covered_dieType]

lemma comment?_eq_some {s line : List Char} (h : comment? s = some line) :
    ∃ t rest, line = '/' :: '/' :: t ∧ s = line ++ rest ∧ (∀ c ∈ t, c ≠ '\r' ∧ c ≠ '\n') ∧
      AtLineEnd rest := by
  unfold comment? at h
  split at h
  next s =>
    let t := s.takeWhile fun c => !isLineEnd c
    have hrest : s.drop t.length = s.dropWhile fun c => !isLineEnd c := drop_takeWhile _ s
    have ht : ∀ c ∈ t, c ≠ '\r' ∧ c ≠ '\n' := by
      intro c hc
      simpa [isLineEnd] using List.mem_takeWhile_imp hc
    have hsplit : '/' :: '/' :: s = '/' :: '/' :: t ++ s.drop t.length := by
      rw [hrest]
      simp [t]
    dsimp only at h
    split at h
    next rest hr =>
      obtain rfl := Option.some.inj h
      exact ⟨t, _, rfl, hsplit, ht, .inr (.inr ⟨rest, hr.symm⟩)⟩
    · cases h
    next hcr hr =>
      obtain rfl := Option.some.inj h
      refine ⟨t, _, rfl, hsplit, ht, ?_⟩
      cases hd : s.drop t.length with
      | nil => exact .inl rfl
      | cons c rest =>
        -- the line ends here, and not with a carriage return alone
        have hend : isLineEnd c = true := by
          have hne : s.dropWhile (fun c => !isLineEnd c) ≠ [] := by simp [← hrest, hd]
          have hhead := List.head_dropWhile_not (fun c => !isLineEnd c) hne
          simpa [← hrest, hd] using hhead
        have hc : c ≠ '\r' := by
          rintro rfl
          exact hr _ hd
        obtain rfl : c = '\n' := by simpa [isLineEnd, hc] using hend
        exact .inr (.inl ⟨rest, rfl⟩)
  · cases h

lemma quotedPiece_text (s : List Char) : (quotedPiece s).text <+: '"' :: s := by
  unfold quotedPiece
  split
  · exact List.prefix_rfl
  · dsimp only
    split <;> exact List.prefix_cons_inj _ |>.mpr (List.take_prefix _ _)

lemma markPiece_text (c : Char) (s : List Char) : (markPiece c s).text <+: c :: s := by
  unfold markPiece
  cases hm : Mark.leading? (c :: s) with
  | some m =>
    have hfound := List.find?_some hm
    exact List.isPrefixOf_iff_prefix.mp hfound
  | none => exact ⟨s, rfl⟩

lemma covered_leading (c : Char) (s : List Char) : covered (leading c s) <+: c :: s := by
  have hone (x : Piece) (h : x.text <+: c :: s) : covered [x] <+: c :: s := by simpa using h
  unfold leading
  split
  · exact hone _ ((List.prefix_cons_inj c).mpr (List.takeWhile_prefix _))
  · split
    next line hl =>
      obtain ⟨t, rest, -, hs, -⟩ := comment?_eq_some hl
      exact hone _ ⟨rest, hs.symm⟩
    · by_cases hc : c = '\"'
      · rw [if_pos hc]
        subst hc
        exact hone _ (quotedPiece_text s)
      · rw [if_neg hc]
        split
        · apply hone
          rw [digitsPiece_text]
          exact (List.prefix_cons_inj c).mpr (List.takeWhile_prefix _)
        · split
          · rw [covered_wordPieces]
            exact (List.prefix_cons_inj c).mpr (List.takeWhile_prefix _)
          · exact hone _ (markPiece_text c s)

lemma covered_leading_append (c : Char) (s : List Char) :
    covered (leading c s) ++ (c :: s).drop (width (leading c s)) = c :: s := by
  rw [← length_covered]
  exact List.prefix_iff_eq_append.mp (covered_leading c s)

lemma covered_pieces (s : List Char) : covered (pieces s) = s := by
  induction s using pieces.induct with
  | case1 => rw [pieces, covered_nil]
  | case2 c s front ih =>
    rw [pieces, covered_append]
    exact (congrArg _ ih).trans (covered_leading_append c s)

def Piece.Says (x : Piece) : Prop :=
  match x.reading with
  | .blank => False
  | .lexeme l => Denotes x.text l
  | .problem _ => True

lemma says_digitsPiece {s : List Char} (hne : s ≠ []) (hd : s.all Char.isDigit = true) :
    (digitsPiece s).Says := by
  unfold digitsPiece
  cases hn : Decimal.int64? s with
  | some n => exact ⟨hne, hd, toInt_of_int64? hd hn⟩
  | none => trivial

lemma says_namePiece {s : List Char} (h : isIdentifier s = true) : (namePiece s).Says :=
  ⟨String.toList_ofList.symm, h⟩

lemma says_dieType {s : List Char} (hw : s.all isWordChar = true) (hs : isDieSuffix s = true) :
    ∀ x ∈ dieType s, x.Says := by
  unfold dieType
  by_cases hne : s.isEmpty = true
  · rw [if_pos hne]
    nofun
  · rw [if_neg hne]
    rw [List.isEmpty_iff] at hne
    by_cases hd : s.all Char.isDigit = true
    · rw [if_pos hd]
      exact List.forall_mem_singleton.mpr (says_digitsPiece hne hd)
    · rw [if_neg hd]
      obtain ⟨c, t, rfl⟩ := List.exists_cons_of_ne_nil hne
      have hc : c.isUpper = true := by
        rw [isDieSuffix] at hs
        simp_all
      simp only [List.all_cons, Bool.and_eq_true] at hw
      refine List.forall_mem_singleton.mpr (says_namePiece ?_)
      rw [isIdentifier, isUpper_isLetter hc, hw.2]
      rfl

lemma says_diePiece : diePiece.Says := rfl

lemma says_wordPieces {w : List Char} (h : isIdentifier w = true) : ∀ x ∈ wordPieces w, x.Says := by
  have hw := List.all_eq_true.mpr (isWordChar_of_isIdentifier h)
  have hname := says_namePiece h
  unfold wordPieces
  split
  next k hk =>
    have htext : k.text = String.ofList w := by simpa using List.find?_some hk
    have hsaid : w = k.text.toList := by rw [htext, String.toList_ofList]
    exact List.forall_mem_singleton.mpr hsaid
  · split
    · simp only [List.all_cons, Bool.and_eq_true] at hw
      split
      next hs =>
        exact List.forall_mem_cons.mpr ⟨says_diePiece, says_dieType hw.2 hs⟩
      · exact List.forall_mem_singleton.mpr hname
    next c s _ _ =>
      simp only [List.all_cons, Bool.and_eq_true] at hw
      split
      next hs =>
        rw [Bool.and_eq_true] at hs
        have hc : isIdentifier [c] = true := by simp [isIdentifier, isUpper_isLetter hs.1]
        refine List.forall_mem_cons.mpr ⟨says_namePiece hc, ?_⟩
        exact List.forall_mem_cons.mpr ⟨says_diePiece, says_dieType hw.2.2 hs.2⟩
      · exact List.forall_mem_singleton.mpr hname
    · exact List.forall_mem_singleton.mpr hname

lemma says_markPiece (c : Char) (s : List Char) : (markPiece c s).Says := by
  unfold markPiece
  split
  · exact rfl
  · trivial

def ClosedBefore (rest s : List Char) (ks : List Stroke) : Option (List Char) → Prop
  | none => ∃ body, s = body ++ '"' :: rest ∧ Written body ks
  | some inside => ∃ more body ks', s = more ++ '\x7d' :: (body ++ '"' :: rest) ∧ '\x7d' ∉ more ∧
      ks = .hole (inside.reverse ++ more) :: ks' ∧ Written body ks'

lemma closedBefore_of_strokes {opened : Option (List Char)} {s rest : List Char} {ks : List Stroke}
    (h : strokes opened s = some (ks, rest)) : ClosedBefore rest s ks opened := by
  induction opened, s using strokes.induct generalizing ks with
  | case1 opened =>
    rw [strokes] at h
    cases h
  | case2 inside s ih =>
    rw [strokes, if_pos rfl] at h
    obtain ⟨⟨ks', rest'⟩, hs, heq⟩ := Option.map_eq_some_iff.mp h
    cases heq
    obtain ⟨body, rfl, hw⟩ := ih hs
    exact ⟨[], body, ks', rfl, List.not_mem_nil, by rw [List.append_nil], hw⟩
  | case3 inside c s hc ih =>
    rw [strokes, if_neg hc] at h
    obtain ⟨more, body, ks', rfl, hmore, rfl, hw⟩ := ih h
    refine ⟨c :: more, body, ks', rfl, ?_, ?_, hw⟩
    · rw [List.mem_cons]
      rintro (rfl | hin)
      · exact hc rfl
      · exact hmore hin
    · rw [List.reverse_cons, List.append_assoc]
      rfl
  | case4 s =>
    rw [strokes] at h
    cases h
    exact ⟨[], rfl, .done⟩
  | case5 c s ih =>
    rw [strokes] at h
    obtain ⟨⟨ks', rest'⟩, hs, heq⟩ := Option.map_eq_some_iff.mp h
    cases heq
    obtain ⟨body, rfl, hw⟩ := ih hs
    exact ⟨'\\' :: c :: body, rfl, .escaped c hw⟩
  | case6 =>
    rw [strokes] at h
    cases h
  | case7 s ih =>
    rw [strokes] at h
    obtain ⟨more, body, ks', rfl, hmore, rfl, hw⟩ := ih h
    refine ⟨'\x7b' :: (more ++ '\x7d' :: body), ?_, .hole hmore hw⟩
    rw [List.cons_append, List.append_assoc, List.cons_append]
  | case8 c s hquote hback hlone hbrace ih =>
    rw [strokes] at h
    · obtain ⟨⟨ks', rest'⟩, hs, heq⟩ := Option.map_eq_some_iff.mp h
      cases heq
      obtain ⟨body, rfl, hw⟩ := ih hs
      have hc : c ≠ '\\' := by
        rintro rfl
        cases body with
        | nil => exact hback _ _ rfl rfl
        | cons d body => exact hback _ _ rfl rfl
      exact ⟨c :: body, rfl, .plain hquote hc hbrace hw⟩
    all_goals assumption

lemma strokes_addChar (c : Char) (fs : List Fragment) :
    (addChar c fs).flatMap fragmentStrokes = .char c :: fs.flatMap fragmentStrokes := by
  cases fs with
  | nil => simp [addChar, fragmentStrokes]
  | cons f fs => cases f <;> simp [addChar, fragmentStrokes]

lemma strokes_of_fragments? {ks : List Stroke} {fs : List Fragment} (h : fragments? ks = some fs) :
    fs.flatMap fragmentStrokes = ks.map Stroke.trimmed := by
  induction ks generalizing fs with
  | nil =>
    obtain rfl := Option.some.inj h
    rfl
  | cons k ks ih =>
    cases k with
    | char c =>
      obtain ⟨gs, hg, rfl⟩ := Option.map_eq_some_iff.mp h
      rw [strokes_addChar, ih hg]
      rfl
    | hole inside =>
      rw [fragments?] at h
      split at h
      · obtain ⟨gs, hg, rfl⟩ := Option.map_eq_some_iff.mp h
        rw [List.flatMap_cons, ih hg, fragmentStrokes, String.toList_ofList]
        rfl
      · cases h

lemma says_quotedPiece (s : List Char) : (quotedPiece s).Says := by
  unfold quotedPiece
  split
  · trivial
  next ks rest hks =>
    obtain ⟨body, rfl, hw⟩ := closedBefore_of_strokes hks
    have htext : (body ++ '"' :: rest).take ((body ++ '"' :: rest).length - rest.length) =
        body ++ ['"'] := by
      have hlength : (body ++ '"' :: rest).length - rest.length = (body ++ ['"']).length := by
        simp only [List.length_append, List.length_cons, List.length_nil]
        omega
      rw [hlength, List.append_cons body '"' rest]
      exact List.take_left
    dsimp only
    cases hfs : fragments? ks with
    | some fs =>
      refine ⟨body, ks, ?_, hw, tidy_fragments? hfs, strokes_of_fragments? hfs⟩
      rw [htext]
    | none => trivial

lemma place_append (p : Position) (xs ys : List Piece) :
    place p (xs ++ ys) = place p xs ++ place (p.after (covered xs)) ys := by
  induction xs generalizing p with
  | nil => rfl
  | cons x xs ih =>
    rw [List.cons_append, place, place, ih, covered_cons, Position.after_append]
    rfl

lemma leading_cases (c : Char) (s : List Char) :
    (∃ blank, leading c s = [⟨blank, .blank⟩] ∧ ∀ d ∈ blank, isSpace d = true) ∨
      (∃ line, leading c s = [⟨line, .blank⟩] ∧ comment? (c :: s) = some line) ∨
      ∀ x ∈ leading c s, x.Says := by
  unfold leading
  by_cases hc : isSpace c = true
  · rw [if_pos hc]
    refine .inl ⟨_, rfl, List.forall_mem_cons.mpr ⟨hc, ?_⟩⟩
    intro d hd
    exact List.mem_takeWhile_imp hd
  · rw [if_neg hc]
    split
    next line hline =>
      exact .inr (.inl ⟨line, rfl, hline⟩)
    · refine .inr (.inr ?_)
      split
      · exact List.forall_mem_singleton.mpr (says_quotedPiece s)
      · split
        next hc =>
          have hdigits : (c :: s.takeWhile Char.isDigit).all Char.isDigit = true := by
            rw [List.all_cons, hc, List.all_takeWhile]
            rfl
          exact List.forall_mem_singleton.mpr (says_digitsPiece (List.cons_ne_nil _ _) hdigits)
        · split
          next hc =>
            apply says_wordPieces
            rw [isIdentifier, hc, List.all_takeWhile]
            rfl
          · exact List.forall_mem_singleton.mpr (says_markPiece c s)

section Tiled

variable {p : Position} {s : List Char} {ts : List Token}

lemma Tiled.pieces_append {ps : List Piece} (hsaid : ∀ x ∈ ps, x.Says)
    (hgood : (place p ps).filterMap error? = []) (h : Tiled (p.after (covered ps)) s ts) :
    Tiled p (covered ps ++ s) ((place p ps).filterMap token? ++ ts) := by
  induction ps generalizing p with
  | nil => exact h
  | cons x ps ih =>
    obtain ⟨hx, hps⟩ := List.forall_mem_cons.mp hsaid
    obtain ⟨text, reading⟩ := x
    rw [covered_cons, Position.after_append] at h
    rw [covered_cons, List.append_assoc]
    cases reading with
    | blank => exact hx.elim
    | problem q => cases hgood
    | lexeme l => exact .token hx (ih hps hgood h)

lemma Tiled.leading_append {c : Char} {rest : List Char} (hrest : covered (leading c s) ++ rest = c :: s)
    (hgood : (place p (leading c s)).filterMap error? = [])
    (h : Tiled (p.after (covered (leading c s))) rest ts) :
    Tiled p (c :: s) ((place p (leading c s)).filterMap token? ++ ts) := by
  rcases leading_cases c s with ⟨blank, heq, hblank⟩ | ⟨line, heq, hline⟩ | hsaid
  · rw [heq, covered_singleton] at h hrest
    rw [heq, ← hrest]
    exact h.spaces hblank
  · rw [heq, covered_singleton] at h hrest
    obtain ⟨t, behind, rfl, hs, ht, hend⟩ := comment?_eq_some hline
    obtain rfl := List.append_cancel_left (hrest.trans hs)
    rw [heq, ← hrest]
    exact .comment ht hend h
  · rw [← hrest]
    exact h.pieces_append hsaid hgood

lemma tiled_pieces (p : Position) (s : List Char)
    (hgood : (place p (pieces s)).filterMap error? = []) :
    Tiled p s ((place p (pieces s)).filterMap token? ++ [⟨.eof, ⟨p.after s, p.after s⟩⟩]) := by
  induction s using pieces.induct generalizing p with
  | case1 =>
    rw [pieces]
    exact .finish p
  | case2 c s front ih =>
    have hrest := covered_leading_append c s
    rw [pieces, place_append, List.filterMap_append, List.append_eq_nil_iff] at hgood
    have htail := ih _ hgood.2
    rw [← Position.after_append, hrest] at htail
    rw [pieces, place_append, List.filterMap_append, List.append_assoc]
    exact htail.leading_append hrest hgood.1

end Tiled

lemma place_eq_append {p : Position} {ps : List Piece} {front behind : List (Reading × Span)}
    {x : Reading × Span} (h : place p ps = front ++ x :: behind) :
    ∃ before piece rest, ps = before ++ piece :: rest ∧ front = place p before ∧
      x = (piece.reading, ⟨p.after (covered before), p.after (covered before ++ piece.text)⟩) := by
  induction ps generalizing p front with
  | nil => simp [place] at h
  | cons y ps ih =>
    cases front with
    | nil =>
      obtain ⟨rfl, -⟩ := List.cons.inj h
      exact ⟨[], y, ps, rfl, rfl, rfl⟩
    | cons z front =>
      obtain ⟨rfl, htail⟩ := List.cons.inj h
      obtain ⟨before, piece, rest, rfl, rfl, rfl⟩ := ih htail
      refine ⟨y :: before, piece, rest, rfl, rfl, ?_⟩
      rw [covered_cons, List.append_assoc, Position.after_append _ y.text, Position.after_append _ y.text]

lemma mem_place {p : Position} {ps : List Piece} {x : Reading × Span} (h : x ∈ place p ps) :
    ∃ before piece behind, ps = before ++ piece :: behind ∧
      x.2 = ⟨p.after (covered before), p.after (covered before ++ piece.text)⟩ := by
  obtain ⟨front, behind, h⟩ := List.append_of_mem h
  obtain ⟨before, piece, rest, rfl, -, rfl⟩ := place_eq_append h
  exact ⟨before, piece, rest, rfl, rfl⟩

lemma locates_place {text : List Char} {x : Reading × Span} (h : x ∈ place .start (pieces text)) :
    x.2.first.Locates text ∧ x.2.last.Locates text ∧ x.2.first.offset ≤ x.2.last.offset := by
  obtain ⟨before, piece, behind, hps, hx⟩ := mem_place h
  have htext : covered before ++ (piece.text ++ covered behind) = text := by
    rw [← covered_pieces text, hps, covered_append, covered_cons]
  rw [hx]
  refine ⟨?_, ?_, ?_⟩
  · rw [← htext]
    exact Position.locates_after _ _
  · rw [← htext, ← List.append_assoc]
    exact Position.locates_after _ _
  · dsimp only
    rw [Position.after_append, Position.offset_after (.after _ _)]
    exact Nat.le_add_right _ _

lemma span_token? {x : Reading × Span} {t : Token} (h : token? x = some t) : t.span = x.2 := by
  obtain ⟨reading, span⟩ := x
  cases reading <;> cases h
  rfl

lemma span_error? {x : Reading × Span} {e : LexicalError} (h : error? x = some e) : e.span = x.2 := by
  obtain ⟨reading, span⟩ := x
  cases reading <;> cases h
  rfl

lemma lex_eq_ok {text : String} {tokens : List Token} (h : lex text = .ok tokens) :
    (place .start (pieces text.toList)).filterMap error? = [] ∧
      tokens = (place .start (pieces text.toList)).filterMap token? ++
        [⟨.eof, ⟨Position.start.after text.toList, Position.start.after text.toList⟩⟩] := by
  unfold lex at h
  dsimp only at h
  split at h
  next hgood =>
    cases h
    exact ⟨List.isEmpty_iff.mp hgood, rfl⟩
  · cases h

lemma lex_eq_error {text : String} {errors : List LexicalError} (h : lex text = .error errors) :
    errors ≠ [] ∧ errors = (place .start (pieces text.toList)).filterMap error? := by
  unfold lex at h
  dsimp only at h
  split_ifs at h with hbad
  cases h
  exact ⟨fun hnil => hbad (List.isEmpty_iff.mpr hnil), rfl⟩

lemma tiled_of_lex {text : String} {tokens : List Token} (h : lex text = .ok tokens) :
    Tiled .start text.toList tokens := by
  obtain ⟨hgood, rfl⟩ := lex_eq_ok h
  exact tiled_pieces .start text.toList hgood

lemma exists_piece_of_lex {text : String} {before behind : List Token} {t : Token}
    (h : lex text = .ok (before ++ t :: behind)) (ht : t.lexeme ≠ .eof) :
    ∃ ps x qs, pieces text.toList = ps ++ x :: qs ∧ x.reading = .lexeme t.lexeme ∧
      t.span = ⟨Position.start.after (covered ps), Position.start.after (covered ps ++ x.text)⟩ ∧
      before = (place .start ps).filterMap token? := by
  obtain ⟨-, htokens⟩ := lex_eq_ok h
  obtain ⟨rest, htokens⟩ : ∃ rest, (place .start (pieces text.toList)).filterMap token? =
      before ++ t :: rest := by
    rcases List.eq_nil_or_concat behind with rfl | ⟨rest, z, rfl⟩
    · obtain ⟨-, hlast⟩ := List.append_inj' htokens rfl
      rw [(List.cons.inj hlast).1] at ht
      exact absurd rfl ht
    · rw [List.concat_eq_append, ← List.cons_append, ← List.append_assoc] at htokens
      exact ⟨rest, (List.append_inj' htokens rfl).1.symm⟩
  obtain ⟨l, l', hplace, rfl, hbehind⟩ := List.filterMap_eq_append_iff.mp htokens
  obtain ⟨k, x, k', rfl, hk, hx, -⟩ := List.filterMap_eq_cons_iff.mp hbehind
  rw [← List.append_assoc] at hplace
  obtain ⟨ps, piece, qs, hps, hfront, rfl⟩ := place_eq_append hplace
  refine ⟨ps, piece, qs, hps, ?_, span_token? hx, ?_⟩
  · cases hread : piece.reading <;> rw [hread] at hx <;> cases hx
    rfl
  · rw [← hfront, List.filterMap_append, List.filterMap_eq_nil_iff.mpr hk, List.append_nil]

lemma locates_of_lex {text : String} {tokens : List Token} (h : lex text = .ok tokens) {t : Token}
    (ht : t ∈ tokens) : t.span.first.Locates text.toList ∧ t.span.last.Locates text.toList := by
  obtain ⟨-, rfl⟩ := lex_eq_ok h
  rcases List.mem_append.mp ht with ht | ht
  · obtain ⟨x, hx, hxt⟩ := List.mem_filterMap.mp ht
    obtain ⟨hfirst, hlast, -⟩ := locates_place hx
    rw [span_token? hxt]
    exact ⟨hfirst, hlast⟩
  · have hfinish := Position.locates_after text.toList []
    rw [List.append_nil] at hfinish
    rw [List.mem_singleton.mp ht]
    exact ⟨hfinish, hfinish⟩

lemma locates_of_lex_error {text : String} {errors : List LexicalError} (h : lex text = .error errors)
    {e : LexicalError} (he : e ∈ errors) :
    e.span.first.Locates text.toList ∧ e.span.last.Locates text.toList ∧
      e.span.first.offset ≤ e.span.last.offset := by
  obtain ⟨-, rfl⟩ := lex_eq_error h
  obtain ⟨x, hx, hxe⟩ := List.mem_filterMap.mp he
  rw [span_error? hxe]
  exact locates_place hx

end Lexer

/-- Every token of a text is read from the slice that its span marks, with nothing but spaces and comments
between the slices, and every place that is reported, of a token or of an error, is a place of the text. -/
theorem tokens_tile_text (text : String) :
    (∀ tokens, lex text = .ok tokens →
      Lexer.Tiled .start text.toList tokens ∧
      tokens.Pairwise (fun a b => a.span.last.offset ≤ b.span.first.offset) ∧
      (∃ body finish, tokens = body ++ [⟨.eof, ⟨finish, finish⟩⟩] ∧
        finish.offset = text.utf8ByteSize ∧
        ∀ t ∈ body, t.lexeme ≠ .eof ∧ t.span.first.offset < t.span.last.offset) ∧
      ∀ t ∈ tokens, t.span.first.Locates text.toList ∧ t.span.last.Locates text.toList) ∧
    ∀ errors, lex text = .error errors → errors ≠ [] ∧
      ∀ e ∈ errors, e.span.first.Locates text.toList ∧ e.span.last.Locates text.toList ∧
        e.span.first.offset ≤ e.span.last.offset := by
  constructor
  · intro tokens h
    have htiled := Lexer.tiled_of_lex h
    refine ⟨htiled, htiled.in_order, ?_, fun t => Lexer.locates_of_lex h⟩
    obtain ⟨body, hbody, hall⟩ := htiled.ends
    refine ⟨body, _, hbody, ?_, hall⟩
    rw [Position.start_after, String.ofList_toList]
  · intro errors h
    exact ⟨(Lexer.lex_eq_error h).1, fun e => Lexer.locates_of_lex_error h⟩

theorem glued_dice_tile_text :
    ∃ tokens, lex "3d6 // ✓\n\"é\n\x7b x \x7d\" Nd8" = .ok tokens ∧
      Lexer.Tiled .start "3d6 // ✓\n\"é\n\x7b x \x7d\" Nd8".toList tokens ∧
      tokens.map (fun t => (t.lexeme, t.span.first)) =
        [(.number 3, ⟨1, 1, 0⟩), (.keyword .d, ⟨1, 2, 1⟩), (.number 6, ⟨1, 3, 2⟩),
          (.text [.text "é\n", .hole "x"], ⟨2, 1, 11⟩), (.name "N", ⟨3, 8, 22⟩),
          (.keyword .d, ⟨3, 9, 23⟩), (.number 8, ⟨3, 10, 24⟩), (.eof, ⟨3, 11, 25⟩)] := by
  have hread : ((lex "3d6 // ✓\n\"é\n\x7b x \x7d\" Nd8").toOption.map
      fun tokens => tokens.map fun t => (t.lexeme, t.span.first)) = some
        [(.number 3, ⟨1, 1, 0⟩), (.keyword .d, ⟨1, 2, 1⟩), (.number 6, ⟨1, 3, 2⟩),
          (.text [.text "é\n", .hole "x"], ⟨2, 1, 11⟩), (.name "N", ⟨3, 8, 22⟩),
          (.keyword .d, ⟨3, 9, 23⟩), (.number 8, ⟨3, 10, 24⟩), (.eof, ⟨3, 11, 25⟩)] := by
    decide +kernel
  cases h : lex "3d6 // ✓\n\"é\n\x7b x \x7d\" Nd8" with
  | error errors =>
    rw [h] at hread
    cases hread
  | ok tokens =>
    rw [h] at hread
    exact ⟨tokens, rfl, ((tokens_tile_text _).1 tokens h).1, Option.some.inj hread⟩

end DiceLang

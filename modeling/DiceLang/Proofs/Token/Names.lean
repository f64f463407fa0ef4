import DiceLang.Proofs.Expr.Spelling
import DiceLang.Proofs.Token.Literals

/-! Names that stand alone. The printer and the lexer agree on them, and of all the names that are read from
texts only those that are cut off behind a glued `d` need not be among them. -/

namespace DiceLang

namespace Lexer

open Printer (isPlainName isDiceWord)

variable {name text : String} {s : List Char} {ps qs : List Piece} {x : Piece}

def StandsAlone (name : String) : Prop :=
  (lex name).toOption.map (List.map Token.lexeme) = some [.name name, .eof]

instance (name : String) : Decidable (StandsAlone name) :=
  inferInstanceAs (Decidable (_ = some [Lexeme.name name, .eof]))

lemma pieces_word {w : List Char} (hw : isIdentifier w = true) : pieces w = wordPieces w := by
  cases w with
  | nil => simp [isIdentifier] at hw
  | cons c s =>
    simp only [isIdentifier, Bool.and_eq_true] at hw
    have hleading := leading_word hw.1 hw.2 ends_nil
    rw [List.append_nil] at hleading
    rw [pieces, hleading, width_wordPieces, List.drop_length, pieces, List.append_nil]

lemma lex_plainName (h : isPlainName name = true) : lex name = .ok (sole name (.name name)) := by
  have hi : isIdentifier name.toList = true := by
    simp only [isPlainName, Bool.and_eq_true] at h
    exact h.1.1
  rw [lex, pieces_word hi, wordPieces_name h]
  simp [place, namePiece, error?, token?, sole]

lemma standsAlone_of_lex {tokens : List Token} (h : lex name = .ok tokens)
    (ht : tokens.map Token.lexeme = [.name name, .eof]) : StandsAlone name := by
  rw [StandsAlone, h, ← ht]
  rfl

lemma standsAlone_iff : StandsAlone name ↔ isPlainName name = true := by
  constructor
  · intro h
    obtain ⟨tokens, hlex, ht⟩ := Option.map_eq_some_iff.mp h
    cases hr : lex name with
    | error errors =>
      rw [hr] at hlex
      cases hlex
    | ok ts =>
      rw [hr] at hlex
      obtain rfl := Option.some.inj hlex
      have hclean := lex_clean hr
      rw [ht] at hclean
      simpa [clean, fits] using hclean
  · exact fun h => standsAlone_of_lex (lex_plainName h) rfl

lemma exists_leading (h : pieces s = ps ++ x :: qs) : ∃ rs c t front behind,
    s = covered rs ++ c :: t ∧ pieces s = rs ++ pieces (c :: t) ∧ leading c t = front ++ x :: behind ∧
      ps = rs ++ front := by
  induction s using pieces.induct generalizing ps with
  | case1 => simp [pieces] at h
  | case2 c s front =>
    rename_i ih
    have hcovered := covered_leading_append c s
    rw [pieces] at h
    have hbehind (ps' : List Piece) (hps : ps = leading c s ++ ps')
        (h : pieces ((c :: s).drop (width (leading c s))) = ps' ++ x :: qs) : ∃ rs c' t front behind,
        c :: s = covered rs ++ c' :: t ∧ pieces (c :: s) = rs ++ pieces (c' :: t) ∧
          leading c' t = front ++ x :: behind ∧ ps = rs ++ front := by
      obtain ⟨rs, c', t, front, behind, hs, hpieces, hleading, rfl⟩ := ih h
      refine ⟨leading c s ++ rs, c', t, front, behind, ?_, ?_, hleading, ?_⟩
      · rw [covered_append, List.append_assoc, ← hs, hcovered]
      · rw [pieces, hpieces, List.append_assoc]
      · rw [hps, List.append_assoc]
    rcases List.append_eq_append_iff.mp h with ⟨ps', hps, hrest⟩ | ⟨front', hfront, hx⟩
    · exact hbehind ps' hps hrest
    · cases front' with
      | nil => exact hbehind [] (by simpa using hfront.symm) hx.symm
      | cons y behind =>
        obtain ⟨rfl, -⟩ := List.cons.inj hx
        exact ⟨[], c, s, ps, behind, rfl, rfl, hfront, rfl⟩

lemma isChain_leading (c : Char) (s : List Char) :
    (leading c s).IsChain fun a b => a = diePiece ∨ ∀ name, b.reading ≠ .lexeme (.name name) := by
  have hdie (s : List Char) : (diePiece :: dieType s).IsChain fun a b =>
      a = diePiece ∨ ∀ name, b.reading ≠ .lexeme (.name name) := by
    unfold dieType
    split
    · exact .singleton _
    · split <;> exact .cons_cons (.inl rfl) (.singleton _)
  unfold leading
  split
  · exact .singleton _
  · split
    · exact .singleton _
    · split
      · exact .singleton _
      · split
        · exact .singleton _
        · split
          · unfold wordPieces
            split
            · exact .singleton _
            · split <;> try split
              all_goals first | exact .singleton _ | exact hdie _ | exact .cons_cons (.inr nofun) (hdie _)
          · exact .singleton _

lemma plain_or_behind_die (h : pieces s = ps ++ x :: qs) (hx : x.reading = .lexeme (.name name)) :
    isPlainName name = true ∨ ∃ rest, ps = rest ++ [diePiece] := by
  obtain ⟨rs, c, t, front, behind, -, -, hleading, rfl⟩ := exists_leading h
  rcases List.eq_nil_or_concat front with rfl | ⟨first, y, rfl⟩
  · obtain ⟨w, reading⟩ := x
    have hclean := clean_leading c t
    rw [hleading] at hclean
    cases hx
    rw [List.nil_append, said_cons_lexeme] at hclean
    simp only [clean, fits, Bool.and_eq_true, Bool.false_and, Bool.or_false] at hclean
    exact .inl hclean.1
  · have hchain := isChain_leading c t
    rw [hleading, List.concat_eq_append, List.append_assoc] at hchain
    obtain ⟨-, hdie, -⟩ := List.isChain_append_cons_cons.mp hchain
    rcases hdie with rfl | hnone
    · exact .inr ⟨rs ++ first, by rw [List.concat_eq_append, List.append_assoc]⟩
    · exact absurd hx (hnone name)

lemma isDiceWord_capital {c : Char} (hc : c.isUpper = true) (s : List Char) :
    isDiceWord (c :: 'd' :: s) = isDieSuffix s := by
  rw [isDiceWord, hc, Bool.true_and]
  rintro rfl
  exact absurd hc (by decide)

lemma dice_of_capital (h : isCapitalName name.toList = true) (hp : ¬ isPlainName name = true) :
    ∃ c s, name.toList = c :: 'd' :: s ∧ c.isUpper = true ∧ isDieSuffix s = true := by
  obtain ⟨c, t, hname, hc, ht⟩ := isCapitalName_iff.mp h
  have hk : Keyword.ofText? name = none := by
    have hk := ofText?_eq_none (w := name.toList) (c := c) (by simp [hname]) (isUpper_not_isLower hc)
    rwa [String.ofList_toList] at hk
  have hd : isDiceWord (c :: t) = true := by
    simpa [isPlainName, hname, isIdentifier, isUpper_isLetter hc, ht, hk] using hp
  unfold isDiceWord at hd
  split at hd
  next heq =>
    obtain ⟨rfl, -⟩ := List.cons.inj heq
    exact absurd hc (by decide)
  next c' s _ heq =>
    obtain ⟨rfl, rfl⟩ := List.cons.inj heq
    rw [Bool.and_eq_true] at hd
    exact ⟨c, s, hname, hd⟩
  · cases hd

end Lexer

open Lexer in
/-- A name is plain if and only if it is read, as a text of its own, as that name, from its first character
to its last. It is then read so wherever no more of a word follows. The keys of maps and the subscripts that
are such names are written bare, all others as quoted text. -/
theorem plain_names_read_back :
    (∀ name : String,
      (Printer.isPlainName name = true ↔ StandsAlone name) ∧
      (StandsAlone name ↔ lex name = .ok (sole name (.name name))) ∧
      (StandsAlone name ↔ Reads name.toList [.name name])) ∧
    (∀ (look : Lookup) (loc : Location) (entries : List (String × Expr)),
      Printer.node look (.map loc entries) = "\x7b" ++ ", ".intercalate (entries.map fun x =>
        (if StandsAlone x.1 then x.1 else Printer.quoted x.1) ++ ": " ++ Printer.node look x.2) ++ "\x7d") ∧
    ∀ (look : Lookup) (loc loc' : Location) (left : Expr) (name : String),
      Printer.node look (.binary loc .subscript left (.scalar loc' (.string name))) =
        Printer.enclose left .subscript (Printer.node look left) ++
          if StandsAlone name then "." ++ name else "[" ++ Printer.quoted name ++ "]" := by
  refine ⟨fun name => ⟨standsAlone_iff.symm, ?_, ?_⟩, ?_, ?_⟩
  · exact ⟨fun h => lex_plainName (standsAlone_iff.mp h), fun h => standsAlone_of_lex h rfl⟩
  · refine ⟨fun h => Printer.reads_name (standsAlone_iff.mp h), fun h => ?_⟩
    obtain ⟨tokens, hlex, ht⟩ := lex_of_readings h.readings_eq
    exact standsAlone_of_lex hlex ht
  · intro look loc entries
    simp only [Printer.node, Printer.entryNodes_eq, Printer.key, standsAlone_iff]
  · intro look loc loc' left name
    simp only [standsAlone_iff]
    split_ifs with h
    · simp [Printer.node, Printer.entryName?, Printer.leftLevel, h, String.append_assoc]
    · have hbare : Printer.enclose (.scalar loc' (.string name)) .sequence (Printer.quoted name) =
          Printer.quoted name := if_neg (Nat.not_lt_zero _)
      simp [Printer.node, Printer.entryName?, Printer.leftLevel, Printer.rightLevel, Printer.binary,
        Printer.scalar, h, hbare, String.append_assoc]

open Lexer in
/-- A name that is read from a text stands alone unless it is, as a word, a die behind a capital letter.
Such a name follows a `d` at once, which cut it off without a second look; by itself it is read as dice. -/
theorem names_stand_alone_unless_dice {text : String} {before behind : List Token} {name : String}
    {span : Span} (h : lex text = .ok (before ++ ⟨.name name, span⟩ :: behind)) :
    (StandsAlone name ↔ Printer.isDiceWord name.toList = false) ∧
    (StandsAlone name → Reads name.toList [.name name]) ∧
    (Printer.isDiceWord name.toList = true →
      (∃ c s, c.isUpper = true ∧ name.toList = c :: 'd' :: s ∧
        pieces name.toList = namePiece [c] :: diePiece :: dieType s) ∧
      ∃ first d, before = first ++ [d] ∧ d.lexeme = .keyword .d ∧ d.span.last = span.first) := by
  have hfits := fits_of_clean (lex_clean h) (l := .name name) (by simp)
  have hdice (hp : ¬ Printer.isPlainName name = true) : ∃ c s, name.toList = c :: 'd' :: s ∧
      c.isUpper = true ∧ isDieSuffix s = true ∧ isIdentifier name.toList = true := by
    have hcapital : isCapitalName name.toList = true := by simpa [fits, hp] using hfits
    obtain ⟨c, s, hname, hc, hs⟩ := dice_of_capital hcapital hp
    exact ⟨c, s, hname, hc, hs, (Bool.and_eq_true_iff.mp hcapital).1⟩
  refine ⟨standsAlone_iff.trans ⟨fun hp => ?_, fun hd => ?_⟩, fun hp => ?_, fun hd => ?_⟩
  · simp only [Printer.isPlainName, Bool.and_eq_true, Bool.not_eq_true'] at hp
    exact hp.2
  · by_contra hp
    obtain ⟨c, s, hname, hc, hs, -⟩ := hdice hp
    rw [hname, isDiceWord_capital hc, hs] at hd
    cases hd
  · exact Printer.reads_name (standsAlone_iff.mp hp)
  · have hp : ¬ Printer.isPlainName name = true := by simp [Printer.isPlainName, hd]
    obtain ⟨c, s, hname, hc, hs, hi⟩ := hdice hp
    refine ⟨⟨c, s, hc, hname, ?_⟩, ?_⟩
    · rw [pieces_word hi, hname, wordPieces_capital_die hc hs]
    · obtain ⟨ps, x, qs, hpieces, hx, hspan, rfl⟩ := exists_piece_of_lex h (by rintro ⟨⟩)
      obtain ⟨rest, rfl⟩ := (plain_or_behind_die hpieces hx).resolve_left hp
      rw [place_append, List.filterMap_append]
      refine ⟨_, _, rfl, rfl, ?_⟩
      have hfirst : span.first = Position.start.after (covered (rest ++ [diePiece])) :=
        congrArg Span.first hspan
      rw [hfirst, covered_append, Position.after_append]
      rfl

theorem glued_dice_read_as_name :
    ∃ before span behind, lex "dXd6" = .ok (before ++ ⟨.name "Xd6", span⟩ :: behind) ∧
      ¬ Lexer.StandsAlone "Xd6" ∧ ∃ first d, before = first ++ [d] ∧ d.lexeme = .keyword .d := by
  have hlex : lex "dXd6" = .ok ([⟨.keyword .d, ⟨⟨1, 1, 0⟩, ⟨1, 2, 1⟩⟩⟩] ++
      ⟨.name "Xd6", ⟨⟨1, 2, 1⟩, ⟨1, 5, 4⟩⟩⟩ :: [⟨.eof, ⟨⟨1, 5, 4⟩, ⟨1, 5, 4⟩⟩⟩]) := by decide +kernel
  obtain ⟨halone, -, hdie⟩ := names_stand_alone_unless_dice hlex
  obtain ⟨-, first, d, hbefore, hd, -⟩ := hdie (by decide)
  exact ⟨_, _, _, hlex, fun h => absurd (halone.mp h) (by decide), first, d, hbefore, hd⟩

theorem glued_name_is_dice_alone :
    ((lex "dXd6").toOption.map fun ts => ts.map Token.lexeme) = some [.keyword .d, .name "Xd6", .eof] ∧
      ((lex "Xd6").toOption.map fun ts => ts.map Token.lexeme) =
        some [.name "X", .keyword .d, .number 6, .eof] := by
  decide +kernel

end DiceLang

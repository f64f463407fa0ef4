import DiceLang.Expr.Printer
import Mathlib

/-! What a text says: its tokens without blanks and places, read off the front of the text one after
another. -/

namespace DiceLang.Lexer

def said (ps : List Piece) : List Reading := (ps.map Piece.reading).filter (· ≠ .blank)

def readings (s : List Char) : List Reading := said (pieces s)

def Ends : List Char → Prop
  | [] => True
  | c :: _ => isWordChar c = false

@[simp] lemma ends_nil : Ends [] := trivial

@[simp] lemma ends_cons (c : Char) (s : List Char) : Ends (c :: s) ↔ isWordChar c = false := Iff.rfl

@[simp] lemma said_nil : said [] = [] := rfl

@[simp] lemma said_append (ps qs : List Piece) : said (ps ++ qs) = said ps ++ said qs := by
  simp [said]

@[simp] lemma readings_nil : readings [] = [] := by
  rw [readings, pieces, said_nil]

lemma readings_cons (c : Char) (s : List Char) :
    readings (c :: s) = said (leading c s) ++ readings ((c :: s).drop (width (leading c s))) := by
  rw [readings, pieces, said_append]
  rfl

lemma readings_front {c : Char} {t rest : List Char} {front : List Piece}
    (h : leading c (t ++ rest) = front) (hw : width front = t.length + 1) :
    readings (c :: (t ++ rest)) = said front ++ readings rest := by
  rw [readings_cons, h, hw, List.drop_succ_cons, List.drop_left]

lemma readings_dropSpace (s : List Char) : readings (s.dropWhile isSpace) = readings s := by
  cases s with
  | nil => rfl
  | cons c s =>
    by_cases hc : isSpace c
    · have hl : leading c s = [⟨c :: s.takeWhile isSpace, .blank⟩] := by rw [leading, if_pos hc]
      rw [readings_cons, hl, List.dropWhile_cons_of_pos hc]
      have hd : s.drop (s.takeWhile isSpace).length = s.dropWhile isSpace := by
        have h := congrArg (List.drop (s.takeWhile isSpace).length)
          (List.takeWhile_append_dropWhile (p := isSpace) (l := s))
        rw [← h, List.drop_left]
      simp [said, width, hd]
    · rw [List.dropWhile_cons_of_neg hc]

@[simp] lemma readings_space (s : List Char) : readings (' ' :: s) = readings s := by
  rw [← readings_dropSpace, List.dropWhile_cons_of_pos (by decide), readings_dropSpace]

lemma isLetter_isWordChar {c : Char} (h : isLetter c = true) : isWordChar c = true := by
  simp only [isLetter, isWordChar, Char.isAlphanum, Bool.or_eq_true] at h ⊢
  tauto

lemma isDigit_isWordChar {c : Char} (h : c.isDigit = true) : isWordChar c = true := by
  simp [isWordChar, Char.isAlphanum, h]

lemma isLetter_not_isDigit {c : Char} (h : isLetter c = true) : c.isDigit = false := by
  simp only [isLetter, Char.isAlpha, Char.isUpper, Char.isLower, Char.isDigit, Bool.or_eq_true,
    Bool.and_eq_true, decide_eq_true_eq, beq_iff_eq, Bool.and_eq_false_iff, decide_eq_false_iff_not,
    ge_iff_le, UInt32.le_iff_toNat_le] at h ⊢
  rcases h with h | rfl
  · simp at h ⊢
    omega
  · decide

lemma isLetter_ne {c d : Char} (h : isLetter c = true) (hd : isLetter d = false) : c ≠ d := by
  rintro rfl
  simp [h] at hd

lemma isDigit_ne {c d : Char} (h : c.isDigit = true) (hd : d.isDigit = false) : c ≠ d := by
  rintro rfl
  simp [h] at hd

lemma takeWhile_ends {s rest : List Char} (hs : s.all isWordChar = true) (hr : Ends rest) :
    (s ++ rest).takeWhile isWordChar = s := by
  rw [List.takeWhile_append_of_pos (by simpa using hs)]
  cases rest with
  | nil => simp
  | cons c rest => simp [(ends_cons c rest).mp hr]

lemma comment?_of_ne {c : Char} (s : List Char) (h : c ≠ '/') : comment? (c :: s) = none := by
  unfold comment?
  split
  · simp_all
  · rfl

lemma leading_word {c : Char} {s rest : List Char} (hc : isLetter c = true)
    (hs : s.all isWordChar = true) (hr : Ends rest) :
    leading c (s ++ rest) = wordPieces (c :: s) := by
  have hsp : isSpace c = false := by
    simp [isSpace, isLetter_ne hc (d := ' ') (by decide), isLetter_ne hc (d := '\t') (by decide),
      isLetter_ne hc (d := '\r') (by decide), isLetter_ne hc (d := '\n') (by decide)]
  rw [leading, comment?_of_ne _ (isLetter_ne hc (by decide)), takeWhile_ends hs hr]
  simp [hsp, isLetter_ne hc (d := '"') (by decide), isLetter_not_isDigit hc, hc]

@[simp] lemma digitsPiece_text (s : List Char) : (digitsPiece s).text = s := by
  unfold digitsPiece
  split <;> rfl

lemma width_dieType (s : List Char) : width (dieType s) = s.length := by
  unfold dieType
  split
  · simp_all [width]
  · split <;> simp [width, namePiece]

lemma width_wordPieces (w : List Char) : width (wordPieces w) = w.length := by
  unfold wordPieces
  split
  · simp [width]
  · split <;> try split
    all_goals simp only [width, namePiece, diePiece, width_dieType, List.length_cons, List.length_nil]
    all_goals omega

lemma readings_word {w rest : List Char} (hw : isIdentifier w = true) (hr : Ends rest) :
    readings (w ++ rest) = said (wordPieces w) ++ readings rest := by
  cases w with
  | nil => simp [isIdentifier] at hw
  | cons c s =>
    simp only [isIdentifier, Bool.and_eq_true] at hw
    exact readings_front (leading_word hw.1 hw.2 hr) (width_wordPieces _)

lemma isIdentifier_keyword (k : Keyword) : isIdentifier k.text.toList = true := by
  cases k <;> decide

lemma ofText?_text (k : Keyword) : Keyword.ofText? k.text = some k := by
  cases k <;> decide

lemma wordPieces_keyword (k : Keyword) :
    wordPieces k.text.toList = [⟨k.text.toList, .lexeme (.keyword k)⟩] := by
  unfold wordPieces
  rw [String.ofList_toList, ofText?_text]

lemma readings_keyword (k : Keyword) {rest : List Char} (hr : Ends rest) :
    readings (k.text.toList ++ rest) = .lexeme (.keyword k) :: readings rest := by
  rw [readings_word (isIdentifier_keyword k) hr, wordPieces_keyword]
  rfl

lemma wordPieces_name {s : String} (h : Printer.isPlainName s = true) :
    wordPieces s.toList = [namePiece s.toList] := by
  simp only [Printer.isPlainName, Bool.and_eq_true, Option.isNone_iff_eq_none, Bool.not_eq_true'] at h
  obtain ⟨⟨hi, hk⟩, hd⟩ := h
  unfold wordPieces
  rw [String.ofList_toList, hk]
  dsimp only
  split
  next t ht =>
    rw [ht] at hd hi
    cases t with
    | nil =>
      have hs : s = "d" := String.toList_inj.mp ht
      subst hs
      simp [Keyword.ofText?, Keyword.all, Keyword.text] at hk
    | cons c t =>
      have hn : isDieSuffix (c :: t) = false := hd
      rw [hn]
      rfl
  next c t hc ht =>
    rw [ht] at hd
    have hn : (c.isUpper && isDieSuffix t) = false := by
      rw [Printer.isDiceWord] at hd
      · exact hd
      · exact hc
    rw [hn]
    rfl
  · rfl

lemma readings_name {s : String} (h : Printer.isPlainName s = true) {rest : List Char}
    (hr : Ends rest) : readings (s.toList ++ rest) = .lexeme (.name s) :: readings rest := by
  have hi : isIdentifier s.toList = true := by
    simp only [Printer.isPlainName, Bool.and_eq_true] at h
    exact h.1.1
  rw [readings_word hi hr, wordPieces_name h]
  simp [said, namePiece]

lemma leading_digits {c : Char} {s rest : List Char} (hc : c.isDigit = true)
    (hs : s.all Char.isDigit = true) (hr : ∀ d ∈ rest.head?, d.isDigit = false) :
    leading c (s ++ rest) = [digitsPiece (c :: s)] := by
  have hsp : isSpace c = false := by
    simp [isSpace, isDigit_ne hc (d := ' ') (by decide), isDigit_ne hc (d := '\t') (by decide),
      isDigit_ne hc (d := '\r') (by decide), isDigit_ne hc (d := '\n') (by decide)]
  have ht : (s ++ rest).takeWhile Char.isDigit = s := by
    rw [List.takeWhile_append_of_pos (by simpa using hs)]
    cases rest with
    | nil => simp
    | cons d rest => simp [hr d rfl]
  rw [leading, comment?_of_ne _ (isDigit_ne hc (by decide)), ht]
  simp [hsp, isDigit_ne hc (d := '"') (by decide), hc]

lemma readings_digits {ds rest : List Char} (hne : ds ≠ []) (hd : ds.all Char.isDigit = true)
    (hr : ∀ d ∈ rest.head?, d.isDigit = false) :
    readings (ds ++ rest) = said [digitsPiece ds] ++ readings rest := by
  cases ds with
  | nil => exact absurd rfl hne
  | cons c s =>
    simp only [List.all_cons, Bool.and_eq_true] at hd
    exact readings_front (leading_digits hd.1 hd.2 hr) (by simp [width])

lemma all_isDigit_toDigits (k : Nat) : (Nat.toDigits 10 k).all Char.isDigit = true :=
  List.all_eq_true.mpr fun _ hc => Nat.isDigit_of_mem_toDigits (by decide) (by decide) hc

lemma natural?_toDigits (k : Nat) : Decimal.natural? (Nat.toDigits 10 k) = some k := by
  have hv : Decimal.ofDigits (Nat.toDigits 10 k) = k := Nat.ofDigitChars_ten_toDigits
  have hne : (Nat.toDigits 10 k).isEmpty = false := by simp [Nat.toDigits_ne_nil]
  rw [Decimal.natural?, hv, hne, all_isDigit_toDigits]
  rfl

lemma integer?_of_digits {s : List Char} (hd : s.all Char.isDigit = true) :
    Decimal.integer? s = (Decimal.natural? s).map fun n : Nat => (n : Int) := by
  unfold Decimal.integer?
  split
  · simp at hd
  · simp at hd
  · cases Decimal.natural? s <;> rfl

lemma inInt64_toInt (n : Int64) : Decimal.inInt64 n.toInt = true := by
  have hl := n.le_toInt
  have hu := n.toInt_lt
  have hm : Int64.maxValue.toInt = 2 ^ 63 - 1 := by decide
  simp only [Decimal.inInt64, Bool.and_eq_true, decide_eq_true_eq]
  exact ⟨hl, by omega⟩

lemma toList_ofInt64 (n : Int64) : ∃ k : Nat,
    n.toInt = k ∧ (Decimal.ofInt64 n).toList = Nat.toDigits 10 k ∨
    n.toInt = -(k + 1) ∧ (Decimal.ofInt64 n).toList = '-' :: Nat.toDigits 10 (k + 1) := by
  rw [Decimal.ofInt64]
  cases n.toInt with
  | ofNat k => exact ⟨k, .inl ⟨rfl, Nat.toList_repr⟩⟩
  | negSucc k =>
    have htext : toString (Int.negSucc k) = "-" ++ Nat.repr (k + 1) := rfl
    refine ⟨k, .inr ⟨Int.negSucc_eq k, ?_⟩⟩
    rw [htext, String.toList_append, Nat.toList_repr]
    rfl

lemma int64?_ofInt64 (n : Int64) : Decimal.int64? (Decimal.ofInt64 n).toList = some n := by
  -- The sign is applied before the range is checked: the digits of the least number are out of range.
  have hinteger : Decimal.integer? (Decimal.ofInt64 n).toList = some n.toInt := by
    obtain ⟨k, ⟨hn, htext⟩ | ⟨hn, htext⟩⟩ := toList_ofInt64 n
    · rw [htext, integer?_of_digits (all_isDigit_toDigits k), natural?_toDigits, hn]
      rfl
    · rw [htext, Decimal.integer?, natural?_toDigits, hn]
      rfl
  rw [Decimal.int64?, hinteger, Option.bind_some, if_pos (inInt64_toInt n), Int64.ofInt_toInt]

lemma exists_digits {n : Int64} (h : 0 ≤ n) :
    ∃ k : Nat, (Decimal.ofInt64 n).toList = Nat.toDigits 10 k ∧
      Decimal.int64? (Nat.toDigits 10 k) = some n := by
  obtain ⟨k, ⟨-, htext⟩ | ⟨hn, -⟩⟩ := toList_ofInt64 n
  · exact ⟨k, htext, htext ▸ int64?_ofInt64 n⟩
  · have h0 : 0 ≤ n.toInt := Int64.le_iff_toInt_le.mp h
    omega

lemma readings_number {n : Int64} (h : 0 ≤ n) {rest : List Char}
    (hr : ∀ d ∈ rest.head?, d.isDigit = false) :
    readings ((Decimal.ofInt64 n).toList ++ rest) = .lexeme (.number n) :: readings rest := by
  obtain ⟨k, ht, hk⟩ := exists_digits h
  rw [ht, readings_digits Nat.toDigits_ne_nil (all_isDigit_toDigits k) hr, digitsPiece, hk]
  rfl

def plainFragments (s : String) : List Fragment := if s = "" then [] else [.text s]

def tidy : List Fragment → Bool
  | [] => true
  | [.text s] => s != ""
  | .text s :: .hole name :: fs => s != "" && tidy (.hole name :: fs)
  | .text _ :: .text _ :: _ => false
  | .hole name :: fs => isIdentifier name.toList && tidy fs

def fragmentStrokes : Fragment → List Stroke
  | .text s => s.toList.map .char
  | .hole name => [.hole name.toList]

lemma strokes_escaped (s rest : List Char) :
    strokes none (s.flatMap Printer.escapeChar ++ rest) =
      (strokes none rest).map fun r => (s.map Stroke.char ++ r.1, r.2) := by
  induction s with
  | nil => simp
  | cons c s ih =>
    rw [List.flatMap_cons, List.append_assoc]
    have hc : strokes none (Printer.escapeChar c ++ (s.flatMap Printer.escapeChar ++ rest)) =
        (strokes none (s.flatMap Printer.escapeChar ++ rest)).map
          fun r => (.char c :: r.1, r.2) := by
      unfold Printer.escapeChar
      split <;> simp_all [strokes, unescape]
    rw [hc, ih, Option.map_map]
    rfl

lemma strokes_hole (inside name rest : List Char) (h : '\x7d' ∉ name) :
    strokes (some inside) (name ++ '\x7d' :: rest) =
      (strokes none rest).map fun r => (.hole (inside.reverse ++ name) :: r.1, r.2) := by
  induction name generalizing inside with
  | nil => simp [strokes]
  | cons c name ih =>
    have hc : c ≠ '\x7d' := fun h' => h (by simp [h'])
    rw [List.cons_append, strokes, if_neg hc, ih _ (fun h' => h (by simp [h']))]
    simp

lemma isWordChar_of_isIdentifier {s : List Char} (h : isIdentifier s = true) :
    ∀ c ∈ s, isWordChar c = true := by
  cases s with
  | nil => simp
  | cons c s =>
    simp only [isIdentifier, Bool.and_eq_true, List.all_eq_true] at h
    rintro d (_ | ⟨_, hd⟩)
    · exact isLetter_isWordChar h.1
    · exact h.2 d hd

lemma isWordChar_not_isBlank {c : Char} (h : isWordChar c = true) : Text.isBlank c = false := by
  simp only [isWordChar, Char.isAlphanum, Char.isAlpha, Char.isUpper, Char.isLower, Char.isDigit,
    Bool.or_eq_true, Bool.and_eq_true, decide_eq_true_eq, beq_iff_eq, ge_iff_le,
    UInt32.le_iff_toNat_le] at h
  simp only [Text.isBlank, Text.blankRanges, List.any_cons, List.any_nil, Bool.or_false,
    Bool.or_eq_false_iff, Bool.and_eq_false_iff, decide_eq_false_iff_not]
  rcases h with h | rfl
  · simp at h
    omega
  · decide

lemma dropWhile_isBlank {s : List Char} (h : ∀ c ∈ s, Text.isBlank c = false) :
    s.dropWhile Text.isBlank = s := by
  cases s with
  | nil => rfl
  | cons c s => rw [List.dropWhile_cons_of_neg (by simp [h c (by simp)])]

lemma trim_eq_self {s : List Char} (h : ∀ c ∈ s, Text.isBlank c = false) : Text.trim s = s := by
  rw [Text.trim, dropWhile_isBlank h, dropWhile_isBlank (by simpa using h), List.reverse_reverse]

lemma strokes_fragments (fs : List Fragment) (h : tidy fs = true) (rest : List Char) :
    strokes none ((fs.flatMap fun f => (Printer.fragmentText f).toList) ++ rest) =
      (strokes none rest).map fun r => (fs.flatMap fragmentStrokes ++ r.1, r.2) := by
  induction fs with
  | nil => simp
  | cons f fs ih =>
    rw [List.flatMap_cons, List.append_assoc]
    cases f with
    | text s =>
      have hfs : tidy fs = true := by
        cases fs with
        | nil => rfl
        | cons g fs =>
          cases g with
          | text t => simp [tidy] at h
          | hole name =>
            simp only [tidy, Bool.and_eq_true] at h
            simpa [tidy] using h.2
      rw [Printer.fragmentText, Printer.escape, String.toList_ofList, strokes_escaped, ih hfs,
        Option.map_map]
      simp [fragmentStrokes, Function.comp_def]
    | hole name =>
      simp only [tidy, Bool.and_eq_true] at h
      have hn : '\x7d' ∉ name.toList := by
        intro hm
        have hw := isWordChar_of_isIdentifier h.1 _ hm
        simp [isWordChar] at hw
      have ht : (Printer.fragmentText (.hole name)).toList = '\x7b' :: (name.toList ++ ['\x7d']) := by
        simp [Printer.fragmentText]
      rw [ht, List.cons_append, List.append_assoc, strokes, List.singleton_append,
        strokes_hole _ _ _ hn, ih h.2, Option.map_map]
      simp [fragmentStrokes, Function.comp_def]

lemma fragments?_chars (s : List Char) (fs : List Stroke) (gs : List Fragment)
    (h : fragments? fs = some gs) (hg : ∀ t us, gs ≠ .text t :: us) (hs : s ≠ []) :
    fragments? (s.map .char ++ fs) = some (.text (String.ofList s) :: gs) := by
  induction s with
  | nil => exact absurd rfl hs
  | cons c s ih =>
    rw [List.map_cons, List.cons_append, fragments?]
    cases s with
    | nil =>
      rw [List.map_nil, List.nil_append, h, Option.map_some]
      cases gs with
      | nil => rfl
      | cons g gs =>
        cases g with
        | text t => exact absurd rfl (hg t gs)
        | hole name => rfl
    | cons d s =>
      rw [ih (by simp), Option.map_some, addChar]
      simp [Char.toString]

lemma fragments?_tidy (fs : List Fragment) (h : tidy fs = true) :
    fragments? (fs.flatMap fragmentStrokes) = some fs := by
  induction fs using tidy.induct with
  | case1 => rfl
  | case2 s =>
    have hs : s.toList ≠ [] := by simpa [tidy] using h
    simpa [fragmentStrokes] using fragments?_chars s.toList [] [] rfl (by simp) hs
  | case3 s name fs ih =>
    simp only [tidy, Bool.and_eq_true, bne_iff_ne, ne_eq] at h
    have hs : s.toList ≠ [] := by simpa using h.1
    have hf := fragments?_chars s.toList _ _ (ih (by simpa [tidy] using h.2)) (by simp) hs
    simpa [fragmentStrokes] using hf
  | case4 => simp [tidy] at h
  | case5 name fs ih =>
    simp only [tidy, Bool.and_eq_true] at h
    have hw := trim_eq_self fun c hc => isWordChar_not_isBlank (isWordChar_of_isIdentifier h.1 c hc)
    simp [fragmentStrokes, fragments?, hw, h.1, ih h.2]

lemma leading_quote (s : List Char) : leading '"' s = [quotedPiece s] := by
  rw [leading, comment?_of_ne _ (by decide)]
  rfl

lemma pieces_interpolated {fs : List Fragment} (h : tidy fs = true) (rest : List Char) :
    pieces ((Printer.interpolated fs).toList ++ rest) =
      ⟨(Printer.interpolated fs).toList, .lexeme (.text fs)⟩ :: pieces rest := by
  let body := fs.flatMap fun f => (Printer.fragmentText f).toList
  have ht : (Printer.interpolated fs).toList = '"' :: (body ++ ['"']) := by
    simp [Printer.interpolated, body, String.toList_join, List.flatMap_def, Function.comp_def]
  have hs : strokes none (body ++ ['"'] ++ rest) = some (fs.flatMap fragmentStrokes, rest) := by
    rw [List.append_assoc, strokes_fragments fs h]
    simp [strokes]
  have hq : quotedPiece (body ++ ['"'] ++ rest) = ⟨'"' :: (body ++ ['"']), .lexeme (.text fs)⟩ := by
    have hl : (body ++ ['"'] ++ rest).length - rest.length = (body ++ ['"']).length := by
      simp only [List.length_append]
      omega
    rw [quotedPiece, hs]
    dsimp only
    rw [fragments?_tidy fs h, hl, List.take_left]
  have hd : ('"' :: (body ++ ['"'] ++ rest)).drop ('"' :: (body ++ ['"'])).length = rest := by
    rw [List.length_cons, List.drop_succ_cons, List.drop_left]
  rw [ht, List.cons_append, pieces, leading_quote, hq]
  dsimp only [width]
  rw [Nat.add_zero, hd, List.singleton_append]

lemma readings_interpolated {fs : List Fragment} (h : tidy fs = true) (rest : List Char) :
    readings ((Printer.interpolated fs).toList ++ rest) = .lexeme (.text fs) :: readings rest := by
  rw [readings, pieces_interpolated h]
  rfl

lemma tidy_plainFragments (s : String) : tidy (plainFragments s) = true := by
  by_cases hs : s = "" <;> simp [plainFragments, hs, tidy]

lemma quoted_eq_interpolated (s : String) :
    Printer.quoted s = Printer.interpolated (plainFragments s) := by
  by_cases hs : s = ""
  · subst hs
    rfl
  · simp [Printer.quoted, Printer.interpolated, plainFragments, hs, Printer.fragmentText]

lemma readings_quoted (s : String) (rest : List Char) :
    readings ((Printer.quoted s).toList ++ rest) =
      .lexeme (.text (plainFragments s)) :: readings rest := by
  rw [quoted_eq_interpolated, readings_interpolated (tidy_plainFragments s)]

lemma readings_mark {c : Char} {s : List Char} {m : Mark} (h : Mark.leading? (c :: s) = some m)
    (hn : comment? (c :: s) = none) (hc : (isSpace c || c == '"' || isWordChar c) = false) :
    readings (c :: s) = .lexeme (.mark m) :: readings ((c :: s).drop m.text.toList.length) := by
  simp only [Bool.or_eq_false_iff, beq_eq_false_iff_ne] at hc
  obtain ⟨⟨hs, hq⟩, hw⟩ := hc
  have hd : c.isDigit = false := by
    by_contra hd
    simp [isDigit_isWordChar (by simpa using hd)] at hw
  have hl : isLetter c = false := by
    by_contra hl
    simp [isLetter_isWordChar (by simpa using hl)] at hw
  have hp : leading c s = [⟨m.text.toList, .lexeme (.mark m)⟩] := by
    rw [leading, hn]
    simp [hs, hq, hd, hl, markPiece, h]
  rw [readings_cons, hp]
  simp [said, width]

@[simp] lemma readings_single (s : List Char) :
    readings ('(' :: s) = .lexeme (.mark .openParen) :: readings s ∧
    readings (')' :: s) = .lexeme (.mark .closeParen) :: readings s ∧
    readings ('[' :: s) = .lexeme (.mark .openBracket) :: readings s ∧
    readings (']' :: s) = .lexeme (.mark .closeBracket) :: readings s ∧
    readings ('\x7b' :: s) = .lexeme (.mark .openBrace) :: readings s ∧
    readings ('\x7d' :: s) = .lexeme (.mark .closeBrace) :: readings s ∧
    readings (',' :: s) = .lexeme (.mark .comma) :: readings s ∧
    readings (':' :: s) = .lexeme (.mark .colon) :: readings s ∧
    readings (';' :: s) = .lexeme (.mark .semicolon) :: readings s ∧
    readings ('+' :: s) = .lexeme (.mark .plus) :: readings s :=
  ⟨readings_mark rfl rfl rfl, readings_mark rfl rfl rfl, readings_mark rfl rfl rfl,
    readings_mark rfl rfl rfl, readings_mark rfl rfl rfl, readings_mark rfl rfl rfl,
    readings_mark rfl rfl rfl, readings_mark rfl rfl rfl, readings_mark rfl rfl rfl,
    readings_mark rfl rfl rfl⟩

lemma readings_mark_space (m : Mark) (s : List Char) :
    readings (m.text.toList ++ ' ' :: s) = .lexeme (.mark m) :: readings s := by
  rw [← readings_space s]
  cases m <;> exact readings_mark rfl rfl rfl

lemma readings_minus {s : List Char} (h : ∀ t, s ≠ '-' :: '-' :: t) :
    readings ('-' :: s) = .lexeme (.mark .minus) :: readings s := by
  refine readings_mark ?_ rfl rfl
  rcases s with _ | ⟨c, _ | ⟨d, s⟩⟩
  · rfl
  · simp [Mark.leading?, Mark.all, Mark.text]
  · have hcd : ¬ ('-' = c ∧ '-' = d) := by
      rintro ⟨rfl, rfl⟩
      exact h s rfl
    simp [Mark.leading?, Mark.all, Mark.text, hcd]

lemma readings_dot {s : List Char} (h : s.head? ≠ some '.') :
    readings ('.' :: s) = .lexeme (.mark .dot) :: readings s := by
  cases s with
  | nil => exact readings_mark rfl rfl rfl
  | cons c s =>
    have hc : c ≠ '.' := by simpa using h
    refine readings_mark ?_ rfl rfl
    simp [Mark.leading?, Mark.all, Mark.text, Ne.symm hc]

def Apart (s rest : List Char) : Prop := s.getLast?.any isWordChar = true → Ends rest

/-- The text says `ls`, and more only from what follows. -/
def Reads (s : List Char) (ls : List Lexeme) : Prop :=
  ∀ rest, Apart s rest → readings (s ++ rest) = ls.map .lexeme ++ readings rest

lemma Ends.apart {rest : List Char} (h : Ends rest) (s : List Char) : Apart s rest := fun _ => h

lemma apart_append {s t rest : List Char} (ht : t ≠ []) : Apart (s ++ t) rest ↔ Apart t rest := by
  rw [Apart, Apart, List.getLast?_append_of_ne_nil _ ht]

lemma apart_cons {c : Char} {t rest : List Char} (ht : t ≠ []) :
    Apart (c :: t) rest ↔ Apart t rest :=
  apart_append (s := [c]) ht

lemma Reads.readings_eq {s : List Char} {ls : List Lexeme} (h : Reads s ls) :
    readings s = ls.map .lexeme := by
  simpa using h [] (ends_nil.apart s)

end DiceLang.Lexer

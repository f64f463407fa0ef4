import DiceLang.Proofs.Token.Glue

/-! The lexemes that a text can give: names stand for themselves, unless they follow a `d`; numbers are
not negative, and the fragments of a literal are tidy. -/

namespace DiceLang.Lexer

open Printer (isPlainName isDiceWord)

def fits (behindDie : Bool) : Lexeme → Bool
  | .name s => isPlainName s || (behindDie && isCapitalName s.toList)
  | .number n => decide (0 ≤ n)
  | .text fs => tidy fs
  | _ => true

def clean : Bool → List Lexeme → Bool
  | _, [] => true
  | behindDie, l :: ls => fits behindDie l && clean (l == .keyword .d) ls

lemma fits_mono {b : Bool} {l : Lexeme} (h : fits false l = true) : fits b l = true := by
  cases l with
  | name s => simp_all [fits]
  | _ => exact h

lemma clean_mono {b : Bool} {ls : List Lexeme} (h : clean false ls = true) : clean b ls = true := by
  cases ls with
  | nil => rfl
  | cons l ls =>
    simp only [clean, Bool.and_eq_true] at h ⊢
    exact ⟨fits_mono h.1, h.2⟩

lemma clean_append {b : Bool} {ks ls : List Lexeme} (hk : clean b ks = true)
    (hl : clean false ls = true) : clean b (ks ++ ls) = true := by
  induction ks generalizing b with
  | nil => exact clean_mono hl
  | cons k ks ih =>
    simp only [List.cons_append, clean, Bool.and_eq_true] at hk ⊢
    exact ⟨hk.1, ih hk.2⟩

lemma fits_of_clean {b : Bool} {l : Lexeme} {ls : List Lexeme} (h : clean b ls = true) (hl : l ∈ ls) :
    fits true l = true := by
  induction ls generalizing b with
  | nil => cases hl
  | cons k ls ih =>
    simp only [clean, Bool.and_eq_true] at h
    rcases List.mem_cons.mp hl with rfl | hl
    · cases b with
      | true => exact h.1
      | false => exact fits_mono h.1
    · exact ih h.2 hl

def lexeme? : Reading → Option Lexeme
  | .lexeme l => some l
  | _ => none

def lexemes (rs : List Reading) : List Lexeme := rs.filterMap lexeme?

@[simp] lemma lexemes_append (rs ss : List Reading) :
    lexemes (rs ++ ss) = lexemes rs ++ lexemes ss := List.filterMap_append

@[simp] lemma lexemes_map (ls : List Lexeme) : lexemes (ls.map .lexeme) = ls := by
  induction ls with
  | nil => rfl
  | cons l ls ih => simp_all [lexemes, lexeme?]

lemma tidy_addChar (c : Char) {fs : List Fragment} (h : tidy fs = true) :
    tidy (addChar c fs) = true := by
  match fs with
  | [] | [.text t] => simp [addChar, tidy]
  | .text t :: .hole name :: fs =>
    simp only [tidy, Bool.and_eq_true] at h
    simpa [addChar, tidy] using h.2
  | .text t :: .text u :: fs => simp [tidy] at h
  | .hole name :: fs =>
    simp only [addChar, tidy, Bool.and_eq_true] at h ⊢
    exact ⟨by simp, h⟩

lemma tidy_fragments? {ss : List Stroke} {fs : List Fragment} (h : fragments? ss = some fs) :
    tidy fs = true := by
  induction ss generalizing fs with
  | nil =>
    obtain rfl := Option.some.inj h
    rfl
  | cons s ss ih =>
    cases s with
    | char c =>
      obtain ⟨gs, hg, rfl⟩ := Option.map_eq_some_iff.mp h
      exact tidy_addChar c (ih hg)
    | hole inside =>
      simp only [fragments?] at h
      split at h
      · obtain ⟨gs, hg, rfl⟩ := Option.map_eq_some_iff.mp h
        simp only [tidy, String.toList_ofList, Bool.and_eq_true]
        exact ⟨‹_›, ih hg⟩
      · simp at h

lemma clean_quotedPiece (s : List Char) : clean false (lexemes (said [quotedPiece s])) = true := by
  unfold quotedPiece
  split
  · rfl
  · dsimp only
    split
    next fs hf =>
      simp [said, lexemes, lexeme?, clean, fits, tidy_fragments? hf]
    · rfl

lemma toInt_of_int64? {s : List Char} {n : Int64} (hd : s.all Char.isDigit = true)
    (h : Decimal.int64? s = some n) : (Decimal.ofDigits s : Int) = n.toInt := by
  obtain ⟨k, hk, h⟩ := Option.bind_eq_some_iff.mp h
  rw [integer?_of_digits hd] at hk
  obtain ⟨m, hm, rfl⟩ := Option.map_eq_some_iff.mp hk
  obtain ⟨-, hm⟩ := Option.ite_none_left_eq_some.mp hm
  obtain ⟨hr, hn⟩ := Option.ite_none_right_eq_some.mp h
  obtain rfl := Option.some.inj hm
  obtain rfl := Option.some.inj hn
  have hmax : Int64.maxValue.toInt = 2 ^ 63 - 1 := by decide
  simp only [Decimal.inInt64, Bool.and_eq_true, decide_eq_true_eq, hmax] at hr
  rw [Int64.toInt_ofInt_of_le (by omega) (by omega)]

lemma nonneg_of_int64? {s : List Char} {n : Int64} (hd : s.all Char.isDigit = true)
    (h : Decimal.int64? s = some n) : 0 ≤ n := by
  rw [Int64.le_iff_toInt_le, ← toInt_of_int64? hd h]
  exact Int.natCast_nonneg _

lemma clean_digitsPiece {s : List Char} (h : s.all Char.isDigit = true) (b : Bool) :
    clean b (lexemes (said [digitsPiece s])) = true := by
  unfold digitsPiece
  cases hn : Decimal.int64? s with
  | some n => simp [said, lexemes, lexeme?, clean, fits, nonneg_of_int64? h hn]
  | none => rfl

lemma clean_dieType {s : List Char} (hw : s.all isWordChar = true) (hs : isDieSuffix s = true) :
    clean true (lexemes (said (dieType s))) = true := by
  unfold dieType
  split
  · rfl
  · split
    · exact clean_digitsPiece ‹_› true
    · have hc : isCapitalName s = true := by
        cases s with
        | nil => simp at *
        | cons c t =>
          have hu : c.isUpper = true := by
            rw [isDieSuffix] at hs
            simp_all
          exact isCapitalName_iff.mpr ⟨c, t, rfl, hu, (Bool.and_eq_true_iff.mp hw).2⟩
      simp [said, lexemes, lexeme?, namePiece, clean, fits, hc]

lemma clean_namePiece {w : List Char} (h : isPlainName (String.ofList w) = true) :
    clean false (lexemes (said [namePiece w])) = true := by
  simp [said, lexemes, lexeme?, namePiece, clean, fits, h]

lemma said_cons_lexeme (text : List Char) (l : Lexeme) (ps : List Piece) :
    lexemes (said (⟨text, .lexeme l⟩ :: ps)) = l :: lexemes (said ps) := by
  simp [said, lexemes, lexeme?]

lemma clean_wordPieces {w : List Char} (h : isIdentifier w = true) :
    clean false (lexemes (said (wordPieces w))) = true := by
  have hw := List.all_eq_true.mpr (isWordChar_of_isIdentifier h)
  unfold wordPieces
  split
  · rfl
  next hk =>
    have plain (hd : isDiceWord w = false) : clean false (lexemes (said [namePiece w])) = true :=
      clean_namePiece (by simp [isPlainName, h, hk, hd])
    split
    next s =>
      simp only [List.all_cons, Bool.and_eq_true] at hw
      split
      · have := clean_dieType hw.2 ‹_›
        rw [diePiece, said_cons_lexeme]
        exact this
      · refine plain ?_
        cases s with
        | nil => simp [isDieSuffix] at *
        | cons c s => simp_all [isDiceWord]
    next c s hc =>
      simp only [List.all_cons, Bool.and_eq_true] at hw
      split_ifs with hcs
      · simp only [Bool.and_eq_true] at hcs
        have hn : isPlainName (String.ofList [c]) = true := by
          have hk := ofText?_eq_none (w := [c]) (c := c) (by simp) (isUpper_not_isLower hcs.1)
          simp only [isPlainName, hk, String.toList_ofList]
          simp [isIdentifier, isUpper_isLetter hcs.1, isDiceWord]
        have := clean_dieType hw.2.2 hcs.2
        rw [namePiece, diePiece, said_cons_lexeme, said_cons_lexeme]
        simp only [clean, fits, hn, Bool.true_or, Bool.true_and]
        exact this
      · refine plain ?_
        rw [isDiceWord]
        · simp_all
        · exact hc
    next hd hcd =>
      refine plain ?_
      unfold isDiceWord
      split
      · exact absurd rfl (hd _)
      · exact absurd rfl (hcd _ _)
      · rfl

lemma clean_leading (c : Char) (s : List Char) :
    clean false (lexemes (said (leading c s))) = true := by
  unfold leading
  split
  · rfl
  · split
    · rfl
    · split
      · exact clean_quotedPiece s
      · split
        · refine clean_digitsPiece ?_ false
          simp_all
        · split
          · refine clean_wordPieces ?_
            simp_all [isIdentifier]
          · unfold markPiece
            split <;> rfl

lemma clean_readings (s : List Char) : clean false (lexemes (readings s)) = true := by
  induction s using pieces.induct with
  | case1 =>
    rw [readings_nil]
    rfl
  | case2 c s front ih =>
    rw [readings_cons, lexemes_append]
    exact clean_append (clean_leading c s) ih

lemma place_fst (p : Position) (ps : List Piece) :
    (place p ps).map Prod.fst = ps.map Piece.reading := by
  induction ps generalizing p with
  | nil => rfl
  | cons x ps ih => simp [place, ih]

lemma lexeme_token? (placed : List (Reading × Span)) :
    (placed.filterMap token?).map Token.lexeme = lexemes (placed.map Prod.fst) := by
  induction placed with
  | nil => rfl
  | cons x placed ih =>
    obtain ⟨r, span⟩ := x
    cases r <;> simp_all [token?, lexemes, lexeme?, List.filterMap_cons]

lemma lexemes_said (ps : List Piece) : lexemes (said ps) = lexemes (ps.map Piece.reading) := by
  induction ps with
  | nil => rfl
  | cons p ps ih =>
    obtain ⟨text, r⟩ := p
    cases r <;> simp_all [said, lexemes, lexeme?, List.filterMap_cons]

lemma tokens_lexeme (s : List Char) :
    ((place .start (pieces s)).filterMap token?).map Token.lexeme = lexemes (readings s) := by
  rw [lexeme_token?, place_fst, readings, lexemes_said]

end DiceLang.Lexer

namespace DiceLang

open Lexer

lemma lex_clean {text : String} {ts : List Token} (h : lex text = .ok ts) :
    clean false (ts.map Token.lexeme) = true := by
  simp only [lex] at h
  split at h
  · obtain rfl := Except.ok.inj h
    rw [List.map_append, tokens_lexeme]
    exact clean_append (clean_readings _) rfl
  · simp at h

lemma lex_of_readings {text : String} {ls : List Lexeme}
    (h : readings text.toList = ls.map .lexeme) :
    ∃ ts, lex text = .ok ts ∧ ts.map Token.lexeme = ls ++ [.eof] := by
  have he : (place .start (pieces text.toList)).filterMap error? = [] := by
    rw [List.filterMap_eq_nil_iff]
    rintro ⟨r, span⟩ hm
    have hr : r ∈ (pieces text.toList).map Piece.reading := by
      rw [← place_fst .start]
      exact List.mem_map_of_mem hm
    cases r with
    | blank | lexeme => rfl
    | problem p =>
      have hs : Reading.problem p ∈ readings text.toList := List.mem_filter.mpr ⟨hr, by simp⟩
      simp [h] at hs
  refine ⟨_, by rw [lex, he]; rfl, ?_⟩
  rw [List.map_append, tokens_lexeme, h, lexemes_map]
  rfl

end DiceLang

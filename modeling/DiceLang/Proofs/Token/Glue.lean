import DiceLang.Proofs.Expr.WellFormed

/-! Texts side by side that say what each of them says. What needs care is where no blank stands between
two words: a count, its `d` and the die. -/

namespace DiceLang.Lexer

open Printer

lemma Reads.append {a b : List Char} {la lb : List Lexeme} (ha : Reads a la) (hb : Reads b lb)
    (hne : b ≠ []) (he : Ends b) : Reads (a ++ b) (la ++ lb) := by
  intro rest hr
  have hab : Apart a (b ++ rest) := by
    cases b with
    | nil => exact absurd rfl hne
    | cons c b => exact Ends.apart he a
  rw [List.append_assoc, ha _ hab, hb _ ((apart_append hne).mp hr), List.map_append,
    List.append_assoc]

lemma Reads.ne_nil {s : List Char} {ls : List Lexeme} (h : Reads s ls) (hl : ls ≠ []) : s ≠ [] := by
  rintro rfl
  have hr := h.readings_eq
  rw [readings_nil] at hr
  exact hl (List.map_eq_nil_iff.mp hr.symm)

lemma Reads.before_blank {s : List Char} {ls : List Lexeme} (h : Reads s ls) (rest : List Char) :
    readings (s ++ ' ' :: rest) = ls.map .lexeme ++ readings rest := by
  rw [h _ (Ends.apart (by rw [ends_cons]; decide) _), readings_space]

def Hooks (s : List Char) (ls : List Lexeme) : Prop :=
  ∀ rest, Apart s rest →
    readings ('d' :: (s ++ rest)) = .lexeme (.keyword .d) :: (ls.map .lexeme ++ readings rest) ∧
    ∀ c : Char, c.isUpper = true → readings (c :: 'd' :: (s ++ rest)) =
      .lexeme (.name (String.ofList [c])) :: .lexeme (.keyword .d) ::
        (ls.map .lexeme ++ readings rest)

lemma Hooks.append {a b : List Char} {la lb : List Lexeme} (ha : Hooks a la) (hb : Reads b lb)
    (hne : b ≠ []) (he : Ends b) : Hooks (a ++ b) (la ++ lb) := by
  intro rest hr
  have hab : Apart a (b ++ rest) := by
    cases b with
    | nil => exact absurd rfl hne
    | cons c b => exact Ends.apart he a
  obtain ⟨hd, hc⟩ := ha _ hab
  have hb' := hb _ ((apart_append hne).mp hr)
  rw [List.append_assoc, hd, hb', List.map_append, List.append_assoc]
  refine ⟨rfl, ?_⟩
  intro c hup
  rw [hc c hup, hb']

lemma isLower_keyword (k : Keyword) : k.text.toList.all Char.isLower = true := by
  cases k <;> rfl

lemma ofText?_eq_none {w : List Char} {c : Char} (hc : c ∈ w) (hl : c.isLower = false) :
    Keyword.ofText? (String.ofList w) = none := by
  rw [Keyword.ofText?, List.find?_eq_none]
  intro k _ hk
  have hw : k.text.toList = w := by
    rw [beq_iff_eq.mp hk, String.toList_ofList]
  have hk := List.all_eq_true.mp (isLower_keyword k) c (hw ▸ hc)
  simp [hk] at hl

lemma isUpper_not_isLower {c : Char} (h : c.isUpper = true) : c.isLower = false := by
  simp only [Char.isUpper, Char.isLower, decide_eq_true_eq, Bool.and_eq_false_iff,
    decide_eq_false_iff_not, ge_iff_le, UInt32.le_iff_toNat_le] at h ⊢
  simp at h ⊢
  omega

lemma isDigit_not_isLower {c : Char} (h : c.isDigit = true) : c.isLower = false := by
  simp only [Char.isDigit, Char.isLower, Bool.and_eq_true, decide_eq_true_eq, Bool.and_eq_false_iff,
    decide_eq_false_iff_not, ge_iff_le, UInt32.le_iff_toNat_le] at h ⊢
  simp at h ⊢
  omega

lemma isUpper_isLetter {c : Char} (h : c.isUpper = true) : isLetter c = true := by
  simp [isLetter, Char.isAlpha, h]

def hooksOn (s : List Char) : Bool := s.head?.any fun c => c.isUpper || c.isDigit

lemma wordPieces_die {s : List Char} (hs : isDieSuffix s = true) (hn : hooksOn s = true) :
    wordPieces ('d' :: s) = diePiece :: dieType s := by
  obtain ⟨c, hc, hl⟩ : ∃ c ∈ 'd' :: s, c.isLower = false := by
    cases s with
    | nil => simp [hooksOn] at hn
    | cons c s =>
      refine ⟨c, by simp, ?_⟩
      simp only [hooksOn, List.head?_cons, Option.any_some, Bool.or_eq_true] at hn
      rcases hn with hn | hn
      · exact isUpper_not_isLower hn
      · exact isDigit_not_isLower hn
  unfold wordPieces
  rw [ofText?_eq_none hc hl]
  simp [hs]

lemma wordPieces_capital_die {c : Char} {s : List Char} (hc : c.isUpper = true)
    (hs : isDieSuffix s = true) :
    wordPieces (c :: 'd' :: s) = namePiece [c] :: diePiece :: dieType s := by
  have hd : c ≠ 'd' := by
    rintro rfl
    exact absurd hc (by decide)
  unfold wordPieces
  rw [ofText?_eq_none (c := c) (by simp) (isUpper_not_isLower hc)]
  dsimp only
  split
  · simp_all
  · simp_all
  · simp_all

lemma isCapitalName_iff {s : List Char} :
    isCapitalName s = true ↔ ∃ c t, s = c :: t ∧ c.isUpper = true ∧ t.all isWordChar = true := by
  cases s with
  | nil => simp [isCapitalName, isIdentifier]
  | cons c t =>
    simp only [isCapitalName, isIdentifier, List.head?_cons, Option.any_some, Bool.and_eq_true]
    constructor
    · rintro ⟨⟨_, ht⟩, hc⟩
      exact ⟨c, t, rfl, hc, ht⟩
    · rintro ⟨c, t, h, hc, ht⟩
      obtain ⟨rfl, rfl⟩ := List.cons.inj h
      exact ⟨⟨isUpper_isLetter hc, ht⟩, hc⟩

lemma hooks_of_dieType {s : List Char} {ls : List Lexeme} (hw : s.all isWordChar = true)
    (hs : isDieSuffix s = true) (hn : hooksOn s = true)
    (hl : said (dieType s) = ls.map .lexeme) : Hooks s ls := by
  have hlast : s.getLast?.any isWordChar = true := by
    cases h : s.getLast? with
    | none =>
      rw [List.getLast?_eq_none_iff] at h
      simp [h, hooksOn] at hn
    | some c => exact List.all_eq_true.mp hw c (List.mem_of_getLast? h)
  intro rest hr
  have he : Ends rest := hr hlast
  have hd : isIdentifier ('d' :: s) = true := by
    simp only [isIdentifier, hw, Bool.and_true]
    decide
  constructor
  · have h := readings_word hd he
    rw [wordPieces_die hs hn] at h
    rw [← List.cons_append, h]
    show said ([diePiece] ++ dieType s) ++ _ = _
    rw [said_append, hl]
    rfl
  · intro c hc
    have hi : isIdentifier (c :: 'd' :: s) = true := by
      have hdw : isWordChar 'd' = true := by decide
      simp only [isIdentifier, List.all_cons, hw, hdw, isUpper_isLetter hc, Bool.and_true]
    have h := readings_word hi he
    rw [wordPieces_capital_die hc hs] at h
    rw [← List.cons_append, ← List.cons_append, h]
    show said ([namePiece [c], diePiece] ++ dieType s) ++ _ = _
    rw [said_append, hl]
    rfl

lemma hooks_name {s : String} (h : isCapitalName s.toList = true) : Hooks s.toList [.name s] := by
  obtain ⟨c, t, hs, hc, ht⟩ := isCapitalName_iff.mp h
  have hd : s.toList.all Char.isDigit = false := by
    simp [hs, isLetter_not_isDigit (isUpper_isLetter hc)]
  have hw : s.toList.all isWordChar = true := by
    simp only [hs, List.all_cons, ht, isLetter_isWordChar (isUpper_isLetter hc), Bool.and_true]
  have hx : isDieSuffix s.toList = true := by
    rw [hs, isDieSuffix, hc, Bool.true_or]
  refine hooks_of_dieType hw hx (by simp [hs, hooksOn, hc]) ?_
  have he : s.toList.isEmpty = false := by rw [hs, List.isEmpty_cons]
  rw [dieType, he, hd]
  simp [said, namePiece]

lemma hooks_number {n : Int64} (h : 0 ≤ n) : Hooks (Decimal.ofInt64 n).toList [.number n] := by
  obtain ⟨k, ht, hk⟩ := exists_digits h
  have hd := all_isDigit_toDigits k
  obtain ⟨c, t, hs⟩ := List.exists_cons_of_ne_nil (Nat.toDigits_ne_nil (n := k) (b := 10))
  have hw : (Nat.toDigits 10 k).all isWordChar = true :=
    List.all_eq_true.mpr fun d hm => isDigit_isWordChar (List.all_eq_true.mp hd d hm)
  have hx : isDieSuffix (Nat.toDigits 10 k) = true := by
    rw [hs] at hd ⊢
    rw [isDieSuffix, hd, Bool.or_true]
  have hn : hooksOn (Nat.toDigits 10 k) = true := by
    rw [hs] at hd ⊢
    simp only [List.all_cons, Bool.and_eq_true] at hd
    simp [hooksOn, hd.1]
  rw [ht]
  refine hooks_of_dieType hw hx hn ?_
  have he : (Nat.toDigits 10 k).isEmpty = false := by simp [Nat.toDigits_ne_nil]
  rw [dieType, he, hd, digitsPiece, hk]
  rfl

lemma toList_thrown (count die : String) :
    (thrown count die).toList = count.toList ++ ((if spaceAfterCount count then [' '] else []) ++
      'd' :: ((if spaceBeforeDie die then [' '] else []) ++ die.toList)) := by
  rw [thrown]
  split <;> split <;> simp

lemma hooks_die {die : String} {ls : List Lexeme} (hne : die.toList ≠ [])
    (hr : die.toList.head?.any Char.isUpper = false → Reads die.toList ls)
    (hh : hooksOn die.toList = true → Hooks die.toList ls) :
    Hooks ((if spaceBeforeDie die then [' '] else []) ++ die.toList) ls := by
  obtain ⟨c, s, hs⟩ := List.exists_cons_of_ne_nil hne
  intro rest hrest
  have hap : Apart die.toList rest := (apart_append hne).mp hrest
  -- a `d` that a blank or a mark follows is a word by itself
  have split_off {t : List Char} (ht : Ends t) :
      readings ('d' :: t) = .lexeme (.keyword .d) :: readings t ∧
      ∀ x : Char, x.isUpper = true → readings (x :: 'd' :: t) =
        .lexeme (.name (String.ofList [x])) :: .lexeme (.keyword .d) :: readings t := by
    refine ⟨readings_keyword .d ht, ?_⟩
    intro x hx
    have hi : isIdentifier [x, 'd'] = true := by
      have hdw : isWordChar 'd' = true := by decide
      simp only [isIdentifier, List.all_cons, List.all_nil, hdw, isUpper_isLetter hx, Bool.and_true]
    have h := readings_word hi ht
    rw [wordPieces_capital_die hx rfl] at h
    exact h
  by_cases hsp : spaceBeforeDie die = true
  · have hup : die.toList.head?.any Char.isUpper = false := by
      rw [hs, List.head?_cons, Option.any_some]
      by_contra hup
      rw [Bool.not_eq_false] at hup
      simp [spaceBeforeDie, hs, hup] at hsp
    have hd := split_off (t := ' ' :: (die.toList ++ rest)) (by rw [ends_cons]; decide)
    rw [readings_space, hr hup rest hap] at hd
    simpa [hsp] using hd
  · rw [if_neg hsp, List.nil_append]
    by_cases hk : hooksOn die.toList = true
    · exact hh hk rest hap
    · rw [hs] at hk
      simp only [hooksOn, List.head?_cons, Option.any_some, Bool.or_eq_true, not_or,
        Bool.not_eq_true] at hk
      have hup : die.toList.head?.any Char.isUpper = false := by
        rw [hs, List.head?_cons, Option.any_some, hk.1]
      have hl : isLetter c = false := by
        simpa [spaceBeforeDie, hs, hk.1, hk.2] using hsp
      have hend : Ends (die.toList ++ rest) := by
        rw [hs, List.cons_append, ends_cons]
        simp only [isLetter, Bool.or_eq_false_iff] at hl
        simp [isWordChar, Char.isAlphanum, hl.1, hl.2, hk.2]
      have hd := split_off hend
      rw [hr hup rest hap] at hd
      exact hd

lemma reads_die {die : String} {ls : List Lexeme} (hne : die.toList ≠ [])
    (hd : Hooks ((if spaceBeforeDie die then [' '] else []) ++ die.toList) ls) :
    Reads (thrown "" die).toList (.keyword .d :: ls) := by
  intro rest hr
  have hs : spaceAfterCount "" = false := rfl
  rw [toList_thrown, hs] at hr ⊢
  have hne' : (if spaceBeforeDie die then [' '] else []) ++ die.toList ≠ [] := by simp [hne]
  have hr' : Apart ((if spaceBeforeDie die then [' '] else []) ++ die.toList) rest :=
    (apart_cons hne').mp hr
  exact (hd rest hr').1

lemma readings_capital {c : Char} (hc : c.isUpper = true) :
    readings [c] = [.lexeme (.name (String.ofList [c]))] := by
  have hp : wordPieces [c] = [namePiece [c]] := by
    unfold wordPieces
    rw [ofText?_eq_none (c := c) (by simp) (isUpper_not_isLower hc)]
    dsimp only
    split
    next h =>
      obtain ⟨rfl, _⟩ := List.cons.inj h
      exact absurd hc (by decide)
    · simp_all
    · rfl
  have hi : isIdentifier [c] = true := by simp [isIdentifier, isUpper_isLetter hc]
  have h := readings_word hi ends_nil
  rw [hp, List.append_nil, readings_nil] at h
  exact h

lemma reads_dice {count die : String} {lc ld : List Lexeme} (hc : Reads count.toList lc)
    (hcne : count.toList ≠ []) (hne : die.toList ≠ [])
    (hd : Hooks ((if spaceBeforeDie die then [' '] else []) ++ die.toList) ld) :
    Reads (thrown count die).toList (lc ++ .keyword .d :: ld) := by
  intro rest hr
  rw [toList_thrown] at hr ⊢
  have hne' : (if spaceBeforeDie die then [' '] else []) ++ die.toList ≠ [] := by simp [hne]
  generalize (if spaceBeforeDie die then [' '] else []) ++ die.toList = s at hd hne' hr ⊢
  have hr' : Apart s rest := by
    rw [apart_append (by simp), apart_append (by simp), apart_cons hne'] at hr
    exact hr
  obtain ⟨hdie, hcap⟩ := hd rest hr'
  rw [List.map_append, List.append_assoc, List.append_assoc, List.append_assoc, List.cons_append]
  by_cases hsp : spaceAfterCount count = true
  · rw [if_pos hsp, List.singleton_append, hc _ (Ends.apart (by rw [ends_cons]; decide) _),
      readings_space, hdie]
    rfl
  · rw [if_neg hsp, List.nil_append]
    obtain ⟨c, hl⟩ : ∃ c, count.toList.getLast? = some c :=
      Option.ne_none_iff_exists'.mp fun h => hcne (List.getLast?_eq_none_iff.mp h)
    simp only [spaceAfterCount, hl, Bool.and_eq_true, Bool.not_eq_true', not_and, Bool.not_eq_false] at hsp
    by_cases hw : isWordChar c = true
    · by_cases hdig : count.toList.all Char.isDigit = true
      · -- the count is a number
        have hn := hc.readings_eq
        have hn' : readings (count.toList ++ []) = _ := readings_digits hcne hdig (by simp)
        rw [List.append_nil, hn, readings_nil, List.append_nil] at hn'
        rw [readings_digits hcne hdig (by simp), ← hn', hdie]
        rfl
      · -- the count is one capital letter
        have hone := hsp ⟨hw, by simpa using hdig⟩
        obtain ⟨x, hx⟩ := List.length_eq_one_iff.mp (beq_iff_eq.mp hone.1)
        rw [hx, List.getLast?_singleton, Option.some_inj] at hl
        subst hl
        have hn := hc.readings_eq
        rw [hx, readings_capital hone.2] at hn
        rw [hx, List.singleton_append, hcap x hone.2, ← hn]
        rfl
    · rw [hc _ (fun h => by simp [hl, hw] at h), hdie]
      rfl

end DiceLang.Lexer

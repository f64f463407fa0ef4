import DiceLang.Proofs.Parser.Extent

/-! Two runs of a parser over one section. What stands around the section differs between the runs; while
they stay inside it they take the same steps, and where one fails, the other one does. -/

namespace DiceLang.Parser

variable {α β γ : Type}

def Stuck (fault : SyntaxFault) (p : Parse α) : Prop :=
  ∀ c : Cursor, atEnd c.lexeme = true → p c = .error ⟨fault, ⟨c.source, c.span⟩⟩ c

lemma bind_eq_error {p : Parse α} {c d : Cursor} {err : SyntaxError} (h : p c = .error err d)
    (f : α → Parse β) : (p >>= f) c = .error err d := by
  simp only [bind, EStateM.bind, h]

section AtEnd

variable {fault : SyntaxFault}

lemma stuck_fail : Stuck fault (fail fault : Parse α) := fun _ _ => rfl

lemma Stuck.bind {p : Parse α} (h : Stuck fault p) (f : α → Parse β) : Stuck fault (p >>= f) :=
  fun c hc => bind_eq_error (h c hc) f

lemma stuck_here {f : Span → Parse β} (h : ∀ span, Stuck fault (f span)) : Stuck fault (here >>= f) :=
  fun c hc => h c.span c hc

lemma stuck_peek {f : Lexeme → Parse β} (h : ∀ l, atEnd l = true → Stuck fault (f l)) :
    Stuck fault (peek >>= f) :=
  fun c hc => h c.lexeme hc c hc

lemma stuck_location {f : Location → Parse β} {span : Span} (h : ∀ loc, Stuck fault (f loc)) :
    Stuck fault (location span >>= f) :=
  fun c hc => h _ c hc

lemma lexeme_ne_of_atEnd {c : Cursor} {l : Lexeme} (hc : atEnd c.lexeme = true) (hl : atEnd l = false) :
    c.lexeme ≠ l := by
  rintro rfl
  rw [hl] at hc
  cases hc

lemma stuck_accept {l : Lexeme} {f : Bool → Parse β} (hl : atEnd l = false) (h : Stuck fault (f false)) :
    Stuck fault (accept l >>= f) := by
  intro c hc
  rw [run_accept, if_neg (lexeme_ne_of_atEnd hc hl)]
  exact h c hc

lemma stuck_expect {l : Lexeme} (hl : atEnd l = false) : Stuck (.missing l) (expect l) := by
  intro c hc
  rw [expect_eq, if_neg (lexeme_ne_of_atEnd hc hl)]

lemma expectName_error {c : Cursor} (h : ∀ name, c.lexeme ≠ .name name) :
    expectName fault c = .error ⟨fault, ⟨c.source, c.span⟩⟩ c := by
  simp only [expectName, run_peek]
  cases hl : c.lexeme with
  | name name => exact absurd hl (h name)
  | _ => rfl

lemma stuck_expectName : Stuck fault (expectName fault) :=
  fun _ hc => expectName_error fun _ => lexeme_ne_of_atEnd hc rfl

end AtEnd

structure Around where
  before : Option Span
  stop : Token
  behind : List Token
  stops : atEnd stop.lexeme = true

namespace Section

variable {s : Section} {x : Around} {k : Nat}

def cursor (s : Section) (x : Around) (k : Nat) : Cursor where
  source := s.source
  last := match k with
    | 0 => x.before
    | k + 1 => some (s.span k)
  rest := s.tokens.drop k ++ x.stop :: x.behind

lemma rest_cursor (h : k < s.size) : (s.cursor x k).rest =
    ⟨s.lexeme k, s.span k⟩ :: (s.cursor x (k + 1)).rest := by
  simp only [cursor, lexeme, span]
  rw [List.drop_eq_getElem_cons h, List.getD_eq_getElem _ _ h]
  rfl

lemma lexeme_cursor (h : k < s.size) : (s.cursor x k).lexeme = s.lexeme k := by
  rw [Cursor.lexeme, rest_cursor h]
  rfl

lemma span_cursor (h : k < s.size) : (s.cursor x k).span = s.span k := by
  rw [Cursor.span, rest_cursor h]
  rfl

lemma advance_cursor (h : k < s.size) : (s.cursor x k).advance = s.cursor x (k + 1) := by
  rw [Cursor.advance, rest_cursor h]
  rfl

lemma rest_cursor_size (s : Section) (x : Around) : (s.cursor x s.size).rest = x.stop :: x.behind := by
  simp only [cursor, size, List.drop_length]
  rfl

lemma lexeme_cursor_size (s : Section) (x : Around) : (s.cursor x s.size).lexeme = x.stop.lexeme := by
  rw [Cursor.lexeme, rest_cursor_size]
  rfl

lemma span_cursor_size (s : Section) (x : Around) : (s.cursor x s.size).span = x.stop.span := by
  rw [Cursor.span, rest_cursor_size]
  rfl

lemma span_cursor_mem (s : Section) (x : Around) (hk : k ≤ s.size) :
    (s.cursor x k).span ∈ (s.tokens ++ [x.stop]).map Token.span := by
  rw [List.map_append, List.mem_append]
  rcases hk.lt_or_eq with hk | rfl
  · rw [span_cursor hk]
    exact .inl (List.mem_map_of_mem (s.token_mem hk))
  · rw [span_cursor_size]
    exact .inr (List.mem_singleton_self _)

lemma atEnd_cursor_size (s : Section) (x : Around) : atEnd (s.cursor x s.size).lexeme = true := by
  rw [lexeme_cursor_size]
  exact x.stops

lemma lexeme_cursor_iff {l : Lexeme} (hl : atEnd l = false) (hk : k ≤ s.size) :
    (s.cursor x k).lexeme = l ↔ k < s.size ∧ s.lexeme k = l := by
  rcases hk.lt_or_eq with hk | rfl
  · rw [lexeme_cursor hk]
    exact ⟨fun h => ⟨hk, h⟩, And.right⟩
  · constructor
    · intro h
      exact absurd h (lexeme_ne_of_atEnd (s.atEnd_cursor_size x) hl)
    · intro h
      exact absurd h.1 (lt_irrefl _)

lemma nameBefore?_cursor {m : Mark} (hm : m ≠ .separator) (hk : k ≤ s.size) (name : String) :
    (s.cursor x k).nameBefore? m = some name ↔
      k + 1 < s.size ∧ s.lexeme k = .name name ∧ s.lexeme (k + 1) = .mark m := by
  have hmark : atEnd (.mark m) = false := by simpa [atEnd] using hm
  rw [Cursor.nameBefore?_eq_some]
  constructor
  · rintro ⟨ls, hw⟩
    obtain ⟨hk, hl⟩ := (lexeme_cursor_iff rfl hk).mp (Cursor.lexeme_of_words hw)
    have hw' := Cursor.advance_of_words hw
    rw [advance_cursor hk] at hw'
    obtain ⟨hk', hl'⟩ := (lexeme_cursor_iff hmark hk).mp (Cursor.lexeme_of_words hw')
    exact ⟨hk', hl, hl'⟩
  · rintro ⟨hk', hl, hl'⟩
    rw [Cursor.words, rest_cursor (by omega), rest_cursor hk', List.map_cons, List.map_cons, hl, hl']
    exact ⟨_, rfl⟩

lemma size_lt_length_rest (s : Section) (x : Around) (k : Nat) :
    s.size - k < (s.cursor x k).rest.length := by
  simp only [cursor, size, List.length_append, List.length_drop, List.length_cons]
  omega

end Section

inductive InStep (s : Section) (x y : Around) (p q : Parse α) (k : Nat) (Q : Nat → α → Prop) : Prop
  | ok {j : Nat} {a : α} : k ≤ j → j ≤ s.size → p (s.cursor x k) = .ok a (s.cursor x j) →
      q (s.cursor y k) = .ok a (s.cursor y j) → Q j a → InStep s x y p q k Q
  | error {j : Nat} {fault fault' : SyntaxFault} : k ≤ j → j ≤ s.size →
      (j < s.size ∨ x.stop.lexeme = y.stop.lexeme → fault = fault') →
      p (s.cursor x k) = .error ⟨fault, ⟨s.source, (s.cursor x j).span⟩⟩ (s.cursor x j) →
      q (s.cursor y k) = .error ⟨fault', ⟨s.source, (s.cursor y j).span⟩⟩ (s.cursor y j) →
      InStep s x y p q k Q

section Rules

variable {s : Section} {x y : Around} {k : Nat} {Q : Nat → α → Prop} {R : Nat → β → Prop}

lemma InStep.imp {p q : Parse α} {P : Nat → α → Prop} (h : InStep s x y p q k Q)
    (hP : ∀ j a, k ≤ j → j ≤ s.size → Q j a → P j a) : InStep s x y p q k P := by
  cases h with
  | ok hkj hj hp hq ha => exact .ok hkj hj hp hq (hP _ _ hkj hj ha)
  | error hkj hj hfault hp hq => exact .error hkj hj hfault hp hq

lemma InStep.bind {p q : Parse α} {f g : α → Parse β} (h : InStep s x y p q k Q)
    (hf : ∀ j a, k ≤ j → j ≤ s.size → Q j a → InStep s x y (f a) (g a) j R) :
    InStep s x y (p >>= f) (q >>= g) k R := by
  cases h with
  | error hkj hj hfault hp hq =>
    exact .error hkj hj hfault (bind_eq_error hp f) (bind_eq_error hq g)
  | @ok j a hkj hj hp hq ha =>
    rcases hf j a hkj hj ha with ⟨hji, hi, hp', hq', hb⟩ | ⟨hji, hi, hfault, hp', hq'⟩
    · refine .ok (hkj.trans hji) hi ?_ ?_ hb
      · rw [run_bind hp, hp']
      · rw [run_bind hq, hq']
    · refine .error (hkj.trans hji) hi hfault ?_ ?_
      · rw [run_bind hp, hp']
      · rw [run_bind hq, hq']

lemma inStep_pure {a : α} (hk : k ≤ s.size) (h : Q k a) : InStep s x y (pure a) (pure a) k Q :=
  .ok le_rfl hk rfl rfl h

lemma inStep_fail (fault : SyntaxFault) (hk : k ≤ s.size) :
    InStep s x y (fail fault) (fail fault) k Q :=
  .error le_rfl hk (fun _ => rfl) rfl rfl

lemma Stuck.inStep {p q : Parse α} {fault : SyntaxFault} (hp : Stuck fault p) (hq : Stuck fault q) :
    InStep s x y p q s.size Q :=
  .error le_rfl le_rfl (fun _ => rfl) (hp _ (s.atEnd_cursor_size x)) (hq _ (s.atEnd_cursor_size y))

lemma InStep.eq_of_same {p q : Parse α} (h : InStep s x x p q k Q) :
    p (s.cursor x k) = q (s.cursor x k) := by
  cases h with
  | ok _ _ hp hq _ => rw [hp, hq]
  | error _ _ hfault hp hq => rw [hp, hq, hfault (.inr rfl)]

lemma InStep.behind {p q p' q' : Parse α} {j : Nat} (h : InStep s x y p' q' j Q) (hkj : k ≤ j)
    (hp : p (s.cursor x k) = p' (s.cursor x j)) (hq : q (s.cursor y k) = q' (s.cursor y j)) :
    InStep s x y p q k Q := by
  cases h with
  | ok hji hi hp' hq' ha => exact .ok (hkj.trans hji) hi (hp.trans hp') (hq.trans hq') ha
  | error hji hi hfault hp' hq' =>
    exact .error (hkj.trans hji) hi hfault (hp.trans hp') (hq.trans hq')

lemma inStep_here {f g : Span → Parse β} (hk : k < s.size)
    (h : InStep s x y (f (s.span k)) (g (s.span k)) k R) :
    InStep s x y (here >>= f) (here >>= g) k R := by
  apply h.behind le_rfl
  · rw [run_here, Section.span_cursor hk]
  · rw [run_here, Section.span_cursor hk]

lemma inStep_advance {f g : Unit → Parse β} (hk : k < s.size)
    (h : InStep s x y (f ()) (g ()) (k + 1) R) :
    InStep s x y (advance >>= f) (advance >>= g) k R := by
  apply h.behind k.le_succ
  · rw [run_advance, Section.advance_cursor hk]
  · rw [run_advance, Section.advance_cursor hk]

lemma inStep_location {f g : Location → Parse β} {span : Span}
    (h : InStep s x y (f ⟨s.source, span⟩) (g ⟨s.source, span⟩) k R) :
    InStep s x y (location span >>= f) (location span >>= g) k R :=
  h.behind le_rfl rfl rfl

lemma inStep_locationFrom {f g : Location → Parse β} {start : Span} (hk : 0 < k)
    (h : InStep s x y (f ⟨s.source, start.union (s.span (k - 1))⟩)
      (g ⟨s.source, start.union (s.span (k - 1))⟩) k R) :
    InStep s x y (locationFrom start >>= f) (locationFrom start >>= g) k R := by
  obtain ⟨k, rfl⟩ := Nat.exists_eq_add_of_le' hk
  exact h.behind le_rfl rfl rfl

lemma inStep_remaining {f g : List Token → Parse β}
    (h : ∀ bound bound', s.size - k < bound.length → s.size - k < bound'.length →
      InStep s x y (f bound) (g bound') k R) :
    InStep s x y (remaining >>= f) (remaining >>= g) k R :=
  (h _ _ (s.size_lt_length_rest x k) (s.size_lt_length_rest y k)).behind le_rfl rfl rfl

inductive Meet (s : Section) (k : Nat) : Lexeme → Lexeme → Prop
  | inside : k < s.size → Meet s k (s.lexeme k) (s.lexeme k)
  | finish {l l' : Lexeme} : k = s.size → atEnd l = true → atEnd l' = true → Meet s k l l'

lemma meet_cursor (hk : k ≤ s.size) : Meet s k (s.cursor x k).lexeme (s.cursor y k).lexeme := by
  rcases hk.lt_or_eq with hk | rfl
  · rw [Section.lexeme_cursor hk, Section.lexeme_cursor hk]
    exact .inside hk
  · exact .finish rfl (s.atEnd_cursor_size x) (s.atEnd_cursor_size y)

lemma Meet.same {l l' : Lexeme} (h : Meet s k l l') {f : Lexeme → γ} {v : γ}
    (hf : ∀ l, atEnd l = true → f l = v) : f l = f l' := by
  cases h with
  | inside => rfl
  | finish _ hl hl' => rw [hf l hl, hf l' hl']

lemma Meet.lt {l l' : Lexeme} (h : Meet s k l l') {f : Lexeme → Option γ} {v : γ}
    (hf : ∀ l, atEnd l = true → f l = none) (hv : f l' = some v) : k < s.size := by
  cases h with
  | inside hk => exact hk
  | finish _ _ hl' =>
    rw [hf l' hl'] at hv
    cases hv

lemma inStep_peek {f g : Lexeme → Parse β} (hk : k ≤ s.size)
    (h : ∀ l l', Meet s k l l' → InStep s x y (f l) (g l') k R) :
    InStep s x y (peek >>= f) (peek >>= g) k R :=
  (h _ _ (meet_cursor hk)).behind le_rfl rfl rfl

lemma inStep_peek_inside {f g : Lexeme → Parse β} (hk : k < s.size)
    (h : InStep s x y (f (s.lexeme k)) (g (s.lexeme k)) k R) :
    InStep s x y (peek >>= f) (peek >>= g) k R := by
  apply h.behind le_rfl
  · rw [run_peek, Section.lexeme_cursor hk]
  · rw [run_peek, Section.lexeme_cursor hk]

lemma inStep_peek_if {l : Lexeme} (hl : atEnd l = false) {p p' q q' : Parse β} (hk : k ≤ s.size)
    (htrue : k < s.size → InStep s x y p p' k R) (hfalse : InStep s x y q q' k R) :
    InStep s x y (peek >>= fun m => if m = l then p else q) (peek >>= fun m => if m = l then p' else q')
      k R := by
  by_cases h : k < s.size ∧ s.lexeme k = l
  · apply (htrue h.1).behind le_rfl
    · rw [run_peek, if_pos ((Section.lexeme_cursor_iff hl hk).mpr h)]
    · rw [run_peek, if_pos ((Section.lexeme_cursor_iff hl hk).mpr h)]
  · apply hfalse.behind le_rfl
    · rw [run_peek, if_neg (mt (Section.lexeme_cursor_iff hl hk).mp h)]
    · rw [run_peek, if_neg (mt (Section.lexeme_cursor_iff hl hk).mp h)]

lemma inStep_accept {l : Lexeme} (hl : atEnd l = false) {f g : Bool → Parse β} (hk : k ≤ s.size)
    (htrue : k < s.size → InStep s x y (f true) (g true) (k + 1) R)
    (hfalse : InStep s x y (f false) (g false) k R) :
    InStep s x y (accept l >>= f) (accept l >>= g) k R := by
  by_cases h : k < s.size ∧ s.lexeme k = l
  · apply (htrue h.1).behind k.le_succ
    · rw [run_accept, if_pos ((Section.lexeme_cursor_iff hl hk).mpr h), Section.advance_cursor h.1]
    · rw [run_accept, if_pos ((Section.lexeme_cursor_iff hl hk).mpr h), Section.advance_cursor h.1]
  · apply hfalse.behind le_rfl
    · rw [run_accept, if_neg (mt (Section.lexeme_cursor_iff hl hk).mp h)]
    · rw [run_accept, if_neg (mt (Section.lexeme_cursor_iff hl hk).mp h)]

lemma inStep_expect {l : Lexeme} (hl : atEnd l = false) {f g : Span → Parse β} (hk : k ≤ s.size)
    (h : k < s.size → InStep s x y (f (s.span k)) (g (s.span k)) (k + 1) R) :
    InStep s x y (expect l >>= f) (expect l >>= g) k R := by
  by_cases hl' : k < s.size ∧ s.lexeme k = l
  · have hrun (x : Around) : expect l (s.cursor x k) = .ok (s.span k) (s.cursor x (k + 1)) := by
      rw [expect_eq, if_pos ((Section.lexeme_cursor_iff hl hk).mpr hl'), Section.span_cursor hl'.1,
        Section.advance_cursor hl'.1]
    exact (h hl'.1).behind k.le_succ (run_bind (hrun x) f) (run_bind (hrun y) g)
  · have hrun (x : Around) := (expect_eq l (s.cursor x k)).trans
      (if_neg (mt (Section.lexeme_cursor_iff hl hk).mp hl'))
    exact .error le_rfl hk (fun _ => rfl) (bind_eq_error (hrun x) f) (bind_eq_error (hrun y) g)

lemma inStep_expectName {fault : SyntaxFault} {f g : String × Span → Parse β} (hk : k ≤ s.size)
    (h : ∀ name, k < s.size → InStep s x y (f (name, s.span k)) (g (name, s.span k)) (k + 1) R) :
    InStep s x y (expectName fault >>= f) (expectName fault >>= g) k R := by
  by_cases hl : ∃ name, k < s.size ∧ s.lexeme k = .name name
  · obtain ⟨name, hlt, hl⟩ := hl
    apply (h name hlt).behind k.le_succ
    · rw [run_expectName ((Section.lexeme_cursor_iff rfl hk).mpr ⟨hlt, hl⟩), Section.span_cursor hlt,
        Section.advance_cursor hlt]
    · rw [run_expectName ((Section.lexeme_cursor_iff rfl hk).mpr ⟨hlt, hl⟩), Section.span_cursor hlt,
        Section.advance_cursor hlt]
  · have hrun (x : Around) : expectName fault (s.cursor x k) =
        .error ⟨fault, ⟨s.source, (s.cursor x k).span⟩⟩ (s.cursor x k) :=
      expectName_error fun name hname => hl ⟨name, (Section.lexeme_cursor_iff rfl hk).mp hname⟩
    exact .error le_rfl hk (fun _ => rfl) (bind_eq_error (hrun x) f) (bind_eq_error (hrun y) g)

lemma inStep_acceptNameBefore {m : Mark} (hm : m ≠ .separator) {f g : Option String → Parse β}
    (hk : k ≤ s.size)
    (hsome : ∀ name, k + 1 < s.size → InStep s x y (f (some name)) (g (some name)) (k + 2) R)
    (hnone : InStep s x y (f none) (g none) k R) :
    InStep s x y (acceptNameBefore m >>= f) (acceptNameBefore m >>= g) k R := by
  have hsame : (s.cursor y k).nameBefore? m = (s.cursor x k).nameBefore? m := by
    ext name
    rw [Section.nameBefore?_cursor hm hk, Section.nameBefore?_cursor hm hk]
  cases hname : (s.cursor x k).nameBefore? m with
  | none =>
    rw [hname] at hsame
    apply hnone.behind le_rfl
    · exact run_bind (by rw [acceptNameBefore_eq, hname]) f
    · exact run_bind (by rw [acceptNameBefore_eq, hsame]) g
  | some name =>
    rw [hname] at hsame
    have hlt := ((Section.nameBefore?_cursor hm hk name).mp hname).1
    have hadvance (x : Around) : (s.cursor x k).advance.advance = s.cursor x (k + 2) := by
      rw [Section.advance_cursor (by omega), Section.advance_cursor hlt]
    apply (hsome name hlt).behind (by omega)
    · exact run_bind (by rw [acceptNameBefore_eq, hname, ← hadvance]) f
    · exact run_bind (by rw [acceptNameBefore_eq, hsame, ← hadvance]) g

end Rules

end DiceLang.Parser

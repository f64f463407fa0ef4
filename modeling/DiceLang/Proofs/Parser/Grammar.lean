import DiceLang.Proofs.Expr.Signs
import DiceLang.Proofs.Expr.WellFormed
import DiceLang.Proofs.Parser.Levels

/-! The grammar. Each parser is followed through its steps with the words that it takes, so what is to hold of
every program is to be shown of the forms alone. -/

namespace DiceLang

namespace Expr

def names : Expr → List String
  | .lambda _ params _ => params.map Prod.fst
  | .forEach _ index item _ _ _ => index.toList ++ [item]
  | .importing _ space _ => space.toList
  | _ => []

/-- A form that says nothing but its words, the names that it binds and its parts. -/
def IsForm : Expr → Prop
  | .scalar _ v => ∀ n, v ≠ .number n
  | .list .. | .map .. | .lambda .. | .forEach .. | .conditional .. | .importing .. => True
  | .unary _ op _ => op.isWritten = true ∧ op ≠ .minus ∧ op ≠ .die
  | .binary _ op _ _ => op ≠ .dice ∧ op ≠ .subscript
  | .repeating _ form _ _ limit => form = .once → ∃ loc, limit = some (.scalar loc (.number 1))
  | .output _ _ _ _ name => ∀ e ∈ name, e.isLiteral = true
  | _ => False

end Expr

namespace Parser

open DiceLang.Expr (isTight)
open Printer (leftLevel rightLevel operandLevel)

variable {α β γ : Type}

def Takes (p : Parse α) (Q : List Lexeme → α → Prop) : Prop :=
  ∀ ⦃c a c'⦄, p c = .ok a c' → ∃ s, c.words = s ++ c'.words ∧ Q s a

def TakesAt (l : Lexeme) (p : Parse α) (Q : List Lexeme → α → Prop) : Prop :=
  ∀ ⦃c a c'⦄, c.lexeme = l → p c = .ok a c' → ∃ s, c.words = s ++ c'.words ∧ Q s a

lemma Cursor.words_of_lexeme {c : Cursor} {l : Lexeme} (h : c.lexeme = l) (hl : l ≠ .eof) :
    c.words = l :: c.advance.words := by
  rw [c.lexeme_eq] at h
  rw [c.words_advance]
  cases hw : c.words with
  | nil =>
    rw [hw] at h
    exact absurd h.symm hl
  | cons k ks =>
    rw [hw, List.headD_cons] at h
    rw [h, List.tail_cons]

section Rules

variable {Q : List Lexeme → α → Prop} {R : List Lexeme → β → Prop} {l : Lexeme}

lemma Takes.bind {p : Parse α} {f : α → Parse β} (hp : Takes p Q)
    (hf : ∀ s a, Q s a → Takes (f a) fun s' b => R (s ++ s') b) : Takes (p >>= f) R := by
  intro c b c' h
  obtain ⟨a, d, h', h⟩ := bind_eq_ok.mp h
  obtain ⟨s, hw, hq⟩ := hp h'
  obtain ⟨s', hw', hr⟩ := hf s a hq h
  exact ⟨s ++ s', by rw [hw, hw', List.append_assoc], hr⟩

lemma Takes.imp {p : Parse α} {Q' : List Lexeme → α → Prop} (h : Takes p Q)
    (hq : ∀ s a, Q s a → Q' s a) : Takes p Q' := by
  intro c a c' ho
  obtain ⟨s, hw, ha⟩ := h ho
  exact ⟨s, hw, hq s a ha⟩

lemma Takes.at {p : Parse α} (h : Takes p Q) : TakesAt l p Q := fun _ _ _ _ ho => h ho

lemma takes_pure {a : α} (h : Q [] a) : Takes (pure a) Q := by
  rintro c x c' ho
  obtain ⟨rfl, rfl⟩ := EStateM.Result.ok.inj ho
  exact ⟨[], rfl, h⟩

lemma takes_fail {fault : SyntaxFault} : Takes (fail fault : Parse α) Q := by
  rintro c x c' ho
  simp at ho

lemma takes_peek {f : Lexeme → Parse β} (h : ∀ l, TakesAt l (f l) R) : Takes (peek >>= f) R :=
  fun c _ _ ho => h c.lexeme rfl ho

lemma takes_here {f : Span → Parse β} (h : ∀ s, Takes (f s) R) : Takes (here >>= f) R :=
  fun c _ _ ho => h c.span ho

lemma takes_location {f : Location → Parse β} {s : Span} (h : ∀ loc, Takes (f loc) R) :
    Takes (location s >>= f) R :=
  fun _ _ _ ho => h _ ho

lemma takesAt_location {f : Location → Parse β} {s : Span} (h : ∀ loc, TakesAt l (f loc) R) :
    TakesAt l (location s >>= f) R :=
  fun _ _ _ hc ho => h _ hc ho

lemma takes_locationFrom {f : Location → Parse β} {s : Span} (h : ∀ loc, Takes (f loc) R) :
    Takes (locationFrom s >>= f) R :=
  fun _ _ _ ho => h _ ho

lemma takes_remaining {f : List Token → Parse β} (h : ∀ ts, Takes (f ts) R) :
    Takes (remaining >>= f) R :=
  fun _ _ _ ho => h _ ho

lemma takes_advance {f : Unit → Parse β} (hl : l ≠ .eof)
    (h : Takes (f ()) fun s b => R (l :: s) b) : TakesAt l (advance >>= f) R := by
  intro c b c' hc ho
  obtain ⟨s, hw, hr⟩ := h ho
  exact ⟨l :: s, by rw [Cursor.words_of_lexeme hc hl, hw, List.cons_append], hr⟩

lemma takes_accept {f : Bool → Parse β} (hl : l ≠ .eof)
    (ht : Takes (f true) fun s b => R (l :: s) b) (hf : Takes (f false) R) :
    Takes (accept l >>= f) R := by
  intro c b c' ho
  rw [run_accept] at ho
  split at ho
  · exact takes_advance (f := fun _ => f true) hl ht ‹_› ho
  · exact hf ho

lemma takes_expect {f : Span → Parse β} (hl : l ≠ .eof)
    (h : ∀ span, Takes (f span) fun s b => R (l :: s) b) : Takes (expect l >>= f) R := by
  intro c b c' ho
  obtain ⟨hc, ho⟩ := expect_ok ho
  exact takes_advance (f := fun _ => f c.span) hl (h c.span) hc ho

lemma takes_expectName {fault : SyntaxFault} {f : String × Span → Parse β}
    (h : ∀ x, Takes (f x) fun s b => R (.name x.1 :: s) b) : Takes (expectName fault >>= f) R := by
  intro c b c' ho
  obtain ⟨name, hc, ho⟩ := expectName_ok ho
  exact takes_advance (f := fun _ => f (name, c.span)) (by simp) (h (name, c.span)) hc ho

end Rules

def isFrame : Lexeme → Bool
  | .number _ | .keyword .d | .eof => false
  | _ => true

lemma ne_eof_of_isFrame {w : Lexeme} (h : isFrame w = true) : w ≠ .eof := by
  rintro rfl
  cases h

lemma isFrame_of_some {f : Lexeme → Option γ} (heof : f .eof = none) (hd : f (.keyword .d) = none)
    (hnumber : ∀ n, f (.number n) = none) {l : Lexeme} {a : γ} (h : f l = some a) : isFrame l = true := by
  cases l with
  | eof => simp [heof] at h
  | number n => simp [hnumber n] at h
  | keyword k =>
    cases k with
    | d => simp [hd] at h
    | _ => rfl
  | _ => rfl

lemma isFrame_joint {op : BinaryOp} (h : op ≠ .dice) : isFrame op.joint = true := by
  cases op with
  | dice => exact absurd rfl h
  | arithmetic op => cases op <;> rfl
  | compare c => cases c <;> rfl
  | _ => rfl

/-- Words of a form: names that it binds, words of its parts, each at a place that is tight or not, and
other words. The item of a loop that collects its items is not written. -/
inductive Parts (R : Bool → List Lexeme → Expr → Prop) :
    List Lexeme → List String → List (Bool × Expr) → Prop
  | nil : Parts R [] [] []
  | word {w : Lexeme} {s : List Lexeme} {ns : List String} {ps : List (Bool × Expr)} :
      isFrame w = true → Parts R s ns ps → Parts R (w :: s) ns ps
  | name (n : String) {s : List Lexeme} {ns : List String} {ps : List (Bool × Expr)} :
      Parts R s ns ps → Parts R (.name n :: s) (n :: ns) ps
  | part {tight : Bool} {e : Expr} {s s' : List Lexeme} {ns : List String} {ps : List (Bool × Expr)} :
      R tight s e → Parts R s' ns ps → Parts R (s ++ s') ns ((tight, e) :: ps)
  | itself (loc : Location) {n : String} {s : List Lexeme} {ns : List String}
      {ps : List (Bool × Expr)} : n ∈ ns → Parts R s ns ps → Parts R s ns ((false, .var loc n) :: ps)

namespace Parts

variable {R : Bool → List Lexeme → Expr → Prop} {s s' : List Lexeme} {ns ns' : List String}
  {ps ps' : List (Bool × Expr)}

lemma append (h : Parts R s ns ps) (h' : Parts R s' ns' ps') :
    Parts R (s ++ s') (ns ++ ns') (ps ++ ps') := by
  induction h with
  | nil => exact h'
  | word hw _ ih => exact ih.word hw
  | name n _ ih => exact ih.name n
  | part he _ ih =>
    rw [List.append_assoc]
    exact ih.part he
  | itself loc hn _ ih => exact ih.itself loc (List.mem_append_left _ hn)

lemma one {tight : Bool} {e : Expr} (h : R tight s e) : Parts R s [] [(tight, e)] := by
  have hs := nil.part h
  rwa [List.append_nil] at hs

lemma snoc (h : Parts R s ns ps) {w : Lexeme} (hw : isFrame w = true) : Parts R (s ++ [w]) ns ps := by
  have hs := h.append (nil.word hw)
  rwa [List.append_nil, List.append_nil] at hs

end Parts

/-- What is to be shown of the forms for all words `s` that are read to a tree `e`: for `U s e` at the place
of a die, and for `R tight s e` elsewhere. -/
structure Grammar (U : List Lexeme → Expr → Prop) (R : Bool → List Lexeme → Expr → Prop) : Prop where
  atom {loc : Location} {l : Lexeme} {e : Expr} : atom? loc l = some e → U [l] e
  parens {s : List Lexeme} {e : Expr} :
    R false s e → U (.mark .openParen :: (s ++ [.mark .closeParen])) e
  opened {w : Lexeme} {s : List Lexeme} {ns : List String} {e : Expr} : isFrame w = true →
    Parts R s ns e.spots → e.names ⊆ ns → e.IsForm → U (w :: s) e
  call {loc : Location} {s s' : List Lexeme} {ns : List String} {callee : Expr} {positional : List Expr}
    {named : List (String × Expr)} : U s callee →
    Parts R s' ns ((positional ++ named.map Prod.snd).map (false, ·)) → named.map Prod.fst ⊆ ns →
    U (s ++ s') (.call loc callee positional named)
  subscript {loc : Location} {s s' : List Lexeme} {ns : List String} {left right : Expr} : U s left →
    Parts R s' ns [(false, right)] → U (s ++ s') (.binary loc .subscript left right)
  tight {s : List Lexeme} {e : Expr} : U s e → R true s e
  die {loc : Location} {s : List Lexeme} {e : Expr} :
    U s e → R true (.keyword .d :: s) (.unary loc .die e)
  dice {loc : Location} {s s' : List Lexeme} {left right : Expr} : R true s left → U s' right →
    R true (s ++ .keyword .d :: s') (.binary loc .dice left right)
  loose {s : List Lexeme} {e : Expr} : R true s e → R false s e
  minus {loc : Location} {s : List Lexeme} {e : Expr} :
    R true s e → R false (.mark .minus :: s) (.unary loc .minus e)
  form {tight : Bool} {s : List Lexeme} {ns : List String} {e : Expr} : Parts R s ns e.spots →
    e.names ⊆ ns → e.IsForm → R tight s e
  ended {s : List Lexeme} {e : Expr} : R false s e → R false (s ++ [.mark .semicolon]) e

section Repetition

variable {U R : List Lexeme → Expr → Prop} {op? : Lexeme → Option BinaryOp} {operand : Parse Expr}
  (hop : ∀ {l op}, op? l = some op → l ≠ .eof ∧
    ∀ {s s' left right}, R s left → U s' right → R (s ++ l :: s') (.join op left right))

include hop

lemma takes_chainFrom (ho : Takes operand U) (bound : List Token) {left : Expr} {s : List Lexeme}
    (hl : R s left) : Takes (chainFrom op? operand bound left) fun s' t => R (s ++ s') t := by
  induction bound generalizing left s with
  | nil => exact takes_pure (by rwa [List.append_nil])
  | cons t bound ih =>
    refine takes_peek fun l => ?_
    cases hl' : op? l with
    | none => exact (takes_pure (by rwa [List.append_nil])).at
    | some op =>
      obtain ⟨heof, hjoin⟩ := hop hl'
      refine takes_advance heof (ho.bind fun s' right hr => ?_)
      exact (ih (hjoin hl hr)).imp fun s'' t ht => by simpa using ht

end Repetition

section Chains

variable {R : List Lexeme → Expr → Prop} {op? : Lexeme → Option BinaryOp} {operand : Parse Expr}
  (hop : ∀ {l op}, op? l = some op → l ≠ .eof ∧
    ∀ {s s' left right}, R s left → R s' right → R (s ++ l :: s') (.join op left right))
  (ho : Takes operand R)

include hop ho

lemma takes_chain : Takes (chain op? operand) R :=
  ho.bind fun _ _ hl => takes_remaining fun bound => takes_chainFrom hop ho bound hl

lemma takes_single : Takes (single op? operand) R := by
  refine ho.bind fun s left hl => takes_peek fun l => ?_
  cases hl' : op? l with
  | none => exact (takes_pure (by rwa [List.append_nil])).at
  | some op =>
    obtain ⟨heof, hjoin⟩ := hop hl'
    refine takes_advance heof (ho.bind fun s' right hr => takes_pure ?_)
    rw [List.append_nil]
    exact hjoin hl hr

end Chains

section Items

variable {R : Bool → List Lexeme → Expr → Prop} {item : Parse α} {ns : α → List String}
  {ps : α → List (Bool × Expr)} (h : Takes item fun s x => Parts R s (ns x) (ps x))

include h

lemma takes_commaItems {close : Mark} (bound : List Token) : Takes (commaItems close item bound)
    fun s xs => Parts R s (xs.flatMap ns) (xs.flatMap ps) := by
  induction bound with
  | nil => exact takes_pure .nil
  | cons t bound ih =>
    refine takes_peek fun l => Takes.at ?_
    split
    · exact takes_pure .nil
    · refine h.bind fun s x hx => takes_accept (by simp) ?_ (takes_pure ?_)
      · refine ih.bind fun s' xs hxs => takes_pure ?_
        rw [List.append_nil, List.flatMap_cons, List.flatMap_cons]
        exact hx.append (hxs.word rfl)
      · rwa [List.flatMap_singleton, List.flatMap_singleton, List.append_nil]

lemma takes_commaList {close : Mark} : Takes (commaList close item)
    fun s xs => Parts R s (xs.flatMap ns) (xs.flatMap ps) := by
  refine takes_remaining fun bound => (takes_commaItems h bound).bind fun s xs hxs => ?_
  exact takes_expect (by simp) fun _ => takes_pure (hxs.snoc rfl)

end Items

section Levels

variable {U : List Lexeme → Expr → Prop} {R : Bool → List Lexeme → Expr → Prop} (g : Grammar U R)
  {again : Again} (hu : Takes (again .unary) U) (ha : ∀ level, Takes (again level) (R false))

lemma takes_acceptNameBefore (m : Mark) :
    Takes (acceptNameBefore m) fun s name => Parts R s name.toList [] := by
  intro c a c' h
  rw [acceptNameBefore_eq] at h
  cases hn : c.nameBefore? m with
  | some name =>
    rw [hn] at h
    obtain ⟨rfl, rfl⟩ := EStateM.Result.ok.inj h
    obtain ⟨ls, hw⟩ := Cursor.nameBefore?_eq_some.mp hn
    refine ⟨[.name name, .mark m], ?_, .name name (.word rfl .nil)⟩
    rw [hw, Cursor.advance_of_words (Cursor.advance_of_words hw)]
    rfl
  | none =>
    rw [hn] at h
    obtain ⟨rfl, rfl⟩ := EStateM.Result.ok.inj h
    exact ⟨[], rfl, .nil⟩

lemma takes_entryName : Takes entryName fun s _ => Parts R s [] [] := by
  refine takes_peek fun l => ?_
  split
  · exact takes_advance (by simp) (takes_pure (.word rfl .nil))
  · split
    · exact takes_advance (by simp) (takes_pure (.word rfl .nil))
    · exact takes_fail.at
  · exact takes_fail.at

include ha

lemma takes_entry : Takes (entry again) fun s x => Parts R s [] [(false, x.2)] := by
  refine (takes_entryName (R := R)).bind fun s name hs => takes_expect (by simp) fun _ => ?_
  refine (ha .sequence).bind fun s' e he => takes_pure ?_
  rw [List.append_nil]
  exact hs.append (.word rfl (.one he))

lemma takes_param : Takes (param again) fun s x => Parts R s [x.1] (x.2.toList.map (false, ·)) := by
  refine takes_expectName fun x => takes_accept (by simp) ?_ (takes_pure (.name _ .nil))
  refine (ha .sequence).bind fun s e he => takes_pure ?_
  rw [List.append_nil]
  exact .name _ (.word rfl (.one he))

include g

lemma takes_lambda (start : Span) : Takes (lambda again start) fun s e => U (.keyword .fun :: s) e := by
  have hbody (brace : Span) : Takes (body again brace) (R false) := by
    refine takes_peek fun l => Takes.at ?_
    split
    · exact takes_location fun loc => takes_pure (g.form .nil (List.nil_subset _) (by simp [Expr.IsForm]))
    · exact ha .sequence
  refine takes_expect (by simp) fun _ => (takes_commaList (takes_param ha)).bind fun s params hp => ?_
  refine takes_expect (by simp) fun brace => (hbody brace).bind fun s' body hb => ?_
  refine takes_expect (by simp) fun _ => takes_locationFrom fun loc => takes_pure ?_
  have hparts := hp.append (.word (w := .mark .openBrace) rfl
    ((Parts.one hb).snoc (w := .mark .closeBrace) rfl))
  rw [← List.map_eq_flatMap, ← List.map_flatMap, ← List.filterMap_eq_flatMap_toList] at hparts
  exact g.opened rfl (.word rfl hparts) (List.subset_append_left _ _) trivial

lemma takes_primary : Takes (primary again) U := by
  refine takes_here fun start => takes_peek fun l => takesAt_location fun loc => ?_
  cases he : atom? loc l with
  | some e =>
    have heof : l ≠ .eof := by
      rintro rfl
      cases he
    exact takes_advance heof (takes_pure (g.atom he))
  | none =>
    refine Takes.at (takes_accept (by simp) ?_ (takes_accept (by simp) ?_
      (takes_accept (by simp) ?_ (takes_accept (by simp) ?_ takes_fail))))
    · have hitem := (ha .sequence).imp fun _ _ he => Parts.one he
      refine (takes_commaList hitem).bind fun s items hi => takes_locationFrom fun loc => takes_pure ?_
      rw [← List.map_eq_flatMap] at hi
      rw [List.append_nil]
      exact g.opened rfl hi (List.nil_subset _) trivial
    · refine (takes_commaList (takes_entry ha)).bind fun s entries he =>
        takes_locationFrom fun loc => takes_pure ?_
      rw [← List.map_eq_flatMap] at he
      rw [List.append_nil]
      exact g.opened rfl he (List.nil_subset _) trivial
    · exact takes_lambda g ha start
    · refine (ha .sequence).bind fun s e he => takes_expect (by simp) fun _ => takes_pure ?_
      exact g.parens he

omit g in
lemma takes_argument (seen : Bool) : Takes (argument again seen) fun s x =>
    (seen = true → x.1.isSome = true) ∧ Parts R s x.1.toList [(false, x.2)] := by
  refine (takes_acceptNameBefore (R := R) .colon).bind fun s name hs => ?_
  split
  · refine (ha .sequence).bind fun s' e he => takes_pure ⟨fun _ => rfl, ?_⟩
    rw [List.append_nil]
    exact hs.append (.one he)
  · by_cases hseen : seen = true
    · rw [if_pos hseen]
      exact takes_fail
    · rw [if_neg hseen]
      refine (ha .sequence).bind fun s' e he => takes_pure ⟨fun h => absurd h hseen, ?_⟩
      rw [List.append_nil]
      exact hs.append (.one he)

def ArgumentParts (R : Bool → List Lexeme → Expr → Prop) (s : List Lexeme)
    (xs : List Expr × List (String × Expr)) : Prop :=
  Parts R s (xs.2.map Prod.fst) ((xs.1 ++ xs.2.map Prod.snd).map (false, ·))

omit g ha in
lemma parts_addArgument {name : Option String} {e : Expr} {xs : List Expr × List (String × Expr)}
    {s s' : List Lexeme} (hxs : name.isSome = true → xs.1 = []) (he : Parts R s name.toList [(false, e)])
    (h : ArgumentParts R s' xs) : ArgumentParts R (s ++ s') (addArgument (name, e) xs) := by
  have hboth := he.append h
  cases name with
  | none => exact hboth
  | some name =>
    rw [hxs rfl] at hboth
    rwa [ArgumentParts, addArgument, hxs rfl]

omit g ha in
lemma addArgument_fst {seen : Bool} {name : Option String} {e : Expr}
    {xs : List Expr × List (String × Expr)} (hname : seen = true → name.isSome = true)
    (hxs : name.isSome = true → xs.1 = []) (h : seen = true) : (addArgument (name, e) xs).1 = [] := by
  cases name with
  | none => cases hname h
  | some name => exact hxs rfl

omit g in
lemma takes_arguments : Takes (arguments again) (ArgumentParts R) := by
  have hitems (bound : List Token) (seen : Bool) : Takes (argumentItems again bound seen) fun s xs =>
      (seen = true → xs.1 = []) ∧ ArgumentParts R s xs := by
    induction bound generalizing seen with
    | nil => exact takes_pure ⟨fun _ => rfl, .nil⟩
    | cons t bound ih =>
      refine (takes_argument ha seen).bind fun s arg harg => ?_
      obtain ⟨name, e⟩ := arg
      refine takes_accept (by simp) ((ih name.isSome).bind fun s' xs hxs => takes_pure ?_)
        (takes_pure ?_)
      · rw [List.append_nil]
        exact ⟨addArgument_fst harg.1 hxs.1, parts_addArgument hxs.1 harg.2 (.word rfl hxs.2)⟩
      · exact ⟨addArgument_fst harg.1 fun _ => rfl, parts_addArgument (fun _ => rfl) harg.2 .nil⟩
  refine takes_peek fun l => Takes.at ?_
  split
  · exact takes_pure .nil
  · exact takes_remaining fun bound => (hitems bound false).imp fun _ _ h => h.2

lemma takes_suffixes (bound : List Token) {e : Expr} {s : List Lexeme} (he : U s e) :
    Takes (suffixes again bound e) fun s' t => U (s ++ s') t := by
  induction bound generalizing e s with
  | nil => exact takes_pure (by rwa [List.append_nil])
  | cons t bound ih =>
    refine takes_accept (by simp) ?_ (takes_accept (by simp) ?_ (takes_accept (by simp) ?_
      (takes_pure (by rwa [List.append_nil]))))
    · refine (takes_arguments ha).bind fun s' xs hxs => takes_expect (by simp) fun _ =>
        takes_location fun loc => ?_
      have hcall : U (s ++ .mark .openParen :: (s' ++ [.mark .closeParen])) (.call loc e xs.1 xs.2) :=
        g.call he (.word rfl (hxs.snoc rfl)) (List.Subset.refl _)
      exact (ih hcall).imp fun s'' t ht => by simpa using ht
    · refine (ha .sequence).bind fun s' right hr => takes_expect (by simp) fun _ =>
        takes_location fun loc => ?_
      have hsub : U (s ++ .mark .openBracket :: (s' ++ [.mark .closeBracket]))
          (.binary loc .subscript e right) := g.subscript he (.word rfl ((Parts.one hr).snoc rfl))
      exact (ih hsub).imp fun s'' t ht => by simpa using ht
    · refine takes_expectName fun x => takes_location fun loc => ?_
      have hname : R false [.name x.1] (.scalar loc (.string x.1)) :=
        g.form (.word rfl .nil) (List.nil_subset _) (by simp [Expr.IsForm])
      have hsub : U (s ++ .mark .dot :: [.name x.1]) (.join .subscript e (.scalar loc (.string x.1))) :=
        g.subscript he (.word rfl (.one hname))
      exact (ih hsub).imp fun s'' t ht => by simpa using ht

lemma takes_suffixed : Takes (suffixed again) U :=
  (takes_primary g ha).bind fun _ _ he => takes_remaining fun bound => takes_suffixes g ha bound he

omit ha in
lemma Grammar.join {p : Precedence} (hp : isTight p = false) {op? : Lexeme → Option BinaryOp}
    (hop : Covers op? p) {l : Lexeme} {op : BinaryOp} (hl : op? l = some op) : l ≠ .eof ∧
      ∀ {s s' left right}, R false s left → R false s' right →
        R false (s ++ l :: s') (.join op left right) := by
  obtain ⟨rfl, rfl⟩ := hop l op hl
  have hform : op ≠ .dice ∧ op ≠ .subscript := by
    constructor <;> rintro rfl <;> cases hp
  have hword := isFrame_joint hform.1
  obtain ⟨hleft, hright⟩ : isTight (leftLevel op) = false ∧ isTight (rightLevel op) = false := by
    cases op with
    | arithmetic op => cases op <;> exact ⟨rfl, rfl⟩
    | dice | subscript | drawMany | bestOf => cases hp
    | _ => exact ⟨rfl, rfl⟩
  refine ⟨ne_eof_of_isFrame hword, fun {s s' left right} hl hr => ?_⟩
  have hparts : Parts R (s ++ op.joint :: s') [] (Expr.join op left right).spots := by
    rw [Expr.join, Expr.spots, hleft, hright]
    exact .part hl (.word hword (.one hr))
  exact g.form hparts (List.nil_subset _) hform

include hu

lemma takes_unary : Takes (unary again) U := by
  refine takes_here fun start => takes_peek fun l => ?_
  cases hop : unaryOp? l with
  | none => exact (takes_suffixed g ha).at
  | some op =>
    have hword : isFrame l = true := isFrame_of_some rfl rfl (fun _ => rfl) hop
    have hform : isTight (operandLevel op) = true ∧ op.isWritten = true ∧ op ≠ .minus ∧ op ≠ .die := by
      unfold unaryOp? at hop
      split at hop <;> cases hop <;> exact ⟨rfl, rfl, by simp, by simp⟩
    refine takes_advance (ne_eof_of_isFrame hword) (hu.bind fun s e he =>
      takes_locationFrom fun loc => takes_pure ?_)
    rw [List.append_nil]
    have hparts : Parts R s [] (Expr.unary loc op e).spots := by
      rw [Expr.spots, hform.1]
      exact .one (g.tight he)
    exact g.opened hword hparts (List.nil_subset _) hform.2

lemma takes_dice : Takes (dice again) (R true) := by
  have hunary := takes_unary g hu ha
  have hfirst : Takes (firstDie again) (R true) := by
    refine takes_here fun start => takes_accept (by simp) ?_ (hunary.imp fun _ _ => g.tight)
    refine hunary.bind fun s e he => takes_locationFrom fun loc => takes_pure ?_
    rw [List.append_nil]
    exact g.die he
  refine hfirst.bind fun s left hl => takes_remaining fun bound => ?_
  refine takes_chainFrom (fun {l op} hop => ?_) hunary bound hl
  unfold diceOp? at hop
  split at hop
  · cases hop
    exact ⟨by simp, fun hl hr => g.dice hl hr⟩
  · cases hop

lemma takes_drawing : Takes (drawing again) (R true) := by
  have hd := takes_dice g hu ha
  refine takes_here fun start => takes_accept (by simp) (takes_accept (by simp) ?_ ?_) hd
  · refine hd.bind fun s e he => takes_locationFrom fun loc => takes_pure ?_
    rw [List.append_nil]
    exact g.form (.word rfl (.word rfl (.one he))) (List.nil_subset _) ⟨rfl, by simp, by simp⟩
  · refine hd.bind fun s count hc => takes_expect (by simp) fun _ => ?_
    refine hd.bind fun s' e he => takes_locationFrom fun loc => takes_pure ?_
    rw [List.append_nil]
    exact g.form (.word rfl (.part hc (.word rfl (.one he)))) (List.nil_subset _) ⟨by simp, by simp⟩

lemma takes_best : Takes (best again) (R true) := by
  have hd := takes_drawing g hu ha
  refine takes_here fun start => takes_peek fun l => ?_
  cases hop : selector? l with
  | none => exact hd.at
  | some op =>
    have hword : isFrame l = true := isFrame_of_some rfl rfl (fun _ => rfl) hop
    refine takes_advance (ne_eof_of_isFrame hword) (takes_accept (by simp) ?_ ?_)
    · refine hd.bind fun s e he => takes_locationFrom fun loc => takes_pure ?_
      rw [List.append_nil]
      exact g.form (.word hword (.word rfl (.one he))) (List.nil_subset _) ⟨rfl, by simp, by simp⟩
    · refine (ha .disjunction).bind fun s count hc => takes_expect (by simp) fun _ => ?_
      refine hd.bind fun s' e he => takes_locationFrom fun loc => takes_pure ?_
      rw [List.append_nil]
      exact g.form (.word hword (.part hc (.word rfl (.one he)))) (List.nil_subset _) ⟨by simp, by simp⟩

lemma takes_sign : Takes (sign again) (R false) := by
  have hb := takes_best g hu ha
  refine takes_here fun start => takes_peek fun l => ?_
  cases hop : signOp? l with
  | none => exact (hb.imp fun _ _ => g.loose).at
  | some op =>
    have hword : isFrame l = true := isFrame_of_some rfl rfl (fun _ => rfl) hop
    refine takes_advance (ne_eof_of_isFrame hword) (hb.bind fun s e he =>
      takes_locationFrom fun loc => takes_pure ?_)
    rw [List.append_nil]
    unfold signOp? at hop
    split at hop <;> cases hop
    · exact g.form (.word rfl (.one he)) (List.nil_subset _) ⟨rfl, by simp, by simp⟩
    · exact g.minus he

lemma takes_comparison : Takes (comparison again) (R false) :=
  have hmult : Takes (multiplicative again) (R false) :=
    takes_chain (g.join rfl covers_multiplicative) (takes_sign g hu ha)
  have hplus : Takes (additive again) (R false) := takes_chain (g.join rfl covers_additive) hmult
  have hrange : Takes (range again) (R false) := takes_single (g.join rfl covers_range) hplus
  have happend : Takes (append again) (R false) := takes_single (g.join rfl covers_append) hrange
  have hindex : Takes (indexOf again) (R false) := takes_single (g.join rfl covers_indexOf) happend
  takes_single (g.join rfl covers_comparison) hindex

lemma takes_negation : Takes (negation again) (R false) := by
  refine takes_here fun start => takes_accept (by simp) ?_ (takes_comparison g hu ha)
  refine (ha .negation).bind fun s e he => takes_locationFrom fun loc => takes_pure ?_
  rw [List.append_nil]
  exact g.form (.word rfl (.one he)) (List.nil_subset _) ⟨rfl, by simp, by simp⟩

lemma takes_disjunction : Takes (disjunction again) (R false) :=
  takes_chain (g.join rfl covers_or) (takes_chain (g.join rfl covers_and) (takes_negation g hu ha))

lemma takes_optional {k : Keyword} (hk : isFrame (.keyword k) = true) :
    Takes (optional again k) fun s x => Parts R s [] (x.toList.map (false, ·)) := by
  refine takes_accept (by simp) ?_ (takes_pure .nil)
  refine (takes_disjunction g hu ha).bind fun s e he => takes_pure ?_
  rw [List.append_nil]
  exact .word hk (.one he)

lemma takes_forEach (start : Span) (out : Option Expr) {s : List Lexeme}
    (hout : Parts R s [] (out.toList.map (false, ·))) :
    Takes (forEach again start out) fun s' e => R false (s ++ .keyword .for :: s') e := by
  have hnames : Takes loopNames fun s x => Parts R s (x.1.toList ++ [x.2.1]) [] := by
    refine takes_expectName fun x => takes_accept (by simp) ?_ (takes_pure (.name _ .nil))
    exact takes_expectName fun y => takes_pure (.name _ (.word rfl (.name _ .nil)))
  refine hnames.bind fun s₁ x hx => takes_expect (by simp) fun _ => ?_
  refine (takes_disjunction g hu ha).bind fun s₂ container hc => ?_
  refine (takes_optional g hu ha rfl).bind fun s₃ condition hd => ?_
  refine takes_location fun loc => takes_locationFrom fun loc' => takes_pure ?_
  have hparts := hout.append (.word (w := .keyword .for) rfl
    (hx.append (.word (w := .keyword .in) rfl (.part hc hd))))
  rw [List.append_nil s₃]
  cases out with
  | none => exact g.form (.itself loc (by simp) hparts) (by simp [Expr.names]) trivial
  | some e => exact g.form hparts (by simp [Expr.names]) trivial

lemma takes_control : Takes (control again) (R false) := by
  have hor := takes_disjunction g hu ha
  refine takes_here fun start => ?_
  refine takes_accept (by simp) ?_ (takes_accept (by simp) ?_ (takes_accept (by simp) ?_
    (takes_accept (by simp) (takes_forEach g hu ha start none .nil) ?_)))
  · refine hor.bind fun s condition hc => takes_expect (by simp) fun _ => ?_
    refine hor.bind fun s' whenTrue ht => takes_expect (by simp) fun _ => ?_
    refine (ha .control).bind fun s'' whenFalse hf => takes_locationFrom fun loc => takes_pure ?_
    rw [List.append_nil]
    exact g.form (.word rfl (.part hc (.word rfl (.part ht (.word rfl (.one hf))))))
      (List.nil_subset _) trivial
  · refine hor.bind fun s condition hc => takes_expect (by simp) fun _ => ?_
    refine hor.bind fun s' body hb => (takes_optional g hu ha rfl).bind fun s'' limit hl => ?_
    refine takes_locationFrom fun loc => takes_pure ?_
    rw [List.append_nil]
    exact g.form (.word rfl (.part hc (.word rfl (.part hb hl)))) (List.nil_subset _) (by simp [Expr.IsForm])
  · refine hor.bind fun s body hb => takes_accept (by simp) ?_ (takes_accept (by simp) ?_ takes_fail)
    · refine hor.bind fun s' condition hc => (takes_optional g hu ha rfl).bind fun s'' limit hl => ?_
      refine takes_locationFrom fun loc => takes_pure ?_
      rw [List.append_nil]
      exact g.form (.word rfl (.part hb (.word rfl (.part hc hl)))) (List.nil_subset _) (by simp [Expr.IsForm])
    · refine hor.bind fun s' condition hc => takes_locationFrom fun loc => takes_pure ?_
      rw [List.append_nil]
      exact g.form (.word rfl (.part hb (.word rfl (.one hc)))) (List.nil_subset _) fun _ => ⟨loc, rfl⟩
  · refine hor.bind fun s e he => takes_accept (by simp) ?_ (takes_pure (by rwa [List.append_nil]))
    exact takes_forEach g hu ha _ (some e) (.one he)

lemma takes_assignment : Takes (assignment again) (R false) :=
  takes_single (g.join rfl covers_assign) (takes_control g hu ha)

omit g hu ha in
lemma takes_optionalType : Takes optionalType fun s _ => Parts R s [] [] := by
  refine takes_accept (by simp) (Takes.bind (Q := fun s _ => Parts R s [] []) ?_ fun s t hs => ?_)
    (takes_pure .nil)
  · refine takes_peek fun l => ?_
    cases ht : outputType? l with
    | some t =>
      have hword : isFrame l = true := isFrame_of_some rfl rfl (fun _ => rfl) ht
      exact takes_advance (ne_eof_of_isFrame hword) (takes_pure (.word hword .nil))
    | none => exact takes_fail.at
  · refine takes_pure ?_
    rw [List.append_nil]
    exact .word rfl hs

omit hu ha in
lemma takes_optionalName : Takes (optionalName again) fun s x =>
    Parts R s [] (x.toList.map (false, ·)) ∧ ∀ e ∈ x, e.isLiteral = true := by
  refine takes_peek fun l => ?_
  split
  next fs =>
    intro c o c' hc ho
    obtain ⟨e, c₁, h, ho⟩ := bind_eq_ok.mp ho
    obtain ⟨rfl, rfl⟩ := EStateM.Result.ok.inj ho
    -- the next word is a literal, so that is what `primary` takes
    simp only [primary, run_here, run_peek, run_location, hc, atom?, run_advance] at h
    obtain ⟨rfl, rfl⟩ := EStateM.Result.ok.inj h
    refine ⟨[.text fs], Cursor.words_of_lexeme hc (by simp), .one (g.loose (g.tight (g.atom rfl))), ?_⟩
    rintro e ⟨⟩
    unfold literal
    split <;> rfl
  · exact (takes_pure ⟨.nil, by simp⟩).at

lemma takes_output : Takes (output again) (R false) := by
  have hassign := takes_assignment g hu ha
  refine takes_here fun start => takes_peek fun l => ?_
  cases hmode : outputMode? l with
  | some mode =>
    have hword : isFrame l = true := isFrame_of_some rfl rfl (fun _ => rfl) hmode
    refine takes_advance (ne_eof_of_isFrame hword) (hassign.bind fun s e he => ?_)
    refine (takes_optionalType (R := R)).bind fun s₁ type hs => (takes_optionalName g).bind fun s₂ name hn => ?_
    refine takes_locationFrom fun loc => takes_pure ?_
    rw [List.append_nil]
    exact g.form (.word hword (.part he (hs.append hn.1))) (List.nil_subset _) hn.2
  | none =>
    refine Takes.at (takes_accept (by simp) ?_ hassign)
    refine (takes_acceptNameBefore (R := R) .assign).bind fun s space hs => hassign.bind fun s' e he => ?_
    refine takes_locationFrom fun loc => takes_pure ?_
    rw [List.append_nil]
    exact g.form (.word rfl (hs.append (.one he))) (by simp [Expr.names]) trivial

lemma takes_sequence : Takes (sequence again) (R false) := by
  have hout := takes_output g hu ha
  have hfrom (bound : List Token) {left : Expr} {s : List Lexeme} (hl : R false s left) :
      Takes (sequenceFrom again bound left) fun s' t => R false (s ++ s') t := by
    induction bound generalizing left s with
    | nil => exact takes_pure (by rwa [List.append_nil])
    | cons t bound ih =>
      refine takes_accept (by simp) ?_ (takes_pure (by rwa [List.append_nil]))
      refine takes_peek fun l => Takes.at ?_
      split
      · exact takes_pure (g.ended hl)
      · refine hout.bind fun s' right hr => ?_
        have hjoin : R false (s ++ .mark .semicolon :: s') (.join .sequence left right) :=
          g.form (.part hl (.word rfl (.one hr))) (List.nil_subset _) ⟨by simp, by simp⟩
        exact (ih hjoin).imp fun s'' t ht => by simpa using ht
  exact hout.bind fun _ _ hl => takes_remaining fun bound => hfrom bound hl

end Levels

inductive Text (R : List Lexeme → Expr → Prop) : List Lexeme → List Expr → Prop
  | nil : Text R [] []
  | skip {s : List Lexeme} {es : List Expr} : Text R s es → Text R (.mark .separator :: s) es
  | cons {s s' : List Lexeme} {e : Expr} {es : List Expr} : R s e → Text R s' es →
      Text R (s ++ s') (e :: es)

section Programs

variable {U : List Lexeme → Expr → Prop} {R : Bool → List Lexeme → Expr → Prop} (g : Grammar U R)

include g

lemma takes_parseAt (depth : Nat) :
    Takes (parseAt depth .unary) U ∧ ∀ level, Takes (parseAt depth level) (R false) := by
  induction depth with
  | zero => exact ⟨takes_fail, fun _ => takes_fail⟩
  | succ depth ih =>
    obtain ⟨hu, ha⟩ := ih
    refine ⟨takes_unary g hu ha, fun level => ?_⟩
    cases level with
    | sequence => exact takes_sequence g hu ha
    | control => exact takes_control g hu ha
    | disjunction => exact takes_disjunction g hu ha
    | negation => exact takes_negation g hu ha
    | unary => exact (takes_unary g hu ha).imp fun _ _ he => g.loose (g.tight he)

lemma takes_statement : Takes statement (R false) := by
  intro c e c' h
  refine ((takes_parseAt g (c.rest.length + 1)).2 .sequence).bind (R := R false) (fun s e he => ?_) h
  refine takes_peek fun l => Takes.at ?_
  split
  · exact takes_pure (by rwa [List.append_nil])
  · exact takes_fail

lemma text_of_sections (fuel : Nat) (c : Cursor) (h : ∀ o ∈ sections fuel c, error? o = none) :
    ∃ s rest, c.words = s ++ rest ∧ Text (R false) s ((sections fuel c).filterMap expr?) := by
  induction fuel generalizing c with
  | zero => exact ⟨[], c.words, rfl, .nil⟩
  | succ fuel ih =>
    rw [sections] at h ⊢
    split
    · exact ⟨[], c.words, rfl, .nil⟩
    next h₁ =>
      rw [if_neg h₁] at h
      split
      next h₂ =>
        rw [if_pos h₂] at h
        obtain ⟨s, rest, hw, ht⟩ := ih c.advance h
        refine ⟨.mark .separator :: s, rest, ?_, ht.skip⟩
        rw [Cursor.words_of_lexeme h₂ (by simp), hw, List.cons_append]
      next h₂ =>
        rw [if_neg h₂] at h
        cases hs : statement c with
        | ok e c' =>
          simp only [hs, List.mem_cons, forall_eq_or_imp] at h
          obtain ⟨s, hw, he⟩ := takes_statement g hs
          obtain ⟨s', rest, hw', ht⟩ := ih c' h.2
          exact ⟨s ++ s', rest, by rw [hw, hw', List.append_assoc], .cons he ht⟩
        | error err c' => simp [hs, error?] at h

lemma text_of_program {source : String} {ts : List Token} {es : List Expr}
    (h : program source ts = .ok es) :
    ∃ s rest, ts.map Token.lexeme = s ++ rest ∧ Text (R false) s es := by
  simp only [program] at h
  split at h
  next hempty =>
    obtain rfl := Except.ok.inj h
    exact text_of_sections g _ ⟨source, none, ts⟩
      (List.filterMap_eq_nil_iff.mp (List.isEmpty_iff.mp hempty))
  · simp at h

end Programs

end Parser

end DiceLang

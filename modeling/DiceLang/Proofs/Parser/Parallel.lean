import DiceLang.Proofs.Parser.Lockstep

/-! Each level of precedence reads a section in the same way whatever stands around it, and what it reads
lies where its tokens lie. A level that finds the end of the section fails there. -/

namespace DiceLang.Parser

variable {α β γ : Type}

lemma none_atEnd {f : Lexeme → Option γ} (heof : f .eof = none) (hsep : f (.mark .separator) = none)
    (l : Lexeme) (hl : atEnd l = true) : f l = none := by
  simp only [atEnd, Bool.or_eq_true, beq_iff_eq] at hl
  rcases hl with rfl | rfl
  · exact heof
  · exact hsep

section AtEnd

variable (again : Again)

lemma stuck_primary : Stuck .expression (primary again) := by
  refine stuck_here fun start => stuck_peek fun l hl => stuck_location fun loc => ?_
  rw [none_atEnd (f := atom? loc) rfl rfl l hl]
  exact stuck_accept rfl (stuck_accept rfl (stuck_accept rfl (stuck_accept rfl (stuck_fail))))

lemma stuck_unary : Stuck .expression (unary again) := by
  refine stuck_here fun start => stuck_peek fun l hl => ?_
  rw [none_atEnd (f := unaryOp?) rfl rfl l hl]
  exact (stuck_primary again).bind _

lemma stuck_firstDie : Stuck .expression (firstDie again) :=
  stuck_here fun _ => stuck_accept rfl (stuck_unary again)

lemma stuck_dice : Stuck .expression (dice again) := (stuck_firstDie again).bind _

lemma stuck_drawing : Stuck .expression (drawing again) :=
  stuck_here fun _ => stuck_accept rfl (stuck_dice again)

lemma stuck_best : Stuck .expression (best again) := by
  refine stuck_here fun start => stuck_peek fun l hl => ?_
  rw [none_atEnd (f := selector?) rfl rfl l hl]
  exact stuck_drawing again

lemma stuck_sign : Stuck .expression (sign again) := by
  refine stuck_here fun start => stuck_peek fun l hl => ?_
  rw [none_atEnd (f := signOp?) rfl rfl l hl]
  exact stuck_best again

lemma stuck_negation : Stuck .expression (negation again) := by
  have hadditive : Stuck .expression (additive again) := ((stuck_sign again).bind _).bind _
  have hcomparison : Stuck .expression (comparison again) := (((hadditive.bind _).bind _).bind _).bind _
  exact stuck_here fun start => stuck_accept rfl hcomparison

lemma stuck_disjunction : Stuck .expression (disjunction again) := ((stuck_negation again).bind _).bind _

lemma stuck_control : Stuck .expression (control again) :=
  stuck_here fun _ => stuck_accept rfl (stuck_accept rfl (stuck_accept rfl (stuck_accept rfl
    ((stuck_disjunction again).bind _))))

lemma stuck_assignment : Stuck .expression (assignment again) := (stuck_control again).bind _

lemma stuck_output : Stuck .expression (output again) := by
  refine stuck_here fun start => stuck_peek fun l hl => ?_
  rw [none_atEnd (f := outputMode?) rfl rfl l hl]
  exact stuck_accept rfl (stuck_assignment again)

lemma stuck_sequence : Stuck .expression (sequence again) := (stuck_output again).bind _

lemma stuck_entryName : Stuck .entryName entryName := by
  refine stuck_peek fun l hl => ?_
  simp only [atEnd, Bool.or_eq_true, beq_iff_eq] at hl
  rcases hl with rfl | rfl
  · exact stuck_fail
  · exact stuck_fail

lemma stuck_entry : Stuck .entryName (entry again) := stuck_entryName.bind _

lemma stuck_param : Stuck .parameterName (param again) := stuck_expectName.bind _

end AtEnd

lemma stuck_parseAt {depth : Nat} (hd : 0 < depth) (level : Level) :
    Stuck .expression (parseAt depth level) := by
  cases depth with
  | zero => cases hd
  | succ depth =>
    cases level with
    | sequence => exact stuck_sequence _
    | control => exact stuck_control _
    | disjunction => exact stuck_disjunction _
    | negation => exact stuck_negation _
    | unary => exact stuck_unary _

section Repetition

variable {s : Section} {x y : Around} {k i : Nat}

def ReadsAlike (s : Section) (x y : Around) (p q : Parse Expr) (k : Nat) : Prop :=
  ∀ j, k ≤ j → j ≤ s.size → InStep s x y p q j (s.Reads j)

lemma Stuck.readsAlike {fault : SyntaxFault} {p q : Parse Expr} (hp : Stuck fault p) (hq : Stuck fault q)
    (h : ∀ j, k ≤ j → j < s.size → InStep s x y p q j (s.Reads j)) : ReadsAlike s x y p q k := by
  intro j hkj hj
  rcases hj.lt_or_eq with hj | rfl
  · exact h j hkj hj
  · exact hp.inStep hq

section Operators

variable {op? : Lexeme → Option BinaryOp} {operand operand' : Parse Expr}
  (hop : ∀ l, atEnd l = true → op? l = none) (ho : ReadsAlike s x y operand operand' k)

include hop ho

lemma inStep_chainFrom {left : Expr} (hki : k ≤ i) (hl : s.Reads k i left) {bound bound' : List Token}
    (hb : s.size - i < bound.length) (hb' : s.size - i < bound'.length) :
    InStep s x y (chainFrom op? operand bound left) (chainFrom op? operand' bound' left) i
      (s.Reads k) := by
  induction bound generalizing bound' i left with
  | nil => cases hb
  | cons t bound ih =>
    cases bound' with
    | nil => cases hb'
    | cons t' bound' =>
      refine inStep_peek hl.2.1 fun l l' hmeet => ?_
      rw [hmeet.same hop]
      cases hl' : op? l' with
      | none => exact inStep_pure hl.2.1 hl
      | some op =>
        have hi := hmeet.lt hop hl'
        refine inStep_advance hi ((ho (i + 1) (by omega) hi).bind fun j right hij hj hr => ?_)
        rw [List.length_cons] at hb hb'
        exact ih (by omega) (Section.reads_join op hl (hr.mono i.le_succ le_rfl hj)) (by omega) (by omega)

lemma alike_chain : ReadsAlike s x y (chain op? operand) (chain op? operand') k := by
  intro j hkj hj
  refine (ho j hkj hj).bind fun i left hji hi hl => inStep_remaining fun bound bound' hb hb' => ?_
  have ho' : ReadsAlike s x y operand operand' j := fun n hn => ho n (hkj.trans hn)
  exact inStep_chainFrom hop ho' hji hl hb hb'

lemma alike_single : ReadsAlike s x y (single op? operand) (single op? operand') k := by
  intro j hkj hj
  refine (ho j hkj hj).bind fun i left hji hi hl => inStep_peek hi fun l l' hmeet => ?_
  rw [hmeet.same hop]
  cases hl' : op? l' with
  | none => exact inStep_pure hi hl
  | some op =>
    have hi := hmeet.lt hop hl'
    refine inStep_advance hi ((ho (i + 1) (by omega) hi).bind fun n right hin hn hr => ?_)
    exact inStep_pure hn (Section.reads_join op hl (hr.mono i.le_succ le_rfl hn))

end Operators

lemma commaItems_bind (close : Mark) (item : Parse α) (t : Token) (bound : List Token)
    (f : List α → Parse β) : commaItems close item (t :: bound) >>= f = peek >>= fun l =>
      if l = .mark close ∨ l = .eof then f [] else item >>= fun a =>
        accept (.mark .comma) >>= fun more =>
          if more then commaItems close item bound >>= fun as => f (a :: as) else f [a] := by
  rw [commaItems, bind_assoc]
  congr
  funext l
  split
  · rfl
  · rw [bind_assoc]
    congr
    funext a
    rw [bind_assoc]
    congr
    funext more
    cases more
    · rfl
    · exact bind_assoc _ _ _

lemma commaItems_atEnd {close : Mark} (hclose : atEnd (.mark close) = false) {item : Parse α}
    {f : List α → Parse β} {fault missing : SyntaxFault} (hitem : Stuck fault item)
    (hf : ∀ as, Stuck missing (f as)) {c : Cursor} (hc : atEnd c.lexeme = true) (t : Token)
    (bound : List Token) : (commaItems close item (t :: bound) >>= f) c =
      .error ⟨if c.lexeme = .eof then missing else fault, ⟨c.source, c.span⟩⟩ c := by
  have hne := lexeme_ne_of_atEnd hc hclose
  rw [commaItems_bind, run_peek]
  by_cases heof : c.lexeme = .eof
  · rw [if_pos (.inr heof), if_pos heof]
    exact hf [] c hc
  · rw [if_neg (not_or.mpr ⟨hne, heof⟩), if_neg heof]
    exact hitem.bind _ c hc

lemma inStep_commaItems {close : Mark} (hclose : atEnd (.mark close) = false) {item item' : Parse α}
    {fault missing : SyntaxFault} (hs : Stuck fault item) (hs' : Stuck fault item')
    {P : Nat → α → Prop} (hP : ∀ i j a, i ≤ j → j ≤ s.size → P i a → P j a)
    (hitem : ∀ j, k ≤ j → j ≤ s.size → InStep s x y item item' j P) {f g : List α → Parse β}
    (hf : ∀ as, Stuck missing (f as)) (hg : ∀ as, Stuck missing (g as)) {R : Nat → β → Prop}
    (hfg : ∀ j as, i ≤ j → j ≤ s.size → (∀ a ∈ as, P j a) → InStep s x y (f as) (g as) j R)
    {bound bound' : List Token} (hb : s.size - i < bound.length) (hb' : s.size - i < bound'.length)
    (hki : k ≤ i) (hi : i ≤ s.size) :
    InStep s x y (commaItems close item bound >>= f) (commaItems close item' bound' >>= g) i R := by
  induction bound generalizing bound' i f g with
  | nil => cases hb
  | cons t bound ih =>
    cases bound' with
    | nil => cases hb'
    | cons t' bound' =>
      rcases hi.lt_or_eq with hi | rfl
      · -- inside the section no token is the last of the text
        have hend : s.lexeme i ≠ .eof := by
          intro heof
          have hinside := Section.atEnd_lexeme hi
          rw [heof] at hinside
          cases hinside
        rw [commaItems_bind, commaItems_bind]
        apply inStep_peek_inside hi
        by_cases hclose : s.lexeme i = .mark close
        · rw [if_pos (.inl hclose), if_pos (.inl hclose)]
          exact hfg i [] le_rfl hi.le nofun
        · rw [if_neg (not_or.mpr ⟨hclose, hend⟩), if_neg (not_or.mpr ⟨hclose, hend⟩)]
          refine (hitem i hki hi.le).bind fun j a hij hj ha => inStep_accept rfl hj ?_ ?_
          · intro hj
            rw [List.length_cons] at hb hb'
            apply ih (fun as => hf (a :: as)) (fun as => hg (a :: as)) ?_ (by omega) (by omega) (by omega) hj
            intro n as hn hns has
            have ha' : P n a := hP j n a (by omega) hns ha
            exact hfg n (a :: as) (by omega) hns (List.forall_mem_cons.mpr ⟨ha', has⟩)
          · exact hfg j [a] hij hj (List.forall_mem_singleton.mpr ha)
      · refine .error le_rfl le_rfl ?_ (commaItems_atEnd hclose hs hf (s.atEnd_cursor_size x) _ _)
          (commaItems_atEnd hclose hs' hg (s.atEnd_cursor_size y) _ _)
        rintro (hlt | hsame)
        · exact absurd hlt (lt_irrefl _)
        · rw [s.lexeme_cursor_size x, s.lexeme_cursor_size y, hsame]

lemma inStep_commaList {close : Mark} (hclose : atEnd (.mark close) = false) {item item' : Parse α}
    {fault : SyntaxFault} (hs : Stuck fault item) (hs' : Stuck fault item') {P : Nat → α → Prop}
    (hP : ∀ i j a, i ≤ j → j ≤ s.size → P i a → P j a)
    (hitem : ∀ j, k ≤ j → j ≤ s.size → InStep s x y item item' j P) (hk : k ≤ s.size) :
    InStep s x y (commaList close item) (commaList close item') k fun j as =>
      k < j ∧ ∀ a ∈ as, P j a := by
  refine inStep_remaining fun bound bound' hb hb' => ?_
  have hstuck (as : List α) :
      Stuck (.missing (.mark close)) (expect (.mark close) >>= fun _ => pure as) :=
    (stuck_expect hclose).bind _
  refine inStep_commaItems hclose hs hs' hP hitem hstuck hstuck ?_ hb hb' le_rfl hk
  intro j as hkj hj has
  refine inStep_expect hclose hj fun hj => inStep_pure hj ⟨by omega, ?_⟩
  exact fun a ha => hP j (j + 1) a j.le_succ hj (has a ha)

end Repetition

structure AlikeBehind (s : Section) (x y : Around) (again again' : Again) (k : Nat) : Prop where
  alike : ∀ level, ReadsAlike s x y (again level) (again' level) (k + 1)
  stuck : k < s.size → ∀ level, Stuck .expression (again level) ∧ Stuck .expression (again' level)

lemma AlikeBehind.mono {s : Section} {x y : Around} {again again' : Again} {k i : Nat}
    (h : AlikeBehind s x y again again' k) (hki : k ≤ i) : AlikeBehind s x y again again' i :=
  ⟨fun level j hij => h.alike level j (by omega), fun hi => h.stuck (by omega)⟩

section Levels

variable {s : Section} {x y : Around} {again again' : Again} {k i : Nat}
  (h : AlikeBehind s x y again again' k)

include h

lemma inStep_again (level : Level) (hki : k < i) (hi : i ≤ s.size) :
    InStep s x y (again level) (again' level) i (s.Reads (k + 1)) :=
  (h.alike level i hki hi).imp fun _ _ _ hj he => he.mono hki le_rfl hj

omit h in
lemma inStep_node {node : Location → Expr} (hloc : ∀ loc, (node loc).location = loc) (hki : k < i)
    (hi : i ≤ s.size) (hc : ∀ loc, ∀ c ∈ (node loc).children, s.Reads (k + 1) i c) :
    InStep s x y (locationFrom (s.span k) >>= fun loc => pure (node loc))
      (locationFrom (s.span k) >>= fun loc => pure (node loc)) i (s.Reads k) := by
  refine inStep_locationFrom (by omega) (inStep_pure hi ?_)
  exact Section.reads_from_token hki hi (hloc _) fun c hmem => .inl (hc _ c hmem)

omit h in
lemma inStep_entryName (hi : i ≤ s.size) : InStep s x y entryName entryName i fun _ _ => True := by
  rcases hi.lt_or_eq with hi | rfl
  · apply inStep_peek_inside hi
    cases s.lexeme i with
    | name name => exact inStep_advance hi (inStep_pure hi trivial)
    | text fs =>
      cases hplain : plainText? fs with
      | some name =>
        simp only [hplain]
        exact inStep_advance hi (inStep_pure hi trivial)
      | none =>
        simp only [hplain]
        exact inStep_fail _ hi.le
    | _ => exact inStep_fail _ hi.le
  · exact stuck_entryName.inStep stuck_entryName

lemma inStep_entry (hki : k < i) (hi : i ≤ s.size) :
    InStep s x y (entry again) (entry again') i fun j a => s.Reads (k + 1) j a.2 := by
  refine (inStep_entryName hi).bind fun j name hij hj _ => inStep_expect rfl hj fun hj => ?_
  refine (inStep_again h .sequence (by omega) hj).bind fun n e _ hn he => ?_
  exact inStep_pure hn he

lemma inStep_param (hki : k < i) (hi : i ≤ s.size) :
    InStep s x y (param again) (param again') i fun j a => ∀ e ∈ a.2, s.Reads (k + 1) j e := by
  refine inStep_expectName hi fun name hi => inStep_accept rfl hi (fun hi => ?_) (inStep_pure hi nofun)
  refine (inStep_again h .sequence (by omega) hi).bind fun j e _ hj he => inStep_pure hj ?_
  rintro e ⟨⟩
  exact he

lemma inStep_body (hki : k < i) (hi : i < s.size) :
    InStep s x y (body again (s.span i)) (body again' (s.span i)) (i + 1) (s.Reads (k + 1)) := by
  refine inStep_peek_if rfl hi (fun _ => ?_) (inStep_again h .sequence (by omega) hi)
  refine inStep_location (inStep_pure hi ?_)
  exact (Section.reads_token hi rfl rfl).mono hki le_rfl hi

lemma inStep_lambda (hk : k < s.size) :
    InStep s x y (lambda again (s.span k)) (lambda again' (s.span k)) (k + 1) (s.Reads k) := by
  refine inStep_expect rfl hk fun hk => ?_
  refine (inStep_commaList rfl (stuck_param again) (stuck_param again')
    (fun _ _ _ hij hj ha e he => (ha e he).mono le_rfl hij hj)
    (fun i hki hi => inStep_param h (by omega) hi) hk).bind fun i params hki hi hparams => ?_
  refine inStep_expect rfl hi fun hi => ?_
  refine (inStep_body h (by omega) hi).bind fun j body hij hj hbody => ?_
  refine inStep_expect rfl hj fun hj => inStep_node (fun _ => rfl) (by omega) hj fun _ c hc => ?_
  rcases List.mem_cons.mp hc with rfl | hc
  · exact hbody.mono le_rfl j.le_succ hj
  · obtain ⟨a, ha, hac⟩ := List.mem_filterMap.mp hc
    exact (hparams.2 a ha c hac).mono le_rfl (by omega) hj

omit h in
lemma leaf_of_atom? {loc : Location} {l : Lexeme} {e : Expr} (he : atom? loc l = some e) :
    e.location = loc ∧ e.children = [] := by
  unfold atom? at he
  split at he
  · cases he
    exact ⟨rfl, rfl⟩
  · cases he
    unfold literal
    split <;> exact ⟨rfl, rfl⟩
  · split at he
    · cases he
      exact ⟨rfl, rfl⟩
    · obtain ⟨which, -, rfl⟩ := Option.map_eq_some_iff.mp he
      exact ⟨rfl, rfl⟩

lemma inStep_compound (hk : k < s.size) :
    InStep s x y (compound again (s.span k)) (compound again' (s.span k)) k (s.Reads k) := by
  refine inStep_accept rfl hk.le (fun _ => ?_) (inStep_accept rfl hk.le (fun _ => ?_)
    (inStep_accept rfl hk.le (fun _ => inStep_lambda h hk) (inStep_accept rfl hk.le (fun _ => ?_)
      (inStep_fail _ hk.le))))
  · obtain ⟨hs, hs'⟩ := h.stuck hk .sequence
    refine (inStep_commaList rfl hs hs' (fun _ _ _ hij hj he => he.mono le_rfl hij hj)
      (fun i hki hi => inStep_again h .sequence hki hi) hk).bind fun i items hki hi hitems => ?_
    exact inStep_node (fun _ => rfl) hki hi fun _ => hitems.2
  · refine (inStep_commaList rfl (stuck_entry again) (stuck_entry again')
      (fun _ _ _ hij hj he => he.mono le_rfl hij hj)
      (fun i hki hi => inStep_entry h hki hi) hk).bind fun i entries hki hi hentries => ?_
    refine inStep_node (fun _ => rfl) hki hi fun _ c hc => ?_
    obtain ⟨a, ha, rfl⟩ := List.mem_map.mp hc
    exact hentries.2 a ha
  · refine (inStep_again h .sequence k.lt_succ_self hk).bind fun i e hki hi he => ?_
    refine inStep_expect rfl hi fun hi => inStep_pure hi ?_
    exact he.mono k.le_succ i.le_succ hi

lemma alike_primary : ReadsAlike s x y (primary again) (primary again') k := by
  refine (stuck_primary again).readsAlike (stuck_primary again') fun i hki hi => ?_
  refine inStep_here hi (inStep_peek_inside hi (inStep_location ?_))
  cases he : atom? ⟨s.source, s.span i⟩ (s.lexeme i) with
  | some e =>
    obtain ⟨hloc, hleaf⟩ := leaf_of_atom? he
    exact inStep_advance hi (inStep_pure hi (Section.reads_token hi hloc hleaf))
  | none => exact inStep_compound (h.mono hki) hi

def ReadsArguments (s : Section) (k j : Nat) (args : List Expr × List (String × Expr)) : Prop :=
  ∀ e ∈ args.1 ++ args.2.map Prod.snd, s.Reads k j e

omit h in
lemma readsArguments_nil (k j : Nat) : ReadsArguments s k j ([], []) := nofun

omit h in
lemma readsArguments_add {arg : Option String × Expr} {others : List Expr × List (String × Expr)} {j : Nat}
    (ha : s.Reads k j arg.2) (ho : ReadsArguments s k j others) :
    ReadsArguments s k j (addArgument arg others) := by
  obtain ⟨name, e⟩ := arg
  cases name with
  | none => exact List.forall_mem_cons.mpr ⟨ha, ho⟩
  | some name =>
    obtain ⟨hpositional, hnamed⟩ := List.forall_mem_append.mp ho
    exact List.forall_mem_append.mpr ⟨hpositional, List.forall_mem_cons.mpr ⟨ha, hnamed⟩⟩

lemma inStep_argument (seen : Bool) (hki : k < i) (hi : i ≤ s.size) :
    InStep s x y (argument again seen) (argument again' seen) i fun j a => s.Reads (k + 1) j a.2 := by
  refine inStep_acceptNameBefore (m := .colon) nofun hi (fun name hi => ?_) ?_
  · refine (inStep_again h .sequence (by omega) hi).bind fun j e _ hj he => ?_
    exact inStep_pure hj he
  · cases seen with
    | true => exact inStep_fail _ hi
    | false =>
      refine (inStep_again h .sequence hki hi).bind fun j e _ hj he => ?_
      exact inStep_pure hj he

lemma inStep_argumentItems (seen : Bool) {bound bound' : List Token} (hki : k < i) (hi : i ≤ s.size)
    (hb : s.size - i < bound.length) (hb' : s.size - i < bound'.length) :
    InStep s x y (argumentItems again bound seen) (argumentItems again' bound' seen) i
      (ReadsArguments s (k + 1)) := by
  induction bound generalizing bound' i seen with
  | nil => cases hb
  | cons t bound ih =>
    cases bound' with
    | nil => cases hb'
    | cons t' bound' =>
      rw [List.length_cons] at hb hb'
      refine (inStep_argument h seen hki hi).bind fun j arg hij hj harg => ?_
      refine inStep_accept rfl hj (fun hj => ?_) ?_
      · refine (ih _ (by omega) hj (by omega) (by omega)).bind fun n others hjn hn ho => ?_
        exact inStep_pure hn (readsArguments_add (harg.mono le_rfl (by omega) hn) ho)
      · exact inStep_pure hj (readsArguments_add harg (readsArguments_nil _ _))

lemma inStep_arguments (hki : k < i) (hi : i ≤ s.size) :
    InStep s x y (arguments again) (arguments again') i (ReadsArguments s (k + 1)) := by
  refine inStep_peek_if rfl hi (fun _ => inStep_pure hi (readsArguments_nil _ _)) ?_
  exact inStep_remaining fun bound bound' hb hb' => inStep_argumentItems h false hki hi hb hb'

lemma inStep_suffixes {e : Expr} {bound bound' : List Token} (he : s.Reads k i e)
    (hb : s.size - i < bound.length) (hb' : s.size - i < bound'.length) :
    InStep s x y (suffixes again bound e) (suffixes again' bound' e) i (s.Reads k) := by
  induction bound generalizing bound' i e with
  | nil => cases hb
  | cons t bound ih =>
    cases bound' with
    | nil => cases hb'
    | cons t' bound' =>
      have hi := he.2.1
      have h := h.mono he.1.le
      rw [List.length_cons] at hb hb'
      refine inStep_accept rfl hi (fun hi => ?_) (inStep_accept rfl hi (fun hi => ?_)
        (inStep_accept rfl hi (fun hi => ?_) (inStep_pure hi he)))
      · refine (inStep_arguments h i.lt_succ_self hi).bind fun j args hij hj hargs => ?_
        refine inStep_expect rfl hj fun hj => inStep_location (ih ?_ (by omega) (by omega))
        refine Section.reads_from_operand he (by omega) hj rfl fun c hc => ?_
        rcases List.mem_cons.mp hc with rfl | hc
        · exact .inl rfl
        · exact .inr ((hargs c hc).mono i.le_succ j.le_succ hj)
      · refine (inStep_again h .sequence i.lt_succ_self hi).bind fun j e' hij hj he' => ?_
        refine inStep_expect rfl hj fun hj => inStep_location (ih ?_ (by omega) (by omega))
        refine Section.reads_from_operand he (by omega) hj rfl fun c hc => ?_
        rcases List.mem_pair.mp hc with rfl | rfl
        · exact .inl rfl
        · exact .inr (he'.mono i.le_succ j.le_succ hj)
      · refine inStep_expectName hi fun name hi => inStep_location (ih ?_ (by omega) (by omega))
        have hname : s.Reads (i + 1) (i + 2) (.scalar ⟨s.source, s.span (i + 1)⟩ (.string name)) :=
          Section.reads_token hi rfl rfl
        exact Section.reads_join .subscript he (hname.mono i.le_succ le_rfl hi)

lemma alike_suffixed : ReadsAlike s x y (suffixed again) (suffixed again') k := by
  intro i hki hi
  refine (alike_primary h i hki hi).bind fun j e hij hj he => ?_
  exact inStep_remaining fun bound bound' hb hb' => inStep_suffixes (h.mono hki) he hb hb'

lemma alike_unary : ReadsAlike s x y (unary again) (unary again') k := by
  refine (stuck_unary again).readsAlike (stuck_unary again') fun i hki hi => ?_
  refine inStep_here hi (inStep_peek_inside hi ?_)
  cases unaryOp? (s.lexeme i) with
  | none => exact alike_suffixed h i hki hi.le
  | some op =>
    refine inStep_advance hi ?_
    refine (inStep_again (h.mono hki) .unary i.lt_succ_self hi).bind fun j e hij hj he => ?_
    exact inStep_node (fun _ => rfl) hij hj fun _ => List.forall_mem_singleton.mpr he

lemma alike_firstDie : ReadsAlike s x y (firstDie again) (firstDie again') k := by
  have hunary := alike_unary h
  refine (stuck_firstDie again).readsAlike (stuck_firstDie again') fun i hki hi => ?_
  refine inStep_here hi (inStep_accept rfl hi.le (fun _ => ?_) (hunary i hki hi.le))
  refine (hunary (i + 1) (by omega) hi).bind fun j e hij hj he => ?_
  exact inStep_node (fun _ => rfl) hij hj fun _ => List.forall_mem_singleton.mpr he

lemma alike_dice : ReadsAlike s x y (dice again) (dice again') k := by
  intro i hki hi
  refine (alike_firstDie h i hki hi).bind fun j left hij hj hl => ?_
  refine inStep_remaining fun bound bound' hb hb' => ?_
  exact inStep_chainFrom (none_atEnd rfl rfl) (alike_unary (h.mono hki)) hij hl hb hb'

lemma alike_drawing : ReadsAlike s x y (drawing again) (drawing again') k := by
  have hdice := alike_dice h
  refine (stuck_drawing again).readsAlike (stuck_drawing again') fun i hki hi => ?_
  refine inStep_here hi (inStep_accept rfl hi.le (fun _ => ?_) (hdice i hki hi.le))
  refine inStep_accept rfl hi (fun hi => ?_) ?_
  · refine (hdice (i + 2) (by omega) hi).bind fun j e hij hj he => ?_
    refine inStep_node (fun _ => rfl) (by omega) hj fun _ => List.forall_mem_singleton.mpr ?_
    exact he.mono (by omega) le_rfl hj
  · refine (hdice (i + 1) (by omega) hi).bind fun j count hij hj hcount => ?_
    refine inStep_expect rfl hj fun hj => ?_
    refine (hdice (j + 1) (by omega) hj).bind fun n e hjn hn he => ?_
    refine inStep_node (fun _ => rfl) (by omega) hn fun _ => List.forall_mem_cons.mpr ⟨?_, ?_⟩
    · exact hcount.mono le_rfl (by omega) hn
    · exact List.forall_mem_singleton.mpr (he.mono (by omega) le_rfl hn)

lemma alike_best : ReadsAlike s x y (best again) (best again') k := by
  have hdrawing := alike_drawing h
  refine (stuck_best again).readsAlike (stuck_best again') fun i hki hi => ?_
  refine inStep_here hi (inStep_peek_inside hi ?_)
  cases selector? (s.lexeme i) with
  | none => exact hdrawing i hki hi.le
  | some which =>
    refine inStep_advance hi (inStep_accept rfl hi (fun hi => ?_) ?_)
    · refine (hdrawing (i + 2) (by omega) hi).bind fun j e hij hj he => ?_
      refine inStep_node (fun _ => rfl) (by omega) hj fun _ => List.forall_mem_singleton.mpr ?_
      exact he.mono (by omega) le_rfl hj
    · refine (inStep_again (h.mono hki) .disjunction i.lt_succ_self hi).bind fun j count hij hj hcount => ?_
      refine inStep_expect rfl hj fun hj => ?_
      refine (hdrawing (j + 1) (by omega) hj).bind fun n e hjn hn he => ?_
      refine inStep_node (fun _ => rfl) (by omega) hn fun _ => List.forall_mem_cons.mpr ⟨?_, ?_⟩
      · exact hcount.mono le_rfl (by omega) hn
      · exact List.forall_mem_singleton.mpr (he.mono (by omega) le_rfl hn)

lemma alike_sign : ReadsAlike s x y (sign again) (sign again') k := by
  have hbest := alike_best h
  refine (stuck_sign again).readsAlike (stuck_sign again') fun i hki hi => ?_
  refine inStep_here hi (inStep_peek_inside hi ?_)
  cases signOp? (s.lexeme i) with
  | none => exact hbest i hki hi.le
  | some op =>
    refine inStep_advance hi ((hbest (i + 1) (by omega) hi).bind fun j e hij hj he => ?_)
    exact inStep_node (fun _ => rfl) hij hj fun _ => List.forall_mem_singleton.mpr he

lemma alike_comparison : ReadsAlike s x y (comparison again) (comparison again') k := by
  have hmult : ReadsAlike s x y (multiplicative again) (multiplicative again') k :=
    alike_chain (none_atEnd rfl rfl) (alike_sign h)
  have hplus : ReadsAlike s x y (additive again) (additive again') k :=
    alike_chain (none_atEnd rfl rfl) hmult
  have hrange : ReadsAlike s x y (range again) (range again') k :=
    alike_single (none_atEnd rfl rfl) hplus
  have happend : ReadsAlike s x y (append again) (append again') k :=
    alike_single (none_atEnd rfl rfl) hrange
  have hindex : ReadsAlike s x y (indexOf again) (indexOf again') k :=
    alike_single (none_atEnd rfl rfl) happend
  exact alike_single (none_atEnd rfl rfl) hindex

lemma alike_negation : ReadsAlike s x y (negation again) (negation again') k := by
  refine (stuck_negation again).readsAlike (stuck_negation again') fun i hki hi => ?_
  refine inStep_here hi (inStep_accept rfl hi.le (fun _ => ?_) (alike_comparison h i hki hi.le))
  refine (inStep_again (h.mono hki) .negation i.lt_succ_self hi).bind fun j e hij hj he => ?_
  exact inStep_node (fun _ => rfl) hij hj fun _ => List.forall_mem_singleton.mpr he

lemma alike_disjunction : ReadsAlike s x y (disjunction again) (disjunction again') k := by
  have hand : ReadsAlike s x y (conjunction again) (conjunction again') k :=
    alike_chain (none_atEnd rfl rfl) (alike_negation h)
  exact alike_chain (none_atEnd rfl rfl) hand

lemma inStep_optional (word : Keyword) (hki : k ≤ i) (hi : i ≤ s.size) :
    InStep s x y (optional again word) (optional again' word) i fun j o => ∀ e ∈ o, s.Reads i j e := by
  refine inStep_accept rfl hi (fun hi => ?_) (inStep_pure hi nofun)
  refine (alike_disjunction h (i + 1) (by omega) hi).bind fun j e hij hj he => inStep_pure hj ?_
  rintro e ⟨⟩
  exact he.mono i.le_succ le_rfl hj

omit h in
lemma inStep_loopNames (hi : i ≤ s.size) :
    InStep s x y loopNames loopNames i fun j a => ∃ n, i ≤ n ∧ n < j ∧ a.2.2 = s.span n := by
  refine inStep_expectName hi fun name hi => inStep_accept rfl hi (fun hi => ?_) ?_
  · refine inStep_expectName hi fun item hi => inStep_pure hi ⟨i + 2, ?_, ?_, rfl⟩ <;> omega
  · exact inStep_pure hi ⟨i, le_rfl, i.lt_succ_self, rfl⟩

lemma inStep_forEach {start : Span} {out : Option Expr} (hki : k ≤ i) (hi : i ≤ s.size) {m : Nat}
    (hnode : ∀ j e, i < j → j ≤ s.size → e.location = ⟨s.source, start.union (s.span (j - 1))⟩ →
      (∀ c ∈ e.children, c ∈ out ∨ s.Reads i j c) → s.Reads m j e) :
    InStep s x y (forEach again start out) (forEach again' start out) i (s.Reads m) := by
  refine (inStep_loopNames hi).bind fun j names hij hj hnames => inStep_expect rfl hj fun hj => ?_
  obtain ⟨n, hin, hnj, hspan⟩ := hnames
  refine (alike_disjunction h (j + 1) (by omega) hj).bind fun l container hjl hl hcontainer => ?_
  refine (inStep_optional h .if (by omega) hl).bind fun r condition hlr hr hcondition => ?_
  refine inStep_location (inStep_locationFrom (by omega) (inStep_pure hr ?_))
  refine hnode r _ (by omega) hr rfl fun c hc => ?_
  simp only [Expr.children, List.mem_cons, Option.mem_toList] at hc
  rcases hc with rfl | rfl | hc
  · cases out with
    | some e => exact .inl rfl
    | none =>
      have hitself : s.Reads n (n + 1) (.var ⟨s.source, names.2.2⟩ names.2.1) :=
        Section.reads_token (by omega) (by rw [hspan]; rfl) rfl
      exact .inr (hitself.mono hin (by omega) hr)
  · exact .inr (hcontainer.mono (by omega) hlr hr)
  · exact .inr ((hcondition c hc).mono (by omega) le_rfl hr)

lemma inStep_conditional (hk : k < s.size) :
    InStep s x y (conditional again (s.span k)) (conditional again' (s.span k)) (k + 1) (s.Reads k) := by
  have hor := alike_disjunction h
  refine (hor (k + 1) k.le_succ hk).bind fun i condition hki hi hcondition => ?_
  refine inStep_expect rfl hi fun hi => ?_
  refine (hor (i + 1) (by omega) hi).bind fun j whenTrue hij hj htrue => ?_
  refine inStep_expect rfl hj fun hj => ?_
  refine (inStep_again h .control (by omega) hj).bind fun n whenFalse hjn hn hfalse => ?_
  refine inStep_node (fun _ => rfl) (by omega) hn fun _ c hc => ?_
  simp only [Expr.children, List.mem_cons, List.not_mem_nil, or_false] at hc
  rcases hc with rfl | rfl | rfl
  · exact hcondition.mono le_rfl (by omega) hn
  · exact htrue.mono (by omega) (by omega) hn
  · exact hfalse

lemma inStep_whileLoop (hk : k < s.size) :
    InStep s x y (whileLoop again (s.span k)) (whileLoop again' (s.span k)) (k + 1) (s.Reads k) := by
  have hor := alike_disjunction h
  refine (hor (k + 1) k.le_succ hk).bind fun i condition hki hi hcondition => ?_
  refine inStep_expect rfl hi fun hi => ?_
  refine (hor (i + 1) (by omega) hi).bind fun j body hij hj hbody => ?_
  refine (inStep_optional h .limit (by omega) hj).bind fun n limit hjn hn hlimit => ?_
  refine inStep_node (fun _ => rfl) (by omega) hn fun _ c hc => ?_
  simp only [Expr.children, List.mem_cons, Option.mem_toList] at hc
  rcases hc with rfl | rfl | hc
  · exact hbody.mono (by omega) hjn hn
  · exact hcondition.mono le_rfl (by omega) hn
  · exact (hlimit c hc).mono (by omega) le_rfl hn

lemma inStep_repeatLoop (hk : k < s.size) :
    InStep s x y (repeatLoop again (s.span k)) (repeatLoop again' (s.span k)) (k + 1) (s.Reads k) := by
  have hor := alike_disjunction h
  refine (hor (k + 1) k.le_succ hk).bind fun i body hki hi hbody => ?_
  refine inStep_accept rfl hi (fun hi => ?_) (inStep_accept rfl hi (fun hi => ?_) (inStep_fail _ hi))
  · refine (hor (i + 1) (by omega) hi).bind fun j condition hij hj hcondition => ?_
    refine (inStep_optional h .limit (by omega) hj).bind fun n limit hjn hn hlimit => ?_
    refine inStep_node (fun _ => rfl) (by omega) hn fun _ c hc => ?_
    simp only [Expr.children, List.mem_cons, Option.mem_toList] at hc
    rcases hc with rfl | rfl | hc
    · exact hbody.mono le_rfl (by omega) hn
    · exact hcondition.mono (by omega) hjn hn
    · exact (hlimit c hc).mono (by omega) le_rfl hn
  · refine (hor (i + 1) (by omega) hi).bind fun j condition hij hj hcondition => ?_
    refine inStep_locationFrom (by omega) (inStep_pure hj ?_)
    refine Section.reads_from_token (by omega) hj rfl fun c hc => ?_
    simp only [Expr.children, List.mem_cons, Option.mem_toList] at hc
    rcases hc with rfl | rfl | hc
    · exact .inl (hbody.mono le_rfl (by omega) hj)
    · exact .inl (hcondition.mono (by omega) le_rfl hj)
    · cases hc
      exact .inr ⟨rfl, rfl⟩

lemma alike_control : ReadsAlike s x y (control again) (control again') k := by
  refine (stuck_control again).readsAlike (stuck_control again') fun i hki hi => ?_
  have h := h.mono hki
  refine inStep_here hi (inStep_accept rfl hi.le (fun _ => inStep_conditional h hi)
    (inStep_accept rfl hi.le (fun _ => inStep_whileLoop h hi)
      (inStep_accept rfl hi.le (fun _ => inStep_repeatLoop h hi)
        (inStep_accept rfl hi.le (fun _ => ?_) ?_))))
  · refine inStep_forEach h i.le_succ hi fun j e hij hj hloc hc => ?_
    refine Section.reads_from_token (by omega) hj hloc fun c hmem => .inl ?_
    rcases hc c hmem with hout | hread
    · cases hout
    · exact hread
  · refine (alike_disjunction h i le_rfl hi.le).bind fun j e hij hj he => ?_
    refine inStep_accept rfl hj (fun hj => ?_) (inStep_pure hj he)
    refine inStep_forEach h (by omega) hj fun n loop hjn hn hloc hc => ?_
    refine Section.reads_from_operand he (by omega) hn hloc fun c hmem => ?_
    rcases hc c hmem with hout | hread
    · exact .inl (Option.mem_some_iff.mp hout).symm
    · exact .inr (hread.mono j.le_succ le_rfl hn)

lemma alike_assignment : ReadsAlike s x y (assignment again) (assignment again') k :=
  alike_single (none_atEnd rfl rfl) (alike_control h)

omit h in
lemma inStep_optionalType (hi : i ≤ s.size) :
    InStep s x y optionalType optionalType i fun _ _ => True := by
  refine inStep_accept rfl hi (fun hi => ?_) (inStep_pure hi trivial)
  have htype : InStep s x y outputType outputType (i + 1) fun _ _ => True := by
    refine inStep_peek hi fun l l' hmeet => ?_
    rw [hmeet.same (none_atEnd (f := outputType?) rfl rfl)]
    cases ht : outputType? l' with
    | none => exact inStep_fail _ hi
    | some type =>
      have hi := hmeet.lt (none_atEnd rfl rfl) ht
      exact inStep_advance hi (inStep_pure hi trivial)
  exact htype.bind fun j type _ hj _ => inStep_pure hj trivial

lemma inStep_optionalName (hki : k ≤ i) (hi : i ≤ s.size) :
    InStep s x y (optionalName again) (optionalName again') i fun j o => ∀ e ∈ o, s.Reads i j e := by
  refine inStep_peek hi fun l l' hmeet => ?_
  cases hmeet with
  | inside hi' =>
    cases s.lexeme i with
    | text fs =>
      refine (alike_primary h i hki hi).bind fun j e _ hj he => inStep_pure hj ?_
      rintro e ⟨⟩
      exact he
    | _ => exact inStep_pure hi nofun
  | finish _ hl hl' =>
    simp only [atEnd, Bool.or_eq_true, beq_iff_eq] at hl hl'
    rcases hl with rfl | rfl <;> rcases hl' with rfl | rfl <;> exact inStep_pure hi nofun

lemma alike_output : ReadsAlike s x y (output again) (output again') k := by
  refine (stuck_output again).readsAlike (stuck_output again') fun i hki hi => ?_
  have hassign := alike_assignment h
  refine inStep_here hi (inStep_peek_inside hi ?_)
  cases outputMode? (s.lexeme i) with
  | some mode =>
    refine inStep_advance hi ((hassign (i + 1) (by omega) hi).bind fun j e hij hj he => ?_)
    refine (inStep_optionalType hj).bind fun n type hjn hn _ => ?_
    refine (inStep_optionalName h (by omega) hn).bind fun m name hnm hm hname => ?_
    refine inStep_node (fun _ => rfl) (by omega) hm fun _ c hc => ?_
    rcases List.mem_cons.mp hc with rfl | hc
    · exact he.mono le_rfl (by omega) hm
    · exact (hname c (Option.mem_toList.mp hc)).mono (by omega) le_rfl hm
  | none =>
    refine inStep_accept rfl hi.le (fun _ => ?_) (hassign i hki hi.le)
    have haddress {j : Nat} (space : Option String) (hij : i < j) (hj : j ≤ s.size) :
        InStep s x y (assignment again >>= fun e => do return .importing (← locationFrom (s.span i)) space e)
          (assignment again' >>= fun e => do return .importing (← locationFrom (s.span i)) space e) j
          (s.Reads i) := by
      refine (hassign j (by omega) hj).bind fun n e hjn hn he => ?_
      refine inStep_node (fun _ => rfl) (by omega) hn fun _ => List.forall_mem_singleton.mpr ?_
      exact he.mono hij le_rfl hn
    refine inStep_acceptNameBefore (m := .assign) nofun hi (fun name hi => ?_) ?_
    · exact haddress (some name) (by omega) hi
    · exact haddress none i.lt_succ_self hi

lemma inStep_sequenceFrom {left : Expr} {bound bound' : List Token} (hl : s.Reads k i left)
    (hb : s.size - i < bound.length) (hb' : s.size - i < bound'.length) :
    InStep s x y (sequenceFrom again bound left) (sequenceFrom again' bound' left) i (s.Reads k) := by
  induction bound generalizing bound' i left with
  | nil => cases hb
  | cons t bound ih =>
    cases bound' with
    | nil => cases hb'
    | cons t' bound' =>
      rw [List.length_cons] at hb hb'
      have hki := hl.1
      refine inStep_accept rfl hl.2.1 (fun hi => ?_) (inStep_pure hl.2.1 hl)
      refine inStep_peek hi fun l l' hmeet => ?_
      have hends (l : Lexeme) (hend : atEnd l = true) : endsSequence l = true := by
        simp only [atEnd, Bool.or_eq_true, beq_iff_eq] at hend
        rcases hend with rfl | rfl <;> rfl
      rw [hmeet.same hends]
      cases endsSequence l' with
      | true => exact inStep_pure hi (hl.mono le_rfl i.le_succ hi)
      | false =>
        refine (alike_output h (i + 1) (by omega) hi).bind fun j right hij hj hr => ?_
        apply ih (Section.reads_join .sequence hl (hr.mono i.le_succ le_rfl hj)) <;> omega

lemma alike_sequence : ReadsAlike s x y (sequence again) (sequence again') k := by
  intro i hki hi
  refine (alike_output h i hki hi).bind fun j left hij hj hl => ?_
  exact inStep_remaining fun bound bound' hb hb' => inStep_sequenceFrom (h.mono hki) hl hb hb'

end Levels

lemma alike_parseAt {s : Section} {x y : Around} {k depth depth' : Nat} (level : Level)
    (hd : s.size - k < depth) (hd' : s.size - k < depth') :
    ReadsAlike s x y (parseAt depth level) (parseAt depth' level) k := by
  induction depth generalizing depth' k level with
  | zero => cases hd
  | succ depth ih =>
    cases depth' with
    | zero => cases hd'
    | succ depth' =>
      -- what is nested begins behind the token `k`, so one level less is still deep enough
      have hbehind : AlikeBehind s x y (parseAt depth) (parseAt depth') k := by
        refine ⟨fun level j hkj hj => ?_, fun hk level => ⟨stuck_parseAt ?_ level, stuck_parseAt ?_ level⟩⟩
        · exact ih level (k := k + 1) (by omega) (by omega) j hkj hj
        · omega
        · omega
      cases level with
      | sequence => exact alike_sequence hbehind
      | control => exact alike_control hbehind
      | disjunction => exact alike_disjunction hbehind
      | negation => exact alike_negation hbehind
      | unary => exact alike_unary hbehind

end DiceLang.Parser

import DiceLang.Proofs.Eval.Sound

/-! Calls and their arguments: these are bound first, then defaults are evaluated, and at last the body. -/

namespace DiceLang

namespace Eval

variable {params : List (String × Option Expr)} {names : List String} {positional : List Value}
  {named : List (String × Value)} {name : String} {v : Value} {fault : Fault}

/-- What the arguments give for the parameter at a place. A named argument goes to the first parameter of
its name. -/
def given (names : List String) (positional : List Value) (named : List (String × Value)) (i : Nat) :
    Option Value :=
  positional[i]? <|> names[i]?.bind fun name =>
    if names.idxOf name = i then Entries.get? named name else none

def bindingOf (params : List (String × Option Expr)) (positional : List Value)
    (named : List (String × Value)) : Binding :=
  params.zipIdx.map fun x => (x.1, given (params.map Prod.fst) positional named x.2)

structure Bindable (names : List String) (count : Nat) (named : List String) : Prop where
  enough : count ≤ names.length
  known : ∀ name ∈ named, name ∈ names
  behind : ∀ name ∈ named, count ≤ names.idxOf name
  distinct : named.Nodup

inductive Misfit (names : List String) (count : Nat) (named : List String) : Fault → Prop
  | extra : names.length < count → Misfit names count named (.extraArgument names.length count)
  | unknown {before after : List String} {name : String} : Bindable names count before →
      named = before ++ name :: after → name ∉ names → Misfit names count named (.unknownArgument name)
  | set {before after : List String} {name : String} : Bindable names count before →
      named = before ++ name :: after → name ∈ names →
      names.idxOf name < count ∨ name ∈ before → Misfit names count named (.argumentAlreadySet name)

lemma bindNamed_eq (name : String) (v : Value) (b : Binding) :
    bindNamed name v b =
      if name ∈ b.map (·.1.1) then
        if ((b.map Prod.snd)[(b.map (·.1.1)).idxOf name]?.join).isSome then
          .error (.argumentAlreadySet name)
        else .ok (b.modify ((b.map (·.1.1)).idxOf name) fun x => (x.1, some v))
      else .error (.unknownArgument name) := by
  induction b with
  | nil => rfl
  | cons x b ih =>
    rw [bindNamed]
    by_cases hname : x.1.1 = name
    · simp [hname]
    · rw [if_neg hname, ih]
      simp only [List.map_cons, List.mem_cons, Ne.symm hname, false_or]
      rw [List.idxOf_cons_ne _ hname]
      split
      · split <;> simp_all [Except.map]
      · rfl

lemma getElem?_bindPositional (params : List (String × Option Expr)) (positional : List Value) (i : Nat) :
    (bindPositional params positional)[i]? = params[i]?.map fun p => (p, positional[i]?) := by
  induction params generalizing positional i with
  | nil => rfl
  | cons p ps ih =>
    cases positional <;> cases i <;> simp [bindPositional, ih]

lemma getElem?_bindingOf (i : Nat) : (bindingOf params positional named)[i]? =
    params[i]?.map fun p => (p, given (params.map Prod.fst) positional named i) := by
  simp [bindingOf, List.getElem?_zipIdx, Function.comp_def]

lemma names_bindingOf : (bindingOf params positional named).map (·.1.1) = params.map Prod.fst := by
  apply List.ext_getElem?
  intro i
  rw [List.getElem?_map, getElem?_bindingOf, Option.map_map, List.getElem?_map]
  rfl

lemma bindPositional_eq : bindPositional params positional = bindingOf params positional [] := by
  apply List.ext_getElem?
  intro i
  rw [getElem?_bindPositional, getElem?_bindingOf]
  have hgiven : given (params.map Prod.fst) positional [] i = positional[i]? := by
    simp [given, Entries.get?]
  rw [hgiven]

lemma Bindable.of_concat {named : List String} (h : Bindable names positional.length (named ++ [name])) :
    Bindable names positional.length named where
  enough := h.enough
  known n hn := h.known n (List.mem_append_left _ hn)
  behind n hn := h.behind n (List.mem_append_left _ hn)
  distinct := h.distinct.of_append_left

lemma given_of_first (hname : name ∈ names) (hbehind : positional.length ≤ names.idxOf name) :
    given names positional named (names.idxOf name) = Entries.get? named name := by
  have hget : names[names.idxOf name]? = some name := by
    rw [List.getElem?_eq_getElem (List.idxOf_lt_length_of_mem hname), List.getElem_idxOf]
  rw [given, List.getElem?_eq_none hbehind, hget]
  simp

lemma given_of_nodup (hnames : names.Nodup) {i : Nat} (hi : names[i]? = some name) :
    given names positional named i = (positional[i]? <|> Entries.get? named name) := by
  obtain ⟨hlt, rfl⟩ := List.getElem?_eq_some_iff.mp hi
  rw [given, hi, Option.bind_some, if_pos (hnames.idxOf_getElem i hlt)]

lemma given_concat (hname : name ∈ names) (hbehind : positional.length ≤ names.idxOf name)
    (hnew : name ∉ named.map Prod.fst) (i : Nat) :
    given names positional (named ++ [(name, v)]) i =
      if i = names.idxOf name then some v else given names positional named i := by
  split_ifs with hi
  · rw [hi, given_of_first hname hbehind, Entries.get?_concat, Entries.get?_eq_none_iff.mpr hnew, if_pos rfl]
    rfl
  · rw [given, given]
    congr 2
    funext _
    congr 1
    funext other
    split_ifs with hother
    · have hne : name ≠ other := fun heq => hi (heq ▸ hother.symm)
      rw [Entries.get?_concat, if_neg hne, Option.orElse_eq_orElse, Option.orElse_eq_or, Option.or_none]
    · rfl

lemma bindNamed_bindingOf (hname : name ∈ params.map Prod.fst)
    (hbehind : positional.length ≤ (params.map Prod.fst).idxOf name)
    (hnew : name ∉ named.map Prod.fst) :
    bindNamed name v (bindingOf params positional named) =
      .ok (bindingOf params positional (named ++ [(name, v)])) := by
  have hnone : given (params.map Prod.fst) positional named ((params.map Prod.fst).idxOf name) = none :=
    (given_of_first hname hbehind).trans (Entries.get?_eq_none_iff.mpr hnew)
  rw [bindNamed_eq, names_bindingOf, if_pos hname, if_neg]
  · congr 1
    apply List.ext_getElem?
    intro i
    rw [List.getElem?_modify, getElem?_bindingOf, getElem?_bindingOf, given_concat hname hbehind hnew]
    by_cases hi : (params.map Prod.fst).idxOf name = i
    · simp [hi, Function.comp_def]
    · simp [hi, Ne.symm hi]
  · rw [List.getElem?_map, getElem?_bindingOf, hnone]
    cases params[(params.map Prod.fst).idxOf name]? <;> simp

lemma bindNamed_of_unknown (hname : name ∉ params.map Prod.fst) :
    bindNamed name v (bindingOf params positional named) = .error (.unknownArgument name) := by
  rw [bindNamed_eq, names_bindingOf, if_neg hname]

lemma bindNamed_of_given (hname : name ∈ params.map Prod.fst)
    (hset : (params.map Prod.fst).idxOf name < positional.length ∨ name ∈ named.map Prod.fst) :
    bindNamed name v (bindingOf params positional named) = .error (.argumentAlreadySet name) := by
  have hlt := List.idxOf_lt_length_of_mem hname
  have hsome : (given (params.map Prod.fst) positional named
      ((params.map Prod.fst).idxOf name)).isSome = true := by
    by_cases hpos : (params.map Prod.fst).idxOf name < positional.length
    · rw [given, List.getElem?_eq_getElem hpos]
      rfl
    · rw [given_of_first hname (not_lt.mp hpos), Option.isSome_iff_ne_none, Ne, Entries.get?_eq_none_iff,
        not_not]
      exact hset.resolve_left hpos
  rw [bindNamed_eq, names_bindingOf, if_pos hname, if_pos]
  rw [List.length_map] at hlt
  rw [List.getElem?_map, getElem?_bindingOf, List.getElem?_eq_getElem hlt]
  exact hsome

lemma foldlM_of_bindable (h : Bindable (params.map Prod.fst) positional.length (named.map Prod.fst)) :
    named.foldlM (fun b arg => bindNamed arg.1 arg.2 b) (bindPositional params positional) =
      .ok (bindingOf params positional named) := by
  -- arguments by name are bound from the left, so the last one comes to the binding of all others
  induction named using List.reverseRecOn with
  | nil => exact congrArg Except.ok bindPositional_eq
  | append_singleton named x ih =>
    obtain ⟨name, v⟩ := x
    rw [List.map_append] at h
    have hnew : name ∉ named.map Prod.fst := by
      have hdistinct := h.distinct
      rw [List.map_singleton, List.nodup_append] at hdistinct
      exact fun hmem => hdistinct.2.2 name hmem name (by simp) rfl
    rw [List.foldlM_append, ih h.of_concat]
    have hlast := bindNamed_bindingOf (v := v) (h.known name (by simp)) (h.behind name (by simp)) hnew
    show (bindNamed name v (bindingOf params positional named) >>= pure) = _
    rw [hlast]
    rfl

lemma bind_append (h : Bindable (params.map Prod.fst) positional.length (named.map Prod.fst))
    (more : List (String × Value)) :
    bind params positional (named ++ more) =
      more.foldlM (fun b arg => bindNamed arg.1 arg.2 b) (bindingOf params positional named) := by
  have henough : ¬ params.length < positional.length := by
    have henough := h.enough
    rw [List.length_map] at henough
    exact not_lt.mpr henough
  rw [bind, if_neg henough, List.foldlM_append, foldlM_of_bindable h]
  rfl

lemma bind_of_bindable (h : Bindable (params.map Prod.fst) positional.length (named.map Prod.fst)) :
    bind params positional named = .ok (bindingOf params positional named) := by
  rw [← List.append_nil named, bind_append h, List.append_nil]
  rfl

lemma bind_of_misfit (h : Misfit (params.map Prod.fst) positional.length (named.map Prod.fst) fault) :
    bind params positional named = .error fault := by
  have hstops {before after : List String} {name : String}
      (hbefore : Bindable (params.map Prod.fst) positional.length before)
      (hnamed : named.map Prod.fst = before ++ name :: after)
      (hfails : ∀ done v, done.map Prod.fst = before →
        bindNamed name v (bindingOf params positional done) = .error fault) :
      bind params positional named = .error fault := by
    obtain ⟨done, more, rfl, rfl, hmore⟩ := List.map_eq_append_iff.mp hnamed
    obtain ⟨x, rest, rfl, rfl, rfl⟩ := List.map_eq_cons_iff.mp hmore
    rw [bind_append hbefore, List.foldlM_cons, hfails done x.2 rfl]
    rfl
  cases h with
  | extra hlt =>
    rw [List.length_map] at hlt
    rw [bind, if_pos hlt, List.length_map]
  | unknown hbefore hnamed hname => exact hstops hbefore hnamed fun _ _ _ => bindNamed_of_unknown hname
  | set hbefore hnamed hname hset =>
    refine hstops hbefore hnamed fun done v hdone => bindNamed_of_given hname ?_
    rwa [hdone]

lemma bindable_or_misfit (names : List String) (count : Nat) (named : List String) :
    Bindable names count named ∨ ∃ fault, Misfit names count named fault := by
  by_cases hlt : names.length < count
  · exact .inr ⟨_, .extra hlt⟩
  induction named using List.reverseRecOn with
  | nil => exact .inl ⟨not_lt.mp hlt, nofun, nofun, List.nodup_nil⟩
  | append_singleton named name ih =>
    rcases ih with hfits | ⟨fault, hmisfit⟩
    · by_cases hname : name ∈ names
      · by_cases hset : names.idxOf name < count ∨ name ∈ named
        · exact .inr ⟨_, .set hfits rfl hname hset⟩
        · rw [not_or, not_lt] at hset
          have hlast {P : String → Prop} (hall : ∀ n ∈ named, P n) (hn : P name) :
              ∀ n ∈ named ++ [name], P n := by
            rw [List.forall_mem_append]
            exact ⟨hall, List.forall_mem_singleton.mpr hn⟩
          refine .inl ⟨hfits.enough, hlast hfits.known hname, hlast hfits.behind hset.1, ?_⟩
          rw [← List.concat_eq_append]
          exact hfits.distinct.concat hset.2
      · exact .inr ⟨_, .unknown hfits rfl hname⟩
    · refine .inr ⟨fault, ?_⟩
      cases hmisfit with
      | extra h => exact absurd h hlt
      | unknown hbefore hnamed hname =>
        exact .unknown hbefore (by rw [hnamed, List.append_assoc]; rfl) hname
      | set hbefore hnamed hname hset =>
        exact .set hbefore (by rw [hnamed, List.append_assoc]; rfl) hname hset

lemma exists_misfit_iff {names : List String} {count : Nat} {named : List String} :
    (∃ fault, Misfit names count named fault) ↔ names.length < count ∨ ∃ before name after,
      named = before ++ name :: after ∧
        (name ∉ names ∨ names.idxOf name < count ∨ name ∈ before) := by
  constructor
  · rintro ⟨fault, hmisfit⟩
    cases hmisfit with
    | extra hlt => exact .inl hlt
    | unknown _ hnamed hname => exact .inr ⟨_, _, _, hnamed, .inl hname⟩
    | set _ hnamed _ hset => exact .inr ⟨_, _, _, hnamed, .inr hset⟩
  · intro h
    refine (bindable_or_misfit names count named).resolve_left fun hfits => ?_
    rcases h with hlt | ⟨before, name, after, rfl, hname | hlt | hmem⟩
    · exact absurd hfits.enough (not_le.mpr hlt)
    · exact hname (hfits.known name (by simp))
    · exact absurd (hfits.behind name (by simp)) (not_le.mpr hlt)
    · have hdistinct := (List.nodup_append.mp hfits.distinct).2.2
      exact hdistinct name hmem name List.mem_cons_self rfl

lemma bind_eq_error_iff : bind params positional named = .error fault ↔
    Misfit (params.map Prod.fst) positional.length (named.map Prod.fst) fault := by
  refine ⟨fun h => ?_, bind_of_misfit⟩
  rcases bindable_or_misfit (params.map Prod.fst) positional.length (named.map Prod.fst) with
    hfits | ⟨other, hmisfit⟩
  · cases (bind_of_bindable hfits).symm.trans h
  · cases (bind_of_misfit hmisfit).symm.trans h
    exact hmisfit

lemma eq_bindingOf_of_bind {b : Binding} (h : bind params positional named = .ok b) :
    b = bindingOf params positional named := by
  rcases bindable_or_misfit (params.map Prod.fst) positional.length (named.map Prod.fst) with
    hfits | ⟨fault, hmisfit⟩
  · exact Except.ok.inj (h.symm.trans (bind_of_bindable hfits))
  · cases h.symm.trans (bind_of_misfit hmisfit)

variable {again : Again} {held : ScopeId} {m n : Machine}

/-- The values of parameters from one state to another. Only the default of a parameter that nothing is given
for is evaluated. -/
inductive Supplies (again : Again) (held : ScopeId) : Binding → Machine → List Value → Machine → Prop
  | done (m : Machine) : Supplies again held [] m [] m
  | given {p : String × Option Expr} {v : Value} {rest : Binding} {vs : List Value} {m n : Machine} :
      Supplies again held rest m vs n → Supplies again held ((p, some v) :: rest) m (v :: vs) n
  | fallback {name : String} {e : Expr} {v : Value} {rest : Binding} {vs : List Value}
      {m m₁ n : Machine} : again e held none m = .ok v m₁ → Supplies again held rest m₁ vs n →
      Supplies again held (((name, some e), none) :: rest) m (v :: vs) n
  | absent {name : String} {rest : Binding} {vs : List Value} {m n : Machine} :
      Supplies again held rest m vs n →
      Supplies again held (((name, none), none) :: rest) m (.undefined :: vs) n

lemma Supplies.length_eq {b : Binding} {vs : List Value} (h : Supplies again held b m vs n) :
    vs.length = b.length := by
  induction h with
  | done => rfl
  | given _ ih | fallback _ _ ih | absent _ ih => rw [List.length_cons, List.length_cons, ih]

lemma Supplies.getElem?_of_given {b : Binding} {vs : List Value} (h : Supplies again held b m vs n) {i : Nat}
    {p : String × Option Expr} {v : Value} (hi : b[i]? = some (p, some v)) : vs[i]? = some v := by
  induction h generalizing i with
  | done => cases hi
  | given _ ih =>
    cases i with
    | zero =>
      cases hi
      rfl
    | succ i => exact ih hi
  | fallback _ _ ih | absent _ ih =>
    cases i with
    | zero => cases hi
    | succ i => exact ih hi

inductive Breaks (again : Again) (held : ScopeId) (b : Binding) (m : Machine) (x : Interrupt)
    (n : Machine) : Prop
  | intro {before rest : Binding} {name : String} {e : Expr} {vs : List Value} {m₁ : Machine} :
      b = before ++ ((name, some e), none) :: rest → Supplies again held before m vs m₁ →
      again e held none m₁ = .error x n → Breaks again held b m x n

lemma argumentValues_cases (again : Again) (held : ScopeId) (b : Binding) (m : Machine) :
    (∃ vs n, Supplies again held b m vs n ∧
      argumentValues again held b m = .ok ((b.map (·.1.1)).zip vs) n) ∨
    ∃ x n, Breaks again held b m x n ∧ argumentValues again held b m = .error x n := by
  induction b generalizing m with
  | nil => exact .inl ⟨[], m, .done m, rfl⟩
  | cons p rest ih =>
    obtain ⟨⟨name, fallback⟩, bound⟩ := p
    -- what the rest comes to once the value of the first parameter is found
    have hrest {v : Value} {m₁ : Machine}
        (hsupplies : ∀ {b vs n}, Supplies again held b m₁ vs n →
          Supplies again held (((name, fallback), bound) :: b) m (v :: vs) n)
        (hrun : argumentValues again held (((name, fallback), bound) :: rest) m =
          (do return (name, v) :: (← argumentValues again held rest)) m₁) :
        (∃ vs n, Supplies again held (((name, fallback), bound) :: rest) m vs n ∧
          argumentValues again held (((name, fallback), bound) :: rest) m =
            .ok (((((name, fallback), bound) :: rest).map (·.1.1)).zip vs) n) ∨
        ∃ x n, Breaks again held (((name, fallback), bound) :: rest) m x n ∧
          argumentValues again held (((name, fallback), bound) :: rest) m = .error x n := by
      rw [hrun]
      rcases ih m₁ with ⟨vs, n, hvs, hvalues⟩ | ⟨x, n, ⟨rfl, hbefore, he⟩, hvalues⟩
      · exact .inl ⟨v :: vs, n, hsupplies hvs, bind_run hvalues⟩
      · exact .inr ⟨x, n, .intro rfl (hsupplies hbefore) he, bind_run_error hvalues⟩
    cases bound with
    | some v => exact hrest .given rfl
    | none =>
      cases fallback with
      | none => exact hrest .absent rfl
      | some e =>
        cases he : again e held none m with
        | ok v m₁ => exact hrest (.fallback he) (bind_run he)
        | error x n => exact .inr ⟨x, n, .intro rfl (.done m) he, bind_run_error he⟩

end Eval

namespace Environment

variable {env : Environment} {id : ScopeId} {r : MapRef}

def defineAll (env : Environment) (id : ScopeId) (es : List (String × Value)) : Environment :=
  es.foldl (fun env e => env.define id e.1 e.2) env

lemma Fronts.defineAll (hr : env.Fronts id r) (es : List (String × Value)) :
    (env.defineAll id es).Fronts id r := by
  induction es generalizing env with
  | nil => exact hr
  | cons e es ih => exact ih (hr.define e.1 e.2)

lemma Fronts.lookup_defineAll_of_notMem (hr : env.Fronts id r) {es : List (String × Value)} {name : String}
    (hname : name ∉ es.map Prod.fst) : (env.defineAll id es).lookup id name = env.lookup id name := by
  induction es generalizing env with
  | nil => rfl
  | cons e es ih =>
    rw [List.map_cons, List.mem_cons, not_or] at hname
    exact (ih (hr.define e.1 e.2) hname.2).trans ((hr.lookup_define _ _ _).trans (if_neg hname.1))

lemma Fronts.lookup_defineAll (hr : env.Fronts id r) {es : List (String × Value)}
    (hkeys : (es.map Prod.fst).Nodup) {e : String × Value} (he : e ∈ es) :
    (env.defineAll id es).lookup id e.1 = some e.2 := by
  induction es generalizing env with
  | nil => cases he
  | cons first es ih =>
    rw [List.map_cons, List.nodup_cons] at hkeys
    rcases List.mem_cons.mp he with rfl | he
    · exact ((hr.define _ _).lookup_defineAll_of_notMem hkeys.1).trans
        ((hr.lookup_define _ _ _).trans (if_pos rfl))
    · exact ih (hr.define _ _) hkeys.2 he

end Environment

namespace Eval

variable {params : List (String × Option Expr)} {positional : List Value} {named : List (String × Value)}
  {name : String} {again : Again} {held : ScopeId} {m n : Machine}

def entered (held : ScopeId) (owner : Value) (es : List (String × Value)) (m : Machine) : Machine :=
  let inner := (m.env.enter held).1.1
  { m with env := ((m.env.enter held).2.defineAll inner es).define inner "this" owner }

lemma defineAll_run (scope : ScopeId) (es : List (String × Value)) (m : Machine) :
    defineAll scope es m = .ok () { m with env := m.env.defineAll scope es } := by
  induction es generalizing m with
  | nil => rfl
  | cons e es ih => exact ih { m with env := m.env.define scope e.1 e.2 }

lemma call_cases {f : Lambda} {positional : List Value} {named : List (String × Value)} {b : Binding}
    (hb : bind f.params positional named = .ok b) (again : Again) (site : Expr) (held : ScopeId)
    (owner : Value) (target : Option Kind) (m : Machine) :
    (∃ vs n, Supplies again held b m vs n ∧
      call again site held f owner positional named target m =
        onExit (fun _ => release (n.env.enter held).1.2) (release (n.env.enter held).1.2)
          (again f.body (n.env.enter held).1.1 target (entered held owner ((b.map (·.1.1)).zip vs) n))) ∨
    ∃ x n, Breaks again held b m x n ∧
      call again site held f owner positional named target m = .error x n := by
  rw [call, hb]
  rcases argumentValues_cases again held b m with ⟨vs, n, hvs, hvalues⟩ | ⟨x, n, hbreaks, hvalues⟩
  · refine .inl ⟨vs, n, hvs, ?_⟩
    dsimp only
    rw [bind_run hvalues, inScope_run, bind_run (defineAll_run _ _ _)]
    rfl
  · exact .inr ⟨x, n, hbreaks, bind_run_error hvalues⟩

lemma sound_of_supplies {kept : ScopeId → Prop} {b : Binding} {vs : List Value}
    (h : Supplies evaluate held b m vs n) (hm : m.Sound kept) (hs : m.InUse kept held) :
    ∃ kept', m.Onward kept kept' n := by
  induction h generalizing kept with
  | done m => exact ⟨kept, .refl hm⟩
  | given _ ih | absent _ ih => exact ih hm hs
  | fallback he _ ih =>
    obtain ⟨kept₁, hfirst, -⟩ := hm.evaluate hs he
    obtain ⟨kept₂, hrest⟩ := ih hfirst.sound (hfirst.inUse hs)
    exact ⟨kept₂, hfirst.trans hrest⟩

lemma get_entered {kept : ScopeId → Prop} {names : List String} {vs : List Value} (hm : m.Sound kept)
    (hs : m.InUse kept held) (owner : Value) (hnames : names.Nodup) (hthis : "this" ∉ names)
    (hlength : vs.length = names.length) :
    (entered held owner (names.zip vs) m).env.get (m.env.enter held).1.1 "this" = owner ∧
      ∀ (i : Nat) name, names[i]? = some name → ∃ v, vs[i]? = some v ∧
        (entered held owner (names.zip vs) m).env.get (m.env.enter held).1.1 name = v := by
  obtain ⟨r, hr⟩ := (hm.enter hs).1.fronts (hm.enter hs).2
  have hkeys : (names.zip vs).map Prod.fst = names := List.map_fst_zip hlength.ge
  have hlookup := (hr.defineAll (names.zip vs)).lookup_define "this"
  refine ⟨Environment.get_of_lookup ((hlookup "this" owner).trans (if_pos rfl)), fun i name hi => ?_⟩
  obtain ⟨hlt, hname⟩ := List.getElem?_eq_some_iff.mp hi
  have hv : vs[i]? = some vs[i] := List.getElem?_eq_getElem _
  have hmem : (name, vs[i]) ∈ names.zip vs :=
    List.mem_of_getElem? (List.getElem?_zip_eq_some.mpr ⟨hi, hv⟩)
  have hne : name ≠ "this" := fun heq => hthis (heq ▸ List.mem_of_getElem? hi)
  refine ⟨vs[i], hv, Environment.get_of_lookup ?_⟩
  exact (hlookup name owner).trans ((if_neg hne).trans (hr.lookup_defineAll (hkeys.symm ▸ hnames) hmem))

lemma getElem?_of_supplies {vs : List Value} {w : Value} {i : Nat}
    (h : Supplies again held (bindingOf params positional named) m vs n)
    (hnames : (params.map Prod.fst).Nodup) (hi : (params.map Prod.fst)[i]? = some name)
    (hw : (positional[i]? <|> Entries.get? named name) = some w) : vs[i]? = some w := by
  have hp := hi
  rw [List.getElem?_map, Option.map_eq_some_iff] at hp
  obtain ⟨p, hp, -⟩ := hp
  have hbound : (bindingOf params positional named)[i]? = some (p, some w) := by
    rw [getElem?_bindingOf, hp, given_of_nodup hnames hi, hw]
    rfl
  exact h.getElem?_of_given hbound

/-- Either the arguments of a call do not fit, and nothing happens but an error, or the defaults that are
needed are evaluated from left to right where the function was made, and then its body in a new scope. There
it finds its parameters and its owner. -/
theorem call_binds_arguments (f : Lambda) (positional : List Value) (named : List (String × Value)) :
    let names := f.params.map Prod.fst
    let count := positional.length
    ((∃ fault, bind f.params positional named = .error fault) ↔
      names.length < count ∨ ∃ before name after, named.map Prod.fst = before ++ name :: after ∧
        (name ∉ names ∨ names.idxOf name < count ∨ name ∈ before)) ∧
    (∀ fault, bind f.params positional named = .error fault →
      Misfit names count (named.map Prod.fst) fault ∧
      ∀ again site held owner target m, call again site held f owner positional named target m =
        .error (.failed (site.error fault)) m) ∧
    (∀ b, bind f.params positional named = .ok b → b = bindingOf f.params positional named ∧
      ∀ again site held owner target m,
        (∃ vs n, Supplies again held b m vs n ∧
          call again site held f owner positional named target m =
            onExit (fun _ => release (n.env.enter held).1.2) (release (n.env.enter held).1.2)
              (again f.body (n.env.enter held).1.1 target (entered held owner (names.zip vs) n))) ∨
        ∃ x n, Breaks again held b m x n ∧
          call again site held f owner positional named target m = .error x n) ∧
    (∀ kept held m, m.Sound kept → m.InUse kept held → names.Nodup → "this" ∉ names →
      ∀ owner vs n, Supplies evaluate held (bindingOf f.params positional named) m vs n →
        (entered held owner (names.zip vs) n).env.get (n.env.enter held).1.1 "this" = owner ∧
        ∀ (i : Nat) name, names[i]? = some name → ∃ v, vs[i]? = some v ∧
          (entered held owner (names.zip vs) n).env.get (n.env.enter held).1.1 name = v ∧
          ∀ w, (positional[i]? <|> Entries.get? named name) = some w → v = w) ∧
    (∀ (s : Session) vs, s.Serves vs → ∃ kept, s.machine.Sound kept ∧
      s.machine.InUse kept Environment.global) ∧
    ∀ kept scope m, m.Sound kept → m.InUse kept scope → ∀ e target i held owner n,
      evaluate e scope target m = .ok (.function i held f owner) n →
        ∃ kept', m.Onward kept kept' n ∧ n.InUse kept' held := by
  intro names count
  refine ⟨(exists_congr fun _ => bind_eq_error_iff).trans exists_misfit_iff, fun fault hfault => ?_,
    fun b hb => ?_, ?_, fun s vs hs => ?_, ?_⟩
  · refine ⟨bind_eq_error_iff.mp hfault, fun again site held owner target m => ?_⟩
    rw [call, hfault]
    rfl
  · obtain rfl := eq_bindingOf_of_bind hb
    refine ⟨rfl, fun again site held owner target m => ?_⟩
    rw [← show _ = names from names_bindingOf]
    exact call_cases hb again site held owner target m
  · intro kept held m hm hs hnames hthis owner vs n hvs
    obtain ⟨kept', honward⟩ := sound_of_supplies hvs hm hs
    have hlength : vs.length = names.length := by
      rw [hvs.length_eq, ← List.length_map (·.1.1), names_bindingOf]
    obtain ⟨hown, hparams⟩ :=
      get_entered honward.sound (honward.inUse hs) owner hnames hthis hlength
    refine ⟨hown, fun i name hi => ?_⟩
    obtain ⟨v, hv, hget⟩ := hparams i name hi
    exact ⟨v, hv, hget, fun w hw => Option.some.inj (hv.symm.trans (getElem?_of_supplies hvs hnames hi hw))⟩
  · obtain ⟨kept, hsound, hglobal⟩ := hs.sound
    exact ⟨kept, hsound, .inl hglobal⟩
  · intro kept scope m hm hs e target i held owner n h
    obtain ⟨kept', honward, hlike, -⟩ := hm.evaluate hs h
    cases hlike with
    | function hheld _ => exact ⟨kept', honward, .inl hheld.2⟩

theorem call_with_default_between :
    let s := ((Session.start ⟨5, .kind .number, .roll, 0⟩ (.ofTable [])).eval "x = 5").2
    let x : Expr := .var .builtin "x"
    let next : Expr := .binary .builtin .assign x
      (.binary .builtin (.arithmetic .add) x (.scalar .builtin (.number 1)))
    let f : Lambda := ⟨[("a", none), ("b", some next), ("c", none)], x⟩
    let c : List (String × Value) := [("c", .number 9)]
    let b := bindingOf f.params [.number 1] c
    let global := Environment.global
    (∃ kept n, s.machine.Sound kept ∧ s.machine.InUse kept global ∧
      bind f.params [.number 1] c = .ok b ∧
      Supplies evaluate global b s.machine [.number 1, .number 6, .number 9] n ∧
      let body := entered global .undefined (["a", "b", "c"].zip [.number 1, .number 6, .number 9]) n
      body.env.get (n.env.enter global).1.1 "b" = .number 6 ∧
      body.env.get (n.env.enter global).1.1 "this" = .undefined) ∧
    ∀ again site owner target m,
      call again site global f owner [.number 1, .number 2, .number 3] c target m =
        .error (.failed (site.error (.argumentAlreadySet "c"))) m := by
  intro s x next f c b global
  have hb : bind f.params [.number 1] c = .ok b := rfl
  obtain ⟨-, -, -, hbody, hsessions, -⟩ := call_binds_arguments f [.number 1] c
  obtain ⟨kept, hsound, hglobal⟩ := hsessions s _ (.eval "x = 5" (.start _ _))
  obtain ⟨v, hv, hsix⟩ := Option.bind_eq_some_iff.mp
    (by decide +kernel : (result? (evaluate next global none s.machine)).bind Value.scalar? =
      some (.number 6))
  cases v with
  | list | map | function => cases hsix
  | scalar =>
    cases hsix
    obtain ⟨n, hn⟩ := exists_of_result? hv
    have hvs : Supplies evaluate global b s.machine [.number 1, .number 6, .number 9] n :=
      .given (.fallback hn (.given (.done n)))
    obtain ⟨hthis, hparams⟩ :=
      hbody kept global s.machine hsound hglobal (by decide) (by decide) .undefined _ n hvs
    obtain ⟨v, ⟨⟩, hget, -⟩ := hparams 1 "b" rfl
    refine ⟨⟨kept, n, hsound, hglobal, hb, hvs, hget, hthis⟩, ?_⟩
    intro again site owner target m
    obtain ⟨-, hfails, -⟩ := call_binds_arguments f [.number 1, .number 2, .number 3] c
    exact (hfails _ rfl).2 again site global owner target m

end Eval

end DiceLang

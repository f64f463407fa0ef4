import DiceLang.Proofs.Eval.Bookkeeping
import DiceLang.Proofs.Eval.Trait

/-! Every form of evaluation keeps the books if nested evaluations do, and does the same for any two
ways of evaluating nested expressions that do the same at its depth. -/

namespace DiceLang.Eval

variable {α β : Type} {d : Nat} {Q : α → Prop}

structure Agrees (m : Machine) (Q : α → Prop) (r r' : EStateM.Result Interrupt Machine α) : Prop where
  eq : r = r'
  kept : m.Kept (after r)
  result : ∀ a n, r = .ok a n → Q a

def Agree (d : Nat) (p p' : Eval α) (Q : α → Prop) : Prop :=
  ∀ m : Machine, m.depth.val = d → Agrees m Q (p m) (p' m)

lemma Keeps.agree {p : Eval α} (h : Keeps p) (hQ : Gives p Q) : Agree d p p Q :=
  fun m _ => ⟨rfl, h m, hQ m⟩

lemma keeps_of_agree {p : Eval α} (h : ∀ d, Agree d p p Q) : Keeps p := fun m => (h _ m rfl).kept

lemma agrees_error (m : Machine) (e : Interrupt) : Agrees m Q (.error e m) (.error e m) :=
  ⟨rfl, .refl m, nofun⟩

lemma Agree.bind {p p' : Eval α} {f f' : α → Eval β} {R : β → Prop} (h : Agree d p p' Q)
    (h' : ∀ a, Q a → Agree d (f a) (f' a) R) : Agree d (p >>= f) (p' >>= f') R := by
  intro m hm
  obtain ⟨heq, hk, hQ⟩ := h m hm
  cases hp : p m with
  | ok a n =>
    rw [hp, after_ok] at hk
    obtain ⟨heq', hk', hR⟩ := h' a (hQ a n hp) n (by rw [hk.depth, hm])
    rw [bind_run hp, bind_run (heq.symm.trans hp)]
    exact ⟨heq', hk.trans hk', hR⟩
  | error e n =>
    rw [hp] at hk
    rw [bind_run_error hp, bind_run_error (heq.symm.trans hp)]
    exact ⟨rfl, hk, nofun⟩

lemma Agrees.onExit {r r' : EStateM.Result Interrupt Machine α} {f : α → Machine → Machine}
    {g : Machine → Machine} {m m₁ : Machine} (h : Agrees m₁ Q r r')
    (hf : ∀ a n, m₁.Kept n → m.Kept (f a n)) (hg : ∀ n, m₁.Kept n → m.Kept (g n)) :
    Agrees m Q (onExit f g r) (onExit f g r') := by
  obtain ⟨rfl, hk, hQ⟩ := h
  cases r with
  | ok a n =>
    refine ⟨rfl, hf a n hk, ?_⟩
    rintro _ _ ⟨⟩
    exact hQ a n rfl
  | error e n => exact ⟨rfl, hg n hk, nofun⟩

lemma Agree.inScope {body body' : ScopeId → Eval α} (parent : ScopeId)
    (h : ∀ scope, Agree d (body scope) (body' scope) Q) :
    Agree d (inScope parent body) (inScope parent body') Q := fun m hm =>
  (h _ { m with env := (m.env.enter parent).2 } hm).onExit (fun _ _ => kept_release parent)
    fun _ => kept_release parent

lemma Agree.nested {body body' : Eval α} (site : Expr) (h : d < maxDepth → Agree (d + 1) body body' Q) :
    Agree d (nested site body) (nested site body') Q := by
  intro m hm
  rw [nested_run, nested_run]
  split
  next hd =>
    exact (h (hm ▸ hd) (m.deeper hd) (congrArg (· + 1) hm)).onExit (fun _ _ => kept_shallower hd)
      fun _ => kept_shallower hd
  · exact agrees_error m _

lemma filter_begin? {c c' : ImportCache} {address : String} (hb : c.begin? address = some c') :
    c'.inProgress.filter (· != address) = c.inProgress := by
  unfold ImportCache.begin? at hb
  split_ifs at hb with hnot
  obtain rfl := Option.some.inj hb
  rw [List.filter_cons_of_neg (by simp), List.filter_eq_self]
  intro a ha
  have hne : a ≠ address := fun heq => hnot (heq ▸ ha)
  simpa using hne

lemma Agree.resolvedBy {answered answered' : Except FetchError String → Eval MapRef}
    {Q : MapRef → Prop} (site : Expr) (address : String) (hQ : ∀ r, Q r)
    (h : ∀ answer, Agree d (answered answer) (answered' answer) Q) :
    Agree d (resolvedBy site address answered) (resolvedBy site address answered') Q := by
  intro m hm
  rw [resolvedBy_run, resolvedBy_run]
  split
  · exact ⟨rfl, .refl m, fun r _ _ => hQ r⟩
  · cases hi : m.imports.begin? address with
    | none => exact agrees_error m _
    | some imports =>
      have hprogress (n : Machine) (hk : Machine.Kept { m with imports := imports } n) :
          n.imports.inProgress.filter (· != address) = m.imports.inProgress := by
        rw [hk.inProgress]
        exact filter_begin? hi
      exact (h (m.settings.fetch address) { m with imports := imports } hm).onExit
        (fun _ n hk => ⟨hk.depth, hk.stack, hprogress n hk, hk.inFlight⟩)
        fun n hk => ⟨hk.depth, hk.stack, hprogress n hk, hk.inFlight⟩

lemma Agree.reporting {body body' : Eval Outcome} {Q : Outcome → Prop} (site : Expr) (mode : OutputMode)
    (name : String) (e : Expr) (kind : Option Kind) (hb : Agree d body body' Q) :
    Agree d (reporting site mode name e kind body) (reporting site mode name e kind body')
      fun _ => True := by
  intro m hm
  have hstart := start_run site mode m
  by_cases hflight : m.log.current.isSome
  · rw [if_pos hflight] at hstart
    rw [Eval.reporting, Eval.reporting, bind_run_error hstart, bind_run_error hstart]
    exact agrees_error m _
  · rw [if_neg hflight] at hstart
    rw [Eval.reporting, Eval.reporting, bind_run hstart, bind_run hstart]
    obtain ⟨heq, hk, -⟩ := hb { m with log := { m.log with current := some ⟨mode, #[]⟩ } } hm
    simp only [Bind.bind, EStateM.bind, orAbandon_run, ← heq]
    have hnone : m.log.current.isSome = false := by simpa using hflight
    cases hbody : body { m with log := { m.log with current := some ⟨mode, #[]⟩ } } with
    | ok outcome n =>
      rw [hbody, after_ok] at hk
      refine ⟨rfl, ⟨hk.depth, hk.stack, hk.inProgress, ?_⟩, fun _ _ _ => trivial⟩
      show (n.log.finish name e kind outcome).current.isSome = _
      rw [RecordLog.current_finish, hnone, Option.isSome_none]
    | error err n =>
      rw [hbody, after_error] at hk
      exact ⟨rfl, ⟨hk.depth, hk.stack, hk.inProgress, hnone.symm⟩, nofun⟩

def agreeing (d : Nat) (again again' : Again) : Logic fun _ => True where
  Holds p Q := Agree d (p again) (p again') Q
  ret ha := Keeps.agree (fun m => .refl m) (gives_pure ha)
  bind hp hf := hp.bind hf
  fail _ _ m _ := agrees_error m _
  read _ hf m hm := hf m m.env.heap.made_true m hm
  onEnv hstack hf :=
    (keeps_onEnv hstack).agree (gives_modifyGet fun m => (hf m.env m.env.heap.made_true).2)
  newFunction scope _ _ _ _ :=
    (keeps_newFunction scope _ _).agree (gives_modifyGet fun _ => ⟨Value.made_true _, rfl⟩)
  recordThrow die results := (keeps_recordThrow die results).agree fun _ _ _ _ => trivial
  inScope parent h := .inScope parent h
  reporting name _ h := .reporting _ _ name _ _ h
  resolved address _ h :=
    .resolvedBy _ address (fun _ => trivial) fun answer => h answer fun _ _ _ _ _ _ => trivial

variable {again again' : Again}

lemma tolerates_agreeing : (agreeing d again again').Tolerates where
  unfinished _ m _ := agrees_error m _
  throwDie die m _ := ⟨rfl, ⟨rfl, rfl, rfl, rfl⟩, fun _ _ _ v _ => v.made_true⟩
  shuffle {vs} _ := by
    have hkeeps : Keeps (shuffle vs) := by
      intro m
      rw [shuffle_run]
      split
      · exact ⟨rfl, rfl, rfl, rfl⟩
      · exact .refl m
    exact hkeeps.agree fun _ _ _ _ v _ => v.made_true

lemma serves_agreeing (h : (agreeing d again again').Asks) : (agreeing d again again').Serves :=
  Logic.serves tolerates_agreeing closed_true h

end DiceLang.Eval

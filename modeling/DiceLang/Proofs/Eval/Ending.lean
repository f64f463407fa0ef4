import DiceLang.Proofs.Eval.Bookkeeping
import DiceLang.Proofs.Eval.Tolerant
import DiceLang.Session

/-! How runs end. An error is raised at an expression of the code. A run that is given up is given up for a
cause, and the cause is still to be seen in the state that the run leaves. -/

namespace DiceLang

variable {code : Expr → Prop} {m m' m'' : Machine}

structure Machine.Leads (code : Expr → Prop) (m m' : Machine) : Prop where
  heap : m.env.heap.Becomes code m'.env.heap
  settings : m'.settings = m.settings

lemma Machine.Leads.refl (hm : m.Made code) : m.Leads code m := ⟨.refl hm.heap, rfl⟩

lemma Machine.Leads.trans (h : m.Leads code m') (h' : m'.Leads code m'') : m.Leads code m'' :=
  ⟨h.heap.trans h'.heap, h'.settings.trans h.settings⟩

lemma Machine.Leads.made (hm : m.Made code) (h : m.Leads code m') : m'.Made code := by
  refine ⟨h.heap.made, ?_⟩
  rw [h.settings]
  exact hm.fetched

structure Machine.Shares (m m' : Machine) : Prop where
  heap : m'.env.heap = m.env.heap
  generator : m'.generator = m.generator
  settings : m'.settings = m.settings

namespace Eval

variable {α β : Type} {cause : Work → Machine → Prop} {w : Work}

def RaisedAt (e : EvaluationError) (site : Expr) : Prop := ∃ fault, e = site.error fault

structure Ends (code : Expr → Prop) (cause : Work → Machine → Prop) (m : Machine) (Q : α → Prop)
    (r : EStateM.Result Interrupt Machine α) : Prop where
  leads : m.Leads code (after r)
  result : ∀ a n, r = .ok a n → Q a
  raised : ∀ e n, r = .error (.failed e) n → ∃ site, code site ∧ RaisedAt e site
  givenUp : ∀ w n, r = .error (.unfinished (w := w)) n → cause w n

lemma ends_ok {Q : α → Prop} {a : α} (h : m.Leads code m') (ha : Q a) :
    Ends code cause m Q (.ok a m') := by
  refine ⟨h, ?_, ?_, nofun⟩ <;> rintro _ _ ⟨⟩
  exact ha

lemma ends_failed {Q : α → Prop} {site : Expr} (fault : Fault) (hs : code site) (h : m.Leads code m') :
    Ends code cause m Q (.error (.failed (site.error fault)) m') := by
  refine ⟨h, nofun, ?_, nofun⟩
  rintro _ _ ⟨⟩
  exact ⟨site, hs, fault, rfl⟩

lemma ends_unfinished {Q : α → Prop} (h : m.Leads code m') (hc : cause w m') :
    Ends code cause m Q (.error (.unfinished (w := w)) m') := by
  refine ⟨h, nofun, ?_, ?_⟩
  · rintro _ _ ⟨⟩
  · rintro _ _ ⟨⟩
    exact hc

lemma Ends.of_leads {Q : α → Prop} {r : EStateM.Result Interrupt Machine α} (hm : m.Leads code m')
    (h : Ends code cause m' Q r) : Ends code cause m Q r :=
  ⟨hm.trans h.leads, h.result, h.raised, h.givenUp⟩

lemma Ends.bind {p : Eval α} {f : α → Eval β} {Q : α → Prop} {R : β → Prop}
    (hp : Ends code cause m Q (p m))
    (hf : ∀ a n, p m = .ok a n → Q a → m.Leads code n → Ends code cause n R (f a n)) :
    Ends code cause m R ((p >>= f) m) := by
  obtain ⟨hleads, hresult, hraised, hgivenUp⟩ := hp
  simp only [Bind.bind, EStateM.bind]
  cases hr : p m with
  | ok a n =>
    rw [hr] at hleads
    exact (hf a n hr (hresult a n hr) hleads).of_leads hleads
  | error e n =>
    rw [hr] at hleads
    refine ⟨hleads, nofun, ?_, ?_⟩
    · rintro e _ ⟨⟩
      exact hraised e n hr
    · rintro w _ ⟨⟩
      exact hgivenUp w n hr

lemma Ends.onExit (hcause : ∀ (w : Work) (n n' : Machine), n.Shares n' → cause w n → cause w n')
    {Q : α → Prop} {r : EStateM.Result Interrupt Machine α} {f : α → Machine → Machine} {g : Machine → Machine}
    (hf : ∀ (a : α) (n : Machine), n.Shares (f a n)) (hg : ∀ n : Machine, n.Shares (g n))
    (h : Ends code cause m Q r) :
    Ends code cause m Q (onExit f g r) := by
  have hleads {n n' : Machine} (hn : m.Leads code n) (hs : n.Shares n') : m.Leads code n' :=
    ⟨hs.heap ▸ hn.heap, hs.settings.trans hn.settings⟩
  cases r with
  | ok a n => exact ends_ok (hleads h.leads (hf a n)) (h.result a n rfl)
  | error e n =>
    refine ⟨hleads h.leads (hg n), nofun, ?_, ?_⟩
    · rintro e _ ⟨⟩
      exact h.raised e n rfl
    · rintro w _ ⟨⟩
      exact hcause w n _ (hg n) (h.givenUp w n rfl)

def ending (code : Expr → Prop) {cause : Work → Machine → Prop}
    (hcause : ∀ (w : Work) (n n' : Machine), n.Shares n' → cause w n → cause w n') (again : Again) :
    Logic code where
  Holds p Q := ∀ m : Machine, m.Made code → Ends code cause m Q (p again m)
  ret ha m hm := ends_ok (.refl hm) ha
  bind hp hf m hm := (hp m hm).bind fun a n _ ha hn => hf a ha n (hn.made hm)
  fail _ hs m hm := ends_failed _ hs (.refl hm)
  read _ hf m hm := hf m hm.heap m hm
  onEnv _ hf m hm := by
    obtain ⟨hheap, hQ⟩ := hf m.env hm.heap
    exact ends_ok ⟨hheap, rfl⟩ hQ
  newFunction _ _ _ hf ho m hm := ends_ok ⟨.refl hm.heap, rfl⟩ ⟨⟨hf, ho⟩, rfl⟩
  recordThrow _ _ m hm := ends_ok ⟨.refl hm.heap, rfl⟩ trivial
  inScope parent h m hm := by
    have hentered : m.Leads code { m with env := (m.env.enter parent).2 } :=
      ⟨Environment.becomes_enter hm.heap parent, rfl⟩
    have hrelease (mark : Nat) (n : Machine) : n.Shares (release mark n) := ⟨rfl, rfl, rfl⟩
    beta_reduce
    rw [inScope_run]
    exact Ends.onExit hcause (fun _ => hrelease _) (hrelease _)
      ((h _ _ (hentered.made hm)).of_leads hentered)
  reporting name hs h m hm := by
    refine Ends.bind (Q := fun _ => True) ?_ fun _ started _ _ hstarted => ?_
    · rw [start_run]
      split
      · exact ends_failed _ hs (.refl hm)
      · exact ends_ok ⟨.refl hm.heap, rfl⟩ trivial
    · refine Ends.bind (Ends.onExit hcause (fun _ _ => ⟨rfl, rfl, rfl⟩) (fun _ => ⟨rfl, rfl, rfl⟩)
        (h started (hstarted.made hm))) fun outcome n _ _ hn => ?_
      exact ends_ok ⟨.refl hn.heap.made, rfl⟩ trivial
  resolved address hs h m hm := by
    have hanswer := h (m.settings.fetch address) fun _ _ hfetch hparse => hm.fetched hfetch hparse
    beta_reduce
    rw [resolvedBy_run]
    split
    · exact ends_ok (.refl hm) trivial
    · cases m.imports.begin? address with
      | none => exact ends_failed _ hs (.refl hm)
      | some imports =>
        have hbegun : m.Leads code { m with imports := imports } := ⟨.refl hm.heap, rfl⟩
        exact Ends.onExit hcause (fun _ _ => ⟨rfl, rfl, rfl⟩) (fun _ => ⟨rfl, rfl, rfl⟩)
          ((hanswer _ (hbegun.made hm)).of_leads hbegun)

abbrev anyEnding (code : Expr → Prop) : Again → Logic code := ending code fun _ _ _ _ (h : True) => h

variable {again : Again}

lemma tolerates_anyEnding : (anyEnding code again).Tolerates where
  unfinished _ m hm := ends_unfinished (.refl hm) trivial
  throwDie die m hm := by
    obtain ⟨hheap, hface⟩ := Dice.made_throw hm.heap m.settings.budget die m.generator
    beta_reduce
    rw [throwDie_run]
    exact ends_ok ⟨hheap, rfl⟩ hface
  shuffle hvs m hm := by
    beta_reduce
    rw [shuffle_run]
    split
    next x hx =>
      exact ends_ok ⟨.refl hm.heap, rfl⟩ fun v hv => hvs v (Generator.mem_of_mem_shuffle hx hv)
    · exact ends_unfinished (.refl hm) trivial

variable {hcause : ∀ (w : Work) (n n' : Machine), n.Shares n' → cause w n → cause w n'}

lemma uniform_ending : Logic.Uniform (ending code hcause) where
  transfer heq h m hm := heq ▸ h m hm
  nested hs h m hm := by
    beta_reduce
    rw [nested_run]
    split_ifs with hd
    · have hdeeper : m.Leads code (m.deeper hd) := ⟨.refl hm.heap, rfl⟩
      have hshallower (n : Machine) : n.Shares n.shallower := ⟨rfl, rfl, rfl⟩
      exact Ends.onExit hcause (fun _ => hshallower) hshallower
        ((h _ (hdeeper.made hm)).of_leads hdeeper)
    · exact ends_failed _ hs (.refl hm)

lemma any_of_ending {p : Again → Eval α} {Q : α → Prop} (h : (ending code hcause again).Holds p Q) :
    (anyEnding code again).Holds p Q :=
  fun m hm => ⟨(h m hm).leads, (h m hm).result, (h m hm).raised, fun _ _ _ => trivial⟩

lemma ending_of_any {p : Again → Eval α} {Q : α → Prop} (h : (anyEnding code again).Holds p Q)
    (hp : ∀ m w n, m.Made code → p again m = .error (.unfinished (w := w)) n → cause w n) :
    (ending code hcause again).Holds p Q :=
  fun m hm => ⟨(h m hm).leads, (h m hm).result, (h m hm).raised, fun w n hn => hp m w n hm hn⟩

lemma ending_evaluateAll (h : (ending code hcause evaluate).Asks) (last : Value) {program : List Expr}
    (hp : ∀ e ∈ program, code e) :
    (ending code hcause evaluate).Holds (fun _ => Session.evaluateAll last program) fun _ => True := by
  induction program generalizing last with
  | nil => exact (ending code hcause evaluate).ret trivial
  | cons e es ih =>
    rw [List.forall_mem_cons] at hp
    exact (ending code hcause evaluate).bind (h e Environment.global none hp.1) fun v _ => ih v hp.2

lemma error_of_foldlM {f : β → α → Eval β} {xs : List α} {b : β} {m n : Machine} {e : Interrupt}
    (h : xs.foldlM f b m = .error e n) : ∃ before x behind b' m',
      xs = before ++ x :: behind ∧ before.foldlM f b m = .ok b' m' ∧ f b' x m' = .error e n := by
  induction xs generalizing b m with
  | nil => cases h
  | cons x xs ih =>
    rw [List.foldlM_cons] at h
    rcases error_of_bind h with h | ⟨b₁, m₁, hx, h⟩
    · exact ⟨[], x, xs, b, m, rfl, rfl, h⟩
    · obtain ⟨before, y, behind, b', m', rfl, hbefore, hy⟩ := ih h
      refine ⟨x :: before, y, behind, b', m', rfl, ?_, hy⟩
      rw [List.foldlM_cons, bind_run hx, hbefore]

lemma error_of_forM {f : α → Eval PUnit} {xs : List α} {m n : Machine} {e : Interrupt}
    (h : xs.forM f m = .error e n) : ∃ before x behind m',
      xs = before ++ x :: behind ∧ before.forM f m = .ok () m' ∧ f x m' = .error e n := by
  induction xs generalizing m with
  | nil => cases h
  | cons x xs ih =>
    rcases error_of_bind h with h | ⟨_, m₁, hx, h⟩
    · exact ⟨[], x, xs, m, rfl, rfl, h⟩
    · obtain ⟨before, y, behind, m', rfl, hbefore, hy⟩ := ih h
      refine ⟨x :: before, y, behind, m', rfl, ?_, hy⟩
      show (f x >>= fun _ => before.forM f) m = _
      rw [bind_run hx, hbefore]

lemma error_of_mapM {f : α → Eval β} {xs : List α} {m n : Machine} {e : Interrupt}
    (h : xs.mapM f m = .error e n) : ∃ before x behind ys m',
      xs = before ++ x :: behind ∧ before.mapM f m = .ok ys m' ∧ f x m' = .error e n := by
  induction xs generalizing m with
  | nil => cases h
  | cons x xs ih =>
    rw [List.mapM_cons] at h
    rcases error_of_bind h with h | ⟨y, m₁, hx, h⟩
    · exact ⟨[], x, xs, [], m, rfl, rfl, h⟩
    · rcases error_of_bind h with h | ⟨_, _, _, ⟨⟩⟩
      obtain ⟨before, z, behind, ys, m', rfl, hbefore, hz⟩ := ih h
      refine ⟨x :: before, z, behind, y :: ys, m', rfl, ?_, hz⟩
      rw [List.mapM_cons, bind_run hx, bind_run hbefore]
      rfl

end Eval

end DiceLang

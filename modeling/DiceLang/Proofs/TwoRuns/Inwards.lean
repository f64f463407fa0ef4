import DiceLang.Proofs.TwoRuns.InOrder

/-! Conversions that are made where a value comes to be, and those that are made afterwards: one run converts
beside the scopes that the other has released already, and it comes to the same. -/

namespace DiceLang

def Pairing.beside (π π₀ : Pairing) (h : ∀ {s t}, π₀.passing s t → π.passing s t) : Pairing where
  lasting := π.lasting
  passing := π₀.passing
  left := π.left
  right := π₀.right
  records := π.records
  mem_left hst := π.mem_left (h hst)
  mem_right := π₀.mem_right

namespace Eval

variable {α : Type} [Paired α] {d d' d₁ : Nat} {π π' π₁ : Pairing}

def Limited (r : EStateM.Result Interrupt Machine α) : Prop := ∃ e n, r = .error e n ∧ e.AtLimit

lemma not_limited {r : EStateM.Result Interrupt Machine Value} {x : Scalar}
    (h : (result? r).bind Value.scalar? = some x) : ¬ Limited r := by
  rintro ⟨e, n, rfl, -⟩
  cases h

def Meets (d d' : Nat) (π : Pairing) (r r' : EStateM.Result Interrupt Machine α) : Prop :=
  ¬ Limited r → ¬ Limited r' → EndAlike d d' π r r'

lemma EndAlike.meets {r r' : EStateM.Result Interrupt Machine α} (h : EndAlike d d' π r r') :
    Meets d d' π r r' := fun _ _ => h

lemma Meets.exitLeft {r r' : EStateM.Result Interrupt Machine α} {g : Machine → Machine}
    (h : Meets d₁ d' π₁ r r')
    (hg : ∀ {π' n n'}, π₁ ≤ π' → Twin d₁ d' π' n n' →
      ∃ π'', π ≤ π'' ∧ π''.lasting = π'.lasting ∧ Twin d d' π'' (g n) n') :
    Meets d d' π (onExit (fun _ => g) g r) r' := by
  intro hl hr
  have hunlimited : ¬ Limited r := by
    rintro ⟨e, n, rfl, he⟩
    exact hl ⟨e, g n, rfl, he⟩
  have hends := h hunlimited hr
  cases hends with
  | ok hle ht hab =>
    obtain ⟨π'', hle', heq, ht'⟩ := hg hle ht
    exact .ok hle' ht' (heq ▸ hab)
  | error hle ht =>
    obtain ⟨π'', hle', -, ht'⟩ := hg hle ht
    exact .error hle' ht'
  | left _ he => exact absurd ⟨_, _, rfl, he⟩ hunlimited
  | right _ he => exact absurd ⟨_, _, rfl, he⟩ hr

structure Home where
  kind : Kind
  scope : ScopeId
  depth : Nat
  pairing : Pairing
  kind_ne : kind ≠ .function

variable {H : Home} {R : Array ScopeId} {fin : Machine → Machine}

structure Homeward (H : Home) (d : Nat) (R : Array ScopeId) (fin : Machine → Machine) : Prop where
  mem {s t : ScopeId} : H.pairing.passing s t → t ∈ R
  twin {d₁ : Nat} {π : Pairing} {n n' : Machine} (hR : π.right = R)
    (h : ∀ {s t}, H.pairing.passing s t → π.passing s t) :
    Twin d₁ d π n n' → Twin d₁ H.depth (π.beside H.pairing h) n (fin n')

lemma homeward_refl (H : Home) : Homeward H H.depth H.pairing.right id where
  mem := H.pairing.mem_right
  twin hR h ht :=
    { ht with
      stack' := ht.stack'.trans hR
      layers := fun hs => ht.layers (hs.imp_right h) }

lemma Homeward.shallower (hf : Homeward H d R fin) :
    Homeward H (d + 1) R fun n => fin n.shallower where
  mem := hf.mem
  twin hR h ht := hf.twin hR h ht.shallowerRight

lemma Homeward.release (hf : Homeward H d R fin) (t : ScopeId) :
    Homeward H d (R.push t) fun n => fin (release R.size n) where
  mem hst := Array.mem_push.mpr (.inl (hf.mem hst))
  twin {d₁ π n n'} hR h ht := by
    -- the scope goes from the second run alone, and with it all pairs that home does not know
    let half : Pairing :=
      ⟨π.lasting, H.pairing.passing, π.left, R, π.records, fun hst => π.mem_left (h hst), hf.mem⟩
    have hhalf : Twin d₁ d half n (Eval.release R.size n') :=
      ht.releaseRight rfl (fun _ _ hst => h hst) rfl (by simp [half, hR]) rfl
    exact hf.twin (π := half) rfl (fun hst => hst) hhalf

inductive EndsInwards (H : Home) (d : Nat) (π : Pairing)
    (h : ∀ {s t}, H.pairing.passing s t → π.passing s t) (fin : Machine → Machine) :
    EStateM.Result Interrupt Machine Value → EStateM.Result Interrupt Machine Value → Prop
  | error {π' : Pairing} {e : Interrupt} {n n' : Machine} : π ≤ π' → Twin d d π' n n' →
      EndsInwards H d π h fin (.error e n) (.error e n')
  | ok {r : EStateM.Result Interrupt Machine Value} {w : Value} {n' : Machine} :
      Meets d H.depth (π.beside H.pairing h) r (convertTo evaluate H.scope H.kind w (fin n')) →
      EndsInwards H d π h fin r (.ok w n')

def Inwards (H : Home) (d : Nat) (π : Pairing) (p q : Eval Value) : Prop :=
  ∀ fin, Homeward H d π.right fin → ∀ (h : ∀ {s t}, H.pairing.passing s t → π.passing s t) m m',
    Twin d d π m m' → EndsInwards H d π h fin (p m) (q m')

namespace Inwards

lemma bind {p p' : Eval α} {f f' : α → Eval Value} (hp : Alike d d π p p')
    (hf : ∀ {π'}, π ≤ π' → ∀ {a b}, Like π'.lasting a b → Inwards H d π' (f a) (f' b)) :
    Inwards H d π (p >>= f) (p' >>= f') := by
  intro fin hfin h m m' ht
  have hends := hp m m' ht
  simp only [Bind.bind, EStateM.bind]
  revert hends
  generalize p m = r
  generalize p' m' = r'
  intro hends
  cases hends with
  | @ok π₁ a b n n' hle hn hab =>
    have h₁ {s t : ScopeId} (hst : H.pairing.passing s t) : π₁.passing s t := hle.passing ▸ h hst
    have hbeside : π.beside H.pairing h ≤ π₁.beside H.pairing h₁ :=
      ⟨hle.lasting, rfl, hle.left, rfl, hle.records⟩
    have hrest := hf hle hab fin (hle.right ▸ hfin) h₁ n n' hn
    change EndsInwards H d π h fin (f a n) (f' b n')
    revert hrest
    generalize f a n = r
    generalize f' b n' = r'
    intro hrest
    cases hrest with
    | error hle' hn' => exact .error (hle.trans hle') hn'
    | ok hmeets => exact .ok fun hl hr => (hmeets hl hr).mono hbeside
  | error hle hn => exact .error hle hn
  | left hne _ => exact absurd rfl hne
  | right hne _ => exact absurd rfl hne

lemma fail (site : Expr) (fault : Fault) : Inwards H d π (fail site fault) (fail site fault) :=
  fun _ _ _ _ _ ht => .error le_rfl ht

lemma tail {p p' : Eval Value} (s : ScopeId) (hp : Alike d d π p p') :
    Inwards H d π (p >>= convertTo evaluate s H.kind) p' := by
  rw [← bind_pure p']
  refine bind hp fun {π₁} hle v w hv => ?_
  intro fin hfin h m m' ht
  have hhome := hfin.twin rfl h ht
  have hv' : Like (π₁.beside H.pairing h).lasting v w := hv
  exact .ok (alike_convertTo_of_ne asksAlike_evaluate s H.scope H.kind_ne hv' _ _ hhome).meets

lemma nested {p q : Eval Value} (site : Expr) (hp : d < maxDepth → Inwards H (d + 1) π p q) :
    Inwards H d π (nested site p) (nested site q) := by
  intro fin hfin h m m' ht
  have hdepth : m'.depth.val = m.depth.val := ht.depth'.trans ht.depth.symm
  rw [nested_run, nested_run]
  by_cases hm : m.depth.val < maxDepth
  · have hm' : m'.depth.val < maxDepth := hdepth ▸ hm
    rw [dif_pos hm, dif_pos hm']
    have hbody := hp (ht.depth ▸ hm) _ hfin.shallower h _ _ (ht.deeper hm hm')
    revert hbody
    generalize p (m.deeper hm) = r
    generalize q (m'.deeper hm') = r'
    intro hbody
    cases hbody with
    | error hle hn => exact .error hle hn.shallowerLeft.shallowerRight
    | ok hmeets => exact .ok (hmeets.exitLeft fun hle hn => ⟨_, hle, rfl, hn.shallowerLeft⟩)
  · rw [dif_neg hm, dif_neg (hdepth ▸ hm)]
    exact .error le_rfl ht

lemma inScope {s t : ScopeId} {p q : ScopeId → Eval Value} (hs : π.Scopes s t)
    (hp : ∀ {j k}, Inwards H d (π.enter j k) (p j) (q k)) :
    Inwards H d π (inScope s p) (inScope t q) := by
  intro fin hfin h m m' ht
  have hmark : (m.env.enter s).1.2 = π.left.size := by rw [(m.env.stack_enter s).2, ht.stack]
  have hmark' : (m'.env.enter t).1.2 = π.right.size := by rw [(m'.env.stack_enter t).2, ht.stack']
  rw [inScope_run, inScope_run, hmark, hmark']
  have hbody := hp _ (hfin.release (m'.env.enter t).1.1) (fun hst => .inl (h hst)) _ _ (ht.enter hs)
  revert hbody
  generalize p (m.env.enter s).1.1 { m with env := (m.env.enter s).2 } = r
  generalize q (m'.env.enter t).1.1 { m' with env := (m'.env.enter t).2 } = r'
  intro hbody
  cases hbody with
  | error hle hn => exact .error (Pairing.le_leave hle) (hn.leave hle)
  | ok hmeets =>
    -- the second run has left its scope on the way home; now the first one leaves its own
    refine .ok (hmeets.exitLeft fun {π'} n n' hle hn => ?_)
    refine ⟨(π.leave π').beside H.pairing h, ⟨hle.lasting, rfl, rfl, rfl, rfl⟩, rfl, ?_⟩
    refine hn.releaseLeft rfl (fun j k hjk => ?_) ?_ hle.right.symm hle.records.symm
    · rw [hle.passing]
      exact hjk
    · rw [hle.left]
      simp [Pairing.beside, Pairing.enter, Pairing.leave]

end Inwards

lemma bind_convertTo {p : Eval Value} {k : Kind} (hp : Gives p fun v => v.kind = k) (again : Again)
    (s : ScopeId) : p >>= convertTo again s k = p := by
  funext m
  cases hr : p m with
  | error e n => exact bind_run_error hr
  | ok v n =>
    rw [bind_run hr]
    unfold convertTo
    rw [if_pos (hp m v n hr)]
    rfl

lemma gives_evaluate (e : Expr) (s : ScopeId) (k : Kind) :
    Gives (evaluate e s (some k)) fun v => v.kind = k := fun _ _ _ h => kind_of_evaluate h

lemma gives_call (site : Expr) (s : ScopeId) (f : Lambda) (owner : Value) (xs : List Value)
    (es : List (String × Value)) (k : Kind) :
    Gives (call evaluate site s f owner xs es (some k)) fun v => v.kind = k := by
  unfold call
  split
  · exact gives_fail site _
  · refine gives_then fun _ => .inScope s fun scope => gives_then fun _ => gives_then fun _ => ?_
    exact gives_evaluate f.body scope k

section Evaluate

variable {s t : ScopeId}

lemma inwards_call (hnext : ∀ {π s t}, π.Scopes s t → ∀ e,
      Inwards H d π (evaluate e s (some H.kind)) (evaluate e t none))
    (site : Expr) (hs : π.Scopes s t) (f : Lambda) {v w : Value} (hv : Like π.lasting v w)
    {xs ys : List Value} (hxs : Like π.lasting xs ys) {es fs : List (String × Value)}
    (hes : Like π.lasting es fs) :
    Inwards H d π (call evaluate site s f v xs es (some H.kind))
      (call evaluate site t f w ys fs none) := by
  have hbind := like_bind f.params hxs hes
  unfold call
  revert hbind
  generalize Eval.bind f.params xs es = r
  generalize Eval.bind f.params ys fs = r'
  intro hbind
  cases hbind with
  | error fault => exact .fail site fault
  | ok hb =>
    refine .bind (alike_argumentValues asksAlike_evaluate hs hb) fun {π₁} hle _ _ hvs => ?_
    refine .inScope (hs.mono hle) fun {j k} => ?_
    have hscopes := π₁.scopes_enter j k
    refine .bind (alike_defineAll hscopes hvs) fun hle₁ _ _ _ => ?_
    refine .bind (alike_define (hscopes.mono hle₁) "this" (hle₁.like (hle.like hv))) fun hle₂ _ _ _ => ?_
    exact hnext ((hscopes.mono hle₁).mono hle₂) f.body

lemma inwards_native (hnext : ∀ {π s t}, π.Scopes s t → ∀ e,
      Inwards H d π (evaluate e s (some H.kind)) (evaluate e t none))
    (hs : π.Scopes s t) (e : Expr) :
    Inwards H d π (native evaluate e s (some H.kind) >>= convertTo evaluate s H.kind)
      (native evaluate e t none) := by
  have hlast {π : Pairing} (hs : π.Scopes s t) (e : Expr) :
      Inwards H d π (evaluate e s (some H.kind) >>= convertTo evaluate s H.kind)
        (evaluate e t none) := by
    rw [bind_convertTo (gives_evaluate e s H.kind)]
    exact hnext hs e
  have hown {e : Expr} (he : native evaluate e s (some H.kind) = native evaluate e s none) :
      Inwards H d π (native evaluate e s (some H.kind) >>= convertTo evaluate s H.kind)
        (native evaluate e t none) := by
    rw [he]
    exact .tail s (alike_native asksAlike_evaluate e hs none)
  cases e with
  | conditional _ condition whenTrue whenFalse =>
    unfold native
    rw [bind_assoc]
    refine .bind (alike_boolean asksAlike_evaluate hs condition) fun hle b b' hb => ?_
    obtain rfl : b = b' := hb
    cases b with
    | true => exact hlast (hs.mono hle) whenTrue
    | false => exact hlast (hs.mono hle) whenFalse
  | call _ callee positional named =>
    unfold native callExpr
    rw [bind_assoc]
    refine .bind (asksAlike_evaluate hs callee (some .function)) fun hle _ _ hf => ?_
    cases hf with
    | @function _ _ _ f _ _ hst ho =>
      dsimp only
      rw [bind_assoc]
      refine .bind (alike_values asksAlike_evaluate (hs.mono hle) positional) fun hle₁ _ _ hxs => ?_
      rw [bind_assoc]
      refine .bind (alike_namedValues asksAlike_evaluate ((hs.mono hle).mono hle₁) named)
        fun hle₂ _ _ hes => ?_
      rw [bind_convertTo (gives_call _ _ f _ _ _ _)]
      have hle' := hle₁.trans hle₂
      exact inwards_call hnext _ (.inl (hle'.lasting _ _ hst)) f (hle'.like ho) (hle₂.like hxs) hes
    | scalar | list | map => exact .tail s (.ret Value.like_undefined)
  | binary _ op left right =>
    cases op with
    | sequence =>
      unfold native binary
      rw [bind_assoc]
      exact .bind (asksAlike_evaluate hs left none) fun hle _ _ _ => hlast (hs.mono hle) right
    | _ => exact hown rfl
  | _ => exact hown rfl

lemma inwards_evaluate (hs : π.Scopes s t) (e : Expr) :
    Inwards H d π (evaluate e s (some H.kind)) (evaluate e t none) := by
  -- by the room that is left: bodies of functions are no parts of the expression
  induction hroom : maxDepth - d generalizing d π s t e with
  | zero =>
    rw [evaluate_eq, evaluate_eq]
    exact .nested e fun hd => absurd hd (by omega)
  | succ room ih =>
    rw [evaluate_eq, evaluate_eq]
    refine .nested e fun hd => ?_
    have hnext {π : Pairing} {s t : ScopeId} (hs : π.Scopes s t) (e : Expr) :
        Inwards H (d + 1) π (evaluate e s (some H.kind)) (evaluate e t none) :=
      ih hs e (by omega)
    have hright : (native evaluate e t none >>= convert evaluate t none) = native evaluate e t none :=
      bind_pure _
    rw [hright]
    exact inwards_native hnext hs e

end Evaluate

end Eval

/-- Machines that differ at most in the slots of scopes. Functions of one hold scopes that are paired with
those of the other, and from such scopes, as from those of the stack, the same maps are searched for
variables. -/
structure Machine.SameButSlots (P : ScopePairs) (stack : Array ScopeId) (m m' : Machine) : Prop where
  generator : m.generator = m'.generator
  records : RecordLog.Like P m.log m'.log
  heap : Heap.Like P m.env.heap m'.env.heap
  texts : ∀ v w, Like P v w → m.env.heap.text v = m'.env.heap.text w
  layers : ∀ s t, P s t ∨ (s = t ∧ s ∈ stack) → m.env.layers s = m'.env.layers t
  lookups : ∀ s t, P s t ∨ (s = t ∧ s ∈ stack) → ∀ name,
    Like P (m.env.lookup s name) (m'.env.lookup t name)
  identity : m.identity = m'.identity
  imports : m.imports = m'.imports
  left : m.env.arena.stack = stack
  right : m'.env.arena.stack = stack

lemma Twin.sameButSlots {d d' : Nat} {kept : ScopeId → Prop} {stack : Array ScopeId} {π : Pairing}
    {m m' : Machine} (hle : Pairing.itself kept stack ≤ π) (ht : Twin d d' π m m') :
    m.SameButSlots π.lasting stack m' := by
  have hscopes {s t : ScopeId} (hs : π.lasting s t ∨ (s = t ∧ s ∈ stack)) : π.Scopes s t :=
    hs.imp_right fun hst => hle.passing ▸ hst
  exact {
    generator := ht.generator
    records := ht.log (hle.records ▸ trivial)
    heap := ht.heap
    texts := fun _ _ hv => ht.heap.text_eq hv
    layers := fun _ _ hs => ht.layers (hscopes hs)
    lookups := fun _ _ hs => ht.lookup (hscopes hs)
    identity := ht.identity
    imports := ht.imports
    left := ht.stack.trans hle.left
    right := ht.stack'.trans hle.right }

namespace Eval

/-- Both runs fail with the same error, or give values of the kind `k` with the same text. Scopes that were
kept or on the stack before are the same ones for both. -/
inductive EndsSame (kept : ScopeId → Prop) (stack : Array ScopeId) (k : Kind) :
    EStateM.Result Interrupt Machine Value → EStateM.Result Interrupt Machine Value → Prop
  | ok {P : ScopePairs} {v w : Value} {n n' : Machine} : (∀ s, kept s → P s s) →
      n.SameButSlots P stack n' → Like P v w → v.kind = k → w.kind = k →
      n.env.heap.text v = n'.env.heap.text w → EndsSame kept stack k (.ok v n) (.ok w n')
  | error {P : ScopePairs} {e : Interrupt} {n n' : Machine} : (∀ s, kept s → P s s) →
      n.SameButSlots P stack n' → EndsSame kept stack k (.error e n) (.error e n')

lemma EndAlike.same {d : Nat} {kept : ScopeId → Prop} {stack : Array ScopeId} {k : Kind}
    {r r' : EStateM.Result Interrupt Machine Value} (hkind : ∀ v n, r = .ok v n → v.kind = k)
    (h : EndAlike d d (.itself kept stack) r r') : EndsSame kept stack k r r' := by
  cases h with
  | ok hle ht hv =>
    have hkept (s : ScopeId) (hs : kept s) := hle.lasting s s ⟨rfl, hs⟩
    have hk := hkind _ _ rfl
    exact .ok hkept (ht.sameButSlots hle) hv hk ((Value.Like.kind_eq hv).symm.trans hk)
      (ht.heap.text_eq hv)
  | error hle ht => exact .error (fun s hs => hle.lasting s s ⟨rfl, hs⟩) (ht.sameButSlots hle)
  | left hne _ => exact absurd rfl hne
  | right hne _ => exact absurd rfl hne

end Eval

open Eval

/-- Asking for a kind comes to the same as converting the value afterwards, in every machine that is in order
and from every scope there that is in use, unless one of the runs is stopped at the recursion limit. Machines
of sessions are in order, whatever was asked of them before. -/
theorem conversion_inwards_or_afterwards :
    (∀ (s : Session) (vs : List Value), s.Serves vs →
      ∃ kept, s.machine.InOrder kept ∧ kept Environment.global) ∧
    ∀ (kept : ScopeId → Prop) (m : Machine) (e : Expr) (scope : ScopeId) (k : Kind),
      m.InOrder kept → (kept scope ∨ scope ∈ m.env.arena.stack) → k ≠ .function →
      let inwards : Eval Value := evaluate e scope (some k)
      let afterwards : Eval Value := do
        let v ← evaluate e scope none
        convert evaluate scope (some k) v
      ¬ Limited (inwards m) → ¬ Limited (afterwards m) →
      EndsSame kept m.env.arena.stack k (inwards m) (afterwards m) := by
  refine ⟨fun s vs hs => ?_, fun kept m e scope k hm hscope hk => ?_⟩
  · obtain ⟨kept, horderly⟩ := hs.orderly
    exact ⟨kept, horderly.machine, horderly.global⟩
  intro inwards afterwards hl hr
  let H : Home := ⟨k, scope, m.depth, .itself kept m.env.arena.stack, hk⟩
  have hkind (v : Value) (n : Machine) (h : inwards m = .ok v n) : v.kind = k := kind_of_evaluate h
  have hends : EndsInwards H m.depth H.pairing id id (inwards m) (evaluate e scope none m) :=
    inwards_evaluate (Pairing.scopes_itself hscope) e id (homeward_refl H) id m m hm.twin
  cases hw : evaluate e scope none m with
  | error x n' =>
    have hafter : afterwards m = .error x n' := bind_run_error hw
    rw [hw] at hends
    rw [hafter]
    generalize inwards m = r at hends hkind ⊢
    cases hends with
    | error hle ht => exact EndAlike.same hkind (.error hle ht)
  | ok w n' =>
    have hafter : afterwards m = convertTo evaluate scope k w n' := bind_run hw
    rw [hw] at hends
    rw [hafter] at hr ⊢
    generalize inwards m = r at hends hkind hl ⊢
    cases hends with
    | ok hmeets => exact (hmeets hl hr).same hkind

theorem functions_called_inwards_and_afterwards :
    let s := Session.start ⟨5, .kind .number, .roll, 0⟩ (.ofTable [])
    let number (n : Int64) : Expr := .scalar .builtin (.number n)
    let x : Expr := .var .builtin "x"
    let change (op : Arithmetic) (result : Expr) : Expr := .lambda .builtin []
      (.binary .builtin .sequence
        (.binary .builtin .assign x (.binary .builtin (.arithmetic op) x (.var .builtin "n"))) result)
    let make : Expr := .lambda .builtin [("n", none)]
      (.list .builtin [change .add x, change .mul (.lambda .builtin [] x)])
    let e : Expr := .binary .builtin .sequence (.binary .builtin .assign x (number 1))
      (.call .builtin make [number 3] [])
    let inwards : Eval Value := evaluate e Environment.global (some .number)
    let afterwards : Eval Value := do
      let v ← evaluate e Environment.global none
      convert evaluate Environment.global (some .number) v
    (result? (inwards s.machine)).bind Value.scalar? = some (.number 16) ∧
      ∃ kept, EndsSame kept #[] .number (inwards s.machine) (afterwards s.machine) := by
  intro s number x change make e inwards afterwards
  obtain ⟨kept, hm, hglobal⟩ := conversion_inwards_or_afterwards.1 s [] (.start _ _)
  have hinwards : (result? (inwards s.machine)).bind Value.scalar? = some (.number 16) := by
    decide +kernel
  have hafterwards : (result? (afterwards s.machine)).bind Value.scalar? = some (.number 16) := by
    decide +kernel
  refine ⟨hinwards, kept, ?_⟩
  exact conversion_inwards_or_afterwards.2 kept s.machine e Environment.global .number hm (.inl hglobal)
    (by decide) (not_limited hinwards) (not_limited hafterwards)

end DiceLang

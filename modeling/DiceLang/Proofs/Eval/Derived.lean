import DiceLang.Proofs.Eval.Logic

/-! What a logic of steps says of assignments, dice and operators, and so of every evaluation. -/

namespace DiceLang

namespace Dice

variable {P : Value → Prop} {h : Heap} {selector : Selector} {vs : List Value}

lemma best_of_forall (hu : P .undefined) (hv : ∀ v ∈ vs, P v) : P (best h selector vs) := by
  cases vs with
  | nil => exact hu
  | cons first rest =>
    have hfold (wanted : Ordering) (best : Value) (hb : P best) (rest : List Value)
        (hr : ∀ v ∈ rest, P v) : P (rest.foldl (better h wanted) best) := by
      induction rest generalizing best with
      | nil => exact hb
      | cons v rest ih =>
        rw [List.forall_mem_cons] at hr
        refine ih _ ?_ hr.2
        unfold better
        split
        · exact hr.1
        · exact hb
    rw [List.forall_mem_cons] at hv
    cases selector with
    | first => exact hv.1
    | last => exact List.forall_mem_cons.mpr hv _ List.getLastD_mem_cons
    | highest => exact hfold _ _ hv.1 rest hv.2
    | lowest => exact hfold _ _ hv.1 rest hv.2

lemma bestOf_of_forall {n : Int64} (hv : ∀ v ∈ vs, P v) : ∀ v ∈ bestOf h selector n vs, P v := by
  -- What is picked by rank is put back in place, and stems from the list all the same.
  have hplace (picked : List (Value × Nat)) (hp : ∀ x ∈ picked, x ∈ ranked h vs) :
      ∀ v ∈ inPlace picked, P v := by
    intro v hmem
    obtain ⟨x, hx, rfl⟩ := List.mem_map.mp hmem
    have hrank := hp x (List.mem_mergeSort.mp hx)
    exact hv x.1 (List.fst_mem_of_mem_zipIdx (List.mem_mergeSort.mp hrank))
  rw [bestOf.eq_def]
  dsimp only
  split
  · exact hv
  · cases selector with
    | first => exact fun v hmem => hv v (List.mem_of_mem_take hmem)
    | last => exact fun v hmem => hv v (List.mem_of_mem_drop hmem)
    | highest => exact hplace _ fun x hx => List.mem_of_mem_drop hx
    | lowest => exact hplace _ fun x hx => List.mem_of_mem_take hx

end Dice

namespace Eval

lemma exists_indexOf_eq (h : Heap) (element container : Value) :
    ∃ s, indexOf h element container = .scalar s := by
  unfold indexOf
  split
  · exact ⟨_, rfl⟩
  · split <;> exact ⟨_, rfl⟩
  · split <;> exact ⟨_, rfl⟩
  · exact ⟨_, rfl⟩

namespace Logic

variable {code : Expr → Prop} {α β : Type} {L : Logic code} (s : L.Serves)

include s

omit s in
lemma assignItems (scope : ScopeId) {targets : List Expr}
    (ht : ∀ e ∈ targets, ∀ v : Value, v.Made code →
      L.Holds (fun again => assign again scope e v) fun _ => True)
    {vs : List Value} (hv : ∀ v ∈ vs, v.Made code) :
    L.Holds (fun again => assignItems again scope targets vs) fun _ => True := by
  induction targets generalizing vs with
  | nil => exact L.ret trivial
  | cons e targets ih =>
    rw [List.forall_mem_cons] at ht
    have hhead : (vs.headD .undefined).Made code := by
      cases vs with
      | nil => trivial
      | cons v vs => exact hv v List.mem_cons_self
    refine L.bind (ht.1 _ hhead) fun _ _ => ih ht.2 fun v hmem => ?_
    exact hv v (List.mem_of_mem_tail hmem)

omit s in
lemma assignEntries (scope : ScopeId) {targets : List (String × Expr)}
    (ht : ∀ e ∈ targets.map Prod.snd, ∀ v : Value, v.Made code →
      L.Holds (fun again => assign again scope e v) fun _ => True)
    {vs : List (String × Value)} (hv : ∀ x ∈ vs, x.2.Made code) :
    L.Holds (fun again => assignEntries again scope targets vs) fun _ => True := by
  induction targets with
  | nil => exact L.ret trivial
  | cons x targets ih =>
    rw [List.map_cons, List.forall_mem_cons] at ht
    refine L.bind (ht.1 _ (Value.made_getD fun v hmem => ?_)) fun _ _ => ih ht.2
    exact Entries.forall_of_get? hv hmem

lemma assign (scope : ScopeId) {target : Expr} (ht : code target) {v : Value} (hv : v.Made code) :
    L.Holds (fun again => assign again scope target v) fun _ => True := by
  induction target using Expr.children_induction generalizing v with
  | step e ih =>
    have hparts {c : Expr} (hc : c ∈ e.children) : code c := s.closed.child ht hc
    unfold Eval.assign
    split
    · exact L.setVariable scope _ hv
    · refine L.bind (s.asks _ scope none (hparts (by simp [Expr.children]))) fun container hc => ?_
      refine L.bind (s.asks _ scope none (hparts (by simp [Expr.children]))) fun key _ => ?_
      exact s.writeAt scope key ht hc.made hv
    · refine L.bind (elements s.toConverts scope hv) fun vs hvs => assignItems scope (fun c hc v hv => ?_) hvs
      exact ih c hc (hparts hc) hv
    · refine L.bind (namedElements s.toConverts scope hv) fun vs hvs =>
        assignEntries scope (fun c hc v hv => ?_) hvs
      exact ih c hc (hparts hc) hv
    · exact L.fail trivial ht

omit s in
variable (L) in
lemma scopeVariables (scope : ScopeId) (which : ScopeSelector) :
    L.Holds (fun _ => scopeVariables scope which) fun v => v.Made code ∧ v.kind = .map := by
  have hbindings (scope : ScopeId) : L.Holds (fun _ => do return Value.map (← Eval.bindings scope))
      fun v => v.Made code ∧ v.kind = .map :=
    L.bind (L.bindings scope) fun _ _ => L.ret ⟨trivial, rfl⟩
  refine L.read (fun _ _ _ _ => rfl) fun m _ => ?_
  cases which with
  | inner => exact hbindings scope
  | outer =>
    dsimp only
    split
    · exact hbindings _
    · exact L.newMap (List.forall_mem_nil _)
  | outermost => exact hbindings _

lemma throwOne {site : Expr} (hs : code site) {die : Value} (hd : die.Made code) :
    L.Holds (fun again => throwOne again site die) fun v => v.Made code := by
  cases die with
  | function i held f owner =>
    refine L.imp (call s.asks hs held hd.1 hd.2 (List.forall_mem_nil _) (List.forall_mem_nil _) none) ?_
    exact fun _ hv => hv.made
  | scalar v => exact s.throwPlain hs (by cases v <;> nofun)
  | list | map => exact s.throwPlain hs nofun

lemma throwMany {site : Expr} (hs : code site) {die : Value} (hd : die.Made code) (n : Nat)
    {faces : Array Value} (hf : ∀ v ∈ faces, v.Made code) :
    L.Holds (fun again => throwMany again site die n faces) fun vs => ∀ v ∈ vs, v.Made code := by
  induction n generalizing faces with
  | zero => exact L.ret hf
  | succ n ih =>
    refine L.bind (throwOne s hs hd) fun face hface => ih fun v hv => ?_
    rcases Array.mem_push.mp hv with hv | rfl
    · exact hf v hv
    · exact hface

lemma throwNumber {site : Expr} (hs : code site) (n : Int64) {die : Value} (hd : die.Made code) :
    L.Holds (fun again => throwDice.throwNumber again site n die) fun v => v.Made code ∧ v.kind = .list := by
  have hthrow : L.Holds
      (fun again => do
          let faces := (← Eval.throwMany again site die n.toInt.toNat #[]).toList
          Eval.recordThrow die faces
          Eval.newList faces) fun v => v.Made code ∧ v.kind = .list := by
    refine L.bind (throwMany s hs hd _ (by simp)) fun faces hf => ?_
    exact L.bind (L.recordThrow die _) fun _ _ => L.newList (by simpa using hf)
  unfold throwDice.throwNumber
  split
  · exact L.bind (Q := fun _ => True) (L.fail trivial hs) fun _ _ => hthrow
  · exact hthrow

lemma throwDice {site : Expr} (hs : code site) (n : Int64) {die : Value} (hd : die.Made code) :
    L.Holds (fun again => throwDice again site n die) fun v => v.Made code := by
  unfold Eval.throwDice
  split
  · split
    · exact L.imp (throwNumber s hs n hd) fun _ hv => hv.1
    · refine L.imp (call s.asks hs _ hd.1 hd.2 ?_ (List.forall_mem_nil _) none) fun _ hv => hv.made
      simp
  · exact L.imp (throwNumber s hs n hd) fun _ hv => hv.1

omit s in
variable (L) in
lemma draw (r : ListRef) : L.Holds (fun _ => draw r) fun v => v.Made code := by
  refine L.bind (L.items r) fun all hall => ?_
  split
  · exact L.ret trivial
  · rw [List.forall_mem_cons] at hall
    exact L.bind (L.setItems r hall.2) fun _ _ => L.ret hall.1

omit s in
variable (L) in
lemma drawMany (n : Int64) (r : ListRef) :
    L.Holds (fun _ => drawMany n r) fun v => v.Made code ∧ v.kind = .list := by
  refine L.bind (L.items r) fun all hall => ?_
  refine L.bind (L.setItems r fun v hv => hall v (List.mem_of_mem_drop hv)) fun _ _ => ?_
  exact L.newList fun v hv => hall v (List.mem_of_mem_take hv)

lemma reorder (order : Reorder) (r : ListRef) :
    L.Holds (fun _ => reorder order r) fun v => v.Made code ∧ v.kind = .list := by
  refine L.bind (L.items r) fun all hall => ?_
  cases order with
  | sort =>
    refine L.read (fun _ _ _ _ => rfl) fun m _ => L.bind (L.setItems r fun v hv => ?_) fun _ _ => ?_
    · exact hall v (List.mem_mergeSort.mp hv)
    · exact L.ret ⟨trivial, rfl⟩
  | reverse =>
    refine L.bind (L.setItems r fun v hv => ?_) fun _ _ => L.ret ⟨trivial, rfl⟩
    exact hall v (List.mem_reverse.mp hv)
  | shuffle =>
    refine L.bind (s.shuffle hall) fun vs hvs => ?_
    exact L.bind (L.setItems r hvs) fun _ _ => L.ret ⟨trivial, rfl⟩

lemma append {site : Expr} (hs : code site) (scope : ScopeId) {target source : Expr}
    (ht : code target) (hsource : code source) :
    L.Holds (fun again => append again site scope target source) fun v => v.Made code := by
  refine L.bind (s.asks target scope none ht) fun container _ => ?_
  split
  · refine L.bind (list s.asks scope hsource) fun r _ => L.bind (L.items r) fun added hadded => ?_
    refine L.bind (L.items _) fun old hold => L.bind (L.setItems _ ?_) fun _ _ => L.ret trivial
    exact List.forall_mem_append.mpr ⟨hold, hadded⟩
  · refine L.bind (s.asks source scope (some .map) hsource) fun v _ => ?_
    split
    · refine L.bind (L.entries _) fun added hadded => L.bind (L.entries _) fun old hold => ?_
      exact L.bind (L.setEntries _ (Entries.forall_putAll hold hadded)) fun _ _ => L.ret trivial
    · exact L.ret trivial
  · exact L.fail trivial hs

lemma unary {site : Expr} (hs : code site) (scope : ScopeId) (op : UnaryOp) {operand : Expr}
    (ho : code operand) : L.Holds (fun again => unary again site scope op operand) fun v => v.Made code := by
  cases op with
  | plus | minus => exact L.bind (number s.asks scope ho) fun _ _ => L.ret trivial
  | not => exact L.bind (boolean s.asks scope ho) fun _ _ => L.ret trivial
  | best selector =>
    refine L.bind (list s.asks scope ho) fun r _ => L.bind (L.items r) fun all hall => ?_
    exact L.read (fun _ _ _ _ => rfl) fun m _ => L.ret (Dice.best_of_forall trivial hall)
  | draw => exact L.bind (list s.asks scope ho) fun r _ => L.draw r
  | die =>
    refine L.bind (s.asks operand scope none ho) fun die hd => ?_
    refine L.bind (throwOne s hs hd.made) fun face hface => ?_
    exact L.bind (L.recordThrow die _) fun _ _ => L.ret hface
  | count =>
    refine L.bind (s.asks operand scope none ho) fun v _ => L.read (fun _ _ _ _ => rfl) fun m _ => ?_
    split
    · exact L.ret trivial
    · exact L.fail trivial hs
  | convert k => exact L.imp (s.asks operand scope (some k) ho) fun _ hv => hv.made
  | reorder order =>
    refine L.bind (list s.asks scope ho) fun r _ => ?_
    exact L.imp (reorder s order r) fun _ hv => hv.1

lemma binary {site : Expr} (hs : code site) (scope : ScopeId) (target : Option Kind) (op : BinaryOp)
    {left right : Expr} (hl : code left) (hr : code right) :
    L.Holds (fun again => binary again site scope target op left right) fun v => v.Made code := by
  cases op with
  | arithmetic op =>
    refine L.bind (numbers s.asks scope hl hr) fun x _ => ?_
    dsimp only
    split
    · exact L.ret trivial
    · exact L.fail trivial hs
  | compare op => exact L.bind (numbers s.asks scope hl hr) fun _ _ => L.ret trivial
  | same | notSame =>
    refine L.bind (both s.asks scope hl hr) fun x _ => ?_
    exact L.bind (L.same x.1 x.2) fun _ _ => L.ret trivial
  | and =>
    refine L.bind (boolean s.asks scope hl) fun b _ => ?_
    split
    · exact L.bind (boolean s.asks scope hr) fun _ _ => L.ret trivial
    · exact L.ret trivial
  | or =>
    refine L.bind (boolean s.asks scope hl) fun b _ => ?_
    split
    · exact L.ret trivial
    · exact L.bind (boolean s.asks scope hr) fun _ _ => L.ret trivial
  | append => exact append s hs scope hl hr
  | indexOf =>
    refine L.bind (both s.asks scope hl hr) fun x _ => L.read (fun _ _ _ _ => rfl) fun m _ => L.ret ?_
    obtain ⟨i, hi⟩ := exists_indexOf_eq m.env.heap x.1 x.2
    rw [hi]
    trivial
  | range =>
    refine L.bind (numbers s.asks scope hl hr) fun x _ => L.bind (s.makeRoom _) fun _ _ => ?_
    refine L.imp (L.newList fun v hv => ?_) fun _ hv => hv.1
    obtain ⟨i, -, rfl⟩ := List.mem_map.mp hv
    trivial
  | bestOf selector =>
    refine L.bind (number s.asks scope hl) fun n _ => L.bind (list s.asks scope hr) fun r _ => ?_
    refine L.bind (L.items r) fun all hall => L.read (fun _ _ _ _ => rfl) fun m _ => ?_
    exact L.imp (L.newList (Dice.bestOf_of_forall hall)) fun _ hv => hv.1
  | drawMany =>
    refine L.bind (number s.asks scope hl) fun n _ => L.bind (list s.asks scope hr) fun r _ => ?_
    exact L.imp (L.drawMany n r) fun _ hv => hv.1
  | dice =>
    refine L.bind (number s.asks scope hl) fun n _ => ?_
    exact L.bind (s.asks right scope none hr) fun die hd => throwDice s hs n hd.made
  | assign =>
    refine L.bind (s.asks right scope none hr) fun v hv => ?_
    exact L.bind (assign s scope hl hv.made) fun _ _ => L.ret hv.made
  | subscript =>
    exact L.bind (both s.asks scope hl hr) fun x hx => s.subscript x.2 hs hx.1
  | sequence =>
    refine L.bind (s.asks left scope none hl) fun _ _ => ?_
    exact L.imp (s.asks right scope target hr) fun _ hv => hv.made

lemma callExpr {site : Expr} (hs : code site) (scope : ScopeId) (target : Option Kind)
    {callee : Expr} (hc : code callee) {positional : List Expr} (hp : ∀ e ∈ positional, code e)
    {named : List (String × Expr)} (hn : ∀ e ∈ named.map Prod.snd, code e) :
    L.Holds (fun again => callExpr again site scope target callee positional named) fun v => v.Made code := by
  refine L.bind (s.asks callee scope (some .function) hc) fun f hf => ?_
  split
  · refine L.bind (values s.asks scope hp) fun _ hps => ?_
    refine L.bind (namedValues s.asks scope hn) fun _ hns => ?_
    exact L.imp (call s.asks hs _ hf.made.1 hf.made.2 hps hns target) fun _ hv => hv.made
  · exact L.ret trivial

lemma native {e : Expr} (he : code e) (scope : ScopeId) (target : Option Kind) :
    L.Holds (fun again => native again e scope target) fun v => v.Made code := by
  have hparts : ∀ c ∈ e.children, code c := fun c hc => s.closed.child he hc
  cases e with
  | scalar _ v => exact L.ret trivial
  | var _ name => exact L.valueOf scope name
  | interpolation _ fs => exact L.bind (interpolate s.toConverts scope fs) fun _ _ => L.ret trivial
  | list _ es =>
    refine L.bind (values s.asks scope hparts) fun vs hvs => ?_
    exact L.imp (L.newList hvs) fun _ hv => hv.1
  | map _ es =>
    refine L.bind (namedValues s.asks scope hparts) fun vs hvs => ?_
    exact L.imp (L.newMap (Entries.forall_ofList hvs)) fun _ hv => hv.1
  | lambda _ params body =>
    simp only [Expr.children, List.forall_mem_cons, List.mem_filterMap] at hparts
    refine L.imp (L.newFunction scope ⟨hparts.1, fun p hp e hpe => ?_⟩ trivial) fun _ hv => hv.1
    exact hparts.2 e ⟨p, hp, hpe⟩
  | unary _ op operand => exact unary s he scope op (hparts operand (by simp [Expr.children]))
  | binary _ op left right =>
    simp only [Expr.children, List.forall_mem_cons] at hparts
    exact binary s he scope target op hparts.1 hparts.2.1
  | forEach _ index item out container condition =>
    simp only [Expr.children, List.forall_mem_cons, Option.mem_toList] at hparts
    exact forEach s.toConverts he hparts.2.1 scope hparts.1 hparts.2.2
  | repeating _ form body condition limit =>
    exact L.imp (s.repeating scope he) fun _ hv => hv.1
  | conditional _ condition whenTrue whenFalse =>
    simp only [Expr.children, List.forall_mem_cons] at hparts
    refine L.bind (boolean s.asks scope hparts.1) fun b _ => ?_
    split
    · exact L.imp (s.asks whenTrue scope target hparts.2.1) fun _ hv => hv.made
    · exact L.imp (s.asks whenFalse scope target hparts.2.2.1) fun _ hv => hv.made
  | call _ callee positional named =>
    simp only [Expr.children, List.forall_mem_cons, List.forall_mem_append] at hparts
    exact callExpr s he scope target hparts.1 hparts.2.1 hparts.2.2
  | scopeVariables _ which => exact L.imp (L.scopeVariables scope which) fun _ hv => hv.1
  | output _ mode expression type name =>
    simp only [Expr.children, List.forall_mem_cons, Option.mem_toList] at hparts
    exact L.bind (output s.toConverts he scope hparts.1 hparts.2) fun _ _ => L.ret trivial
  | importing _ space address =>
    refine L.bind (importing s.toConverts he scope (hparts address (by simp [Expr.children]))) ?_
    exact fun _ _ => L.ret trivial

omit s in
lemma asks_evaluateWithin {L : Again → Logic code} (u : Uniform L)
    (hserves : ∀ room, (L (evaluateWithin room)).Asks → (L (evaluateWithin room)).Serves) (room : Nat) :
    (L (evaluateWithin room)).Asks := by
  induction room with
  | zero =>
    intro e scope target he
    have hfail : (L (evaluateWithin 0)).Holds (fun _ => Eval.fail e (.recursionLimit maxDepth))
        (Answers code target) := (L _).fail trivial he
    exact u.transfer rfl hfail
  | succ room ih =>
    intro e scope target he
    have s := hserves room ih
    have hbody := (L (evaluateWithin room)).bind (native s he scope target) fun v hv =>
      convert s.toConverts scope target hv
    exact u.transfer rfl (u.nested he hbody)

end Logic

end Eval

end DiceLang

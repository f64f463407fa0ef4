import DiceLang.Proofs.Eval.Logic
import DiceLang.Proofs.TwoRuns.Twin

/-! Steps that two runs take alike: twins become twins, with results that are alike or with the same error.
Only the deeper run may be stopped where the other goes on. -/

namespace DiceLang

def Interrupt.AtLimit (e : Interrupt) : Prop :=
  ∃ site : Expr, e = .failed (site.error (.recursionLimit maxDepth))

namespace Eval

variable {α β : Type} [Paired α] [Paired β] {d d' : Nat} {π π' : Pairing}

inductive EndAlike (d d' : Nat) (π : Pairing) :
    EStateM.Result Interrupt Machine α → EStateM.Result Interrupt Machine α → Prop
  | ok {π' : Pairing} {a b : α} {n n' : Machine} : π ≤ π' → Twin d d' π' n n' → Like π'.lasting a b →
      EndAlike d d' π (.ok a n) (.ok b n')
  | error {π' : Pairing} {e : Interrupt} {n n' : Machine} : π ≤ π' → Twin d d' π' n n' →
      EndAlike d d' π (.error e n) (.error e n')
  | left {e : Interrupt} {n : Machine} {r : EStateM.Result Interrupt Machine α} : d ≠ d' → e.AtLimit →
      EndAlike d d' π (.error e n) r
  | right {e : Interrupt} {n : Machine} {r : EStateM.Result Interrupt Machine α} : d ≠ d' → e.AtLimit →
      EndAlike d d' π r (.error e n)

def Alike (d d' : Nat) (π : Pairing) (p p' : Eval α) : Prop :=
  ∀ m m', Twin d d' π m m' → EndAlike d d' π (p m) (p' m')

lemma EndAlike.mono {r r' : EStateM.Result Interrupt Machine α} (hπ : π ≤ π') (h : EndAlike d d' π' r r') :
    EndAlike d d' π r r' := by
  cases h with
  | ok hle ht hab => exact .ok (hπ.trans hle) ht hab
  | error hle ht => exact .error (hπ.trans hle) ht
  | left hd he => exact .left hd he
  | right hd he => exact .right hd he

lemma Alike.ret {a b : α} (h : Like π.lasting a b) : Alike d d' π (pure a) (pure b) :=
  fun _ _ ht => .ok le_rfl ht h

lemma Alike.bind {p p' : Eval α} {f f' : α → Eval β} (hp : Alike d d' π p p')
    (hf : ∀ {π'}, π ≤ π' → ∀ {a b}, Like π'.lasting a b → Alike d d' π' (f a) (f' b)) :
    Alike d d' π (p >>= f) (p' >>= f') := by
  intro m m' ht
  have hends := hp m m' ht
  simp only [Bind.bind, EStateM.bind]
  revert hends
  generalize p m = r
  generalize p' m' = r'
  intro hends
  cases hends with
  | ok hle hn hab => exact (hf hle hab _ _ hn).mono hle
  | error hle hn => exact .error hle hn
  | left hd he => exact .left hd he
  | right hd he =>
    cases r with
    | ok => exact .right hd he
    | error => exact .right hd he

lemma Alike.fail (site : Expr) (fault : Fault) :
    Alike d d' π (fail site fault : Eval α) (fail site fault) :=
  fun _ _ ht => .error le_rfl ht

lemma Alike.unfinished (w : Work) : Alike d d' π (unfinished w : Eval α) (unfinished w) :=
  fun _ _ ht => .error le_rfl ht

lemma alike_makeRoom (n : Nat) : Alike d d' π (makeRoom n) (makeRoom n) := by
  unfold makeRoom
  split
  · exact .ret rfl
  · exact .unfinished _

lemma Alike.read {f f' : Machine → Eval α}
    (h : ∀ {m m'}, Twin d d' π m m' → Alike d d' π (f m) (f' m')) :
    Alike d d' π (get >>= f) (get >>= f') :=
  fun m m' ht => h ht m m' ht

lemma Alike.change {f f' : Machine → α × Machine}
    (h : ∀ {m m'}, Twin d d' π m m' →
      Twin d d' π (f m).2 (f' m').2 ∧ Like π.lasting (f m).1 (f' m').1) :
    Alike d d' π (modifyGet f) (modifyGet f') :=
  fun _ _ ht => .ok le_rfl (h ht).1 (h ht).2

lemma EndAlike.onExit {d₁ d₁' : Nat} {r r' : EStateM.Result Interrupt Machine α}
    {f f' : α → Machine → Machine} {g g' : Machine → Machine} (h : EndAlike d₁ d₁' π' r r')
    (hd : d₁ ≠ d₁' → d ≠ d')
    (hok : ∀ {π₁ a b n n'}, π' ≤ π₁ → Twin d₁ d₁' π₁ n n' → Like π₁.lasting a b →
      ∃ π₂, π ≤ π₂ ∧ Twin d d' π₂ (f a n) (f' b n') ∧ Like π₂.lasting a b)
    (herror : ∀ {π₁ n n'}, π' ≤ π₁ → Twin d₁ d₁' π₁ n n' → ∃ π₂, π ≤ π₂ ∧ Twin d d' π₂ (g n) (g' n')) :
    EndAlike d d' π (Eval.onExit f g r) (Eval.onExit f' g' r') := by
  cases h with
  | ok hle ht hab =>
    obtain ⟨π₂, hle₂, ht₂, hab₂⟩ := hok hle ht hab
    exact .ok hle₂ ht₂ hab₂
  | error hle ht =>
    obtain ⟨π₂, hle₂, ht₂⟩ := herror hle ht
    exact .error hle₂ ht₂
  | left hne he => exact .left (hd hne) he
  | right hne he => exact .right (hd hne) he

lemma Alike.nested {body body' : Eval α} (site : Expr) (h : Alike (d + 1) (d' + 1) π body body') :
    Alike d d' π (nested site body) (nested site body') := by
  intro m m' ht
  rw [nested_run, nested_run]
  have hlimit : Interrupt.AtLimit (.failed (site.error (.recursionLimit maxDepth))) := ⟨site, rfl⟩
  by_cases hm : m.depth.val < maxDepth <;> by_cases hm' : m'.depth.val < maxDepth
  · rw [dif_pos hm, dif_pos hm']
    refine (h _ _ (ht.deeper hm hm')).onExit (by omega) ?_ ?_
    · exact fun hle hn hab => ⟨_, hle, hn.shallowerLeft.shallowerRight, hab⟩
    · exact fun hle hn => ⟨_, hle, hn.shallowerLeft.shallowerRight⟩
  · rw [dif_neg hm']
    refine .right ?_ hlimit
    rw [← ht.depth, ← ht.depth']
    omega
  · rw [dif_neg hm]
    refine .left ?_ hlimit
    rw [← ht.depth, ← ht.depth']
    omega
  · rw [dif_neg hm, dif_neg hm']
    exact .error le_rfl ht

lemma Alike.inScope {s t : ScopeId} {body body' : ScopeId → Eval α} (hs : π.Scopes s t)
    (h : ∀ {j k}, Alike d d' (π.enter j k) (body j) (body' k)) :
    Alike d d' π (inScope s body) (inScope t body') := by
  intro m m' ht
  have hmark : (m.env.enter s).1.2 = π.left.size := by rw [(m.env.stack_enter s).2, ht.stack]
  have hmark' : (m'.env.enter t).1.2 = π.right.size := by rw [(m'.env.stack_enter t).2, ht.stack']
  rw [inScope_run, inScope_run, hmark, hmark']
  refine (h _ _ (ht.enter hs)).onExit id ?_ ?_
  · exact fun hle hn hab => ⟨_, Pairing.le_leave hle, hn.leave hle, hab⟩
  · exact fun hle hn => ⟨_, Pairing.le_leave hle, hn.leave hle⟩

lemma Alike.resolving {body body' : Eval MapRef} (site : Expr) (address : String)
    (h : Alike d d' π body body') :
    Alike d d' π (resolving site address body) (resolving site address body') := by
  intro m m' ht
  rw [resolving_run, resolving_run, ← ht.imports]
  split
  · exact .error le_rfl ht
  · refine (h _ _ (ht.withImports _)).onExit id ?_ ?_
    · intro π₁ r r' n n' hle hn hr
      obtain rfl : r = r' := hr
      refine ⟨π₁, hle, ?_, rfl⟩
      rw [← hn.imports]
      exact hn.withImports _
    · intro π₁ n n' hle hn
      refine ⟨π₁, hle, ?_⟩
      rw [← hn.imports]
      exact hn.withImports _

lemma alike_budget : Alike d d' π budget budget :=
  .read fun ht => .ret (congrArg Settings.budget ht.settings)

lemma alike_items (r : ListRef) : Alike d d' π (items r) (items r) := .read fun ht => .ret (ht.heap.items r)

lemma alike_entries (r : MapRef) : Alike d d' π (entries r) (entries r) :=
  .read fun ht => .ret (ht.heap.entries r)

lemma alike_contents (c : Container) : Alike d d' π (contents c) (contents c) :=
  .read fun ht => .ret (ht.heap.contents c)

lemma Alike.onHeap {f f' : Heap → α × Heap}
    (h : ∀ {h h'}, Heap.Like π.lasting h h' →
      Like π.lasting (f h).1 (f' h').1 ∧ Heap.Like π.lasting (f h).2 (f' h').2) :
    Alike d d' π (modifyGet fun m => m.onHeap f) (modifyGet fun m => m.onHeap f') :=
  .change fun ht => ⟨ht.withHeap (h ht.heap).2, (h ht.heap).1⟩

section Heap

variable {v w : Value} {xs ys : List Value} {es fs : List (String × Value)}

lemma alike_setItems (r : ListRef) (hxs : Like π.lasting xs ys) :
    Alike d d' π (setItems r xs) (setItems r ys) :=
  .onHeap fun hh => ⟨rfl, hh.setList r hxs⟩

lemma alike_setEntries (r : MapRef) (hes : Like π.lasting es fs) :
    Alike d d' π (setEntries r es) (setEntries r fs) :=
  .onHeap fun hh => ⟨rfl, hh.setMap r hes⟩

lemma alike_newList (hxs : Like π.lasting xs ys) : Alike d d' π (newList xs) (newList ys) := by
  exact .onHeap fun hh => ⟨Value.like_list (hh.fst_newList xs ys), hh.newList hxs⟩

lemma alike_newMap (hes : Like π.lasting es fs) : Alike d d' π (newMap es) (newMap fs) := by
  exact .onHeap fun hh => ⟨Value.like_map (hh.fst_newMap es fs), hh.newMap hes⟩

lemma alike_toListValue (hv : Like π.lasting v w) : Alike d d' π (toListValue v) (toListValue w) := by
  exact .onHeap fun hh => ⟨Value.like_list (hh.toList hv).1, (hh.toList hv).2⟩

lemma alike_toMapValue (hv : Like π.lasting v w) : Alike d d' π (toMapValue v) (toMapValue w) := by
  exact .onHeap fun hh => ⟨Value.like_map (hh.toMap hv).1, (hh.toMap hv).2⟩

lemma alike_same {a b : Value} (hab : Like π.lasting a b) (hv : Like π.lasting v w) :
    Alike d d' π (same a v) (same b w) :=
  .read fun ht => .ret (ht.heap.same_eq hab hv)

variable {s t : ScopeId} (hs : π.Scopes s t)

include hs

lemma alike_valueOf (name : String) : Alike d d' π (valueOf s name) (valueOf t name) :=
  .read fun ht => .ret (like_getD (ht.lookup hs name) Value.like_undefined)

lemma alike_define (name : String) (hv : Like π.lasting v w) :
    Alike d d' π (define s name v) (define t name w) :=
  .change fun ht => ⟨ht.withEnv (Environment.arena_define _ _ _ _) (Environment.arena_define _ _ _ _)
    (ht.define hs name hv), rfl⟩

lemma alike_setVariable (name : String) (hv : Like π.lasting v w) :
    Alike d d' π (setVariable s name v) (setVariable t name w) :=
  .change fun ht => ⟨ht.withEnv (Environment.arena_set _ _ _ _) (Environment.arena_set _ _ _ _)
    (ht.set hs name hv), rfl⟩

omit hs in
lemma bindings_run {m : Machine} {r : MapRef} (hr : m.env.own s = some r) : bindings s m = .ok r m := by
  obtain ⟨scope, hscope, rfl⟩ := Option.map_eq_some_iff.mp hr
  change EStateM.Result.ok (m.env.bindings s).1 { m with env := (m.env.bindings s).2 } = _
  rw [Environment.bindings, hscope]

lemma alike_bindings : Alike d d' π (bindings s) (bindings t) := by
  intro m m' ht
  obtain ⟨r, hr⟩ := ht.exists_own hs
  rw [bindings_run hr, bindings_run ((ht.own_eq hs).symm.trans hr)]
  exact .ok le_rfl ht rfl

lemma alike_newFunction (f : Lambda) (hv : Like π.lasting v w) :
    Alike d d' π (newFunction s f v) (newFunction t f w) := by
  intro m m' ht
  have hid : newFunction t f w m' = .ok (.function m.identity t f w)
      { m' with env := (m'.env.capture t).2, identity := m'.identity + 1 } := by
    rw [ht.identity]
    rfl
  rw [hid]
  refine .ok (π.le_keep s t) (ht.capture hs) (Value.Like.function (.inr ⟨rfl, rfl⟩) ?_)
  exact Paired.mono (π.le_keep s t).lasting hv

lemma alike_wrap (hv : Like π.lasting v w) : Alike d d' π (wrap s v) (wrap t w) := by
  refine .read fun ht => ?_
  rw [← ht.heap.expr?_eq hv, ← Value.Like.container?_eq hv]
  split
  · exact alike_newFunction hs _ Value.like_undefined
  · exact .unfinished _

lemma alike_scopeVariables (which : ScopeSelector) :
    Alike d d' π (scopeVariables s which) (scopeVariables t which) := by
  intro m m' ht
  have hmap {j k : ScopeId} (hj : m.env.own j ≠ none) (hown : m.env.own j = m'.env.own k) :
      EndAlike d d' π ((do return Value.map (← bindings j) : Eval Value) m)
        ((do return Value.map (← bindings k) : Eval Value) m') := by
    obtain ⟨r, hr⟩ := Option.ne_none_iff_exists'.mp hj
    rw [bind_run (bindings_run hr), bind_run (bindings_run (hown.symm.trans hr))]
    exact .ok le_rfl ht (Value.Like.map r)
  cases which with
  | inner =>
    obtain ⟨r, hr⟩ := ht.exists_own hs
    exact hmap (by simp [hr]) (ht.own_eq hs)
  | outer =>
    have habove := ht.own_parent_eq hs
    rw [scopeVariables, scopeVariables, read_run, read_run]
    dsimp only
    cases hp : m.env.arena.parent s <;> cases hp' : m'.env.arena.parent t <;> rw [hp, hp'] at habove
    · exact alike_newMap like_nil m m' ht
    · cases habove
    · cases habove
    · exact hmap (ht.tended.own_parent_ne_none hp _) (Option.some.inj habove)
  | outermost => exact hmap (ht.tended.own_root_ne_none (ht.occupied hs).1 _) (ht.own_root_eq hs)

end Heap

lemma alike_recordThrow {v w : Value} {xs ys : List Value} (hv : Like π.lasting v w)
    (hxs : Like π.lasting xs ys) : Alike d d' π (recordThrow v xs) (recordThrow w ys) :=
  .change fun ht => ⟨ht.withLog (fun h => (ht.log h).throw ⟨hv, hxs⟩) (by simp [ht.inFlight]), rfl⟩

lemma alike_throwDie {v w : Value} (hv : Like π.lasting v w) :
    Alike d d' π (throwDie v) (throwDie w) := by
  intro m m' ht
  rw [throwDie_run, throwDie_run, ← ht.settings, ← ht.generator]
  obtain ⟨hthrow, hheap, hgenerator⟩ := Dice.like_throw ht.heap hv m.settings.budget m.generator
  exact .ok le_rfl { ht with heap := hheap, generator := hgenerator, settings := rfl } hthrow

lemma alike_shuffle {xs ys : List Value} (hxs : Like π.lasting xs ys) :
    Alike d d' π (shuffle xs) (shuffle ys) := by
  intro m m' ht
  rw [shuffle_run, shuffle_run, ← ht.settings, ← ht.generator]
  have hshuffled := Generator.like_shuffle hxs m.settings.budget m.generator
  revert hshuffled
  generalize m.generator.shuffle m.settings.budget xs = r
  generalize m.generator.shuffle m.settings.budget ys = r'
  intro hshuffled
  cases hshuffled with
  | none => exact .error le_rfl ht
  | @some x y hxy =>
    dsimp only
    rw [← hxy.2]
    exact .ok le_rfl { ht with generator := rfl, settings := rfl } hxy.1

lemma Alike.reporting {body body' : Eval Outcome} (site : Expr) (mode : OutputMode) (name : String)
    (e : Expr) (kind : Option Kind) (h : ∀ {π'}, π ≤ π' → Alike d d' π' body body') :
    Alike d d' π (reporting site mode name e kind body) (reporting site mode name e kind body') := by
  have hstart : Alike d d' π (start site mode) (start site mode) := by
    intro m m' ht
    rw [start_run, start_run, ← ht.inFlight]
    split
    · exact .error le_rfl ht
    · refine .ok le_rfl (ht.withLog (fun h => ?_) rfl) rfl
      exact ⟨(ht.log h).records, (ht.log h).dice, .some ⟨rfl, like_empty⟩⟩
  have habandon {π' : Pairing} (hle : π ≤ π') : Alike d d' π' (orAbandon body) (orAbandon body') := by
    intro m m' ht
    rw [orAbandon_run, orAbandon_run]
    refine (h hle m m' ht).onExit id ?_ ?_
    · exact fun hle hn hab => ⟨_, hle, hn, hab⟩
    · exact fun hle hn => ⟨_, hle, hn.withLog (fun h => (hn.log h).abandon) rfl⟩
  refine hstart.bind fun hle _ _ _ => (habandon hle).bind fun _ _ _ ho => ?_
  exact .change fun ht => ⟨ht.withLog (fun h => (ht.log h).finish name e kind ho) (by simp), rfl⟩

end Eval

end DiceLang

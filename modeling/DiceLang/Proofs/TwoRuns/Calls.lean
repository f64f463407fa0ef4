import DiceLang.Proofs.TwoRuns.Steps

/-! Calls, conversions, imports, loops and outputs run alike if nested evaluations do. -/

namespace DiceLang.Eval

variable {α β : Type} [Paired α] [Paired β] {d d' : Nat} {π : Pairing}

lemma Alike.foldlM {f f' : β → α → Eval β} {xs ys : List α} {b b' : β}
    (hf : ∀ {π'}, π ≤ π' → ∀ {b b' x y}, Like π'.lasting b b' → Like π'.lasting x y →
      Alike d d' π' (f b x) (f' b' y))
    (hxs : Like π.lasting xs ys) (hb : Like π.lasting b b') :
    Alike d d' π (xs.foldlM f b) (ys.foldlM f' b') := by
  induction xs generalizing π ys b b' with
  | nil =>
    cases hxs
    exact .ret hb
  | cons x xs ih =>
    cases hxs with
    | cons hx hrest =>
      rw [List.foldlM_cons, List.foldlM_cons]
      exact (hf le_rfl hb hx).bind fun hle _ _ hb' =>
        ih (fun hle' => hf (hle.trans hle')) (hle.like hrest) hb'

lemma Alike.mapM {f f' : α → Eval β} {xs ys : List α}
    (hf : ∀ {π'}, π ≤ π' → ∀ {x y}, Like π'.lasting x y → Alike d d' π' (f x) (f' y))
    (hxs : Like π.lasting xs ys) : Alike d d' π (xs.mapM f) (ys.mapM f') := by
  induction xs generalizing π ys with
  | nil =>
    cases hxs
    exact .ret like_nil
  | cons x xs ih =>
    cases hxs with
    | cons hx hrest =>
      rw [List.mapM_cons, List.mapM_cons]
      refine (hf le_rfl hx).bind fun hle _ _ hb => ?_
      refine (ih (fun hle' => hf (hle.trans hle')) (hle.like hrest)).bind fun hle' _ _ hbs => ?_
      exact .ret (like_cons (hle'.like hb) hbs)

lemma Alike.forM {f f' : α → Eval PUnit} {xs ys : List α}
    (hf : ∀ {π'}, π ≤ π' → ∀ {x y}, Like π'.lasting x y → Alike d d' π' (f x) (f' y))
    (hxs : Like π.lasting xs ys) : Alike d d' π (xs.forM f) (ys.forM f') := by
  induction xs generalizing π ys with
  | nil =>
    cases hxs
    exact .ret rfl
  | cons x xs ih =>
    cases hxs with
    | cons hx hrest =>
      exact (hf le_rfl hx).bind fun hle _ _ _ => ih (fun hle' => hf (hle.trans hle')) (hle.like hrest)

def AsksAlike (d d' : Nat) (again again' : Again) : Prop :=
  ∀ {π : Pairing} {s t : ScopeId}, π.Scopes s t → ∀ e target,
    Alike d d' π (again e s target) (again' e t target)

variable {again again' : Again} {s t : ScopeId} {v w : Value}

lemma alike_defineAll (hs : π.Scopes s t) {xs ys : List (String × Value)} (hxs : Like π.lasting xs ys) :
    Alike d d' π (defineAll s xs) (defineAll t ys) := by
  induction xs generalizing π ys with
  | nil =>
    cases hxs
    exact .ret rfl
  | cons x xs ih =>
    obtain ⟨name, v⟩ := x
    cases hxs with
    | @cons _ y _ _ hx hrest =>
      obtain ⟨name', w⟩ := y
      obtain ⟨rfl, hv⟩ : name = name' ∧ Like π.lasting v w := hx
      exact (alike_define hs name hv).bind fun hle _ _ _ => ih (hs.mono hle) (hle.like hrest)

section Calls

variable (ha : AsksAlike d d' again again')

include ha

lemma alike_argumentValues (hs : π.Scopes s t) {b b' : Binding} (hb : Binding.Like π.lasting b b') :
    Alike d d' π (argumentValues again s b) (argumentValues again' t b') := by
  induction b generalizing π b' with
  | nil =>
    cases hb
    exact .ret like_nil
  | cons x rest ih =>
    obtain ⟨⟨name, fallback⟩, bound⟩ := x
    cases hb with
    | @cons _ y _ rest' hx hrest =>
      obtain ⟨p, bound'⟩ := y
      obtain ⟨rfl, hbound⟩ : (name, fallback) = p ∧ Like π.lasting bound bound' := hx
      have hcons {π' : Pairing} (hle : π ≤ π') {v w : Value} (hv : Like π'.lasting v w) :
          Alike d d' π' (do return (name, v) :: (← argumentValues again s rest))
            (do return (name, w) :: (← argumentValues again' t rest')) :=
        (ih (hs.mono hle) (Binding.Like.mono hle.lasting hrest)).bind fun hle' _ _ hvs =>
          .ret (like_cons ⟨rfl, hle'.like hv⟩ hvs)
      cases hbound with
      | some hv => exact Alike.bind (.ret hv) hcons
      | none =>
        cases fallback with
        | some e => exact (ha hs e none).bind hcons
        | none => exact Alike.bind (.ret Value.like_undefined) hcons

lemma alike_call (site : Expr) (hs : π.Scopes s t) (f : Lambda) (hv : Like π.lasting v w)
    {xs ys : List Value} (hxs : Like π.lasting xs ys) {es fs : List (String × Value)}
    (hes : Like π.lasting es fs) (target : Option Kind) :
    Alike d d' π (call again site s f v xs es target) (call again' site t f w ys fs target) := by
  have hbind := like_bind f.params hxs hes
  unfold call
  revert hbind
  generalize Eval.bind f.params xs es = r
  generalize Eval.bind f.params ys fs = r'
  intro hbind
  cases hbind with
  | error fault => exact .fail site fault
  | ok hb =>
    refine (alike_argumentValues ha hs hb).bind fun {π₁} hle _ _ hvs => ?_
    refine .inScope (hs.mono hle) fun {j k} => ?_
    have hscopes := π₁.scopes_enter j k
    refine (alike_defineAll hscopes hvs).bind fun hle₁ _ _ _ => ?_
    refine (alike_define (hscopes.mono hle₁) "this" (hle₁.like (hle.like hv))).bind fun hle₂ _ _ _ => ?_
    exact ha ((hscopes.mono hle₁).mono hle₂) f.body target

lemma alike_callFor (k : Kind) (hv : Like π.lasting v w) :
    Alike d d' π (callFor again k v) (callFor again' k w) := by
  cases hv with
  | scalar v => exact .ret (Value.Like.scalar v)
  | list r => exact .ret (Value.Like.list r)
  | map r => exact .ret (Value.Like.map r)
  | @function _ s t f _ _ hs ho => exact alike_call ha f.body (.inl hs) f ho like_nil like_nil (some k)

omit ha in
lemma alike_within {f g : Folding Eval β} (hc : ∀ {π} c, Alike d d' π (f.contents c) (g.contents c))
    (hl : ∀ {π : Pairing} {v w}, Like π.lasting v w → Alike d d' π (f.leaf v) (g.leaf w))
    (hz : ∀ {π : Pairing}, Like π.lasting f.zero g.zero)
    (hadd : ∀ {π : Pairing} {a b x y}, Like π.lasting a b → Like π.lasting x y →
      Like π.lasting (f.add a x) (g.add b y))
    (ht : ∀ {π}, Alike d d' π f.tooDeep g.tooDeep) (depth : Nat) (path : List Container)
    (hv : Like π.lasting v w) : Alike d d' π (f.within depth path v) (g.within depth path w) := by
  induction depth generalizing π path v w with
  | zero => exact ht
  | succ depth ih =>
    unfold Folding.within
    rw [← Value.Like.container?_eq hv]
    split
    · exact hl hv
    next c _ =>
      split
      · exact .ret hz
      · refine (hc c).bind fun _ _ _ hxs => .foldlM (fun _ _ _ _ _ hacc hx => ?_) hxs hz
        exact (ih (c :: path) hx).bind fun hle _ _ hy => .ret (hadd (hle.like hacc) hy)

lemma alike_textFolding (depth : Nat) (hv : Like π.lasting v w) :
    Alike d d' π ((textFolding again).within depth [] v) ((textFolding again').within depth [] w) := by
  refine alike_within (f := textFolding again) (g := textFolding again') alike_contents
    (fun {π v w} hv => ?_) rfl (fun hab hxy => congrArg₂ (· ++ ·) hab hxy) (.unfinished _) depth [] hv
  have hcall := alike_callFor ha .string hv
  cases hv with
  | scalar v => exact .ret rfl
  | list | map | function =>
    refine hcall.bind fun _ _ _ hx => ?_
    cases hx with
    | scalar v => cases v <;> exact .ret rfl
    | list | map | function => exact .ret rfl

lemma alike_numberFolding (depth : Nat) (hv : Like π.lasting v w) :
    Alike d d' π ((numberFolding again).within depth [] v)
      ((numberFolding again').within depth [] w) := by
  refine alike_within (f := numberFolding again) (g := numberFolding again') alike_contents
    (fun {π v w} hv => ?_) rfl (fun hab hxy => congrArg₂ (· + ·) hab hxy) (.unfinished _) depth [] hv
  have hcall := alike_callFor ha .number hv
  cases hv with
  | scalar v => exact .ret rfl
  | list | map | function =>
    refine hcall.bind fun _ _ _ hx => ?_
    cases hx with
    | scalar v => cases v <;> exact .ret rfl
    | list | map | function => exact .ret rfl

lemma alike_convertTo_of_ne (s t : ScopeId) {k : Kind} (hk : k ≠ .function) (hv : Like π.lasting v w) :
    Alike d d' π (convertTo again s k v) (convertTo again' t k w) := by
  unfold convertTo
  rw [← Value.Like.kind_eq hv]
  split
  · exact .ret hv
  · split
    · exact .ret Value.like_undefined
    · exact alike_callFor ha _ hv
    · refine alike_budget.bind fun hle n n' hn => ?_
      obtain rfl : n = n' := hn
      exact (alike_textFolding ha n (hle.like hv)).bind fun _ _ _ hx => .ret (hx ▸ Value.Like.scalar _)
    · exact .read fun ht => .ret (ht.heap.isTrue_eq hv ▸ Value.Like.scalar _)
    · refine alike_budget.bind fun hle n n' hn => ?_
      obtain rfl : n = n' := hn
      exact (alike_numberFolding ha n (hle.like hv)).bind fun _ _ _ hx => .ret (hx ▸ Value.Like.scalar _)
    · exact alike_toListValue hv
    · exact alike_toMapValue hv
    · exact absurd rfl hk

lemma alike_convertTo (hs : π.Scopes s t) (k : Kind) (hv : Like π.lasting v w) :
    Alike d d' π (convertTo again s k v) (convertTo again' t k w) := by
  by_cases hk : k = .function
  · subst hk
    cases hv with
    | scalar v => cases v <;> exact alike_wrap hs (Value.Like.scalar _)
    | list r => exact alike_wrap hs (Value.Like.list r)
    | map r => exact alike_wrap hs (Value.Like.map r)
    | function hst ho => exact .ret (Value.Like.function hst ho)
  · exact alike_convertTo_of_ne ha s t hk hv

lemma alike_convert (hs : π.Scopes s t) (target : Option Kind) (hv : Like π.lasting v w) :
    Alike d d' π (convert again s target v) (convert again' t target w) := by
  cases target with
  | none => exact .ret hv
  | some k => exact alike_convertTo ha hs k hv

lemma alike_number (hs : π.Scopes s t) (e : Expr) :
    Alike d d' π (number again s e) (number again' t e) := by
  refine (ha hs e _).bind fun _ _ _ hx => ?_
  cases hx with
  | scalar v => cases v <;> exact .ret rfl
  | list | map | function => exact .ret rfl

lemma alike_boolean (hs : π.Scopes s t) (e : Expr) :
    Alike d d' π (boolean again s e) (boolean again' t e) := by
  refine (ha hs e _).bind fun _ _ _ hx => ?_
  cases hx with
  | scalar v => cases v <;> exact .ret rfl
  | list | map | function => exact .ret rfl

lemma alike_string (hs : π.Scopes s t) (e : Expr) :
    Alike d d' π (string again s e) (string again' t e) := by
  refine (ha hs e _).bind fun _ _ _ hx => ?_
  cases hx with
  | scalar v => cases v <;> exact .ret rfl
  | list | map | function => exact .ret rfl

lemma alike_list (hs : π.Scopes s t) (e : Expr) : Alike d d' π (list again s e) (list again' t e) := by
  refine (ha hs e _).bind fun {π₁} _ _ _ hx => ?_
  have hnew : Alike d d' π₁ (modifyGet fun m : Machine => m.onHeap fun h => h.newList [])
      (modifyGet fun m : Machine => m.onHeap fun h => h.newList []) :=
    .onHeap fun hh => ⟨hh.fst_newList [] [], hh.newList like_nil⟩
  cases hx with
  | list r => exact .ret rfl
  | scalar | map | function => exact hnew

lemma alike_elements (hs : π.Scopes s t) (hv : Like π.lasting v w) :
    Alike d d' π (elements again s v) (elements again' t w) := by
  refine (alike_convertTo ha hs .list hv).bind fun _ _ _ hx => ?_
  cases hx with
  | list r => exact alike_items r
  | scalar | map | function => exact .ret like_nil

lemma alike_namedElements (hs : π.Scopes s t) (hv : Like π.lasting v w) :
    Alike d d' π (namedElements again s v) (namedElements again' t w) := by
  refine (alike_convertTo ha hs .map hv).bind fun _ _ _ hx => ?_
  cases hx with
  | map r => exact alike_entries r
  | scalar | list | function => exact .ret like_nil

lemma alike_evaluateAll (hs : π.Scopes s t) (es : List Expr) :
    Alike d d' π (evaluateAll again s es) (evaluateAll again' t es) := by
  induction es generalizing π with
  | nil => exact .ret rfl
  | cons e es ih => exact (ha hs e none).bind fun hle _ _ _ => ih (hs.mono hle)

omit ha in
lemma alike_pushRoot : Alike d d' π (modifyGet fun m : Machine => m.onEnv Environment.pushRoot)
    (modifyGet fun m : Machine => m.onEnv Environment.pushRoot) :=
  fun m m' ht => .ok (π.le_keep m.env.pushRoot.1 m'.env.pushRoot.1) ht.pushRoot (.inr ⟨rfl, rfl⟩)

lemma alike_load (site : Expr) (address : String) :
    Alike d d' π (load again site address) (load again' site address) := by
  refine .read fun ht => ?_
  rw [← ht.settings]
  split
  · exact .fail site _
  · split
    · exact .fail site _
    next program _ =>
      refine alike_pushRoot.bind fun _ j k hjk => ?_
      refine (alike_evaluateAll ha (.inl hjk) program).bind fun hle _ _ _ => ?_
      exact alike_bindings (.inl (hle.like hjk))

lemma alike_resolved (site : Expr) (address : String) :
    Alike d d' π (resolved again site address) (resolved again' site address) := by
  refine .read fun ht => ?_
  rw [← ht.imports]
  split
  · exact .ret rfl
  · exact .resolving site address (alike_load ha site address)

omit ha in
lemma alike_destination (hs : π.Scopes s t) (space : Option String) :
    Alike d d' π (destination s space) (destination t space) := by
  cases space with
  | none => exact alike_bindings hs
  | some name =>
    have hnew : Alike d d' π
        (do let r ← modifyGet fun m : Machine => m.onHeap fun h => h.newMap []
            setVariable s name (.map r)
            return r)
        (do let r ← modifyGet fun m : Machine => m.onHeap fun h => h.newMap []
            setVariable t name (.map r)
            return r) := by
      refine Alike.bind (.onHeap fun hh => ⟨hh.fst_newMap [] [], hh.newMap like_nil⟩) fun hle r r' hr => ?_
      refine (alike_setVariable (hs.mono hle) name (Value.like_map hr)).bind fun _ _ _ _ => .ret hr
    refine .read fun ht => ?_
    have hfound := ht.lookup hs name
    revert hfound
    generalize Environment.lookup _ s name = o
    generalize Environment.lookup _ t name = o'
    intro hfound
    cases hfound with
    | none => exact hnew
    | some hv =>
      cases hv with
      | map r => exact .ret rfl
      | scalar | list | function => exact hnew

lemma alike_importing (site : Expr) (hs : π.Scopes s t) (space : Option String) (address : Expr) :
    Alike d d' π (importing again site s space address) (importing again' site t space address) := by
  refine (alike_string ha hs address).bind fun hle text text' htext => ?_
  obtain rfl : text = text' := htext
  refine (alike_resolved ha site text).bind fun hle₁ source source' hsource => ?_
  obtain rfl : source = source' := hsource
  refine (alike_destination ((hs.mono hle).mono hle₁) space).bind fun _ target target' htarget => ?_
  obtain rfl : target = target' := htarget
  refine (alike_entries source).bind fun _ _ _ hadded => (alike_entries target).bind fun hle₂ _ _ hold => ?_
  exact alike_setEntries target (Entries.like_putAll hold (hle₂.like hadded))

lemma alike_holds (hs : π.Scopes s t) (condition : Option Expr) :
    Alike d d' π (holds again s condition) (holds again' t condition) := by
  cases condition with
  | none => exact .ret rfl
  | some e => exact alike_boolean ha hs e

lemma alike_step (loop : ForEach) (hs : π.Scopes s t) {i j : Value} (hi : Like π.lasting i j)
    (hv : Like π.lasting v w) :
    Alike d d' π (step again loop s i v) (step again' loop t j w) := by
  have hbody {π' : Pairing} (hle : π ≤ π') : Alike d d' π'
      (do if ← holds again s loop.condition then return some (← again loop.out s none)
          return none)
      (do if ← holds again' t loop.condition then return some (← again' loop.out t none)
          return none) := by
    refine (alike_holds ha (hs.mono hle) loop.condition).bind fun hle₁ b b' hb => ?_
    obtain rfl : b = b' := hb
    cases b with
    | true => exact (ha ((hs.mono hle).mono hle₁) loop.out none).bind fun _ _ _ hx => .ret (.some hx)
    | false => exact .ret .none
  refine (alike_define hs loop.item hv).bind fun hle _ _ _ => ?_
  cases loop.index with
  | none => exact hbody hle
  | some name =>
    exact (alike_define (hs.mono hle) name (hle.like hi)).bind fun hle₁ _ _ _ => hbody (hle.trans hle₁)

lemma alike_overItems (loop : ForEach) (hs : π.Scopes s t) (i : Nat) {xs ys : List Value}
    (hxs : Like π.lasting xs ys) {as bs : Array Value} (has : Like π.lasting as bs) :
    Alike d d' π (overItems again loop s i xs as) (overItems again' loop t i ys bs) := by
  induction xs generalizing π i ys as bs with
  | nil =>
    cases hxs
    exact .ret has
  | cons x xs ih =>
    cases hxs with
    | cons hx hrest =>
      refine (alike_step ha loop hs (Value.Like.scalar _) hx).bind fun hle o o' ho => ?_
      exact ih (hs.mono hle) _ (hle.like hrest) (like_appendArray (hle.like has) (like_toArray ho))

lemma alike_overEntries (loop : ForEach) (hs : π.Scopes s t) {xs ys : List (String × Value)}
    (hxs : Like π.lasting xs ys) {as bs : Array (String × Value)} (has : Like π.lasting as bs) :
    Alike d d' π (overEntries again loop s xs as) (overEntries again' loop t ys bs) := by
  induction xs generalizing π ys as bs with
  | nil =>
    cases hxs
    exact .ret has
  | cons x xs ih =>
    obtain ⟨key, v⟩ := x
    cases hxs with
    | @cons _ y _ _ hx hrest =>
      obtain ⟨key', w⟩ := y
      obtain ⟨rfl, hv⟩ : key = key' ∧ Like π.lasting v w := hx
      refine (alike_step ha loop hs (Value.Like.scalar _) hv).bind fun hle o o' ho => ?_
      refine ih (hs.mono hle) (hle.like hrest) (like_appendArray (hle.like has) ?_)
      exact like_mapArray (fun hx => ⟨rfl, hx⟩) (like_toArray ho)

lemma alike_forEach (site container : Expr) (hs : π.Scopes s t) (loop : ForEach) :
    Alike d d' π (forEach again site container s loop) (forEach again' site container t loop) := by
  have hbody {π' : Pairing} (hle : π ≤ π') {v w : Value} (hv : Like π'.lasting v w) : Alike d d' π'
      (overContainer again site s loop v) (overContainer again' site t loop w) := by
    cases hv with
    | scalar | function => exact .fail site _
    | list r =>
      refine (alike_items r).bind fun {π₁} hle₁ _ _ hall => ?_
      refine Alike.bind (.inScope ((hs.mono hle).mono hle₁) fun {j k} => ?_) fun _ _ _ hresults =>
        alike_newList hresults
      exact alike_overItems ha loop (π₁.scopes_enter j k) 0 hall like_empty
    | map r =>
      refine (alike_entries r).bind fun {π₁} hle₁ _ _ hall => ?_
      refine Alike.bind (.inScope ((hs.mono hle).mono hle₁) fun {j k} => ?_) fun _ _ _ hresults =>
        alike_newMap hresults
      exact alike_overEntries ha loop (π₁.scopes_enter j k) hall like_empty
  refine (ha hs container none).bind fun hle v w hv => ?_
  dsimp only
  rw [← Value.Like.kind_eq hv]
  split
  · exact (alike_convertTo ha (hs.mono hle) .list hv).bind fun hle₁ _ _ hx => hbody (hle.trans hle₁) hx
  · exact Alike.bind (.ret hv) fun hle₁ _ _ hx => hbody (hle.trans hle₁) hx

lemma alike_rounds (form : RepeatForm) (body condition : Expr) (limit : Option Int64)
    (hs : π.Scopes s t) (fuel : Nat) {as bs : Array Value} (has : Like π.lasting as bs) :
    Alike d d' π (rounds again form body condition limit s fuel as)
      (rounds again' form body condition limit t fuel bs) := by
  have hsize {π : Pairing} {as bs : Array Value} (has : Like π.lasting as bs) : as.size = bs.size := by
    rw [← Array.length_toList, ← Array.length_toList]
    exact List.Forall₂.length_eq has
  induction fuel generalizing π as bs with
  | zero => exact .unfinished _
  | succ fuel ih =>
    -- The test stands before the round or behind it.
    have hbehind (form : RepeatForm) {π' : Pairing} (hle : π ≤ π') {v w : Value}
        (hv : Like π'.lasting v w)
        (ih : ∀ {π' : Pairing}, π ≤ π' → ∀ {as bs}, Like π'.lasting as bs → Alike d d' π'
          (rounds again form body condition limit s fuel as)
          (rounds again' form body condition limit t fuel bs)) : Alike d d' π'
        (do if reached form limit (as.push v).size then return as.push v
            if ← boolean again s condition then
              rounds again form body condition limit s fuel (as.push v)
            else return as.push v)
        (do if reached form limit (bs.push w).size then return bs.push w
            if ← boolean again' t condition then
              rounds again' form body condition limit t fuel (bs.push w)
            else return bs.push w) := by
      have hpush := like_push (hle.like has) hv
      rw [← hsize hpush]
      split
      · exact .ret hpush
      · refine (alike_boolean ha (hs.mono hle) condition).bind fun hle₁ b b' hb => ?_
        obtain rfl : b = b' := hb
        split
        · exact ih (hle.trans hle₁) (hle₁.like hpush)
        · exact .ret (hle₁.like hpush)
    cases form with
    | before =>
      unfold rounds
      dsimp only
      rw [← hsize has]
      split
      · exact .ret has
      · refine (alike_boolean ha hs condition).bind fun hle b b' hb => ?_
        obtain rfl : b = b' := hb
        split
        · refine (ha (hs.mono hle) body none).bind fun hle₁ _ _ hx => ?_
          exact ih ((hs.mono hle).mono hle₁) (like_push (hle₁.like (hle.like has)) hx)
        · exact .ret (hle.like has)
    | after =>
      exact (ha hs body none).bind fun hle _ _ hx =>
        hbehind .after hle hx fun hle' _ _ has => ih (hs.mono hle') has
    | once =>
      exact (ha hs body none).bind fun hle _ _ hx =>
        hbehind .once hle hx fun hle' _ _ has => ih (hs.mono hle') has

lemma alike_repeating (hs : π.Scopes s t) (form : RepeatForm) (body condition : Expr)
    (limit : Option Expr) :
    Alike d d' π (repeating again s form body condition limit)
      (repeating again' t form body condition limit) := by
  have hloop {π' : Pairing} (hle : π ≤ π') (limit : Option Int64) : Alike d d' π'
      (do let bound := roundBound (← budget) limit
          let results ← inScope s fun inner => rounds again form body condition limit inner bound #[]
          newList results.toList)
      (do let bound := roundBound (← budget) limit
          let results ← inScope t fun inner => rounds again' form body condition limit inner bound #[]
          newList results.toList) := by
    refine alike_budget.bind fun {π₁} hle₁ n n' hn => ?_
    obtain rfl : n = n' := hn
    refine Alike.bind (.inScope ((hs.mono hle).mono hle₁) fun {j k} => ?_) fun _ _ _ hresults =>
      alike_newList hresults
    exact alike_rounds ha form body condition limit (π₁.scopes_enter j k) _ like_empty
  cases limit with
  | none => exact hloop le_rfl none
  | some e =>
    refine (alike_number ha hs e).bind fun hle n n' hn => ?_
    obtain rfl : n = n' := hn
    exact hloop hle (some n)

lemma alike_sample (hs : π.Scopes s t) (e : Expr) (kind : Option Kind) (n : Nat) {x y : Distribution}
    (hx : Like π.lasting x y) :
    Alike d d' π (sample again s e kind n x) (sample again' t e kind n y) := by
  induction n generalizing π x y with
  | zero => exact .ret hx
  | succ n ih =>
    refine (ha hs e kind).bind fun hle v w hv => ?_
    have hcount : Alike d d' _ (count v x) (count w y) :=
      .read fun ht => .ret (Distribution.like_incr ht.heap (hle.like hx) hv)
    exact hcount.bind fun hle₁ _ _ hy => ih ((hs.mono hle).mono hle₁) hy

lemma alike_observe (hs : π.Scopes s t) (mode : OutputMode) (e : Expr) (kind : Option Kind) :
    Alike d d' π (observe again s mode e kind) (observe again' t mode e kind) := by
  cases mode with
  | roll => exact (ha hs e kind).bind fun _ _ _ hx => .ret (.value hx)
  | sample =>
    refine .read fun ht => ?_
    rw [← ht.settings]
    refine (alike_sample ha hs e kind _ ?_).bind fun _ _ _ hx => .ret (.distribution hx)
    exact ⟨like_nil, rfl, rfl⟩

omit ha in
lemma alike_label (hs : π.Scopes s t) (e : Expr) : Alike d d' π (label s e) (label t e) := by
  refine .read fun ht => .ret ?_
  have hscalar {o o' : Option Value} (ho : Like π.lasting o o') :
      o.bind Value.scalar? = o'.bind Value.scalar? := by
    cases ho with
    | some hv => exact Value.Like.scalar?_eq hv
    | none => rfl
  have hshown := funext fun name => hscalar (ht.lookup hs name)
  exact congrArg (fun shown => e.label shown .sequence) hshown

lemma alike_output (site : Expr) (hs : π.Scopes s t) (mode : OutputMode) (e : Expr)
    (type : Option OutputType) (name : Option Expr) :
    Alike d d' π (output again site s mode e type name) (output again' site t mode e type name) := by
  refine .read fun {m m'} ht => ?_
  rw [← ht.settings]
  have hreport {π' : Pairing} (hle : π ≤ π') {text text' : String} (htext : Like π'.lasting text text') :
      Alike d d' π'
        (reporting site mode text e (type.getD m.settings.defaultType).target
          (observe again s mode e (type.getD m.settings.defaultType).target))
        (reporting site mode text' e (type.getD m.settings.defaultType).target
          (observe again' t mode e (type.getD m.settings.defaultType).target)) := by
    obtain rfl : text = text' := htext
    exact .reporting site mode text e _ fun hle₁ => alike_observe ha ((hs.mono hle).mono hle₁) mode e _
  cases name with
  | some n => exact (alike_string ha hs n).bind hreport
  | none => exact (alike_label hs e).bind hreport

end Calls

end DiceLang.Eval

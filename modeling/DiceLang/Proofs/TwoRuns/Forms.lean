import DiceLang.Proofs.Expr.Tree
import DiceLang.Proofs.TwoRuns.Calls
import DiceLang.Proofs.TwoRuns.Collecting

/-! Every form of expression runs alike in two runs, and so does evaluation, but for the recursion limit. -/

namespace DiceLang.Eval

variable {d d' : Nat} {π : Pairing} {s t : ScopeId} {v w : Value}

lemma alike_own {a b : Value} (hab : Like π.lasting a b) (hv : Like π.lasting v w) :
    Alike d d' π (own a v) (own b w) := by
  cases hv with
  | scalar v => exact .ret (Value.Like.scalar v)
  | list r => exact .ret (Value.Like.list r)
  | map r => exact .ret (Value.Like.map r)
  | @function _ _ _ f _ _ hs ho => exact alike_newFunction (.inl hs) f hab

lemma alike_readAt {h h' : Heap} (hh : Heap.Like π.lasting h h') (site : Expr) {a b : Value}
    (hab : Like π.lasting a b) (path : List Container) (depth : Nat) (hv : Like π.lasting v w) :
    Alike d d' π (readAt h site a path depth v) (readAt h' site b path depth w) := by
  induction depth generalizing π v w path with
  | zero => exact .unfinished _
  | succ depth ih =>
    have hlist (subs : ListRef) : Alike d d' π
        (do newList (← (h.items subs).mapM (readAt h site a (.list subs :: path) depth)))
        (do newList (← (h'.items subs).mapM (readAt h' site b (.list subs :: path) depth))) :=
      (Alike.mapM (fun hle _ _ hx => ih (hh.mono hle.lasting) (hle.like hab) _ hx) (hh.items subs)).bind
        fun _ _ _ hxs => alike_newList hxs
    have hmap (subs : MapRef) : Alike d d' π
        (do let read (e : String × Value) : Eval (String × Value) :=
              return (e.1, ← readAt h site a (.map subs :: path) depth e.2)
            newMap (← (h.entries subs).mapM read))
        (do let read (e : String × Value) : Eval (String × Value) :=
              return (e.1, ← readAt h' site b (.map subs :: path) depth e.2)
            newMap (← (h'.entries subs).mapM read)) := by
      refine (Alike.mapM (fun hle x y hx => ?_) (hh.entries subs)).bind fun _ _ _ hes => alike_newMap hes
      exact (ih (hh.mono hle.lasting) (hle.like hab) _ hx.2).bind fun _ _ _ hv => .ret ⟨hx.1, hv⟩
    cases hv with
    | scalar v =>
      cases hab with
      | scalar | function => cases v <;> exact .fail site _
      | list r =>
        cases v with
        | number n => exact alike_own (Value.Like.list r) (like_itemAt (hh.items r) n)
        | undefined | string | boolean => exact .fail site _
      | map r =>
        cases v with
        | string key =>
          exact alike_own (Value.Like.map r)
            (like_getD (Entries.like_get? (hh.entries r) key) Value.like_undefined)
        | undefined | boolean | number => exact .fail site _
    | list subs =>
      cases hab with
      | scalar | function => exact .fail site _
      | list | map => exact hlist subs
    | map subs =>
      cases hab with
      | scalar | function => exact .fail site _
      | list | map => exact hmap subs
    | function => cases hab <;> exact .fail site _

lemma alike_subscript (site : Expr) {a b : Value} (hab : Like π.lasting a b) (hv : Like π.lasting v w) :
    Alike d d' π (subscript site a v) (subscript site b w) := by
  refine .read fun ht => ?_
  dsimp only
  rw [← ht.heap.size_eq]
  exact alike_readAt ht.heap site hab _ _ hv

section Forms

variable {again again' : Again} (ha : AsksAlike d d' again again')

include ha

lemma alike_writeAt (site : Expr) (hs : π.Scopes s t) {a b : Value} (hab : Like π.lasting a b)
    (path : List Container) (depth : Nat) {k l : Value} (hk : Like π.lasting k l)
    (hv : Like π.lasting v w) :
    Alike d d' π (writeAt again site s a path depth k v) (writeAt again' site t b path depth l w) := by
  induction depth generalizing π k l v w path with
  | zero => exact .unfinished _
  | succ depth ih =>
    have hlist (subs : ListRef) : Alike d d' π
        (do let values ← elements again s v
            let write (x : Value × Nat) : Eval Unit :=
              writeAt again site s a (.list subs :: path) depth x.1 (values.getD x.2 .undefined)
            (← items subs).zipIdx.forM write)
        (do let values ← elements again' t w
            let write (x : Value × Nat) : Eval Unit :=
              writeAt again' site t b (.list subs :: path) depth x.1 (values.getD x.2 .undefined)
            (← items subs).zipIdx.forM write) := by
      refine (alike_elements ha hs hv).bind fun hle _ _ hvs => (alike_items subs).bind fun hle₁ _ _ hxs => ?_
      refine .forM (fun hle₂ x y hx => ?_) (like_zipIdx hxs 0)
      have hle' := (hle.trans hle₁).trans hle₂
      rw [List.getD_eq_getElem?_getD, List.getD_eq_getElem?_getD, show x.2 = y.2 from hx.2]
      exact ih (hs.mono hle') (hle'.like hab) _ hx.1
        (like_getD (like_getElem? (hle₂.like (hle₁.like hvs)) _) Value.like_undefined)
    have hmap (subs : MapRef) : Alike d d' π
        (do let values ← namedElements again s v
            let write (x : String × Value) : Eval Unit :=
              writeAt again site s a (.map subs :: path) depth x.2
                ((Entries.get? values x.1).getD .undefined)
            (← entries subs).forM write)
        (do let values ← namedElements again' t w
            let write (x : String × Value) : Eval Unit :=
              writeAt again' site t b (.map subs :: path) depth x.2
                ((Entries.get? values x.1).getD .undefined)
            (← entries subs).forM write) := by
      refine (alike_namedElements ha hs hv).bind fun hle _ _ hvs =>
        (alike_entries subs).bind fun hle₁ _ _ hxs => .forM (fun hle₂ x y hx => ?_) hxs
      have hle' := (hle.trans hle₁).trans hle₂
      rw [show x.1 = y.1 from hx.1]
      exact ih (hs.mono hle') (hle'.like hab) _ hx.2
        (like_getD (Entries.like_get? (hle₂.like (hle₁.like hvs)) _) Value.like_undefined)
    cases hk with
    | scalar k =>
      cases hab with
      | scalar | function => cases k <;> exact .fail site _
      | list r =>
        cases k with
        | number n =>
          refine (alike_items r).bind fun {π₁} hle xs ys hxs => ?_
          have hset {π₂ : Pairing} (hle' : π₁ ≤ π₂) (i : Nat) : Alike d d' π₂
              (setItems r (putItem xs i v)) (setItems r (putItem ys i w)) :=
            alike_setItems r (like_putItem (hle'.like hxs) i ((hle.trans hle').like hv))
          rw [List.Forall₂.length_eq hxs]
          cases place? n ys.length with
          | none => exact .fail site _
          | some i =>
            dsimp only
            split
            · exact (alike_makeRoom _).bind fun hle' _ _ _ => hset hle' i
            · exact hset le_rfl i
        | undefined | string | boolean => exact .fail site _
      | map r =>
        cases k with
        | string key =>
          exact (alike_entries r).bind fun hle _ _ hes =>
            alike_setEntries r (Entries.like_put hes key (hle.like hv))
        | undefined | boolean | number => exact .fail site _
    | list subs =>
      cases hab with
      | scalar | function => exact .fail site _
      | list | map => exact hlist subs
    | map subs =>
      cases hab with
      | scalar | function => exact .fail site _
      | list | map => exact hmap subs
    | function => cases hab <;> exact .fail site _

omit ha in
lemma alike_assignItems (targets : List Expr)
    (ht : ∀ e ∈ targets, ∀ {π : Pairing}, π.Scopes s t → ∀ {v w}, Like π.lasting v w →
      Alike d d' π (assign again s e v) (assign again' t e w))
    (hs : π.Scopes s t) {xs ys : List Value} (hxs : Like π.lasting xs ys) :
    Alike d d' π (assignItems again s targets xs) (assignItems again' t targets ys) := by
  induction targets generalizing π xs ys with
  | nil => exact .ret rfl
  | cons e targets ih =>
    rw [List.forall_mem_cons] at ht
    cases hxs with
    | nil =>
      exact (ht.1 hs Value.like_undefined).bind fun hle _ _ _ => ih ht.2 (hs.mono hle) like_nil
    | cons hx hrest => exact (ht.1 hs hx).bind fun hle _ _ _ => ih ht.2 (hs.mono hle) (hle.like hrest)

omit ha in
lemma alike_assignEntries (targets : List (String × Expr))
    (ht : ∀ e ∈ targets.map Prod.snd, ∀ {π : Pairing}, π.Scopes s t → ∀ {v w}, Like π.lasting v w →
      Alike d d' π (assign again s e v) (assign again' t e w))
    (hs : π.Scopes s t) {xs ys : List (String × Value)} (hxs : Like π.lasting xs ys) :
    Alike d d' π (assignEntries again s targets xs) (assignEntries again' t targets ys) := by
  induction targets generalizing π with
  | nil => exact .ret rfl
  | cons x targets ih =>
    rw [List.map_cons, List.forall_mem_cons] at ht
    refine (ht.1 hs ?_).bind fun hle _ _ _ => ih ht.2 (hs.mono hle) (hle.like hxs)
    exact like_getD (Entries.like_get? hxs x.1) Value.like_undefined

lemma alike_assign (hs : π.Scopes s t) (target : Expr) (hv : Like π.lasting v w) :
    Alike d d' π (assign again s target v) (assign again' t target w) := by
  induction target using Expr.children_induction generalizing π v w with
  | step e ih =>
    unfold assign
    split
    · exact alike_setVariable hs _ hv
    · refine (ha hs _ none).bind fun hle _ _ hc => (ha (hs.mono hle) _ none).bind fun hle₁ _ _ hk => ?_
      refine alike_budget.bind fun hle₂ n n' hn => ?_
      obtain rfl : n = n' := hn
      have hle' := (hle.trans hle₁).trans hle₂
      exact alike_writeAt ha _ (hs.mono hle') (hle₂.like (hle₁.like hc)) _ n (hle₂.like hk) (hle'.like hv)
    · exact (alike_elements ha hs hv).bind fun hle _ _ hxs =>
        alike_assignItems _ (fun e he _ hs _ _ hv => ih e he hs hv) (hs.mono hle) hxs
    · exact (alike_namedElements ha hs hv).bind fun hle _ _ hxs =>
        alike_assignEntries _ (fun e he _ hs _ _ hv => ih e he hs hv) (hs.mono hle) hxs
    · exact .fail _ _

lemma alike_interpolate (hs : π.Scopes s t) (fs : List Fragment) :
    Alike d d' π (interpolate again s fs) (interpolate again' t fs) := by
  have hfragment {π : Pairing} (hs : π.Scopes s t) (f : Fragment) :
      Alike d d' π (fragment again s f) (fragment again' t f) := by
    cases f with
    | text s => exact .ret rfl
    | hole name =>
      refine (alike_valueOf hs name).bind fun hle _ _ hv => ?_
      refine (alike_convertTo ha (hs.mono hle) .string hv).bind fun _ _ _ hx => ?_
      cases hx with
      | scalar v => cases v <;> exact .ret rfl
      | list | map | function => exact .ret rfl
  induction fs generalizing π with
  | nil => exact .ret rfl
  | cons f fs ih =>
    exact (hfragment hs f).bind fun hle _ _ hx => (ih (hs.mono hle)).bind fun _ _ _ hy =>
      .ret (congrArg₂ (· ++ ·) hx hy)

lemma alike_values (hs : π.Scopes s t) (es : List Expr) :
    Alike d d' π (values again s es) (values again' t es) := by
  induction es generalizing π with
  | nil => exact .ret like_nil
  | cons e es ih =>
    exact (ha hs e none).bind fun hle _ _ hx => (ih (hs.mono hle)).bind fun hle₁ _ _ hxs =>
      .ret (like_cons (hle₁.like hx) hxs)

lemma alike_namedValues (hs : π.Scopes s t) (es : List (String × Expr)) :
    Alike d d' π (namedValues again s es) (namedValues again' t es) := by
  induction es generalizing π with
  | nil => exact .ret like_nil
  | cons x es ih =>
    exact (ha hs x.2 none).bind fun hle _ _ hx => (ih (hs.mono hle)).bind fun hle₁ _ _ hxs =>
      .ret (like_cons ⟨rfl, hle₁.like hx⟩ hxs)

lemma alike_throwOne (site : Expr) (hv : Like π.lasting v w) :
    Alike d d' π (throwOne again site v) (throwOne again' site w) := by
  have hthrow : Alike d d' π (throwDie v) (throwDie w) := alike_throwDie hv
  cases hv with
  | scalar | list | map =>
    refine hthrow.bind fun _ _ _ hx => ?_
    cases hx with
    | face hv => exact .ret hv
    | unrollable k => exact .fail site _
    | call | unsettled => exact .unfinished _
  | @function _ _ _ f _ _ hs ho => exact alike_call ha site (.inl hs) f ho like_nil like_nil none

lemma alike_throwMany (site : Expr) (hv : Like π.lasting v w) (n : Nat) {as bs : Array Value}
    (has : Like π.lasting as bs) :
    Alike d d' π (throwMany again site v n as) (throwMany again' site w n bs) := by
  induction n generalizing π as bs with
  | zero => exact .ret has
  | succ n ih =>
    exact (alike_throwOne ha site hv).bind fun hle _ _ hx =>
      ih (hle.like hv) (like_push (hle.like has) hx)

lemma alike_throwNumber (site : Expr) (n : Int64) (hv : Like π.lasting v w) :
    Alike d d' π (throwDice.throwNumber again site n v) (throwDice.throwNumber again' site n w) := by
  have hthrow {π' : Pairing} (hle : π ≤ π') : Alike d d' π'
      (do let faces := (← throwMany again site v n.toInt.toNat #[]).toList
          recordThrow v faces
          newList faces)
      (do let faces := (← throwMany again' site w n.toInt.toNat #[]).toList
          recordThrow w faces
          newList faces) := by
    refine (alike_throwMany ha site (hle.like hv) _ like_empty).bind fun hle₁ _ _ hfaces => ?_
    refine (alike_recordThrow (hle₁.like (hle.like hv)) hfaces).bind fun hle₂ _ _ _ => ?_
    exact alike_newList (Paired.mono (α := List Value) hle₂.lasting hfaces)
  unfold throwDice.throwNumber
  split
  · exact (Alike.fail site _).bind fun hle _ _ _ => hthrow hle
  · exact hthrow le_rfl

lemma alike_throwDice (site : Expr) (n : Int64) (hv : Like π.lasting v w) :
    Alike d d' π (throwDice again site n v) (throwDice again' site n w) := by
  cases hv with
  | scalar v => exact alike_throwNumber ha site n (Value.Like.scalar v)
  | list r => exact alike_throwNumber ha site n (Value.Like.list r)
  | map r => exact alike_throwNumber ha site n (Value.Like.map r)
  | @function _ _ _ f _ _ hs ho =>
    change Alike d d' π (if f.params.isEmpty then _ else _) (if f.params.isEmpty then _ else _)
    split
    · exact alike_throwNumber ha site n (Value.Like.function hs ho)
    · exact alike_call ha site (.inl hs) f ho (like_singleton (Value.Like.scalar _)) like_nil none

omit ha in
lemma alike_draw (r : ListRef) : Alike d d' π (draw r) (draw r) := by
  refine (alike_items r).bind fun _ _ _ hxs => ?_
  cases hxs with
  | nil => exact .ret Value.like_undefined
  | cons hx hrest => exact (alike_setItems r hrest).bind fun hle _ _ _ => .ret (hle.like hx)

omit ha in
lemma alike_drawMany (n : Int64) (r : ListRef) : Alike d d' π (drawMany n r) (drawMany n r) := by
  refine (alike_items r).bind fun _ _ _ hxs => ?_
  refine (alike_setItems r (List.forall₂_drop _ hxs)).bind fun hle _ _ _ => ?_
  exact alike_newList (hle.like (α := List Value) (List.forall₂_take _ hxs))

omit ha in
lemma alike_reorder (order : Reorder) (r : ListRef) :
    Alike d d' π (reorder order r) (reorder order r) := by
  have hset {π : Pairing} {xs ys : List Value} (hxs : Like π.lasting xs ys) : Alike d d' π
      (do setItems r xs; return Value.list r) (do setItems r ys; return Value.list r) :=
    (alike_setItems r hxs).bind fun _ _ _ _ => .ret (Value.Like.list r)
  refine (alike_items r).bind fun _ _ _ hxs => ?_
  cases order with
  | sort => exact .read fun ht => hset (ht.heap.sort hxs)
  | reverse => exact hset (List.rel_reverse hxs)
  | shuffle => exact (alike_shuffle hxs).bind fun _ _ _ hys => hset hys

lemma alike_append (site : Expr) (hs : π.Scopes s t) (target source : Expr) :
    Alike d d' π (append again site s target source) (append again' site t target source) := by
  refine (ha hs target none).bind fun hle _ _ hv => ?_
  cases hv with
  | list r =>
    refine (alike_list ha (hs.mono hle) source).bind fun _ q q' hq => ?_
    obtain rfl : q = q' := hq
    refine (alike_items q).bind fun _ _ _ hadded => (alike_items r).bind fun hle₁ _ _ hold => ?_
    exact (alike_setItems r (like_append hold (hle₁.like hadded))).bind fun _ _ _ _ =>
      .ret (Value.Like.list r)
  | map r =>
    refine (ha (hs.mono hle) source (some .map)).bind fun _ _ _ hx => ?_
    cases hx with
    | map q =>
      refine (alike_entries q).bind fun _ _ _ hadded => (alike_entries r).bind fun hle₁ _ _ hold => ?_
      exact (alike_setEntries r (Entries.like_putAll hold (hle₁.like hadded))).bind fun _ _ _ _ =>
        .ret (Value.Like.map r)
    | scalar | list | function => exact .ret (Value.Like.map r)
  | scalar | function => exact .fail site _

lemma alike_unary (site : Expr) (hs : π.Scopes s t) (op : UnaryOp) (operand : Expr) :
    Alike d d' π (unary again site s op operand) (unary again' site t op operand) := by
  have hlist {f f' : ListRef → Eval Value}
      (hf : ∀ {π'}, π ≤ π' → ∀ r, Alike d d' π' (f r) (f' r)) :
      Alike d d' π (list again s operand >>= f) (list again' t operand >>= f') := by
    refine (alike_list ha hs operand).bind fun hle r r' hr => ?_
    obtain rfl : r = r' := hr
    exact hf hle r
  cases op with
  | plus =>
    exact (alike_number ha hs operand).bind fun _ _ _ hx => .ret (hx ▸ Value.Like.scalar _)
  | minus =>
    exact (alike_number ha hs operand).bind fun _ _ _ hx => .ret (hx ▸ Value.Like.scalar _)
  | not =>
    exact (alike_boolean ha hs operand).bind fun _ _ _ hx => .ret (hx ▸ Value.Like.scalar _)
  | best selector =>
    exact hlist fun _ r => (alike_items r).bind fun _ _ _ hxs =>
      .read fun ht => .ret (Dice.like_best ht.heap selector hxs)
  | draw => exact hlist fun _ r => alike_draw r
  | die =>
    refine (ha hs operand none).bind fun _ _ _ hdie => (alike_throwOne ha site hdie).bind fun hle _ _ hx => ?_
    exact (alike_recordThrow (hle.like hdie) (like_singleton hx)).bind fun hle₁ _ _ _ =>
      .ret (hle₁.like hx)
  | count =>
    refine (ha hs operand none).bind fun _ _ _ hv => .read fun ht => ?_
    rw [← count?_eq ht.heap hv]
    split
    · exact .ret (Value.Like.scalar _)
    · exact .fail site _
  | convert k => exact ha hs operand (some k)
  | reorder order => exact hlist fun _ r => alike_reorder order r

lemma alike_both (hs : π.Scopes s t) (left right : Expr) :
    Alike d d' π (both again s left right) (both again' t left right) :=
  (ha hs left none).bind fun hle _ _ hx => (ha (hs.mono hle) right none).bind fun hle₁ _ _ hy =>
    .ret ⟨hle₁.like hx, hy⟩

lemma alike_numbers (hs : π.Scopes s t) (left right : Expr) :
    Alike d d' π (numbers again s left right) (numbers again' t left right) :=
  (alike_number ha hs left).bind fun hle _ _ hx => (alike_number ha (hs.mono hle) right).bind
    fun _ _ _ hy => .ret ⟨hx, hy⟩

lemma alike_binary (site : Expr) (hs : π.Scopes s t) (target : Option Kind) (op : BinaryOp)
    (left right : Expr) :
    Alike d d' π (binary again site s target op left right)
      (binary again' site t target op left right) := by
  have hnumbers {f f' : Int64 × Int64 → Eval Value}
      (hf : ∀ {π'}, π ≤ π' → ∀ x, Alike d d' π' (f x) (f' x)) :
      Alike d d' π (numbers again s left right >>= f) (numbers again' t left right >>= f') := by
    refine (alike_numbers ha hs left right).bind fun hle x y hxy => ?_
    obtain rfl : x = y := Prod.ext hxy.1 hxy.2
    exact hf hle x
  have hlist {f f' : Int64 → ListRef → Eval Value}
      (hf : ∀ {π'}, π ≤ π' → ∀ n r, Alike d d' π' (f n r) (f' n r)) : Alike d d' π
      (do let n ← number again s left; f n (← list again s right))
      (do let n ← number again' t left; f' n (← list again' t right)) := by
    refine (alike_number ha hs left).bind fun hle n n' hn => ?_
    obtain rfl : n = n' := hn
    refine (alike_list ha (hs.mono hle) right).bind fun hle₁ r r' hr => ?_
    obtain rfl : r = r' := hr
    exact hf (hle.trans hle₁) n r
  cases op with
  | arithmetic op =>
    refine hnumbers fun _ x => ?_
    dsimp only
    split
    · exact .ret (Value.Like.scalar _)
    · exact .fail site _
  | compare op => exact hnumbers fun _ x => .ret (Value.Like.scalar _)
  | same =>
    refine (alike_both ha hs left right).bind fun _ x y hxy => ?_
    exact (alike_same hxy.1 hxy.2).bind fun _ _ _ hb => .ret (hb ▸ Value.Like.scalar _)
  | notSame =>
    refine (alike_both ha hs left right).bind fun _ x y hxy => ?_
    exact (alike_same hxy.1 hxy.2).bind fun _ _ _ hb => .ret (hb ▸ Value.Like.scalar _)
  | and =>
    refine (alike_boolean ha hs left).bind fun hle b b' hb => ?_
    obtain rfl : b = b' := hb
    split
    · exact (alike_boolean ha (hs.mono hle) right).bind fun _ _ _ hb => .ret (hb ▸ Value.Like.scalar _)
    · exact .ret (Value.Like.scalar _)
  | or =>
    refine (alike_boolean ha hs left).bind fun hle b b' hb => ?_
    obtain rfl : b = b' := hb
    split
    · exact .ret (Value.Like.scalar _)
    · exact (alike_boolean ha (hs.mono hle) right).bind fun _ _ _ hb => .ret (hb ▸ Value.Like.scalar _)
  | append => exact alike_append ha site hs left right
  | indexOf =>
    refine (alike_both ha hs left right).bind fun {π'} _ x y hxy => .read fun {m m'} ht => .ret ?_
    have hplain (h : Heap) (a v : Value) : Like π'.lasting (indexOf h a v) (indexOf h a v) := by
      unfold indexOf
      split
      · exact Value.like_undefined
      · split <;> exact Value.Like.scalar _
      · split <;> exact Value.Like.scalar _
      · exact Value.Like.scalar _
    rw [← indexOf_eq ht.heap hxy.1 hxy.2]
    exact hplain _ _ _
  | range =>
    exact hnumbers fun _ x => (alike_makeRoom _).bind fun _ _ _ _ => alike_newList (Dice.like_range _ _)
  | bestOf selector =>
    refine hlist (f := fun n r => do
      let all ← items r
      newList (Dice.bestOf (← get).env.heap selector n all)) fun _ n r => ?_
    exact (alike_items r).bind fun _ _ _ hxs =>
      .read fun ht => alike_newList (Dice.like_bestOf ht.heap selector n hxs)
  | drawMany => exact hlist fun _ n r => alike_drawMany n r
  | dice =>
    refine (alike_number ha hs left).bind fun hle n n' hn => ?_
    obtain rfl : n = n' := hn
    exact (ha (hs.mono hle) right none).bind fun _ _ _ hdie => alike_throwDice ha site n hdie
  | assign =>
    refine (ha hs right none).bind fun hle _ _ hv => ?_
    exact (alike_assign ha (hs.mono hle) left hv).bind fun hle₁ _ _ _ => .ret (hle₁.like hv)
  | subscript =>
    exact (alike_both ha hs left right).bind fun _ _ _ hxy => alike_subscript site hxy.1 hxy.2
  | sequence => exact (ha hs left none).bind fun hle _ _ _ => ha (hs.mono hle) right target

lemma alike_callExpr (site : Expr) (hs : π.Scopes s t) (target : Option Kind) (callee : Expr)
    (positional : List Expr) (named : List (String × Expr)) :
    Alike d d' π (callExpr again site s target callee positional named)
      (callExpr again' site t target callee positional named) := by
  refine (ha hs callee (some .function)).bind fun hle _ _ hf => ?_
  cases hf with
  | @function _ _ _ f _ _ hst ho =>
    refine (alike_values ha (hs.mono hle) positional).bind fun hle₁ _ _ hxs => ?_
    refine (alike_namedValues ha ((hs.mono hle).mono hle₁) named).bind fun hle₂ _ _ hes => ?_
    have hle' := hle₁.trans hle₂
    exact alike_call ha site (.inl (hle'.lasting _ _ hst)) f (hle'.like ho) (hle₂.like hxs) hes target
  | scalar | list | map => exact .ret Value.like_undefined

lemma alike_native (e : Expr) (hs : π.Scopes s t) (target : Option Kind) :
    Alike d d' π (native again e s target) (native again' e t target) := by
  cases e with
  | scalar _ v => exact .ret (Value.Like.scalar v)
  | var _ name => exact alike_valueOf hs name
  | interpolation _ fs =>
    exact (alike_interpolate ha hs fs).bind fun _ _ _ hx => .ret (hx ▸ Value.Like.scalar _)
  | list _ es => exact (alike_values ha hs es).bind fun _ _ _ hxs => alike_newList hxs
  | map _ es =>
    exact (alike_namedValues ha hs es).bind fun _ _ _ hes => alike_newMap (Entries.like_ofList hes)
  | lambda _ params body => exact alike_newFunction hs _ Value.like_undefined
  | unary _ op operand => exact alike_unary ha _ hs op operand
  | binary _ op left right => exact alike_binary ha _ hs target op left right
  | forEach _ index item out container condition => exact alike_forEach ha _ container hs _
  | repeating _ form body condition limit => exact alike_repeating ha hs form body condition limit
  | conditional _ condition whenTrue whenFalse =>
    refine (alike_boolean ha hs condition).bind fun hle b b' hb => ?_
    obtain rfl : b = b' := hb
    split
    · exact ha (hs.mono hle) whenTrue target
    · exact ha (hs.mono hle) whenFalse target
  | call _ callee positional named => exact alike_callExpr ha _ hs target callee positional named
  | scopeVariables _ which => exact alike_scopeVariables hs which
  | output _ mode expression type name =>
    exact (alike_output ha _ hs mode expression type name).bind fun _ _ _ _ => .ret Value.like_undefined
  | importing _ space address =>
    exact (alike_importing ha _ hs space address).bind fun _ _ _ _ => .ret Value.like_undefined

end Forms

lemma asksAlike_evaluateWithinBy (τ τ' : Collector) (room room' : Nat) (h : d = d' → room = room') :
    AsksAlike d d' (evaluateWithinBy τ room) (evaluateWithinBy τ' room') := by
  induction room generalizing room' d d' with
  | zero =>
    intro π s t hs e target m m' ht
    have hlimit : Interrupt.AtLimit (.failed (e.error (.recursionLimit maxDepth))) := ⟨e, rfl⟩
    by_cases hd : d = d'
    · obtain rfl := h hd
      exact .error le_rfl ht
    · exact .left hd hlimit
  | succ room ih =>
    intro π s t hs e target
    cases room' with
    | zero =>
      intro m m' ht
      refine .right (fun hd => ?_) ⟨e, rfl⟩
      cases h hd
    | succ room' =>
      have ha : AsksAlike (d + 1) (d' + 1) (evaluateWithinBy τ room) (evaluateWithinBy τ' room') :=
        ih room' fun hd => Nat.succ.inj (h (Nat.succ.inj hd))
      refine .nested e (Alike.collecting ?_ τ τ')
      exact (alike_native ha e hs target).bind fun hle _ _ hv => alike_convert ha (hs.mono hle) target hv

lemma asksAlike_evaluateBy (τ τ' : Collector) : AsksAlike d d' (evaluateBy τ) (evaluateBy τ') := by
  intro π s t hs e target m m' ht
  have hroom : d = d' → maxDepth - m.depth.val = maxDepth - m'.depth.val := by
    rw [ht.depth, ht.depth']
    rintro rfl
    rfl
  exact asksAlike_evaluateWithinBy τ τ' _ _ hroom hs e target m m' ht

lemma asksAlike_evaluate : AsksAlike d d' evaluate evaluate :=
  evaluateBy_none ▸ asksAlike_evaluateBy .none .none

end DiceLang.Eval

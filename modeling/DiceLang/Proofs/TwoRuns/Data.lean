import DiceLang.Proofs.Eval.Tolerant
import DiceLang.Proofs.TwoRuns.Values

/-! What two runs make of values that are alike, with dice, subscripts, arguments and records, is alike. -/

namespace DiceLang

variable {P Q : ScopePairs} {h h' : Heap} {v w : Value} {xs ys : List Value}

inductive Throw.Like (P : ScopePairs) : Throw → Throw → Prop
  | face {v w : Value} : Paired.Like P v w → Like P (.face v) (.face w)
  | call : Like P .call .call
  | unrollable (k : Kind) : Like P (.unrollable k) (.unrollable k)
  | unsettled : Like P .unsettled .unsettled

instance : Paired Throw where
  scopes
    | .face v => Paired.scopes v
    | _ => []
  Like := Throw.Like
  imp h ht := by
    cases ht with
    | face hv => exact .face (Paired.imp h hv)
    | call => exact .call
    | unrollable k => exact .unrollable k
    | unsettled => exact .unsettled
  self ht := by
    cases ht with
    | face hv => exact .face (Paired.self hv)
    | call => exact .call
    | unrollable k => exact .unrollable k
    | unsettled => exact .unsettled

namespace Dice

lemma like_throw (hh : Heap.Like P h h') (hv : Like P v w) (attempts : Nat) (g : Generator) :
    Like P (throw attempts v h g).1 (throw attempts w h' g).1 ∧
      Heap.Like P (throw attempts v h g).2.1 (throw attempts w h' g).2.1 ∧
      (throw attempts v h g).2.2 = (throw attempts w h' g).2.2 := by
  have hempty {α : Type} [Paired α] {xs ys : List α} (hxs : Like P xs ys) :
      xs.isEmpty = ys.isEmpty ∧ xs.length = ys.length := by
    cases hxs with
    | nil => exact ⟨rfl, rfl⟩
    | cons _ hrest => exact ⟨rfl, congrArg (· + 1) (List.Forall₂.length_eq hrest)⟩
  cases hv with
  | scalar v =>
    cases v with
    | undefined | string | boolean => exact ⟨.unrollable _, hh, rfl⟩
    | number n =>
      simp only [throw]
      split
      · exact ⟨.face Value.like_undefined, hh, rfl⟩
      · split
        · exact ⟨.face (Value.Like.scalar _), hh, rfl⟩
        · exact ⟨.unsettled, hh, rfl⟩
  | list r =>
    obtain ⟨hnone, hlength⟩ := hempty (hh.items r)
    simp only [throw, hnone, hlength]
    split
    · exact ⟨.face Value.like_undefined, hh, rfl⟩
    · split
      · refine ⟨.face ?_, hh, rfl⟩
        rw [List.getD_eq_getElem?_getD, List.getD_eq_getElem?_getD]
        exact like_getD (like_getElem? (hh.items r) _) Value.like_undefined
      · exact ⟨.unsettled, hh, rfl⟩
  | map r =>
    obtain ⟨hnone, hlength⟩ := hempty (hh.entries r)
    simp only [throw, hnone, hlength]
    split
    · exact ⟨.face Value.like_undefined, hh, rfl⟩
    · split
      next k g' _ =>
        refine ⟨.face ?_, hh.newMap (like_toList (like_getElem? (hh.entries r) k)), rfl⟩
        rw [hh.fst_newMap _ (h'.entries r)[k]?.toList]
        exact Value.Like.map _
      · exact ⟨.unsettled, hh, rfl⟩
  | function => exact ⟨.call, hh, rfl⟩

lemma like_best (hh : Heap.Like P h h') (selector : Selector) (hxs : Like P xs ys) :
    Like P (best h selector xs) (best h' selector ys) := by
  have hbetter (wanted : Ordering) {a b c d : Value} (hab : Like P a b) (hcd : Like P c d) :
      Like P (better h wanted a c) (better h' wanted b d) := by
    rw [better, better, hh.order_eq hcd hab]
    split
    · exact hcd
    · exact hab
  have hfold (wanted : Ordering) {a b : Value} {us vs : List Value} (hab : Like P a b)
      (hus : Like P us vs) :
      Like P (us.foldl (better h wanted) a) (vs.foldl (better h' wanted) b) := by
    induction hus generalizing a b with
    | nil => exact hab
    | cons hx _ ih => exact ih (hbetter wanted hab hx)
  have hlast {a b : Value} {us vs : List Value} (hab : Like P a b) (hus : Like P us vs) :
      Like P (us.getLastD a) (vs.getLastD b) := by
    induction hus generalizing a b with
    | nil => exact hab
    | cons hx _ ih =>
      rw [List.getLastD_cons, List.getLastD_cons]
      exact ih hx
  cases hxs with
  | nil => exact Value.like_undefined
  | cons hx hrest =>
    cases selector with
    | first => exact hx
    | last => exact hlast hx hrest
    | highest => exact hfold .gt hx hrest
    | lowest => exact hfold .lt hx hrest

lemma like_bestOf (hh : Heap.Like P h h') (selector : Selector) (count : Int64)
    (hxs : Like P xs ys) : Like P (bestOf h selector count xs) (bestOf h' selector count ys) := by
  have hranked : Like P (ranked h xs) (ranked h' ys) :=
    like_mergeSort (like_zipIdx hxs 0) fun hab hcd => by rw [hh.order_eq hab.1 hcd.1]
  have hplace {us vs : List (Value × Nat)} (hus : Like P us vs) : Like P (inPlace us) (inPlace vs) := by
    refine List.rel_map (fun _ _ h => h.1) (like_mergeSort hus ?_)
    rintro ⟨a, i⟩ ⟨b, j⟩ ⟨c, k⟩ ⟨d, l⟩ ⟨-, rfl⟩ ⟨-, rfl⟩
    rfl
  have hlength : xs.length = ys.length := List.Forall₂.length_eq hxs
  simp only [bestOf, hlength]
  split
  · exact hxs
  · cases selector with
    | first => exact List.forall₂_take _ hxs
    | last => exact List.forall₂_drop _ hxs
    | highest => exact hplace (List.forall₂_drop _ hranked)
    | lowest => exact hplace (List.forall₂_take _ hranked)

lemma like_range (a b : Int64) : Like P (range a b) (range a b) := by
  change List.Forall₂ _ _ _
  rw [List.forall₂_same]
  intro v hv
  obtain ⟨i, -, rfl⟩ := List.mem_map.mp hv
  exact Value.Like.scalar _

end Dice

namespace Generator

variable {α β : Type}

lemma map_swapIfInBounds (f : α → β) (xs : Array α) (i j : Nat) :
    (xs.swapIfInBounds i j).map f = (xs.map f).swapIfInBounds i j := by
  simp only [Array.swapIfInBounds_def, Array.size_map]
  split
  · split
    · apply Array.ext_getElem?
      intro k
      simp only [Array.getElem?_map, Array.getElem?_swap, Array.getElem_map]
      split
      · rfl
      · split <;> rfl
    · rfl
  · rfl

lemma shuffleFrom_map (f : α → β) (attempts i : Nat) (xs : Array α) (g : Generator) :
    shuffleFrom attempts i (xs.map f) g =
      (shuffleFrom attempts i xs g).map fun r => (r.1.map f, r.2) := by
  induction i generalizing xs g with
  | zero => rfl
  | succ i ih =>
    rw [shuffleFrom, shuffleFrom]
    split
    · rfl
    · rw [← map_swapIfInBounds, ih]

lemma shuffle_map (f : α → β) (attempts : Nat) (xs : List α) (g : Generator) :
    shuffle attempts (xs.map f) g = (shuffle attempts xs g).map fun r => (r.1.map f, r.2) := by
  rw [shuffle, shuffle, List.length_map, ← List.map_toArray, shuffleFrom_map, Option.map_map,
    Option.map_map]
  congr 1
  funext r
  simp

lemma like_shuffle [Paired α] {xs ys : List α} (hxs : Like P xs ys) (attempts : Nat) (g : Generator) :
    Option.Rel (fun x y => Like P x.1 y.1 ∧ x.2 = y.2) (g.shuffle attempts xs) (g.shuffle attempts ys) := by
  obtain ⟨zs, rfl, rfl, hzs⟩ := exists_zipped hxs
  rw [shuffle_map, shuffle_map]
  cases hr : shuffle attempts zs g with
  | none => exact .none
  | some r =>
    exact .some ⟨like_of_zipped fun z hz => hzs z (mem_of_mem_shuffle hr hz), rfl⟩

end Generator

namespace Eval

lemma count?_eq (hh : Heap.Like P h h') (hv : Like P v w) : count? h v = count? h' w := by
  cases hv with
  | scalar v => cases v <;> rfl
  | list r => exact congrArg some (List.Forall₂.length_eq (hh.items r))
  | map r => exact congrArg some (List.Forall₂.length_eq (hh.entries r))
  | function => rfl

lemma indexOf_eq (hh : Heap.Like P h h') {a b : Value} (hab : Like P a b) (hv : Like P v w) :
    indexOf h a v = indexOf h' b w := by
  have hitem {xs ys : List Value} (hxs : Like P xs ys) :
      (xs.findIdx? fun v => h.same v a) = ys.findIdx? fun w => h'.same w b := by
    induction hxs with
    | nil => rfl
    | cons hx _ ih => rw [List.findIdx?_cons, List.findIdx?_cons, hh.same_eq hx hab, ih]
  have hkey {es fs : List (String × Value)} (hes : Like P es fs) :
      (es.find? fun e => h.same e.2 a).map Prod.fst = (fs.find? fun e => h'.same e.2 b).map Prod.fst := by
    induction hes with
    | nil => rfl
    | cons hx _ ih =>
      rw [List.find?_cons, List.find?_cons, hh.same_eq hx.2 hab]
      split
      · exact congrArg some hx.1
      · exact ih
  cases hv with
  | scalar v =>
    cases v with
    | undefined => rfl
    | string | boolean | number =>
      exact congrArg Value.boolean (hh.same_eq (Value.Like.scalar _) hab)
  | list r => rw [indexOf, indexOf, hitem (hh.items r)]
  | map r =>
    have hfound := hkey (hh.entries r)
    rw [indexOf, indexOf]
    cases hl : (h.entries r).find? fun e => h.same e.2 a <;>
      cases hr : (h'.entries r).find? fun e => h'.same e.2 b <;> simp_all
  | function hs ho =>
    exact congrArg Value.boolean (hh.same_eq (Value.Like.function hs ho) hab)

lemma like_itemAt (hxs : Like P xs ys) (index : Int64) : Like P (itemAt xs index) (itemAt ys index) := by
  rw [itemAt, itemAt, List.Forall₂.length_eq hxs]
  refine like_getD ?_ Value.like_undefined
  cases place? index ys.length with
  | none => exact .none
  | some i => exact like_getElem? hxs i

lemma like_putItem (hxs : Like P xs ys) (i : Nat) (hv : Like P v w) :
    Like P (putItem xs i v) (putItem ys i w) := by
  rw [putItem, putItem, List.Forall₂.length_eq hxs]
  split
  · exact like_set hxs hv i
  · exact like_append (like_append hxs (like_replicate Value.like_undefined _)) (like_singleton hv)

def Binding.Like (P : ScopePairs) (b b' : Binding) : Prop :=
  List.Forall₂ (fun x y => x.1 = y.1 ∧ Paired.Like P x.2 y.2) b b'

lemma Binding.Like.mono (hle : ∀ s t, P s t → Q s t) {b b' : Binding} (hb : Binding.Like P b b') :
    Binding.Like Q b b' :=
  List.Forall₂.imp (fun _ _ h => ⟨h.1, Paired.mono hle h.2⟩) hb

lemma like_bindPositional (params : List (String × Option Expr)) (hxs : Like P xs ys) :
    Binding.Like P (bindPositional params xs) (bindPositional params ys) := by
  induction params generalizing xs ys with
  | nil => exact .nil
  | cons p params ih =>
    cases hxs with
    | nil => exact .cons ⟨rfl, .none⟩ (ih like_nil)
    | cons hx hrest => exact .cons ⟨rfl, .some hx⟩ (ih hrest)

inductive BindsLike (P : ScopePairs) : Except Fault Binding → Except Fault Binding → Prop
  | error (fault : Fault) : BindsLike P (.error fault) (.error fault)
  | ok {b b' : Binding} : Binding.Like P b b' → BindsLike P (.ok b) (.ok b')

lemma BindsLike.bind {x y : Except Fault Binding} {f g : Binding → Except Fault Binding}
    (hxy : BindsLike P x y) (hfg : ∀ {b b'}, Binding.Like P b b' → BindsLike P (f b) (g b')) :
    BindsLike P (x >>= f) (y >>= g) := by
  cases hxy with
  | error fault => exact .error fault
  | ok hb => exact hfg hb

lemma BindsLike.map {x y : Except Fault Binding} {f g : Binding → Binding} (hxy : BindsLike P x y)
    (hfg : ∀ {b b'}, Binding.Like P b b' → Binding.Like P (f b) (g b')) :
    BindsLike P (x.map f) (y.map g) := by
  cases hxy with
  | error fault => exact .error fault
  | ok hb => exact .ok (hfg hb)

lemma like_bindNamed (name : String) (hv : Like P v w) {b b' : Binding} (hb : Binding.Like P b b') :
    BindsLike P (bindNamed name v b) (bindNamed name w b') := by
  induction hb with
  | nil => exact .error _
  | @cons x y rest rest' hxy hrest ih =>
    obtain ⟨p, bound⟩ := x
    obtain ⟨q, bound'⟩ := y
    obtain ⟨rfl, hbound⟩ : p = q ∧ Paired.Like P bound bound' := hxy
    have hsome : bound.isSome = bound'.isSome := by cases hbound <;> rfl
    rw [bindNamed, bindNamed, hsome]
    split
    · split
      · exact .error _
      · exact .ok (.cons ⟨rfl, .some hv⟩ hrest)
    · exact ih.map fun hrest => .cons ⟨rfl, hbound⟩ hrest

lemma like_bind (params : List (String × Option Expr)) (hxs : Like P xs ys)
    {named named' : List (String × Value)} (hnamed : Like P named named') :
    BindsLike P (Eval.bind params xs named) (Eval.bind params ys named') := by
  have hall {b b' : Binding} (hb : Binding.Like P b b') :
      BindsLike P (named.foldlM (fun b arg => bindNamed arg.1 arg.2 b) b)
        (named'.foldlM (fun b arg => bindNamed arg.1 arg.2 b) b') := by
    induction hnamed generalizing b b' with
    | nil => exact .ok hb
    | @cons x y _ _ hxy _ ih =>
      obtain ⟨k, v⟩ := x
      obtain ⟨k', w⟩ := y
      obtain ⟨rfl, hv⟩ : k = k' ∧ Paired.Like P v w := hxy
      rw [List.foldlM_cons, List.foldlM_cons]
      exact (like_bindNamed k hv hb).bind ih
  rw [Eval.bind, Eval.bind, List.Forall₂.length_eq hxs]
  split
  · exact .error _
  · exact hall (like_bindPositional params hxs)

end Eval

structure Counter.Like (P : ScopePairs) (c c' : Counter) : Prop where
  value : Paired.Like P c.value c'.value
  count : c.count = c'.count
  atMost : c.atMost = c'.atMost
  atLeast : c.atLeast = c'.atLeast
  counted : c.counted = c'.counted
  outOf : c.outOf = c'.outOf

instance : Paired Counter where
  scopes c := Paired.scopes c.value
  Like := Counter.Like
  imp h hc := { hc with value := Paired.imp h hc.value }
  self hc := { hc with value := Paired.self hc.value }

structure Distribution.Like (P : ScopePairs) (d d' : Distribution) : Prop where
  counters : Paired.Like P d.counters d'.counters
  total : d.total = d'.total
  aggregated : d.aggregated = d'.aggregated

instance : Paired Distribution where
  scopes d := Paired.scopes d.counters
  Like := Distribution.Like
  imp h hd := { hd with counters := Paired.imp h hd.counters }
  self hd := { hd with counters := Paired.self hd.counters }

inductive Outcome.Like (P : ScopePairs) : Outcome → Outcome → Prop
  | value {v w : Value} : Paired.Like P v w → Like P (.value v) (.value w)
  | distribution {d d' : Distribution} : Paired.Like P d d' → Like P (.distribution d) (.distribution d')

instance : Paired Outcome where
  scopes
    | .value v => Paired.scopes v
    | .distribution d => Paired.scopes d
  Like := Outcome.Like
  imp h ho := by
    cases ho with
    | value hv => exact .value (Paired.imp h hv)
    | distribution hd => exact .distribution (Paired.imp h hd)
  self ho := by
    cases ho with
    | value hv => exact .value (Paired.self hv)
    | distribution hd => exact .distribution (Paired.self hd)

structure DiceRecord.Like (P : ScopePairs) (r r' : DiceRecord) : Prop where
  die : Paired.Like P r.die r'.die
  results : Paired.Like P r.results r'.results

instance : Paired DiceRecord where
  scopes r := Paired.scopes r.die ++ Paired.scopes r.results
  Like := DiceRecord.Like
  imp h hr := ⟨Paired.imp_left h hr.die, Paired.imp_right h hr.results⟩
  self hr := ⟨Paired.self hr.die, Paired.self hr.results⟩

structure OutputRecord.Like (P : ScopePairs) (r r' : OutputRecord) : Prop where
  mode : r.mode = r'.mode
  name : r.name = r'.name
  expression : r.expression = r'.expression
  kind : r.kind = r'.kind
  outcome : Paired.Like P r.outcome r'.outcome
  dice : Paired.Like P r.dice r'.dice

instance : Paired OutputRecord where
  scopes r := Paired.scopes r.outcome ++ Paired.scopes r.dice
  Like := OutputRecord.Like
  imp h hr := { hr with outcome := Paired.imp_left h hr.outcome, dice := Paired.imp_right h hr.dice }
  self hr := { hr with outcome := Paired.self hr.outcome, dice := Paired.self hr.dice }

structure InFlight.Like (P : ScopePairs) (c c' : InFlight) : Prop where
  mode : c.mode = c'.mode
  dice : Paired.Like P c.dice c'.dice

instance : Paired InFlight where
  scopes c := Paired.scopes c.dice
  Like := InFlight.Like
  imp h hc := { hc with dice := Paired.imp h hc.dice }
  self hc := { hc with dice := Paired.self hc.dice }

structure RecordLog.Like (P : ScopePairs) (log log' : RecordLog) : Prop where
  records : Paired.Like P log.records log'.records
  dice : Paired.Like P log.dice log'.dice
  current : Paired.Like P log.current log'.current

lemma Distribution.like_incr (hh : Heap.Like P h h') {d d' : Distribution} (hd : Like P d d')
    (hv : Paired.Like P v w) : Like P (d.incr h v) (d'.incr h' w) := by
  have hcount {cs cs' : List Counter} (hcs : Paired.Like P cs cs') :
      Paired.Like P (countIn h v cs) (countIn h' w cs') := by
    induction hcs with
    | nil => exact like_singleton ⟨hv, rfl, rfl, rfl, rfl, rfl⟩
    | @cons c c' _ _ hc hrest ih =>
      have hc : Counter.Like P c c' := hc
      rw [countIn, countIn, hh.same_eq hc.value hv]
      split
      · exact like_cons { hc with count := congrArg (· + 1) hc.count } hrest
      · exact like_cons hc ih
  exact ⟨hcount hd.counters, congrArg (· + 1) hd.total, rfl⟩

lemma Distribution.like_aggregate (hh : Heap.Like P h h') {d d' : Distribution} (hd : Like P d d') :
    Like P (d.aggregate h) (d'.aggregate h') := by
  have haccumulate {cs cs' : List Counter} (hcs : Paired.Like P cs cs') (total before : Nat) :
      Paired.Like P (accumulate total before cs) (accumulate total before cs') := by
    induction hcs generalizing before with
    | nil => exact like_nil
    | @cons c c' _ _ hc _ ih =>
      have hc : Counter.Like P c c' := hc
      rw [accumulate, accumulate, hc.count]
      exact like_cons ⟨hc.value, rfl, rfl, rfl, rfl, rfl⟩ (ih _)
  have hsorted : Paired.Like P (sorted h d.counters) (sorted h' d'.counters) := by
    refine like_mergeSort hd.counters fun {a b c e} hab hcd => ?_
    rw [hh.order_eq (Counter.Like.value hab) (Counter.Like.value hcd)]
  rw [aggregate, aggregate, hd.aggregated, hd.total]
  split
  · exact hd
  · exact ⟨haccumulate hsorted _ 0, rfl, rfl⟩

namespace RecordLog

variable {log log' : RecordLog}

def scopes (log : RecordLog) : List ScopeId :=
  Paired.scopes (log.records, log.dice, log.current)

lemma Like.imp (h : ∀ s ∈ log.scopes, ∀ t ∈ log'.scopes, P s t → Q s t) (hlog : Like P log log') :
    Like Q log log' := by
  obtain ⟨hrecords, hdice, hcurrent⟩ : Paired.Like Q (log.records, log.dice, log.current)
      (log'.records, log'.dice, log'.current) :=
    Paired.imp h ⟨hlog.records, hlog.dice, hlog.current⟩
  exact ⟨hrecords, hdice, hcurrent⟩

lemma Like.mono (hle : ∀ s t, P s t → Q s t) (hlog : Like P log log') : Like Q log log' :=
  hlog.imp fun s _ t _ => hle s t

lemma Like.self (hlog : Like P log log) : Like (.diagonal fun s => P s s) log log :=
  ⟨Paired.self hlog.records, Paired.self hlog.dice, Paired.self hlog.current⟩

lemma Like.isSampling_eq (hlog : Like P log log') : log.isSampling = log'.isSampling := by
  have hany {o o' : Option InFlight} (ho : Paired.Like P o o') :
      (o.any fun c => c.mode == .sample) = o'.any fun c => c.mode == .sample := by
    cases ho with
    | some hc => exact congrArg (· == _) (InFlight.Like.mode hc)
    | none => rfl
  exact hany hlog.current

lemma Like.throw (hlog : Like P log log') {r r' : DiceRecord} (hr : Paired.Like P r r') :
    Like P (log.throw r) (log'.throw r') := by
  have hcurrent {o o' : Option InFlight} (ho : Paired.Like P o o') : Paired.Like P
      (o.map fun c => { c with dice := c.dice.push r })
      (o'.map fun c => { c with dice := c.dice.push r' }) := by
    cases ho with
    | some hc =>
      have hc : InFlight.Like P _ _ := hc
      exact .some ⟨hc.mode, like_push hc.dice hr⟩
    | none => exact .none
  rw [RecordLog.throw, RecordLog.throw, hlog.isSampling_eq]
  split
  · exact hlog
  · exact ⟨hlog.records, like_push hlog.dice hr, hcurrent hlog.current⟩

lemma Like.finish (hlog : Like P log log') (name : String) (e : Expr) (kind : Option Kind)
    {o o' : Outcome} (ho : Paired.Like P o o') :
    Like P (log.finish name e kind o) (log'.finish name e kind o') := by
  obtain ⟨records, dice, current⟩ := log
  obtain ⟨records', dice', current'⟩ := log'
  obtain ⟨hrecords, hdice, hcurrent⟩ := hlog
  cases hcurrent with
  | none => exact ⟨hrecords, hdice, .none⟩
  | some hc =>
    exact ⟨like_push hrecords ⟨InFlight.Like.mode hc, rfl, rfl, rfl, ho, InFlight.Like.dice hc⟩, hdice,
      .none⟩

lemma Like.abandon (hlog : Like P log log') : Like P log.abandon log'.abandon :=
  ⟨hlog.records, hlog.dice, .none⟩

lemma Like.aggregate (hh : Heap.Like P h h') (hlog : Like P log log') :
    Like P (log.aggregate h) (log'.aggregate h') := by
  have houtcome {o o' : Outcome} (ho : Paired.Like P o o') :
      Paired.Like P (o.aggregate h) (o'.aggregate h') := by
    cases ho with
    | value hv => exact .value hv
    | distribution hd => exact .distribution (Distribution.like_aggregate hh hd)
  refine ⟨like_mapArray (fun {r r'} hr => ?_) hlog.records, hlog.dice, hlog.current⟩
  have hr : OutputRecord.Like P r r' := hr
  exact { hr with outcome := houtcome hr.outcome }

lemma like_empty : Like P empty empty := ⟨DiceLang.like_empty, DiceLang.like_empty, .none⟩

end RecordLog

end DiceLang

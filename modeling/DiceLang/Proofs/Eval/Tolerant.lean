import DiceLang.Proofs.Eval.Derived
import DiceLang.Proofs.Lists

/-! What the walks over values make, and logics in which every walk may be given up. Of such a logic
only the rules are left to be shown: all evaluations follow them. -/

namespace DiceLang

variable {code : Expr → Prop}

lemma Heap.code_of_exprWithin (hc : Closed code) {h : Heap} (hh : h.Made code) {depth : Nat}
    {v : Value} (hv : v.Made code) {e : Expr} (he : h.exprWithin depth v = some e) : code e := by
  induction depth generalizing v e with
  | zero => cases he
  | succ depth ih =>
    cases v with
    | scalar s =>
      cases he
      exact hc.scalar s
    | function i held f owner =>
      cases he
      exact hc.lambda hv.1.1 hv.1.2
    | list r =>
      obtain ⟨es, hes, rfl⟩ := Option.map_eq_some_iff.mp he
      apply hc.list
      intro e hmem
      obtain ⟨w, hw, hwe⟩ := exists_of_mem_mapM hes hmem
      exact ih (hh.items r w hw) hwe
    | map r =>
      obtain ⟨es, hes, rfl⟩ := Option.map_eq_some_iff.mp he
      apply hc.map
      intro x hmem
      obtain ⟨w, hw, hwx⟩ := exists_of_mem_mapM hes hmem
      obtain ⟨e, hwe, rfl⟩ := Option.map_eq_some_iff.mp hwx
      exact ih (hh.entries r w hw) hwe

lemma Dice.made_throw {h : Heap} (hh : h.Made code) (attempts : Nat) (die : Value) (g : Generator) :
    h.Becomes code (throw attempts die h g).2.1 ∧
      ∀ v, (throw attempts die h g).1 = .face v → v.Made code := by
  unfold throw
  split
  · split
    · exact ⟨.refl hh, by rintro _ ⟨⟩; trivial⟩
    · split
      · exact ⟨.refl hh, by rintro _ ⟨⟩; trivial⟩
      · exact ⟨.refl hh, by rintro _ ⟨⟩⟩
  next r =>
    dsimp only
    split
    · exact ⟨.refl hh, by rintro _ ⟨⟩; trivial⟩
    · split
      · refine ⟨.refl hh, ?_⟩
        rintro _ ⟨⟩
        rw [List.getD_eq_getElem?_getD]
        exact Value.made_getD fun v hv => hh.items r v (List.mem_of_getElem? hv)
      · exact ⟨.refl hh, by rintro _ ⟨⟩⟩
  next r =>
    dsimp only
    split
    · exact ⟨.refl hh, by rintro _ ⟨⟩; trivial⟩
    · split
      · refine ⟨Heap.becomes_newMap hh fun e he => ?_, by rintro _ ⟨⟩; trivial⟩
        exact hh.entries r e (List.mem_of_getElem? (Option.mem_toList.mp he))
      · exact ⟨.refl hh, by rintro _ ⟨⟩⟩
  · exact ⟨.refl hh, by rintro _ ⟨⟩⟩
  · exact ⟨.refl hh, by rintro _ ⟨⟩⟩

lemma Generator.perm_shuffle {α : Type} {attempts : Nat} {items items' : List α} {g g' : Generator}
    (h : g.shuffle attempts items = some (items', g')) : items'.Perm items := by
  have hfrom (i : Nat) (xs : Array α) (g : Generator) (ys : Array α) (g' : Generator)
      (h : shuffleFrom attempts i xs g = some (ys, g')) : ys.toList.Perm xs.toList := by
    induction i generalizing xs g with
    | zero =>
      cases h
      exact .refl _
    | succ i ih =>
      rw [shuffleFrom] at h
      split at h
      · cases h
      · refine (ih _ _ h).trans ?_
        rw [Array.toList_swapIfInBounds]
        exact List.swap_perm _ _ _
  obtain ⟨⟨ys, g₁⟩, hys, heq⟩ := Option.map_eq_some_iff.mp h
  cases heq
  exact hfrom _ _ _ _ _ hys

lemma Generator.mem_of_mem_shuffle {α : Type} {attempts : Nat} {items items' : List α}
    {g g' : Generator} (h : g.shuffle attempts items = some (items', g')) {x : α} (hx : x ∈ items') :
    x ∈ items :=
  (perm_shuffle h).mem_iff.mp hx

namespace Eval

lemma itemAt_of_forall {P : Value → Prop} (hu : P .undefined) {items : List Value}
    (hi : ∀ v ∈ items, P v) (n : Int64) : P (itemAt items n) := by
  rw [itemAt]
  cases hv : (place? n items.length).bind fun i => items[i]? with
  | none => exact hu
  | some v =>
    obtain ⟨i, -, hv⟩ := Option.bind_eq_some_iff.mp hv
    exact hi v (List.mem_of_getElem? hv)

lemma putItem_of_forall {P : Value → Prop} (hu : P .undefined) {items : List Value}
    (hi : ∀ v ∈ items, P v) (i : Nat) {v : Value} (hv : P v) : ∀ w ∈ putItem items i v, P w := by
  rw [putItem]
  split
  · intro w hw
    rcases List.mem_or_eq_of_mem_set hw with hw | rfl
    · exact hi w hw
    · exact hv
  · simp only [List.forall_mem_append, List.forall_mem_cons, List.mem_replicate]
    refine ⟨⟨hi, ?_⟩, hv, List.forall_mem_nil _⟩
    rintro w ⟨-, rfl⟩
    exact hu

namespace Logic

variable {α : Type} {L : Logic code}

lemma rounds (h : L.Asks) {body condition : Expr} (hb : code body) (hc : code condition)
    (form : RepeatForm) {limit : Option Int64} (scope : ScopeId) {fuel : Nat} {results : Array Value}
    (hr : ∀ v ∈ results, v.Made code)
    (hend : (∀ Q : Array Value → Prop, L.Holds (fun _ => unfinished .loop) Q) ∨ ∃ n, limit = some n ∧
      results.size ≤ n.toInt.toNat + 1 ∧ n.toInt.toNat + 2 ≤ results.size + fuel) :
    L.Holds (fun again => rounds again form body condition limit scope fuel results)
      fun vs => ∀ v ∈ vs, v.Made code := by
  induction fuel generalizing results with
  | zero =>
    rcases hend with hend | ⟨n, -, hle, hge⟩
    · exact hend _
    · omega
  | succ fuel ih =>
    have hpush (v : Value) (hv : v.Made code) : ∀ w ∈ results.push v, w.Made code := by
      intro w hw
      rcases Array.mem_push.mp hw with hw | rfl
      · exact hr w hw
      · exact hv
    -- A round that does not reach the limit leaves fuel for the rounds up to it.
    have hmore (v : Value) (hv : v.Made code) (rounds : Nat)
        (hrounds : rounds = results.size ∨ rounds = results.size + 1 ∧ form ≠ .before)
        (hlimit : ¬ reached form limit rounds = true) :
        L.Holds (fun again => Eval.rounds again form body condition limit scope fuel (results.push v))
          fun vs => ∀ v ∈ vs, v.Made code := by
      apply ih (hpush v hv)
      refine hend.imp_right ?_
      rintro ⟨n, rfl, hle, hge⟩
      refine ⟨n, rfl, ?_, by rw [Array.size_push]; omega⟩
      rw [Array.size_push]
      cases form with
      | before => simp [reached] at hlimit; omega
      | after | once => simp [reached] at hlimit; omega
    cases form with
    | before =>
      simp only [Eval.rounds]
      split_ifs with hlimit
      · exact L.ret hr
      · refine L.bind (boolean h scope hc) fun b _ => ?_
        cases b with
        | true => exact L.bind (h body scope none hb) fun v hv => hmore v hv.made _ (.inl rfl) hlimit
        | false => exact L.ret hr
    | after | once =>
      simp only [Eval.rounds]
      refine L.bind (h body scope none hb) fun v hv => ?_
      split_ifs with hlimit
      · exact L.ret (hpush v hv.made)
      · refine L.bind (boolean h scope hc) fun b _ => ?_
        rw [Array.size_push] at hlimit
        cases b with
        | true => exact hmore v hv.made _ (.inr ⟨rfl, nofun⟩) hlimit
        | false => exact L.ret (hpush v hv.made)

lemma repeating (h : L.Asks) (scope : ScopeId) (form : RepeatForm) {body condition : Expr}
    (hb : code body) (hc : code condition) {limit : Option Expr} (hl : ∀ e ∈ limit, code e)
    (hend : (∀ Q : Array Value → Prop, L.Holds (fun _ => unfinished .loop) Q) ∨ limit.isSome) :
    L.Holds (fun again => repeating again scope form body condition limit)
      fun v => v.Made code ∧ v.kind = .list := by
  have hloop (n : Option Int64)
      (hn : (∀ Q : Array Value → Prop, L.Holds (fun _ => unfinished .loop) Q) ∨ n.isSome) :
      L.Holds (fun again => do
        let bound := roundBound (← Eval.budget) n
        let results ← Eval.inScope scope fun inner =>
          Eval.rounds again form body condition n inner bound #[]
        Eval.newList results.toList) fun v => v.Made code ∧ v.kind = .list := by
    refine L.bind L.budget fun budget _ => ?_
    refine L.bind (L.inScope scope fun inner => rounds h hb hc form inner (by simp) ?_) ?_
    · refine hn.imp_right fun hn => ?_
      obtain ⟨n, rfl⟩ := Option.isSome_iff_exists.mp hn
      exact ⟨n, rfl, Nat.zero_le _, by simp [roundBound]⟩
    · intro results hr
      exact L.newList (by simpa using hr)
  cases limit with
  | none => exact hloop none (hend.imp_right nofun)
  | some e => exact L.bind (number h scope (hl e rfl)) fun n _ => hloop (some n) (.inr rfl)

structure Tolerates (L : Logic code) : Prop where
  unfinished {α : Type} {Q : α → Prop} (w : Work) : L.Holds (fun _ => (unfinished w : Eval α)) Q
  throwDie (die : Value) : L.Holds (fun _ => throwDie die) fun o => ∀ v, o = .face v → v.Made code
  shuffle {vs : List Value} : (∀ v ∈ vs, v.Made code) →
    L.Holds (fun _ => shuffle vs) fun vs => ∀ v ∈ vs, v.Made code

variable (t : L.Tolerates)

include t

lemma within {leaf : Again → Value → Eval α} {zero : α} {add : α → α → α}
    (hleaf : ∀ v : Value, v.Made code → v.container? = none →
      L.Holds (fun again => leaf again v) fun _ => True)
    (depth : Nat) (path : List Container) {v : Value} (hv : v.Made code) :
    L.Holds (fun again =>
      (Folding.mk Eval.contents (leaf again) zero add (Eval.unfinished .convert)).within depth path v)
      fun _ => True := by
  induction depth generalizing path v with
  | zero => exact t.unfinished _
  | succ depth ih =>
    simp only [Folding.within]
    split
    · exact hleaf v hv ‹_›
    next c _ =>
      split
      · exact L.ret trivial
      · refine L.bind (L.contents c) fun vs hvs => ?_
        refine L.foldlM (Q := fun _ => True) (fun _ w _ hw => ?_) hvs trivial
        exact L.bind (ih _ hw) fun _ _ => L.ret trivial

omit t in
lemma leaf_text (h : L.Asks) {v : Value} (hv : v.Made code) (hc : v.container? = none) :
    L.Holds (fun again => (textFolding again).leaf v) fun _ => True := by
  cases v with
  | scalar s => exact L.ret trivial
  | list | map => cases hc
  | function i held f owner =>
    refine L.bind (callFor h hv .string rfl) fun w _ => ?_
    split <;> exact L.ret trivial

omit t in
lemma leaf_number (h : L.Asks) {v : Value} (hv : v.Made code) (hc : v.container? = none) :
    L.Holds (fun again => (numberFolding again).leaf v) fun _ => True := by
  cases v with
  | scalar s => exact L.ret trivial
  | list | map => cases hc
  | function i held f owner =>
    refine L.bind (callFor h hv .number rfl) fun w _ => ?_
    split <;> exact L.ret trivial

lemma wrap (hclosed : Closed code) (scope : ScopeId) {v : Value} (hv : v.Made code) :
    L.Holds (fun _ => wrap scope v) fun w => w.Made code ∧ w.kind = .function := by
  refine L.read (fun _ _ _ _ => rfl) fun m hm => ?_
  cases he : m.env.heap.expr? v with
  | some e =>
    refine L.newFunction scope ⟨?_, List.forall_mem_nil _⟩ trivial
    exact Heap.code_of_exprWithin hclosed hm hv he
  | none => exact t.unfinished _

omit t in
variable (L) in
lemma own {container v : Value} (hc : container.Made code) (hv : v.Made code) :
    L.Holds (fun _ => own container v) fun w => w.Made code := by
  cases v with
  | scalar | list | map => exact L.ret hv
  | function i scope f owner => exact L.imp (L.newFunction scope hv.1 hc) fun _ hw => hw.1

lemma readAt {h : Heap} (hh : h.Made code) {site : Expr} (hs : code site) {container : Value}
    (hc : container.Made code) (path : List Container) (depth : Nat) (sub : Value) :
    L.Holds (fun _ => readAt h site container path depth sub) fun v => v.Made code := by
  induction depth generalizing path sub with
  | zero => exact t.unfinished _
  | succ depth ih =>
    have hlist (subs : ListRef) : L.Holds
        (fun _ => do
          Eval.newList (← (h.items subs).mapM (Eval.readAt h site container (.list subs :: path) depth)))
        fun v => v.Made code := by
      refine L.bind (L.mapM (P := fun _ => True) (fun sub _ => ih _ sub) fun _ _ => trivial) ?_
      exact fun vs hvs => L.imp (L.newList hvs) fun _ hv => hv.1
    have hmap (subs : MapRef) : L.Holds
        (fun _ => do
            let read (e : String × Value) : Eval (String × Value) :=
              return (e.1, ← Eval.readAt h site container (.map subs :: path) depth e.2)
            Eval.newMap (← (h.entries subs).mapM read)) fun v => v.Made code := by
      refine L.bind (L.mapM (P := fun _ => True) (Q := fun x => x.2.Made code) (fun e _ => ?_)
        fun _ _ => trivial) ?_
      · exact L.bind (ih _ e.2) fun v hv => L.ret hv
      · exact fun es hes => L.imp (L.newMap hes) fun _ hv => hv.1
    unfold Eval.readAt
    dsimp only
    split
    · exact L.fail trivial hs
    · exact L.fail trivial hs
    · exact L.fail trivial hs
    · exact L.own hc (itemAt_of_forall trivial (hh.items _) _)
    · exact L.own hc (Value.made_getD fun v hv => Entries.forall_of_get? (hh.entries _) hv)
    · exact hlist _
    · exact hlist _
    · exact hmap _
    · exact hmap _
    · exact L.fail trivial hs

lemma makeRoom (n : Nat) : L.Holds (fun _ => makeRoom n) fun _ => True := by
  unfold Eval.makeRoom
  split
  · exact L.ret trivial
  · exact t.unfinished _

lemma writeAt (c : L.Converts) {site : Expr} (hs : code site) (scope : ScopeId)
    (container : Value) (path : List Container) (depth : Nat) (sub : Value) {v : Value}
    (hv : v.Made code) :
    L.Holds (fun again => writeAt again site scope container path depth sub v) fun _ => True := by
  induction depth generalizing path sub v with
  | zero => exact t.unfinished _
  | succ depth ih =>
    have hlist (subs : ListRef) : L.Holds
        (fun again => do
            let values ← Eval.elements again scope v
            let write (x : Value × Nat) : Eval Unit :=
              Eval.writeAt again site scope container (.list subs :: path) depth x.1
                (values.getD x.2 .undefined)
            (← Eval.items subs).zipIdx.forM write) fun _ => True := by
      refine L.bind (elements c scope hv) fun values hvalues => L.bind (L.items subs) fun all _ => ?_
      refine L.forM (P := fun _ => True) (fun x _ => ih _ x.1 ?_) fun _ _ => trivial
      rw [List.getD_eq_getElem?_getD]
      exact Value.made_getD fun w hw => hvalues w (List.mem_of_getElem? hw)
    have hmap (subs : MapRef) : L.Holds
        (fun again => do
            let values ← Eval.namedElements again scope v
            let write (x : String × Value) : Eval Unit :=
              Eval.writeAt again site scope container (.map subs :: path) depth x.2
                ((Entries.get? values x.1).getD .undefined)
            (← Eval.entries subs).forM write) fun _ => True := by
      refine L.bind (namedElements c scope hv) fun values hvalues => ?_
      refine L.bind (L.entries subs) fun all _ => ?_
      refine L.forM (P := fun _ => True) (fun x _ => ih _ x.2 ?_) fun _ _ => trivial
      exact Value.made_getD fun w hw => Entries.forall_of_get? hvalues hw
    unfold Eval.writeAt
    dsimp only
    split
    · exact L.fail trivial hs
    · exact L.fail trivial hs
    · exact L.fail trivial hs
    · refine L.bind (L.items _) fun old hold => ?_
      split
      · have hset (i : Nat) := L.setItems ‹_› (putItem_of_forall trivial hold i hv)
        split
        · exact L.bind (makeRoom t _) fun _ _ => hset _
        · exact hset _
      · exact L.fail trivial hs
    · exact L.bind (L.entries _) fun old hold => L.setEntries _ (Entries.forall_put hold hv)
    · exact hlist _
    · exact hlist _
    · exact hmap _
    · exact hmap _
    · exact L.fail trivial hs

lemma throwPlain {site : Expr} (hs : code site) {die : Value} (hd : die.kind ≠ .function) :
    L.Holds (fun again => Eval.throwOne again site die) fun v => v.Made code := by
  unfold Eval.throwOne
  split
  · exact absurd rfl hd
  · refine L.bind (t.throwDie _) fun o ho => ?_
    split
    · exact L.ret (ho _ rfl)
    · exact L.fail trivial hs
    · exact t.unfinished _
    · exact t.unfinished _

lemma converts (hclosed : Closed code) (h : L.Asks) : L.Converts where
  asks := h
  text hv := L.bind L.budget fun depth _ =>
    within t (fun _ => leaf_text h) depth [] hv
  number hv := L.bind L.budget fun depth _ =>
    within t (fun _ => leaf_number h) depth [] hv
  wrap scope _ hv := wrap t hclosed scope hv

lemma serves (hclosed : Closed code) (h : L.Asks) : L.Serves where
  toConverts := converts t hclosed h
  closed := hclosed
  subscript key hs hc := L.read (fun _ _ _ _ => rfl) fun m hm => readAt t hm hs hc [] _ key
  writeAt scope container _ key hs _ hv := L.bind L.budget fun depth _ =>
    writeAt t (converts t hclosed h) hs scope container [] depth key hv
  makeRoom := makeRoom t
  throwPlain hs hd := throwPlain t hs hd
  shuffle := t.shuffle
  repeating scope hrepeat := by
    have hparts := fun c hc => hclosed.child hrepeat (c := c) hc
    simp only [Expr.children, List.forall_mem_cons, Option.mem_toList] at hparts
    exact repeating h scope _ hparts.1 hparts.2.1 hparts.2.2 (.inl fun _ => t.unfinished _)

omit t in
lemma asks_evaluate {L : Again → Logic code} (u : Uniform L) (ht : ∀ again, (L again).Tolerates)
    (hclosed : Closed code) : (L evaluate).Asks := by
  intro e scope target he
  have hwithin := asks_evaluateWithin u fun room h => serves (ht (evaluateWithin room)) hclosed h
  have hread : (L evaluate).Holds
      (fun _ => do evaluateWithin (maxDepth - (← get).depth) e scope target) (Answers code target) :=
    (L evaluate).read (fun _ _ _ _ => rfl) fun m _ =>
      u.transfer rfl (hwithin (maxDepth - m.depth) e scope target he)
  exact u.transfer rfl hread

end Logic

end Eval

end DiceLang

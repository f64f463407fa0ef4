import DiceLang.Proofs.Eval.Ending
import DiceLang.Proofs.Random.Rejection
import DiceLang.Proofs.Session
import DiceLang.Proofs.Value.Nesting

/-! Runaway evaluations. If every loop with a condition has a limit, a run ends, or else the work at which it
is given up has no end for a reason that is to be seen in the state. -/

namespace DiceLang

open Eval

def Expr.HasLimit : Expr → Prop
  | .repeating _ _ _ _ limit => limit.isSome
  | _ => True

def Expr.Limited (e : Expr) : Prop := ∀ n, Expr.Within n e → n.HasLimit

lemma Expr.limited_iff {e : Expr} : e.Limited ↔ e.HasLimit ∧ ∀ c ∈ e.children, c.Limited :=
  Expr.forall_within

lemma Expr.limited_scalar (loc : Location) (v : Scalar) : (Expr.scalar loc v).Limited :=
  limited_iff.mpr ⟨trivial, List.forall_mem_nil _⟩

lemma Expr.limited_var (loc : Location) (name : String) : (Expr.var loc name).Limited :=
  limited_iff.mpr ⟨trivial, List.forall_mem_nil _⟩

lemma Expr.limited_binary {left right : Expr} (hl : left.Limited) (hr : right.Limited) (loc : Location)
    (op : BinaryOp) : (Expr.binary loc op left right).Limited :=
  limited_iff.mpr ⟨trivial, by simpa [children] using ⟨hl, hr⟩⟩

lemma closed_limited : Closed Expr.Limited :=
  closed_within (fun _ => trivial) (fun _ => trivial) (fun _ => trivial) fun _ _ => trivial

/-- Why there is no end to the work at which a run is given up, as seen in the state that it leaves. A loop
is never given up. -/
inductive Machine.Endless (m : Machine) : Work → Prop
  /-- The value to be copied contains itself, or something in it does. -/
  | copy {v : Value} : ¬ m.env.heap.Acyclic v → Endless m (.copy v.container?)
  /-- One of the containers of subscripts to read at contains itself. -/
  | read {path : List Container} {c : Container} : c ∈ path →
      Relation.TransGen m.env.heap.Holds c.value c.value → Endless m (.read path)
  /-- A container of subscripts to write at is met again while its own places are written to, or there are
  as many containers as the budget. -/
  | write {path : List Container} : ¬ path.Nodup ∨ m.settings.budget ≤ m.env.heap.size →
      Endless m (.write path)
  /-- There are as many containers as a conversion may go through. -/
  | convert : m.settings.budget ≤ m.env.heap.size → Endless m .convert
  /-- No draw was accepted. -/
  | draw : m.generator.Rejects m.settings.budget → Endless m .draw
  /-- So many items have no room. -/
  | makeRoom {n : Nat} : maxItems < n → Endless m (.makeRoom n)

lemma Machine.Endless.of_shares (w : Work) (m m' : Machine) (h : m.Shares m') (hm : m.Endless w) :
    m'.Endless w := by
  cases hm with
  | copy hv => exact .copy (h.heap ▸ hv)
  | read hc hcycle => exact .read hc (h.heap ▸ hcycle)
  | write hpath => exact .write (h.heap ▸ h.settings ▸ hpath)
  | convert hsize => exact .convert (h.heap ▸ h.settings ▸ hsize)
  | draw hd => exact .draw (h.generator ▸ h.settings ▸ hd)
  | makeRoom hn => exact .makeRoom hn

namespace Eval

variable {α : Type} {m n : Machine} {w : Work} {room : Nat}

abbrev limited : Again → Logic Expr.Limited := ending Expr.Limited Machine.Endless.of_shares

lemma containers_of_becomes {code : Expr → Prop} {h h' : Heap} (hb : h.Becomes code h') {c : Container}
    (hc : c ∈ h.containers) : c ∈ h'.containers := by
  simp only [Heap.containers, Finset.mem_union, Finset.mem_image, Finset.mem_range] at hc ⊢
  rcases hc with ⟨i, hi, rfl⟩ | ⟨i, hi, rfl⟩
  · exact .inl ⟨i, hi.trans_le hb.lists, rfl⟩
  · exact .inr ⟨i, hi.trans_le hb.maps, rfl⟩

lemma endless_of_within {again : Again} {leaf : Again → Value → Eval α} {zero : α} {add : α → α → α}
    (hleaf : ∀ v : Value, v.Made Expr.Limited → v.container? = none →
      (limited again).Holds (fun again => leaf again v) fun _ => True)
    {depth : Nat} {path : List Container} {v : Value} (hm : m.Made Expr.Limited)
    (hv : v.Made Expr.Limited) (hpath : path.Nodup) (hin : ∀ c ∈ path, c ∈ m.env.heap.containers)
    (hbudget : path.length + depth = m.settings.budget)
    (h : (Folding.mk contents (leaf again) zero add (unfinished .convert)).within depth path v m =
      .error (.unfinished (w := w)) n) : n.Endless w := by
  induction depth generalizing path v m with
  | zero =>
    cases h
    exact .convert (hbudget ▸ Heap.length_le_size hpath hin)
  | succ depth ih =>
    rw [Folding.within] at h
    cases hc : v.container? with
    | none =>
      rw [hc] at h
      exact (hleaf v hv hc m hm).givenUp w n h
    | some c =>
      rw [hc] at h
      dsimp only at h
      by_cases hmem : c ∈ path
      · rw [if_pos hmem] at h
        cases h
      · rw [if_neg hmem] at h
        rcases error_of_bind h with h | ⟨vs, _, ⟨⟩, h⟩
        · cases h
        obtain ⟨before, x, behind, b, m', heq, hbefore, hx⟩ := error_of_foldlM h
        have hmade := hm.heap.contents c
        rw [heq, List.forall_mem_append, List.forall_mem_cons] at hmade
        have hstep (a : α) (w : Value) (_ : True) (hw : w.Made Expr.Limited) :
            (anyEnding Expr.Limited again).Holds (fun again => do
              return add a (← (Folding.mk contents (leaf again) zero add (unfinished .convert)).within
                depth (c :: path) w)) fun _ => True :=
          (anyEnding Expr.Limited again).bind (Logic.within tolerates_anyEnding
            (fun v hv hc => any_of_ending (hleaf v hv hc)) depth (c :: path) hw)
            fun _ _ => (anyEnding Expr.Limited again).ret trivial
        have hfold := (anyEnding Expr.Limited again).foldlM hstep hmade.1 (b := zero) trivial m hm
        beta_reduce at hfold
        rw [hbefore] at hfold
        have hleads : m.Leads Expr.Limited m' := hfold.leads
        rcases error_of_bind hx with hx | ⟨_, _, _, ⟨⟩⟩
        -- The walks before this one may have run functions, but no container has gone from the heap.
        refine ih (hleads.made hm) hmade.2.1 (List.nodup_cons.mpr ⟨hmem, hpath⟩) ?_ ?_ hx
        · intro c' hc'
          apply containers_of_becomes hleads.heap
          rcases List.mem_cons.mp hc' with rfl | hc'
          · exact Heap.mem_containers (heq ▸ List.mem_append_right _ List.mem_cons_self)
          · exact hin c' hc'
        · rw [hleads.settings, ← hbudget, List.length_cons]
          omega

lemma endless_of_wrap {scope : ScopeId} {v : Value}
    (h : wrap scope v m = .error (.unfinished (w := w)) n) : n.Endless w := by
  rcases error_of_bind h with h | ⟨_, _, ⟨⟩, h⟩
  · cases h
  cases he : m.env.heap.expr? v with
  | some e =>
    rw [he] at h
    cases h
  | none =>
    rw [he] at h
    cases h
    exact .copy (Heap.not_acyclic_of_expr? he)

def GivenUp (C : Work → Machine → Machine → Prop) (p : Eval α) : Prop :=
  ∀ w m n, p m = .error (.unfinished (w := w)) n → C w m n

def ReadsDown (h : Heap) (length : Nat) (w : Work) (_ _ : Machine) : Prop :=
  ∃ path v, w = .read path ∧ path.length = length ∧ h.Descends path v

lemma readsDown_of_readAt {h : Heap} {site : Expr} {container : Value} {path : List Container}
    {depth : Nat} {sub : Value} (hd : h.Descends path sub) :
    GivenUp (ReadsDown h (path.length + depth)) (readAt h site container path depth sub) := by
  induction depth generalizing path sub with
  | zero =>
    rintro _ _ _ ⟨⟩
    exact ⟨path, sub, rfl, rfl, hd⟩
  | succ depth ih =>
    have inside {c : Container} {sub v : Value} (hd : h.Descends path sub) (hc : sub.container? = some c)
        (hv : v ∈ h.contents c) :
        GivenUp (ReadsDown h (path.length + (depth + 1))) (readAt h site container (c :: path) depth v) := by
      have hinner := ih (hd.inside hc hv)
      rwa [List.length_cons, Nat.add_right_comm] at hinner
    have hown (v : Value) : GivenUp (ReadsDown h (path.length + (depth + 1))) (own container v) := by
      intro w m n hr
      cases v <;> cases hr
    have hlist {subs : ListRef} (hd : h.Descends path (.list subs)) :
        GivenUp (ReadsDown h (path.length + (depth + 1)))
          (do newList (← (h.items subs).mapM (readAt h site container (.list subs :: path) depth))) := by
      intro w m n hr
      rcases error_of_bind hr with hr | ⟨_, _, _, ⟨⟩⟩
      obtain ⟨before, x, behind, _, m', heq, -, hx⟩ := error_of_mapM hr
      have hmem : x ∈ h.items subs := heq ▸ List.mem_append_right _ List.mem_cons_self
      exact inside hd rfl hmem w m' n hx
    have hmap {subs : MapRef} (hd : h.Descends path (.map subs)) :
        GivenUp (ReadsDown h (path.length + (depth + 1)))
          (do let read (e : String × Value) : Eval (String × Value) :=
                return (e.1, ← readAt h site container (.map subs :: path) depth e.2)
              newMap (← (h.entries subs).mapM read)) := by
      intro w m n hr
      rcases error_of_bind hr with hr | ⟨_, _, _, ⟨⟩⟩
      obtain ⟨before, x, behind, _, m', heq, -, hx⟩ := error_of_mapM hr
      rcases error_of_bind hx with hx | ⟨_, _, _, ⟨⟩⟩
      have hmem : x ∈ h.entries subs := heq ▸ List.mem_append_right _ List.mem_cons_self
      exact inside hd rfl (List.mem_map_of_mem hmem) w m' n hx
    rw [readAt.eq_def]
    dsimp only
    split
    · exact fun _ _ _ hr => nomatch hr
    · exact fun _ _ _ hr => nomatch hr
    · exact fun _ _ _ hr => nomatch hr
    · exact hown _
    · exact hown _
    · exact hlist hd
    · exact hlist hd
    · exact hmap hd
    · exact hmap hd
    · exact fun _ _ _ hr => nomatch hr

def Gains (p : Eval α) : Prop :=
  ∀ (m : Machine) (v w : Value), m.env.heap.Holds v w → (after (p m)).env.heap.Holds v w

lemma Gains.bind {β : Type} {p : Eval α} {f : α → Eval β} (hp : Gains p) (hf : ∀ a, Gains (f a)) :
    Gains (p >>= f) := by
  intro m v w hw
  have hheld := hp m v w hw
  simp only [Bind.bind, EStateM.bind]
  cases hr : p m with
  | ok a n =>
    rw [hr] at hheld
    exact hf a n v w hheld
  | error e n =>
    rw [hr] at hheld
    exact hheld

lemma gains_mapM {β : Type} {f : α → Eval β} (hf : ∀ a, Gains (f a)) (xs : List α) :
    Gains (xs.mapM f) := by
  induction xs with
  | nil => exact fun _ _ _ hw => hw
  | cons x xs ih =>
    rw [List.mapM_cons]
    exact (hf x).bind fun _ => ih.bind fun _ _ _ _ hw => hw

lemma gains_readAt (h : Heap) (site : Expr) (container : Value) (path : List Container) (depth : Nat)
    (sub : Value) : Gains (readAt h site container path depth sub) := by
  induction depth generalizing path sub with
  | zero => exact fun _ _ _ hw => hw
  | succ depth ih =>
    have hfail (fault : Fault) : Gains (fail site fault : Eval Value) := fun _ _ _ hw => hw
    have hown (v : Value) : Gains (own container v) := by
      intro m a b hw
      cases v <;> exact hw
    have hlist (vs : List Value) : Gains (newList vs) := fun _ _ _ hw => Heap.holds_newList vs hw
    have hmap (es : List (String × Value)) : Gains (newMap es) :=
      fun _ _ _ hw => Heap.holds_newMap es hw
    have hread (path : List Container) (e : String × Value) :
        Gains (do return (e.1, ← readAt h site container path depth e.2)) :=
      (ih path e.2).bind fun _ _ _ _ hw => hw
    rw [readAt.eq_def]
    dsimp only
    split
    · exact hfail _
    · exact hfail _
    · exact hfail _
    · exact hown _
    · exact hown _
    · exact (gains_mapM (ih _) _).bind hlist
    · exact (gains_mapM (ih _) _).bind hlist
    · exact (gains_mapM (hread _) _).bind hmap
    · exact (gains_mapM (hread _) _).bind hmap
    · exact hfail _

lemma endless_of_subscript {site : Expr} {container sub : Value}
    (h : subscript site container sub m = .error (.unfinished (w := w)) n) : n.Endless w := by
  have h : readAt m.env.heap site container [] (m.env.heap.size + 1) sub m =
    .error (.unfinished (w := w)) n := h
  obtain ⟨path, v, rfl, hlength, hd⟩ := readsDown_of_readAt (.start sub) w m n h
  obtain ⟨c, hc, hcycle⟩ := hd.exists_cycle (by rw [hlength, List.length_nil]; omega)
  -- The reading goes by the heap at its start, and what it adds to the heap takes nothing away.
  have hgains := gains_readAt m.env.heap site container [] (m.env.heap.size + 1) sub m
  rw [h] at hgains
  exact .read hc (Relation.TransGen.mono hgains _ _ hcycle)

lemma any_serves {again : Again} (h : (limited again).Asks) : (anyEnding Expr.Limited again).Serves :=
  Logic.serves tolerates_anyEnding closed_limited fun e scope target he =>
    any_of_ending (h e scope target he)

structure Descending (path : List Container) (depth : Nat) (m : Machine) : Prop where
  made : m.Made Expr.Limited
  stored : ∀ c ∈ path, c ∈ m.env.heap.containers
  budget : path.length + depth = m.settings.budget

namespace Descending

variable {path : List Container} {depth : Nat}

lemma leads (hd : Descending path depth m) (h : m.Leads Expr.Limited n) : Descending path depth n :=
  ⟨h.made hd.made, fun c hc => containers_of_becomes h.heap (hd.stored c hc), by rw [h.settings, hd.budget]⟩

lemma inside (hd : Descending path (depth + 1) m) {c : Container} (hc : c ∈ m.env.heap.containers) :
    Descending (c :: path) depth m :=
  ⟨hd.made, List.forall_mem_cons.mpr ⟨hc, hd.stored⟩, by
    rw [← hd.budget, List.length_cons, Nat.add_right_comm, Nat.add_assoc]⟩

lemma endless (hd : Descending path 0 m) : m.Endless (.write path) := by
  refine .write (not_or_of_imp fun hpath => ?_)
  rw [← hd.budget]
  exact Heap.length_le_size hpath hd.stored

end Descending

section Writes

variable {again : Again} {site : Expr} {scope : ScopeId} {container : Value} {path : List Container}
  {depth : Nat} (c : (limited again).Converts) (hs : site.Limited)

include c hs

lemma leads_of_writes {β : Type} {xs : List β} {key value : β → Value}
    (hvalue : ∀ x, (value x).Made Expr.Limited) (hm : m.Made Expr.Limited)
    (h : xs.forM (fun x => writeAt again site scope container path depth (key x) (value x)) m = .ok () n) :
    m.Leads Expr.Limited n := by
  have hends := (anyEnding Expr.Limited again).forM (P := fun _ => True) (fun x _ => Logic.writeAt
    tolerates_anyEnding (any_serves c.asks).toConverts hs scope container path depth (key x) (hvalue x))
    (fun x (_ : x ∈ xs) => trivial) m hm
  beta_reduce at hends
  rw [h] at hends
  exact hends.leads

variable (path) in
lemma endless_of_writes {β γ ι : Type} (subs : Container) (found : Eval ι) (places : ι → List β)
    (key : β → Value) (value : γ → β → Value) {given : Eval γ} {look : Machine → ι} {P : γ → Prop}
    (hgiven : ∀ m : Machine, m.Made Expr.Limited → Ends Expr.Limited (fun w n => n.Endless w) m P (given m))
    (hvalue : ∀ values, P values → ∀ x, (value values x).Made Expr.Limited)
    (hfound : ∀ m, found m = .ok (look m) m)
    (hkey : ∀ m, ∀ x ∈ places (look m), key x ∈ m.env.heap.contents subs)
    (ih : ∀ {path sub v}, v.Made Expr.Limited →
      GivenUp (fun w m n => Descending path depth m → n.Endless w)
        (writeAt again site scope container path depth sub v)) :
    GivenUp (fun w m n => Descending path (depth + 1) m → n.Endless w)
      (given >>= fun values => found >>= fun l => (places l).forM fun x =>
        writeAt again site scope container (subs :: path) depth (key x) (value values x)) := by
  intro w m n h hd
  have hends := hgiven m hd.made
  rcases error_of_bind h with h | ⟨values, m₁, hvalues, h⟩
  · exact hends.givenUp w n h
  have hmade := hvalue values (hends.result values m₁ hvalues)
  rw [hvalues] at hends
  have hd₁ := hd.leads hends.leads
  rw [bind_run (hfound m₁)] at h
  obtain ⟨before, x, behind, m₂, heq, hbefore, hx⟩ := error_of_forM h
  have hmem : x ∈ places (look m₁) := heq ▸ List.mem_append_right _ List.mem_cons_self
  exact ih (hmade x) w m₂ n hx ((hd₁.inside (Heap.mem_containers (hkey m₁ x hmem))).leads
    (leads_of_writes c hs hmade hd₁.made hbefore))

omit c hs in
lemma endless_of_makeRoom (k : Nat) : GivenUp (fun w _ n => n.Endless w) (makeRoom k) := by
  intro w m n h
  rw [makeRoom] at h
  split_ifs at h with hk
  · cases h
  · cases h
    exact .makeRoom (Nat.lt_of_not_le hk)

omit c hs in
lemma endless_of_write_item {r : ListRef} {index : Int64} {v : Value} :
    GivenUp (fun w _ n => n.Endless w) (do
      let old ← items r
      match place? index old.length with
      | some i =>
        if old.length ≤ i then makeRoom (i + 1)
        setItems r (putItem old i v)
      | none => fail site (.invalidSubscript .number)) := by
  intro w m n h
  rcases error_of_bind h with h | ⟨_, _, ⟨⟩, h⟩
  · cases h
  cases hplace : place? index (m.env.heap.items r).length with
  | none =>
    rw [hplace] at h
    cases h
  | some i =>
    rw [hplace] at h
    dsimp only at h
    split at h
    · rcases error_of_bind h with h | ⟨_, _, _, ⟨⟩⟩
      exact endless_of_makeRoom _ w m n h
    · cases h

lemma endless_of_writeAt {sub v : Value} (hv : v.Made Expr.Limited) :
    GivenUp (fun w m n => Descending path depth m → n.Endless w)
      (writeAt again site scope container path depth sub v) := by
  induction depth generalizing path sub v with
  | zero =>
    rintro _ m _ ⟨⟩ hd
    exact hd.endless
  | succ depth ih =>
    have hlist (r : ListRef) := endless_of_writes path c hs (.list r) (items r) (fun vs => vs.zipIdx)
      Prod.fst (fun values x => values.getD x.2 .undefined) (Logic.elements c scope hv)
      (fun values hvalues x => by
        rw [List.getD_eq_getElem?_getD]
        exact Value.made_getD fun w hw => hvalues w (List.mem_of_getElem? hw))
      (fun _ => rfl) (fun _ x hx => List.fst_mem_of_mem_zipIdx hx) ih
    have hmap (r : MapRef) := endless_of_writes path c hs (.map r) (entries r) id Prod.snd
      (fun values x => (Entries.get? values x.1).getD .undefined) (Logic.namedElements c scope hv)
      (fun values hvalues x => Value.made_getD fun w hw => Entries.forall_of_get? hvalues hw)
      (fun _ => rfl) (fun _ x hx => List.mem_map_of_mem hx) ih
    rw [writeAt.eq_def]
    dsimp only
    split
    · exact fun _ _ _ h => nomatch h
    · exact fun _ _ _ h => nomatch h
    · exact fun _ _ _ h => nomatch h
    · exact fun w m n h _ => endless_of_write_item w m n h
    · exact fun _ _ _ h => nomatch h
    · exact hlist _
    · exact hlist _
    · exact hmap _
    · exact hmap _
    · exact fun _ _ _ h => nomatch h

end Writes

lemma endless_of_throw (again : Again) (site : Expr) {die : Value} (hd : die.kind ≠ .function) :
    GivenUp (fun w _ n => n.Endless w) (throwOne again site die) := by
  rw [throwOne.eq_def]
  split
  · exact absurd rfl hd
  · intro w m n h
    rw [bind_run (throwDie_run die m)] at h
    rcases Dice.settled_or_rejects m.settings.budget hd m.env.heap m.generator with
      ⟨v, hface⟩ | ⟨k, hkind⟩ | ⟨hunsettled, hsame, hrejects⟩
    · rw [hface] at h
      cases h
    · rw [hkind] at h
      cases h
    · rw [hunsettled] at h
      cases h
      refine .draw ?_
      dsimp only
      rwa [hsame]

lemma endless_of_shuffle {vs : List Value} (h : shuffle vs m = .error (.unfinished (w := w)) n) :
    n.Endless w := by
  rw [shuffle_run] at h
  cases hg : m.generator.shuffle m.settings.budget vs with
  | some x =>
    rw [hg] at h
    cases h
  | none =>
    rw [hg] at h
    cases h
    exact .draw (Generator.rejects_of_shuffle hg)

lemma converts_limited (h : (limited (evaluateWithin room)).Asks) :
    (limited (evaluateWithin room)).Converts where
  asks := h
  text hv := ending_of_any ((any_serves h).text hv) fun _ _ _ hm hr =>
    endless_of_within (fun _ => Logic.leaf_text h) hm hv List.nodup_nil
      (List.forall_mem_nil _) (Nat.zero_add _) hr
  number hv := ending_of_any ((any_serves h).number hv) fun _ _ _ hm hr =>
    endless_of_within (fun _ => Logic.leaf_number h) hm hv List.nodup_nil
      (List.forall_mem_nil _) (Nat.zero_add _) hr
  wrap scope _ hv := ending_of_any ((any_serves h).wrap scope hv) fun _ _ _ _ hr => endless_of_wrap hr

lemma serves_limited (h : (limited (evaluateWithin room)).Asks) :
    (limited (evaluateWithin room)).Serves where
  toConverts := converts_limited h
  closed := closed_limited
  subscript key hs hc := ending_of_any ((any_serves h).subscript key hs hc) fun _ _ _ _ hr =>
    endless_of_subscript hr
  writeAt scope _ _ key hs hc hv := ending_of_any ((any_serves h).writeAt scope key hs hc hv)
    fun m w n hm hr => endless_of_writeAt (converts_limited h) hs hv w m n hr
      ⟨hm, List.forall_mem_nil _, Nat.zero_add _⟩
  makeRoom k := ending_of_any ((any_serves h).makeRoom k) fun m w n _ hr =>
    endless_of_makeRoom k w m n hr
  throwPlain hs hd := ending_of_any ((any_serves h).throwPlain hs hd) fun m w n _ hr =>
    endless_of_throw _ _ hd w m n hr
  shuffle hvs := ending_of_any ((any_serves h).shuffle hvs) fun _ _ _ _ hr => endless_of_shuffle hr
  repeating scope hrepeat := by
    obtain ⟨hlimit, hparts⟩ := Expr.limited_iff.mp hrepeat
    simp only [Expr.children, List.forall_mem_cons, Option.mem_toList] at hparts
    exact Logic.repeating h scope _ hparts.1 hparts.2.1 hparts.2.2 (.inr hlimit)

lemma asks_limited : (limited evaluate).Asks := fun e scope target he m =>
  Logic.asks_evaluateWithin uniform_ending (fun _ => serves_limited) (maxDepth - m.depth) e scope target
    he m

end Eval

def Machine.selfHeld (budget : Nat) : Machine :=
  { Machine.initial 0 ⟨1, .kind .number, .ofTable [], budget⟩ with
    env := ⟨((Heap.empty.newList [.list ⟨0⟩]).2.newMap [("a", .list ⟨0⟩)]).2,
      Environment.initial.arena⟩ }

lemma Machine.made_selfHeld (code : Expr → Prop) (budget : Nat) : (selfHeld budget).Made code :=
  ⟨(Heap.becomes_newMap (Heap.becomes_newList Heap.made_empty (by simp)).made (by simp)).made, nofun⟩

lemma unfinished_of_writeAt {again : Again} {site : Expr} {scope : ScopeId} {r : ListRef} {m : Machine}
    (hr : m.env.heap.items r = [.list r]) (path : List Container) (depth : Nat) :
    writeAt again site scope (.list r) path depth (.list r) (.list r) m =
      .error (.unfinished (w := .write (List.replicate depth (.list r) ++ path))) m := by
  induction depth generalizing path with
  | zero => rfl
  | succ depth ih =>
    have hvalues : elements again scope (.list r) m = .ok [.list r] m := congrArg (EStateM.Result.ok · m) hr
    have hsubs : items r m = .ok [.list r] m := congrArg (EStateM.Result.ok · m) hr
    rw [writeAt.eq_def]
    show (elements again scope (.list r) >>= _) m = _
    rw [bind_run hvalues, bind_run hsubs, List.replicate_succ', List.append_assoc]
    show (writeAt again site scope (.list r) (.list r :: path) depth (.list r) (.list r) >>= _) m = _
    exact bind_run_error (ih (.list r :: path))

lemma evaluate_var {m : Machine} (hd : m.depth.val < maxDepth) (loc : Location) (name : String)
    (scope : ScopeId) : evaluate (.var loc name) scope none m = .ok (m.env.get scope name) m := by
  rw [evaluate_eq, evaluateOnce, nested_run, dif_pos hd]
  rfl

lemma unfinished_of_self_subscript {m : Machine} (hd : m.depth.val + 1 < maxDepth) {loc : Location}
    {name : String} {scope : ScopeId} {r : ListRef} (hname : m.env.get scope name = .list r)
    (hr : m.env.heap.items r = [.list r]) :
    evaluate (.binary loc .assign (.binary loc .subscript (.var loc name) (.var loc name))
      (.var loc name)) scope none m =
        .error (.unfinished (w := .write (List.replicate m.settings.budget (.list r)))) m := by
  have hd₁ : m.depth.val < maxDepth := by omega
  have hvar : evaluate (.var loc name) scope none (m.deeper hd₁) = .ok (.list r) (m.deeper hd₁) := by
    rw [evaluate_var hd]
    exact congrArg (EStateM.Result.ok · (m.deeper hd₁)) hname
  have hassign : assign evaluate scope (.binary loc .subscript (.var loc name) (.var loc name)) (.list r)
      (m.deeper hd₁) =
        .error (.unfinished (w := .write (List.replicate m.settings.budget (.list r)))) (m.deeper hd₁) := by
    have hbudget : budget (m.deeper hd₁) = .ok m.settings.budget (m.deeper hd₁) := rfl
    rw [assign, bind_run hvar, bind_run hvar, bind_run hbudget,
      unfinished_of_writeAt (m := m.deeper hd₁) hr [] _, List.append_nil]
  have hnative : native evaluate (.binary loc .assign (.binary loc .subscript (.var loc name)
      (.var loc name)) (.var loc name)) scope none (m.deeper hd₁) =
        .error (.unfinished (w := .write (List.replicate m.settings.budget (.list r)))) (m.deeper hd₁) := by
    show (evaluate _ scope none >>= _) _ = _
    rw [bind_run hvar]
    exact bind_run_error hassign
  rw [evaluate_eq, evaluateOnce, nested_run, dif_pos hd₁, bind_run_error hnative]
  rfl

end DiceLang

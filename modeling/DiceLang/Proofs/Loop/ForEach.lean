import DiceLang.Proofs.Eval.Sound

/-! Loops over containers. Such a loop visits what its container has when the loop starts, whatever becomes
of the container meanwhile. -/

namespace DiceLang

def Heap.indexed (h : Heap) : Container → List (Value × Value)
  | .list r => (h.items r).zipIdx.map fun x => (.number (Int64.ofNat x.2), x.1)
  | .map r => (h.entries r).map fun e => (.string e.1, e.2)

namespace Eval

variable {again : Again} {loop : ForEach} {scope : ScopeId} {m n : Machine}

structure Visit where
  index : Value
  item : Value
  start : Machine
  result : Option Value

def ForEach.bound (loop : ForEach) (scope : ScopeId) (index item : Value) (m : Machine) : Machine :=
  let env := m.env.define scope loop.item item
  { m with env := loop.index.elim env fun name => env.define scope name index }

inductive Visits (again : Again) (loop : ForEach) (scope : ScopeId) :
    Machine → List Visit → Machine → Prop
  | done (m : Machine) : Visits again loop scope m [] m
  | held {m m₁ m₂ n : Machine} {index item v : Value} {vs : List Visit} :
      holds again scope loop.condition (loop.bound scope index item m) = .ok true m₁ →
      again loop.out scope none m₁ = .ok v m₂ → Visits again loop scope m₂ vs n →
      Visits again loop scope m (⟨index, item, loop.bound scope index item m, some v⟩ :: vs) n
  | passed {m m₁ n : Machine} {index item : Value} {vs : List Visit} :
      holds again scope loop.condition (loop.bound scope index item m) = .ok false m₁ →
      Visits again loop scope m₁ vs n →
      Visits again loop scope m (⟨index, item, loop.bound scope index item m, none⟩ :: vs) n

inductive Collects (before after : Heap) (visits : List Visit) : (c : Container) → Value → Prop
  | list (r : ListRef) {q : ListRef} : .list q ∉ before.containers →
      after.items q = visits.filterMap Visit.result → Collects before after visits (.list r) (.list q)
  | map (r : MapRef) {q : MapRef} : .map q ∉ before.containers →
      (after.entries q).map (fun e => .string e.1) =
        (visits.filter fun s => s.result.isSome).map Visit.index →
      (after.entries q).map Prod.snd = visits.filterMap Visit.result →
      Collects before after visits (.map r) (.map q)

inductive Runs (again : Again) (loop : ForEach) (container : Expr) (scope : ScopeId) (m : Machine)
    (inner : ScopeId) (visits : List Visit) (v : Value) (m' : Machine) : Prop
  | intro {w : Value} {c : Container} {m₁ m₂ : Machine} :
      source again scope container m = .ok w m₁ → w.container? = some c →
      inner = (m₁.env.enter scope).1.1 →
      Visits again loop inner { m₁ with env := (m₁.env.enter scope).2 } visits m₂ →
      visits.map (fun s => (s.index, s.item)) = m₁.env.heap.indexed c →
      Collects m₂.env.heap m'.env.heap visits c v → Runs again loop container scope m inner visits v m'

lemma ok_of_step {index item : Value} {o : Option Value} (h : step again loop scope index item m = .ok o n) :
    (o = none ∧ holds again scope loop.condition (loop.bound scope index item m) = .ok false n) ∨
      ∃ m₁ v, o = some v ∧
        holds again scope loop.condition (loop.bound scope index item m) = .ok true m₁ ∧
        again loop.out scope none m₁ = .ok v n := by
  have hrest : (do
      if ← holds again scope loop.condition then return some (← again loop.out scope none)
      return none : Eval (Option Value)) (loop.bound scope index item m) = .ok o n := by
    obtain ⟨_, m₀, ⟨⟩, h⟩ := ok_of_bind h
    cases hindex : loop.index with
    | none =>
      rw [hindex] at h
      rw [ForEach.bound, hindex]
      exact h
    | some name =>
      rw [hindex] at h
      rw [ForEach.bound, hindex]
      exact h
  obtain ⟨b, m₁, hholds, h⟩ := ok_of_bind hrest
  cases b with
  | false =>
    cases h
    exact .inl ⟨rfl, hholds⟩
  | true =>
    obtain ⟨v, m₂, hout, ⟨⟩⟩ := ok_of_bind h
    exact .inr ⟨m₁, v, rfl, hholds, hout⟩

lemma visits_of_step {index item : Value} {o : Option Value} {m₁ : Machine} {vs : List Visit}
    (h : step again loop scope index item m = .ok o m₁) (hvs : Visits again loop scope m₁ vs n) :
    Visits again loop scope m (⟨index, item, loop.bound scope index item m, o⟩ :: vs) n := by
  rcases ok_of_step h with ⟨rfl, hholds⟩ | ⟨m₂, v, rfl, hholds, hout⟩
  · exact .passed hholds hvs
  · exact .held hholds hout hvs

lemma visits_of_overItems {i : Nat} {all : List Value} {results out : Array Value}
    (h : overItems again loop scope i all results m = .ok out n) :
    ∃ vs, Visits again loop scope m vs n ∧
      vs.map (fun s => (s.index, s.item)) =
        (all.zipIdx i).map (fun x => (.number (Int64.ofNat x.2), x.1)) ∧
      out.toList = results.toList ++ vs.filterMap Visit.result := by
  induction all generalizing i results m with
  | nil =>
    cases h
    exact ⟨[], .done _, rfl, (List.append_nil _).symm⟩
  | cons item rest ih =>
    obtain ⟨o, m₁, hstep, h⟩ := ok_of_bind h
    obtain ⟨vs, hvs, hsteps, hout⟩ := ih h
    refine ⟨_, visits_of_step hstep hvs, ?_, ?_⟩
    · rw [List.map_cons, hsteps]
      rfl
    · rw [hout]
      cases o <;> simp

lemma visits_of_overEntries {all : List (String × Value)} {results out : Array (String × Value)}
    (h : overEntries again loop scope all results m = .ok out n) :
    ∃ vs, Visits again loop scope m vs n ∧
      vs.map (fun s => (s.index, s.item)) = all.map (fun e => (.string e.1, e.2)) ∧
      out.toList.map (fun e => Value.string e.1) = results.toList.map (fun e => Value.string e.1) ++
        (vs.filter fun s => s.result.isSome).map Visit.index ∧
      out.toList.map Prod.snd = results.toList.map Prod.snd ++ vs.filterMap Visit.result := by
  induction all generalizing results m with
  | nil =>
    cases h
    exact ⟨[], .done _, rfl, (List.append_nil _).symm, (List.append_nil _).symm⟩
  | cons e rest ih =>
    obtain ⟨o, m₁, hstep, h⟩ := ok_of_bind h
    obtain ⟨vs, hvs, hsteps, hkeys, hvalues⟩ := ih h
    refine ⟨_, visits_of_step hstep hvs, ?_, ?_, ?_⟩
    · rw [List.map_cons, hsteps]
      rfl
    · rw [hkeys]
      cases o <;> simp
    · rw [hvalues]
      cases o <;> simp

lemma ok_of_forEach {site container : Expr} {v : Value}
    (h : forEach again site container scope loop m = .ok v n) :
    ∃ w m₁, source again scope container m = .ok w m₁ ∧
      overContainer again site scope loop w m₁ = .ok v n := by
  obtain ⟨w, m₁, hw, h⟩ := ok_of_bind h
  dsimp only at h
  split_ifs at h with hkind
  · obtain ⟨w', m₂, hconvert, h⟩ := ok_of_bind h
    refine ⟨w', m₂, ?_, h⟩
    rw [source, bind_run hw, if_pos hkind, hconvert]
  · obtain ⟨w', m₂, ⟨⟩, h⟩ := ok_of_bind h
    refine ⟨w, m₁, ?_, h⟩
    rw [source, bind_run hw, if_neg hkind]
    rfl

lemma runs_of_forEach {site container : Expr} {v : Value}
    (h : forEach again site container scope loop m = .ok v n) :
    ∃ inner visits, Runs again loop container scope m inner visits v n := by
  obtain ⟨w, m₁, hsource, h⟩ := ok_of_forEach h
  cases w with
  | scalar | function => cases h
  | list r =>
    obtain ⟨all, _, ⟨⟩, h⟩ := ok_of_bind h
    obtain ⟨out, m₂, hloop, ⟨⟩⟩ := ok_of_bind h
    rw [inScope_run] at hloop
    obtain ⟨m₂, hover, rfl⟩ := ok_of_onExit hloop
    obtain ⟨visits, hvisits, hsteps, hout⟩ := visits_of_overItems hover
    refine ⟨_, visits, .intro hsource rfl rfl hvisits hsteps (.list r ?_ ?_)⟩
    · exact (m₂.env.heap.list_newList_mem out.toList).2
    · exact (m₂.env.heap.items_newList out.toList).trans hout
  | map r =>
    obtain ⟨all, _, ⟨⟩, h⟩ := ok_of_bind h
    obtain ⟨out, m₂, hloop, ⟨⟩⟩ := ok_of_bind h
    rw [inScope_run] at hloop
    obtain ⟨m₂, hover, rfl⟩ := ok_of_onExit hloop
    obtain ⟨visits, hvisits, hsteps, hkeys, hvalues⟩ := visits_of_overEntries hover
    have hentries := m₂.env.heap.entries_newMap out.toList
    refine ⟨_, visits, .intro hsource rfl rfl hvisits hsteps (.map r ?_ ?_ ?_)⟩
    · exact (m₂.env.heap.map_newMap_mem out.toList).2
    · exact (congrArg _ hentries).trans hkeys
    · exact (congrArg _ hentries).trans hvalues

/-- The variables of the loop, looked up in its scope. An index of the same name hides the item. -/
structure Sees (loop : ForEach) (scope : ScopeId) (index item : Value) (m : Machine) : Prop where
  index : ∀ name ∈ loop.index, m.env.get scope name = index
  item : loop.index ≠ some loop.item → m.env.get scope loop.item = item

lemma sees_bound {r : MapRef} (hr : m.env.Fronts scope r) (index item : Value) :
    Sees loop scope index item (loop.bound scope index item m) := by
  obtain ⟨key, name, out, condition⟩ := loop
  have hitem : (m.env.define scope name item).lookup scope name = some item := by
    rw [hr.lookup_define, if_pos rfl]
  cases key with
  | none => exact ⟨nofun, fun _ => Environment.get_of_lookup hitem⟩
  | some key =>
    have hnext := (hr.define name item).lookup_define key
    refine ⟨?_, fun hne => ?_⟩
    · rintro _ ⟨⟩
      exact Environment.get_of_lookup ((hnext key index).trans (if_pos rfl))
    · have hname : name ≠ key := fun heq => hne (congrArg some heq.symm)
      exact Environment.get_of_lookup (((hnext name index).trans (if_neg hname)).trans hitem)

end Eval

namespace Machine

open Eval

variable {kept : ScopeId → Prop} {m n : Machine} {scope : ScopeId} {loop : ForEach}

lemma has_scalar (s : Scalar) : m.Has kept (.scalar s) := ⟨.scalar s, Value.stored_scalar s⟩

lemma Sound.bound (hm : m.Sound kept) (hs : m.InUse kept scope) {index item : Value}
    (hindex : m.Has kept index) (hitem : m.Has kept item) :
    ∃ kept', m.Onward kept kept' (loop.bound scope index item m) := by
  obtain ⟨kept₁, honward⟩ := hm.define hs loop.item hitem
  rw [ForEach.bound]
  cases loop.index with
  | none => exact ⟨kept₁, honward⟩
  | some name =>
    obtain ⟨kept₂, honward'⟩ := honward.sound.define (honward.inUse hs) name (honward.has hindex)
    exact ⟨kept₂, honward.trans honward'⟩

lemma Sound.tested (hm : m.Sound kept) (hs : m.InUse kept scope) {index item : Value} {b : Bool}
    (hindex : m.Has kept index) (hitem : m.Has kept item)
    (h : holds DiceLang.evaluate scope loop.condition (loop.bound scope index item m) = .ok b n) :
    ∃ kept', m.Onward kept kept' n := by
  obtain ⟨kept₁, honward₁⟩ : ∃ kept₁, m.Onward kept kept₁ (loop.bound scope index item m) :=
    hm.bound hs hindex hitem
  cases hcondition : loop.condition with
  | none =>
    rw [hcondition] at h
    cases h
    exact ⟨kept₁, honward₁⟩
  | some e =>
    rw [hcondition] at h
    obtain ⟨kept₂, honward₂, -⟩ := honward₁.sound.evaluate (honward₁.inUse hs) (boolean_iff.mp h)
    exact ⟨kept₂, honward₁.trans honward₂⟩

lemma Sound.source (hm : m.Sound kept) (hs : m.InUse kept scope) {container : Expr} {v : Value}
    (h : source DiceLang.evaluate scope container m = .ok v n) : ∃ kept', m.Onward kept kept' n := by
  obtain ⟨w, m₁, hw, h⟩ := ok_of_bind h
  obtain ⟨kept₁, honward, hhas⟩ := hm.evaluate hs hw
  split at h
  · obtain ⟨kept₂, honward', -⟩ := honward.sound.onward
      (alike_convertTo asksAlike_evaluate (Pairing.scopes_itself (honward.inUse hs)) .list hhas.like)
      (safe_convertTo asksSafely_evaluate scope .list hhas.stored)
      (keeps_of_agree fun d => Logic.convertTo (agreeing_evaluate d).toConverts scope .list w.made_true) h
    exact ⟨kept₂, honward.trans honward'⟩
  · cases h
    exact ⟨kept₁, honward⟩

lemma Sound.sees (hm : m.Sound kept) (hs : m.InUse kept scope) {visits : List Visit}
    (h : Visits DiceLang.evaluate loop scope m visits n)
    (hhas : ∀ s ∈ visits, m.Has kept s.index ∧ m.Has kept s.item) :
    ∀ s ∈ visits, Sees loop scope s.index s.item s.start := by
  induction h generalizing kept with
  | done => exact fun s hs => nomatch hs
  | @held m m₁ m₂ n index item v vs hholds hout _ ih =>
    rw [List.forall_mem_cons] at hhas ⊢
    obtain ⟨r, hr⟩ := hm.fronts hs
    obtain ⟨kept₁, htested⟩ := hm.tested hs hhas.1.1 hhas.1.2 hholds
    obtain ⟨kept₂, hround, -⟩ := htested.sound.evaluate (htested.inUse hs) hout
    have hstep := htested.trans hround
    refine ⟨sees_bound hr index item, ih hstep.sound (hstep.inUse hs) fun s hs => ?_⟩
    exact (hhas.2 s hs).imp hstep.has hstep.has
  | @passed m m₁ n index item vs hholds _ ih =>
    rw [List.forall_mem_cons] at hhas ⊢
    obtain ⟨r, hr⟩ := hm.fronts hs
    obtain ⟨kept₁, hstep⟩ := hm.tested hs hhas.1.1 hhas.1.2 hholds
    refine ⟨sees_bound hr index item, ih hstep.sound (hstep.inUse hs) fun s hs => ?_⟩
    exact (hhas.2 s hs).imp hstep.has hstep.has

lemma Sound.has_indexed (hm : m.Sound kept) (c : Container) :
    ∀ x ∈ m.env.heap.indexed c, m.Has kept x.1 ∧ m.Has kept x.2 := by
  cases c with
  | list r =>
    rw [Heap.indexed, List.forall_mem_map]
    intro x hx
    have hmem : x.1 ∈ m.env.heap.items r := (List.mem_zipIdx' hx).2 ▸ List.getElem_mem _
    exact ⟨has_scalar _, List.forall₂_same.mp (hm.order.heap.items r) x.1 hmem,
      hm.intact.heap.items r x.1 hmem⟩
  | map r =>
    rw [Heap.indexed, List.forall_mem_map]
    intro e he
    exact ⟨has_scalar _, (List.forall₂_same.mp (hm.order.heap.entries r) e he).2,
      (hm.intact.heap.entries r).stored e he⟩

lemma Sound.sees_of_runs (hm : m.Sound kept) (hs : m.InUse kept scope) {container : Expr} {inner : ScopeId}
    {visits : List Visit} {v : Value} (h : Runs DiceLang.evaluate loop container scope m inner visits v n) :
    ∀ s ∈ visits, Sees loop inner s.index s.item s.start := by
  obtain @⟨w, c, m₁, m₂, hsource, -, rfl, hvisits, hsteps, -⟩ := h
  obtain ⟨kept', honward⟩ := hm.source hs hsource
  obtain ⟨hentered, hinner⟩ := honward.sound.enter (honward.inUse hs)
  refine hentered.sees hinner hvisits fun s hmem => ?_
  -- the loop enters its scope behind the look at the container
  have hstored (w : Value) (hw : m₁.Has kept' w) : Has kept' { m₁ with env := (m₁.env.enter scope).2 } w :=
    ⟨hw.like, hw.stored.mono (honward.sound.intact.enter scope).containers⟩
  have hvisited := List.mem_map_of_mem (f := fun s : Visit => (s.index, s.item)) hmem
  rw [hsteps] at hvisited
  exact (honward.sound.has_indexed c _ hvisited).imp (hstored _) (hstored _)

end Machine

namespace Eval

def ForEach.expr (loop : ForEach) (loc : Location) (container : Expr) : Expr :=
  .forEach loc loop.index loop.item loop.out container loop.condition

lemma runs_of_evaluateOnce {again : Again} {loop : ForEach} {loc : Location} {container : Expr}
    {scope : ScopeId} {m m' : Machine} {v : Value}
    (h : evaluateOnce again (loop.expr loc container) scope none m = .ok v m') :
    ∃ hd inner visits, Runs again loop container scope (m.deeper hd) inner visits v m' := by
  obtain ⟨hd, w, n, _, hw, ⟨⟩, rfl⟩ := ok_of_evaluateOnce h
  obtain ⟨inner, visits, ⟨hsource, hc, hinner, hvisits, hsteps, hcollects⟩⟩ := runs_of_forEach hw
  exact ⟨hd, inner, visits, .intro hsource hc hinner hvisits hsteps hcollects⟩

/-- Whatever it means to evaluate the parts of a loop over a container, the loop visits exactly what the
container has when the loop starts, and makes a new container of what its body gives where its condition
holds. In sound machines each step also finds what it visits in the variables of the loop; the machines of
sessions are sound, and evaluations keep them so. -/
theorem loop_visits_snapshot :
    (∀ e scope target, evaluate e scope target = evaluateOnce evaluate e scope target) ∧
    (∀ (again : Again) (loop : ForEach) (loc : Location) (container : Expr) (scope : ScopeId)
      (m m' : Machine) (v : Value),
      evaluateOnce again (loop.expr loc container) scope none m = .ok v m' →
      ∃ hd inner visits, Runs again loop container scope (m.deeper hd) inner visits v m') ∧
    (∀ (s : Session) (vs : List Value), s.Serves vs →
      ∃ kept, s.machine.Sound kept ∧ s.machine.InUse kept Environment.global) ∧
    ∀ (kept : ScopeId → Prop) (scope : ScopeId) (m : Machine), m.Sound kept → m.InUse kept scope →
      (∀ e target v n, evaluate e scope target m = .ok v n → ∃ kept', m.Onward kept kept' n) ∧
      ∀ (loop : ForEach) loc container v m', evaluate (loop.expr loc container) scope none m = .ok v m' →
        ∃ hd inner visits, Runs evaluate loop container scope (m.deeper hd) inner visits v m' ∧
          ∀ s ∈ visits, Sees loop inner s.index s.item s.start := by
  refine ⟨evaluate_eq, fun _ _ _ _ _ _ _ _ => runs_of_evaluateOnce, fun s vs hs => ?_, ?_⟩
  · obtain ⟨kept, hsound, hglobal⟩ := hs.sound
    exact ⟨kept, hsound, .inl hglobal⟩
  · intro kept scope m hm hs
    refine ⟨fun e target v n h => ?_, fun loop loc container v m' h => ?_⟩
    · obtain ⟨kept', honward, -⟩ := hm.evaluate hs h
      exact ⟨kept', honward⟩
    · rw [evaluate_eq] at h
      obtain ⟨hd, inner, visits, hruns⟩ := runs_of_evaluateOnce h
      have hdeeper : (m.deeper hd).Sound kept :=
        ⟨⟨hm.order.arena, hm.order.heap, hm.order.log⟩, hm.intact⟩
      exact ⟨hd, inner, visits, hruns, hdeeper.sees_of_runs hs hruns⟩

theorem loop_over_changing_list :
    let s := ((Session.start ⟨5, .kind .number, .roll, 0⟩ (.ofTable [])).eval "a = [5, 6]").2
    let a : Expr := .var .builtin "a"
    let x : Expr := .var .builtin "x"
    let number (k : Int64) : Expr := .scalar .builtin (.number k)
    let longer : Expr := .binary .builtin .append a (.list .builtin [x, x])
    let empties : Expr := .binary .builtin .drawMany (number 9) a
    let loop : ForEach := ⟨some "i", "x", .binary .builtin .sequence empties x,
      some (.binary .builtin (.compare .lt) (number 3) (.unary .builtin .count longer))⟩
    ∃ kept r m' hd inner visits,
      s.machine.Sound kept ∧ s.machine.InUse kept Environment.global ∧
      evaluate (loop.expr .builtin a) Environment.global none s.machine = .ok (.list r) m' ∧
      (m'.env.heap.items r).map Value.scalar? = [some (.number 5)] ∧
      Runs evaluate loop a Environment.global (s.machine.deeper hd) inner visits (.list r) m' ∧
      ∀ v ∈ visits, Sees loop inner v.index v.item v.start := by
  intro s a x number longer empties loop
  have hscalars : scalars? (evaluate (loop.expr .builtin a) Environment.global none s.machine) =
      some [some (.number 5)] := by decide +kernel
  obtain ⟨r, m', hrun, hitems⟩ := exists_of_scalars? hscalars
  obtain ⟨kept, hsound, hglobal⟩ := loop_visits_snapshot.2.2.1 s _ (.eval "a = [5, 6]" (.start _ _))
  obtain ⟨hd, inner, visits, hruns, hsees⟩ :=
    (loop_visits_snapshot.2.2.2 kept _ s.machine hsound hglobal).2 loop .builtin a _ m' hrun
  exact ⟨kept, r, m', hd, inner, visits, hsound, hglobal, hrun, hitems, hruns, hsees⟩

end Eval

end DiceLang

import DiceLang.Proofs.Eval.Typed
import DiceLang.Proofs.Scope.Intact

/-! Lists as decks of cards. However a list is sorted, reversed, shuffled and drawn from, no card is lost and
none is new. -/

namespace DiceLang

namespace Heap

variable {h h' h'' : Heap} {r : ListRef} {kept : Finset Container}

structure Spares (h h' : Heap) (kept : Finset Container) : Prop where
  grows : h.containers ⊆ h'.containers
  same : ∀ c ∈ kept, h.HoldsSame h' c

lemma Spares.trans (hh : h.Spares h' kept) (hh' : h'.Spares h'' kept) : h.Spares h'' kept :=
  ⟨hh.grows.trans hh'.grows, fun c hc => (hh.same c hc).trans (hh'.same c hc)⟩

lemma Spares.mono {fewer : Finset Container} (hh : h.Spares h' kept) (hle : fewer ⊆ kept) :
    h.Spares h' fewer :=
  ⟨hh.grows, fun c hc => hh.same c (hle hc)⟩

lemma Extends.spares (hh : h.Extends h') (hkept : kept ⊆ h.containers) : h.Spares h' kept :=
  ⟨hh.grows, fun c hc => hh.same c (hkept hc)⟩

lemma spares_setList (h : Heap) (r : ListRef) (vs : List Value) (kept : Finset Container) :
    h.Spares (h.setList r vs) (kept.erase (.list r)) := by
  refine ⟨(h.containers_setList r vs).ge, fun c hc => ?_⟩
  obtain ⟨hne, -⟩ := Finset.mem_erase.mp hc
  cases c with
  | map q => rfl
  | list q =>
    have hindex : r.index ≠ q.index := fun heq => hne (congrArg (Container.list ∘ ListRef.mk) heq.symm)
    simp [HoldsSame, items, setList, hindex]

lemma items_setList (hr : .list r ∈ h.containers) (vs : List Value) : (h.setList r vs).items r = vs := by
  rw [list_mem_containers] at hr
  simp [items, setList, hr]

end Heap

namespace Eval

variable {again : Again} {scope : ScopeId} {m n : Machine} {r : ListRef} {e : Expr}

lemma draw_of_nil (h : m.env.heap.items r = []) : draw r m = .ok .undefined m := by
  have hitems : items r m = .ok [] m := congrArg (EStateM.Result.ok · m) h
  exact bind_run hitems

lemma draw_of_cons {v : Value} {rest : List Value} (h : m.env.heap.items r = v :: rest) :
    draw r m = .ok v { m with env := ⟨m.env.heap.setList r rest, m.env.arena⟩ } := by
  have hitems : items r m = .ok (v :: rest) m := congrArg (EStateM.Result.ok · m) h
  exact bind_run hitems

inductive Deal where
  | reorder (order : Reorder)
  | draw
  | drawMany (n : Int64)
deriving DecidableEq

namespace Deal

variable {d : Deal}

def run : Deal → ListRef → Eval Value
  | .reorder order => Eval.reorder order
  | .draw => Eval.draw
  | .drawMany n => Eval.drawMany n

def count : Deal → Nat
  | .reorder _ => 0
  | .draw => 1
  | .drawMany n => n.toInt.toNat

def Gives (d : Deal) (r : ListRef) (before after : Heap) (cards : List Value) (v : Value) : Prop :=
  match d with
  | .reorder _ => v = .list r
  | .draw => v = cards.headD .undefined
  | .drawMany _ => ∃ q, v = .list q ∧ .list q ∉ before.containers ∧ after.items q = cards

/-- The deck `r` is handled: what is drawn comes from its top, and the rest is in it. -/
structure Handles (d : Deal) (r : ListRef) (m : Machine) (v : Value) (n : Machine) : Prop where
  gives : d.Gives r m.env.heap n.env.heap ((m.env.heap.items r).take d.count) v
  left : (n.env.heap.items r).Perm ((m.env.heap.items r).drop d.count)
  spares : m.env.heap.Spares n.env.heap (m.env.heap.containers.erase (.list r))
  maps : n.env.heap.maps = m.env.heap.maps
  arena : n.env.arena = m.env.arena
  depth : n.depth = m.depth

lemma Handles.perm {v : Value} (h : d.Handles r m v n) :
    ((m.env.heap.items r).take d.count ++ n.env.heap.items r).Perm (m.env.heap.items r) := by
  refine (h.left.append_left _).trans ?_
  rw [List.take_append_drop]

lemma handles_reorder (hr : .list r ∈ m.env.heap.containers) {vs : List Value}
    (hperm : vs.Perm (m.env.heap.items r)) (order : Reorder) (g : Generator) :
    Handles (.reorder order) r m (.list r)
      { m with env := ⟨m.env.heap.setList r vs, m.env.arena⟩, generator := g } :=
  ⟨rfl, (List.Perm.of_eq (Heap.items_setList hr vs)).trans hperm, m.env.heap.spares_setList r vs _, rfl, rfl,
    rfl⟩

lemma run_cases (d : Deal) (hr : .list r ∈ m.env.heap.containers) :
    (∃ v n, d.run r m = .ok v n ∧ d.Handles r m v n) ∨
      d = .reorder .shuffle ∧ d.run r m = .error (.unfinished (w := .draw)) m ∧
        m.generator.shuffle m.settings.budget (m.env.heap.items r) = none := by
  cases d with
  | reorder order =>
    cases order with
    | sort => exact .inl ⟨.list r, _, rfl, handles_reorder hr (List.mergeSort_perm _ _) .sort m.generator⟩
    | reverse => exact .inl ⟨.list r, _, rfl, handles_reorder hr (List.reverse_perm _) .reverse m.generator⟩
    | shuffle =>
      have hrun := shuffle_run (m.env.heap.items r) m
      cases hg : m.generator.shuffle m.settings.budget (m.env.heap.items r) with
      | some x =>
        rw [hg] at hrun
        exact .inl ⟨.list r, _, bind_run hrun, handles_reorder hr (Generator.perm_shuffle hg) .shuffle x.2⟩
      | none =>
        rw [hg] at hrun
        exact .inr ⟨rfl, bind_run_error (p := shuffle (m.env.heap.items r)) hrun, rfl⟩
  | draw =>
    cases hitems : m.env.heap.items r with
    | nil =>
      refine .inl ⟨.undefined, m, draw_of_nil hitems, ?_, ?_, ?_, rfl, rfl, rfl⟩
      · rw [hitems]
        rfl
      · rw [hitems]
        exact .refl _
      · exact (Heap.Extends.refl _).spares (Finset.erase_subset _ _)
    | cons v rest =>
      refine .inl ⟨v, _, draw_of_cons hitems, ?_, ?_, m.env.heap.spares_setList r rest _, rfl, rfl, rfl⟩
      · rw [hitems]
        rfl
      · rw [hitems]
        exact .of_eq (Heap.items_setList hr rest)
  | drawMany k =>
    let h := m.env.heap.setList r ((m.env.heap.items r).drop k.toInt.toNat)
    let cards := (m.env.heap.items r).take k.toInt.toNat
    -- the new list is made behind the deck's change, so it is none of the old ones
    have hcs : h.containers = m.env.heap.containers := m.env.heap.containers_setList r _
    have hnew : h.Extends (h.newList cards).2 := h.extends_newList cards
    refine .inl ⟨_, _, rfl, ⟨(h.newList cards).1, rfl, ?_, h.items_newList cards⟩, ?_, ?_, rfl, rfl,
      rfl⟩
    · rw [← hcs]
      exact (h.list_newList_mem cards).2
    · exact .of_eq (Eq.trans (hnew.same (.list r) (hcs ▸ hr)) (Heap.items_setList hr _))
    · exact (m.env.heap.spares_setList r _ _).trans
        (hnew.spares (hcs ▸ Finset.erase_subset _ _))

end Deal

inductive Asks (again : Again) (scope : ScopeId) : Expr → Machine → Deal → ListRef → Machine → Prop
  | reorder {loc : Location} {order : Reorder} {operand : Expr} {m n : Machine} {r : ListRef} :
      list again scope operand m = .ok r n →
      Asks again scope (.unary loc (.reorder order) operand) m (.reorder order) r n
  | draw {loc : Location} {operand : Expr} {m n : Machine} {r : ListRef} :
      list again scope operand m = .ok r n → Asks again scope (.unary loc .draw operand) m .draw r n
  | drawMany {loc : Location} {count operand : Expr} {k : Int64} {m m₁ n : Machine} {r : ListRef} :
      number again scope count m = .ok k m₁ → list again scope operand m₁ = .ok r n →
      Asks again scope (.binary loc .drawMany count operand) m (.drawMany k) r n

lemma native_of_asks {d : Deal} (h : Asks again scope e m d r n) (target : Option Kind) :
    native again e scope target m = d.run r n := by
  cases h with
  | reorder hlist => exact bind_run hlist
  | draw hlist => exact bind_run hlist
  | drawMany hcount hlist => exact (bind_run hcount).trans (bind_run hlist)

/-- A run in which cards are drawn from the deck `r`. Operands are part of the run and can be such operations
in turn. What happens besides does not change the containers of `kept`. -/
inductive Dealt (kept : Finset Container) (r : ListRef) : Machine → List Value → Machine → Prop
  | aside {m n : Machine} : m.env.heap.Spares n.env.heap kept → Dealt kept r m [] n
  | trans {m m₁ n : Machine} {cards more : List Value} : Dealt kept r m cards m₁ →
      Dealt kept r m₁ more n → Dealt kept r m (cards ++ more) n
  | deal {e : Expr} {scope : ScopeId} {target : Option Kind} {d : Deal} {m n : Machine}
      {cards : List Value} : Dealt kept r m cards n → Asks evaluate scope e m d r n →
      Dealt kept r m (cards ++ (n.env.heap.items r).take d.count) (after (native evaluate e scope target m))

lemma Dealt.conserves {kept : Finset Container} {cards : List Value} (h : Dealt kept r m cards n)
    (hkept : kept ⊆ m.env.heap.containers) (hr : .list r ∈ kept) :
    (cards ++ n.env.heap.items r).Perm (m.env.heap.items r) ∧
      m.env.heap.Spares n.env.heap (kept.erase (.list r)) := by
  induction h with
  | @aside m n hspares =>
    exact ⟨.of_eq (hspares.same _ hr), hspares.mono (Finset.erase_subset _ _)⟩
  | @trans m m₁ n cards more _ _ ih ih' =>
    obtain ⟨hperm, hspares⟩ := ih hkept
    obtain ⟨hperm', hspares'⟩ := ih' (hkept.trans hspares.grows)
    refine ⟨?_, hspares.trans hspares'⟩
    rw [List.append_assoc]
    exact (hperm'.append_left cards).trans hperm
  | @deal e scope target d m n cards _ hasks ih =>
    obtain ⟨hperm, hspares⟩ := ih hkept
    have hcs := hkept.trans hspares.grows
    rw [native_of_asks hasks]
    rcases d.run_cases (hcs hr) with ⟨v, n', hrun, hdone⟩ | ⟨rfl, hrun, -⟩
    · rw [hrun, after_ok]
      refine ⟨?_, hspares.trans (hdone.spares.mono (Finset.erase_subset_erase _ hcs))⟩
      rw [List.append_assoc]
      exact (hdone.perm.append_left cards).trans hperm
    · -- a shuffle that does not end takes no card
      rw [hrun]
      refine ⟨?_, hspares⟩
      rw [List.append_assoc]
      exact hperm

structure Move where
  deal : Deal
  loc : Location
  scope : ScopeId
  name : String

def Move.expr (x : Move) : Expr :=
  let deck : Expr := .var x.loc x.name
  match x.deal with
  | .reorder order => .unary x.loc (.reorder order) deck
  | .draw => .unary x.loc .draw deck
  | .drawMany n => .binary x.loc .drawMany (.scalar x.loc (.number n)) deck

lemma asks_move {x : Move} (hd : m.depth.val < maxDepth) (hx : m.env.get x.scope x.name = .list r) :
    Asks evaluate x.scope x.expr m x.deal r m := by
  have hlist : list evaluate x.scope (.var x.loc x.name) m = .ok r m := by
    rw [list_iff, evaluate_eq, evaluateOnce, nested_run, dif_pos hd]
    have hvar : native evaluate (.var x.loc x.name) x.scope (some .list) (m.deeper hd) =
        .ok (.list r) (m.deeper hd) := congrArg (EStateM.Result.ok · (m.deeper hd)) hx
    rw [bind_run hvar]
    rfl
  obtain ⟨deal, loc, scope, name⟩ := x
  cases deal with
  | reorder order => exact .reorder hlist
  | draw => exact .draw hlist
  | drawMany k =>
    refine .drawMany ?_ hlist
    rw [number_iff, evaluate_eq, evaluateOnce, nested_run, dif_pos hd]
    rfl

structure Stuck (x : Move) (r : ListRef) (m : Machine) : Prop where
  deal : x.deal = .reorder .shuffle
  rejects : m.generator.shuffle m.settings.budget (m.env.heap.items r) = none
  unfinished : evaluate x.expr x.scope none m = .error (.unfinished (w := .draw)) m

lemma evaluate_move {x : Move} (hr : .list r ∈ m.env.heap.containers) (hd : m.depth.val + 1 < maxDepth)
    (hx : m.env.get x.scope x.name = .list r) :
    (∃ v n, evaluate x.expr x.scope none m = .ok v n ∧ x.deal.Handles r m v n) ∨ Stuck x r m := by
  have hd' : m.depth.val < maxDepth := (Nat.lt_succ_self _).trans hd
  have hnative := native_of_asks (asks_move (m := m.deeper hd') hd hx) none
  rcases x.deal.run_cases (m := m.deeper hd') hr with ⟨v, n, hok, hdone⟩ | ⟨hdeal, herror, hrejects⟩
  · refine .inl ⟨v, n.shallower, ?_, hdone.gives, hdone.left, hdone.spares, hdone.maps, hdone.arena, ?_⟩
    · rw [evaluate_eq, evaluateOnce, nested_run, dif_pos hd', bind_run (hnative.trans hok)]
      rfl
    · exact Fin.ext (congrArg (·.val - 1) hdone.depth)
  · refine .inr ⟨hdeal, hrejects, ?_⟩
    rw [evaluate_eq, evaluateOnce, nested_run, dif_pos hd', bind_run_error (hnative.trans herror)]
    rfl

inductive Played (r : ListRef) : List Move → Machine → List Value → Machine → Prop
  | nil (m : Machine) : Played r [] m [] m
  | cons {x : Move} {moves : List Move} {m n m' : Machine} {v : Value} {cards : List Value} :
      evaluate x.expr x.scope none m = .ok v n → x.deal.Handles r m v n → Played r moves n cards m' →
      Played r (x :: moves) m ((m.env.heap.items r).take x.deal.count ++ cards) m'

lemma Deal.Handles.get {d : Deal} {v : Value} (h : d.Handles r m v n) (id : ScopeId) (name : String) :
    n.env.get id name = m.env.get id name := by
  have hentries (q : MapRef) : n.env.heap.entries q = m.env.heap.entries q := by
    rw [Heap.entries, h.maps, Heap.entries]
  rw [Environment.get, Environment.lookup_eq, Environment.layers, h.arena, ← Environment.layers,
    funext hentries, ← Environment.lookup_eq, ← Environment.get]

structure Conserved (r : ListRef) (m : Machine) (cards : List Value) (n : Machine) : Prop where
  perm : (cards ++ n.env.heap.items r).Perm (m.env.heap.items r)
  spares : m.env.heap.Spares n.env.heap (m.env.heap.containers.erase (.list r))
  sees : ∀ id name, n.env.get id name = m.env.get id name

lemma conserved_of_played {moves : List Move} {cards : List Value} (h : Played r moves m cards n) :
    Conserved r m cards n := by
  induction h with
  | nil m => exact ⟨.refl _, (Heap.Extends.refl _).spares (Finset.erase_subset _ _), fun _ _ => rfl⟩
  | @cons x moves m n m' v cards _ hdone _ ih =>
    have hcs := Finset.erase_subset_erase (.list r) hdone.spares.grows
    refine ⟨?_, hdone.spares.trans (ih.spares.mono hcs), fun id name => ?_⟩
    · rw [List.append_assoc]
      exact (ih.perm.append_left _).trans hdone.perm
    · exact (ih.sees id name).trans (hdone.get id name)

lemma exists_played (moves : List Move) (hr : .list r ∈ m.env.heap.containers)
    (hd : m.depth.val + 1 < maxDepth) (hmoves : ∀ x ∈ moves, m.env.get x.scope x.name = .list r) :
    ∃ done left cards n, moves = done ++ left ∧ Played r done m cards n ∧
      ∀ x ∈ left.head?, Stuck x r n := by
  induction moves generalizing m with
  | nil => exact ⟨[], [], [], m, rfl, .nil m, nofun⟩
  | cons x moves ih =>
    obtain ⟨hx, hrest⟩ := List.forall_mem_cons.mp hmoves
    rcases evaluate_move hr hd hx with ⟨v, n, hok, hdone⟩ | hstuck
    · obtain ⟨done, left, cards, m', rfl, hplayed, hleft⟩ := ih (hdone.spares.grows hr)
        (hdone.depth ▸ hd) fun y hy => (hdone.get _ _).trans (hrest y hy)
      exact ⟨x :: done, left, _, m', rfl, .cons hok hdone hplayed, hleft⟩
    · refine ⟨[], x :: moves, [], m, rfl, .nil m, ?_⟩
      rintro y ⟨⟩
      exact hstuck

/-- An operation on a deck gives what it should, whatever its operands are. In a run of such operations with
any operands, the cards drawn and those that are left are those that were there, and the other containers are
unchanged. Through variables any such operations can be made in any order, and then these are unchanged
too. -/
theorem deck_is_conserved :
    (∀ e scope target, evaluate e scope target = evaluateOnce evaluate e scope target) ∧
    (∀ again scope e m d r n, Asks again scope e m d r n → .list r ∈ n.env.heap.containers →
      ∀ target, (∃ v n', native again e scope target m = .ok v n' ∧ d.Handles r n v n') ∨
        d = .reorder .shuffle ∧ native again e scope target m = .error (.unfinished (w := .draw)) n ∧
          n.generator.shuffle n.settings.budget (n.env.heap.items r) = none) ∧
    (∀ kept r m cards n, kept ⊆ m.env.heap.containers → .list r ∈ kept → Dealt kept r m cards n →
      (cards ++ n.env.heap.items r).Perm (m.env.heap.items r) ∧
        m.env.heap.Spares n.env.heap (kept.erase (.list r))) ∧
    ∀ (moves : List Move) (r : ListRef) (m : Machine), .list r ∈ m.env.heap.containers →
      m.depth.val + 1 < maxDepth → (∀ x ∈ moves, m.env.get x.scope x.name = .list r) →
      ∃ done left cards n, moves = done ++ left ∧ Played r done m cards n ∧ Conserved r m cards n ∧
        ∀ x ∈ left.head?, Stuck x r n := by
  refine ⟨evaluate_eq, fun again scope e m d r n hasks hr target => ?_,
    fun kept r m cards n hkept hr h => h.conserves hkept hr, fun moves r m hr hd hmoves => ?_⟩
  · rw [native_of_asks hasks target]
    exact d.run_cases hr
  · obtain ⟨done, left, cards, n, heq, hplayed, hleft⟩ := exists_played moves hr hd hmoves
    exact ⟨done, left, cards, n, heq, hplayed, conserved_of_played hplayed, hleft⟩

theorem deck_with_two_names :
    let s := ((Session.start ⟨5, .kind .number, .roll, 0⟩ (.ofTable [])).eval "a = [3, 1, 2]; b = a").2
    let global := Environment.global
    let moves : List Move := [⟨.reorder .shuffle, .builtin, global, "a"⟩,
      ⟨.drawMany 2, .builtin, global, "b"⟩, ⟨.drawMany (-1), .builtin, global, "a"⟩,
      ⟨.draw, .builtin, global, "a"⟩, ⟨.draw, .builtin, global, "b"⟩]
    ∃ r cards n, s.machine.env.get global "a" = .list r ∧ s.machine.env.get global "b" = .list r ∧
      Played r moves s.machine cards n ∧ Conserved r s.machine cards n := by
  intro s global moves
  have hlist {v : Value} {r : ListRef} (hv : v.container? = some (.list r)) : v = .list r := by
    cases v with
    | list => exact congrArg Value.list (Container.list.inj (Option.some.inj hv))
    | scalar | map | function => cases hv
  have ha : s.machine.env.get global "a" = .list ⟨0⟩ := hlist (by decide +kernel)
  have hb : s.machine.env.get global "b" = .list ⟨0⟩ := hlist (by decide +kernel)
  have hshuffle : (s.machine.generator.shuffle s.machine.settings.budget
      (s.machine.env.heap.items ⟨0⟩)).isSome = true := by decide +kernel
  obtain ⟨done, left, cards, n, hmoves, hplayed, hconserved, hleft⟩ :=
    deck_is_conserved.2.2.2 moves ⟨0⟩ s.machine (by decide +kernel) (by decide +kernel)
      (by simp [moves, ha, hb])
  have hnone : left = [] := by
    cases left with
    | nil => rfl
    | cons x left =>
      have hstuck := hleft x rfl
      cases done with
      | nil =>
        cases hplayed
        rw [hstuck.rejects] at hshuffle
        cases hshuffle
      | cons y done =>
        have hmem : x ∈ moves.tail := by
          rw [hmoves]
          simp
        have hdeals : ∀ x ∈ moves.tail, x.deal ≠ .reorder .shuffle := by decide
        exact absurd hstuck.deal (hdeals x hmem)
  subst hnone
  rw [List.append_nil] at hmoves
  exact ⟨⟨0⟩, cards, n, ha, hb, hmoves ▸ hplayed, hconserved⟩

end Eval

end DiceLang

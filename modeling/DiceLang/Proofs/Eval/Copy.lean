import DiceLang.Proofs.Eval.Intact
import DiceLang.Proofs.Value.Source

/-! Calling a value that is no function: it is wrapped in a function that makes the value anew. -/

namespace DiceLang

namespace Machine

def withHeap (m : Machine) (h : Heap) : Machine := { m with env := ⟨h, m.env.arena⟩ }

end Machine

namespace Eval

open Heap

variable {α β : Type} {m : Machine} {h : Heap} {v : Value} {t : DataTree} {scope : ScopeId}

def Allocates (p : Eval α) (m : Machine) (Q : α → Heap → Prop) : Prop :=
  ∃ a h, p m = .ok a (m.withHeap h) ∧ m.env.heap.Extends h ∧ Q a h

lemma allocates_pure {Q : α → Heap → Prop} {a : α} (ha : Q a m.env.heap) : Allocates (pure a) m Q :=
  ⟨a, m.env.heap, rfl, .refl _, ha⟩

lemma Allocates.bind {p : Eval α} {f : α → Eval β} {Q : α → Heap → Prop} {R : β → Heap → Prop}
    (hp : Allocates p m Q) (hf : ∀ a h, m.env.heap.Extends h → Q a h → Allocates (f a) (m.withHeap h) R) :
    Allocates (p >>= f) m R := by
  obtain ⟨a, h, hrun, he, ha⟩ := hp
  obtain ⟨b, h', hrun', he', hb⟩ := hf a h he ha
  exact ⟨b, h', (bind_run hrun).trans hrun', he.trans he', hb⟩

lemma Allocates.nested {body : Eval α} {Q : α → Heap → Prop} (site : Expr)
    (hd : m.depth.val < maxDepth) (hbody : Allocates body (m.deeper hd) Q) :
    Allocates (nested site body) m Q := by
  obtain ⟨a, h, hrun, he, ha⟩ := hbody
  refine ⟨a, h, ?_, he, ha⟩
  rw [nested_run, dif_pos hd, hrun]
  rfl

lemma allocates_evaluate {e : Expr} {Q : Value → Heap → Prop} (hd : m.depth.val < maxDepth)
    (hnative : Allocates (native evaluate e scope none) (m.deeper hd) Q) :
    Allocates (evaluate e scope none) m Q := by
  rw [evaluate_eq, evaluateOnce]
  exact .nested e hd (hnative.bind fun a h _ ha => allocates_pure ha)

def Remakes (scope : ScopeId) (depth : Fin (maxDepth + 1)) (t : DataTree) : Prop :=
  ∀ m : Machine, m.depth = depth →
    Allocates (evaluate t.expr scope none) m fun w h => Copied m.env.heap h w t

lemma allocates_values {ts : List DataTree} (hts : ∀ t ∈ ts, Remakes scope m.depth t) :
    Allocates (values evaluate scope (ts.map DataTree.expr)) m fun ws h =>
      List.Forall₂ (Copied m.env.heap h) ws ts := by
  induction ts generalizing m with
  | nil => exact allocates_pure .nil
  | cons t ts ih =>
    obtain ⟨ht, hts⟩ := List.forall_mem_cons.mp hts
    refine (ht m rfl).bind fun w h he hw => ?_
    refine (ih (m := m.withHeap h) hts).bind fun ws h' he' hws => allocates_pure ?_
    exact .cons (hw.extend he') (hws.imp fun _ _ hw' => hw'.since he)

lemma allocates_namedValues {ts : List (String × DataTree)}
    (hts : ∀ x ∈ ts, Remakes scope m.depth x.2) :
    Allocates (namedValues evaluate scope (ts.map fun x => (x.1, x.2.expr))) m fun ws h =>
      ws.map Prod.fst = ts.map Prod.fst ∧
        List.Forall₂ (Copied m.env.heap h) (ws.map Prod.snd) (ts.map Prod.snd) := by
  induction ts generalizing m with
  | nil => exact allocates_pure ⟨rfl, .nil⟩
  | cons x ts ih =>
    obtain ⟨hx, hts⟩ := List.forall_mem_cons.mp hts
    refine (hx m rfl).bind fun w h he hw => ?_
    refine (ih (m := m.withHeap h) hts).bind fun ws h' he' hws => allocates_pure ⟨?_, ?_⟩
    · rw [List.map_cons, hws.1, List.map_cons]
    · exact .cons (hw.extend he') (hws.2.imp fun _ _ hw' => hw'.since he)

lemma remakes (scope : ScopeId) (ht : h.Unfolds v t) (hs : h.Sound v) {depth : Fin (maxDepth + 1)}
    (hdepth : ∀ n, h.Deep n v → depth.val + n < maxDepth) : Remakes scope depth t := by
  induction t using DataTree.children_induction generalizing v depth with
  | step t ih =>
    rintro m rfl
    have hd : m.depth.val < maxDepth := hdepth 0 (.here v)
    refine allocates_evaluate hd ?_
    have hchildren {c : Container} (hc : v.container? = some c) :
        ∀ s ∈ t.children, Remakes scope (m.deeper hd).depth s := by
      intro s hmem
      obtain ⟨w, hw, hws⟩ := exists_value_of_mem (ht.contents hc) hmem
      have hholds : h.Holds v w := ⟨c, hc, hw⟩
      refine ih s hmem hws (hs.of_holds hholds) fun n hn => ?_
      have hlt := hdepth (n + 1) (.inside hholds hn)
      show m.depth.val + 1 + n < maxDepth
      omega
    cases ht with
    | scalar s =>
      rw [DataTree.expr_ofScalar]
      exact allocates_pure (copied_scalar _ _ s)
    | list r items hlen hall =>
      rw [DataTree.expr_list]
      refine (allocates_values (hchildren rfl)).bind fun ws h' he hws => ?_
      exact ⟨_, _, rfl, h'.extends_newList ws, copied_newList he hws⟩
    | map r entries hkeys hall =>
      rw [DataTree.expr_map]
      have hmade := hchildren (c := .map r) rfl
      rw [DataTree.children_map, List.forall_mem_map] at hmade
      refine (allocates_namedValues hmade).bind fun ws h' he ⟨hnames, hws⟩ => ?_
      have hdistinct : (ws.map Prod.fst).Nodup := by
        rw [hnames, ← hkeys]
        exact hs.keys r (lies_self rfl)
      rw [Entries.ofList_of_nodup hdistinct]
      exact ⟨_, _, rfl, h'.extends_newMap ws, copied_newMap he hnames hdistinct hws⟩

end Eval

lemma Arena.bindings_push {a : Arena} {parent : Option ScopeId} {r : MapRef} {s : Scope}
    (hs : (a.push parent r).2.scope? (a.push parent r).1 = some s) : s.bindings = r := by
  have hchild := a.bindings_child parent r
  rw [push, allocate] at hs
  cases hfree : (a.holdParent (a.child parent r)).free.back? with
  | some i =>
    simp only [hfree, scope?, setSlot, Array.getD_eq_getD_getElem?, Array.getElem?_setIfInBounds_self] at hs
    split at hs
    · obtain rfl := Option.some.inj hs
      exact hchild
    · cases hs
  | none =>
    simp only [hfree, scope?, Array.getD_eq_getD_getElem?, Array.getElem?_push_size] at hs
    obtain rfl := Option.some.inj hs
    exact hchild

namespace Heap

variable {h h' : Heap} {r : MapRef}

lemma Extends.setMap (he : h.Extends h') (hr : .map r ∉ h.containers)
    (entries : List (String × Value)) : h.Extends (h'.setMap r entries) := by
  refine ⟨?_, ?_⟩
  · rintro (q | q) hq
    · have hlist := list_mem_containers.mp (he.grows hq)
      exact list_mem_containers.mpr hlist
    · rw [map_mem_containers, Heap.setMap, Array.size_setIfInBounds]
      exact map_mem_containers.mp (he.grows hq)
  · rintro (q | q) hq
    · exact he.same (.list q) hq
    · have hne : r.index ≠ q.index := by
        intro heq
        obtain rfl : r = q := by
          cases r
          cases q
          exact congrArg _ heq
        exact hr hq
      have hsame : h'.entries q = h.entries q := he.same (.map q) hq
      rw [HoldsSame, ← hsame, Heap.setMap]
      simp only [Heap.entries, Array.getD_eq_getD_getElem?, Array.getElem?_setIfInBounds_ne hne]

end Heap

lemma Environment.extends_define_enter (env : Environment) (parent : ScopeId) (name : String)
    (v : Value) :
    env.heap.Extends ((env.enter parent).2.define (env.enter parent).1.1 name v).heap := by
  have hgrow : env.heap.Extends (env.enter parent).2.heap := env.heap.extends_newMap []
  rw [heap_define]
  cases hown : (env.enter parent).2.own (env.enter parent).1.1 with
  | none => exact hgrow
  | some r =>
    obtain ⟨s, hs, rfl⟩ := Option.map_eq_some_iff.mp hown
    have hr : s.bindings = (env.heap.newMap []).1 := Arena.bindings_push hs
    refine hgrow.setMap ?_ _
    rw [hr]
    exact (Heap.map_newMap_mem env.heap []).2

namespace Eval

open Heap

variable {m : Machine} {h : Heap} {v : Value} {t : DataTree} {scope : ScopeId}

lemma convertTo_function (scope : ScopeId) {e : Expr} (hk : v.kind ≠ .function)
    (he : m.env.heap.expr? v = some e) :
    convertTo evaluate scope .function v m = .ok (.function m.identity scope ⟨[], e⟩ .undefined)
      { m with env := (m.env.capture scope).2, identity := m.identity + 1 } := by
  have hwrap : wrap scope v m = .ok (.function m.identity scope ⟨[], e⟩ .undefined)
      { m with env := (m.env.capture scope).2, identity := m.identity + 1 } := by
    rw [wrap, read_run, he]
    rfl
  rw [← hwrap]
  cases v with
  | scalar s => cases s <;> rfl
  | list | map => rfl
  | function => exact absurd rfl hk

lemma call_remakes (scope : ScopeId) (site : Expr) (ht : h.Unfolds v t) (hs : h.Sound v)
    (hdepth : ∀ n, h.Deep n v → m.depth.val + n < maxDepth) :
    ∃ w h', call evaluate site scope ⟨[], t.expr⟩ .undefined [] [] none m =
        .ok w { m with env := ⟨h', (m.env.enter scope).2.arena.release m.env.arena.stack.size⟩ } ∧
      m.env.heap.Extends h' ∧ Copied m.env.heap h' w t := by
  let inner := (m.env.enter scope).1.1
  let entered : Machine := { m with env := (m.env.enter scope).2.define inner "this" .undefined }
  have hgrow : m.env.heap.Extends entered.env.heap :=
    m.env.extends_define_enter scope "this" .undefined
  obtain ⟨w, h', hrun, he, hw⟩ := remakes inner ht hs hdepth entered rfl
  refine ⟨w, h', ?_, hgrow.trans he, hw.since hgrow⟩
  have hcall : call evaluate site scope ⟨[], t.expr⟩ .undefined [] [] none m =
      onExit (fun _ => release (m.env.enter scope).1.2) (release (m.env.enter scope).1.2)
        (evaluate t.expr inner none entered) := rfl
  have harena : entered.env.arena = (m.env.enter scope).2.arena :=
    Environment.arena_define _ inner "this" .undefined
  rw [hcall, hrun, (m.env.stack_enter scope).2, ← harena]
  rfl

lemma layers_call {kept : ScopeId → Prop} {s : ScopeId} (env : Environment)
    (ht : env.arena.Tends kept) (hscope : kept scope ∨ scope ∈ env.arena.stack)
    (hs : kept s ∨ s ∈ env.arena.stack) :
    (((env.capture scope).2.enter scope).2.arena.release
      (env.capture scope).2.arena.stack.size).layers s = env.arena.layers s := by
  let captured := (env.capture scope).2
  have hheld : captured.arena.Tends fun j => kept j ∨ j = scope := ht.hold (ht.occupied hscope)
  have hparent : ∀ p ∈ some scope, captured.arena.frame? p ≠ none := by
    rintro p ⟨⟩
    exact hheld.occupied (.inl (.inr rfl))
  have hentered : (captured.enter scope).2.arena.Tends fun j => kept j ∨ j = scope :=
    hheld.push hparent
  have hstays : (kept s ∨ s = scope) ∨
      s ∈ (captured.enter scope).2.arena.stack.toList.take captured.arena.stack.size := by
    rw [(captured.stack_enter scope).1, Array.toList_push, ← Array.length_toList, List.take_left,
      env.stack_capture, Array.mem_toList_iff]
    exact hs.imp_left .inl
  have hocc : captured.arena.frame? s ≠ none := by
    refine hheld.occupied (hs.imp .inl fun hmem => ?_)
    rwa [env.stack_capture]
  calc ((captured.enter scope).2.arena.release captured.arena.stack.size).layers s
      = (captured.enter scope).2.arena.layers s := (hentered.release _).2 s hstays
    _ = captured.arena.layers s := hheld.layers_push hparent hocc
    _ = env.arena.layers s := ht.layers_hold (ht.occupied hs)

lemma lookup_congr {env env' : Environment} {s : ScopeId} (hlayers : env'.layers s = env.layers s)
    (hentries : ∀ r ∈ env.layers s, env'.heap.entries r = env.heap.entries r) (name : String) :
    env'.lookup s name = env.lookup s name := by
  rw [Environment.lookup_eq, Environment.lookup_eq, hlayers]
  generalize env.layers s = rs at hentries
  induction rs with
  | nil => rfl
  | cons r rs ih =>
    obtain ⟨hr, hrs⟩ := List.forall_mem_cons.mp hentries
    rw [List.findSome?_cons, List.findSome?_cons, hr, ih hrs]

/-- Nothing dangles in a session nor in the values that it has given, and every evaluation keeps it so.
Wherever nothing dangles, a value that is no function is called as a function that makes it anew. The copy
looks like the value, down to the keys of its maps, and has no container in common with what was there;
every container, every variable and all else is as it was, so that changes to the one are none to the
other. -/
theorem call_copies :
    (∀ (s : Session) (vs : List Value), s.Serves vs → s.Intact vs) ∧ AsksSafely evaluate ∧
    ∀ (m : Machine) (v : Value), m.env.Intact → v.Stored m.env.heap.containers →
      m.env.heap.Plain v → (∀ n, m.env.heap.Deep n v → m.depth.val + n < maxDepth) →
      ∀ (scope : ScopeId) (site : Expr), ∃ identity held f owner m₁ w m₂,
        convertTo evaluate scope .function v m = .ok (.function identity held f owner) m₁ ∧
        call evaluate site held f owner [] [] none m₁ = .ok w m₂ ∧
        CopyOf m.env.heap v m₂.env.heap w ∧
        m₂ = { m with env := m₂.env, identity := m.identity + 1 } ∧ m₂.env.Intact ∧
        ∀ kept : ScopeId → Prop, m.env.arena.Tends kept →
          (kept scope ∨ scope ∈ m.env.arena.stack) →
          ∀ s, (kept s ∨ s ∈ m.env.arena.stack) →
            ∀ name, m₂.env.lookup s name = m.env.lookup s name := by
  refine ⟨fun _ _ hs => hs.intact, asksSafely_evaluate, ?_⟩
  intro m v hm hv hplain hdepth scope site
  obtain ⟨t, ht⟩ := hplain.exists_unfolds
  have hsound := hm.heap.sound hv
  have hconvert := convertTo_function scope (hplain.functionFree v .refl) ht.expr?_eq
  let m₁ : Machine := { m with env := (m.env.capture scope).2, identity := m.identity + 1 }
  obtain ⟨w, h', hcall, he, hw⟩ := call_remakes (m := m₁) scope site ht hsound hdepth
  refine ⟨_, _, _, _, m₁, w, _, hconvert, hcall, hw.copyOf ht hsound he, rfl, ?_, ?_⟩
  · have hm₁ := (hm.capture scope).intact
    have hlands := safe_call asksSafely_evaluate site scope ⟨[], t.expr⟩
      (Value.stored_scalar .undefined) allStored_nil Entries.stored_nil none m₁ hm₁ rfl
    rw [hcall] at hlands
    cases hlands with
    | ok hn => exact hn
  · intro kept htends hscope s hs name
    apply lookup_congr
    · exact layers_call m.env htends hscope hs
    · exact fun r hr => he.same (.map r) (hm.scopes.layers s r hr)

def sharingMachine : Machine :=
  { Machine.initial 0 ⟨1, .kind .number, .ofTable [], 100⟩ with
    env := ⟨sharing, Environment.initial.arena⟩ }

lemma intact_sharingMachine : sharingMachine.env.Intact := by
  refine ⟨intact_of_forall (by decide) (by decide), ?_⟩
  exact Environment.intact_initial.scopes.mono fun r hr => map_mem_containers.mpr
    ((map_mem_containers.mp hr).trans (by decide))

theorem variables_copied :
    let global := Environment.global
    sharingMachine.env.Intact ∧ Value.Stored sharing.containers (.map ⟨0⟩) ∧
      sharing.Plain (.map ⟨0⟩) ∧
      (∀ n, sharing.Deep n (.map ⟨0⟩) → sharingMachine.depth.val + n < maxDepth) ∧
      ∃ identity held f owner m₁ w m₂,
        convertTo evaluate global .function (.map ⟨0⟩) sharingMachine =
          .ok (.function identity held f owner) m₁ ∧
        call evaluate (.var .builtin "x") held f owner [] [] none m₁ = .ok w m₂ ∧
        CopyOf sharing (.map ⟨0⟩) m₂.env.heap w ∧
        m₂.env.lookup global "x" = sharingMachine.env.lookup global "x" := by
  intro global
  have hstored : Value.Stored sharing.containers (.map ⟨0⟩) := by decide
  have hplain : sharing.Plain (.map ⟨0⟩) := unfolds_sharing.1.plain
  have hdepth (n : Nat) (hn : sharing.Deep n (.map ⟨0⟩)) :
      sharingMachine.depth.val + n < maxDepth := by
    have hle : n ≤ 5 := hn.le_size hplain.acyclic
    exact (Nat.zero_add n).trans_lt (hle.trans_lt (by decide))
  have htends : sharingMachine.env.arena.Tends (· = global) :=
    Arena.tends_empty.allocate_root.mono fun _ hs => .inr hs
  obtain ⟨identity, held, f, owner, m₁, w, m₂, hconvert, hcall, hcopy, -, -, hlookup⟩ :=
    call_copies.2.2 sharingMachine (.map ⟨0⟩) intact_sharingMachine hstored hplain hdepth global
      (.var .builtin "x")
  exact ⟨intact_sharingMachine, hstored, hplain, hdepth, identity, held, f, owner, m₁, w, m₂, hconvert,
    hcall, hcopy, hlookup _ htends (.inl rfl) global (.inl rfl) "x"⟩

end Eval

end DiceLang

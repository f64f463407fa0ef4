import DiceLang.Proofs.TwoRuns.Steps

/-! Captures that are given up while a run goes on. When an evaluation ends, a collector decides which
captures of scopes that came up in it and are out of use go. Two runs stay twins, whatever the collector of
each decides. -/

namespace DiceLang

namespace Arena

variable {a : Arena} {s : ScopeId} {ids : List ScopeId} {lasting : ScopeId → Prop}

/-- Gives up a capture of the scope, if there is one that variables do not own. -/
def giveUp (a : Arena) (s : ScopeId) : Arena :=
  if a.lent s + (a.children s).card < a.holds s then a.unhold s else a

lemma frame?_giveUp (a : Arena) (s j : ScopeId) : (a.giveUp s).frame? j = a.frame? j := by
  unfold giveUp
  split
  · exact a.frame?_unhold s j
  · rfl

lemma stack_giveUp (a : Arena) (s : ScopeId) : (a.giveUp s).stack = a.stack := by
  unfold giveUp
  split
  · exact a.stack_unhold s
  · rfl

lemma Tends.giveUp (ht : a.Tends lasting) (s : ScopeId) :
    (a.giveUp s).Tends fun j => lasting j ∧ j ≠ s := by
  unfold Arena.giveUp
  by_cases hheld : a.lent s + (a.children s).card < a.holds s
  · rw [if_pos hheld]
    obtain ⟨roots, captured, hsound, hlasting⟩ := ht
    have hs : a.frame? s ≠ none := by
      intro hnone
      rw [holds, frame?_eq_none.mp hnone] at hheld
      exact absurd hheld (Nat.not_lt_zero _)
    have hmem : s ∈ captured := by
      rw [hsound.counted.holds s hs] at hheld
      exact List.count_pos_iff.mp (by omega)
    refine ⟨roots, captured.erase s, ?_, fun j hj => ?_⟩
    · exact (hsound.perm rfl rfl (.refl _) (List.perm_cons_erase hmem).symm).unhold
    · exact (hlasting j hj.1).imp_right fun hcaptured => (List.mem_erase_of_ne hj.2).mpr hcaptured
  · rw [if_neg hheld]
    exact ht.mono fun _ hj => hj.1

lemma Tends.giveUpAll (ht : a.Tends lasting) (ids : List ScopeId) :
    (ids.foldl Arena.giveUp a).Tends fun j => lasting j ∧ j ∉ ids := by
  induction ids generalizing a lasting with
  | nil => exact ht.mono fun _ hj => hj.1
  | cons s ids ih =>
    refine (ih (ht.giveUp s)).mono fun j hj => ?_
    rw [List.mem_cons, not_or] at hj
    exact ⟨⟨hj.1, hj.2.1⟩, hj.2.2⟩

lemma frame?_giveUpAll (a : Arena) (ids : List ScopeId) (j : ScopeId) :
    (ids.foldl Arena.giveUp a).frame? j = a.frame? j := by
  induction ids generalizing a with
  | nil => rfl
  | cons s ids ih => exact (ih _).trans (a.frame?_giveUp s j)

lemma stack_giveUpAll (a : Arena) (ids : List ScopeId) : (ids.foldl Arena.giveUp a).stack = a.stack := by
  induction ids generalizing a with
  | nil => rfl
  | cons s ids ih => exact (ih _).trans (a.stack_giveUp s)

lemma Tends.layers_giveUpAll (ht : a.Tends lasting) (ids : List ScopeId) (hs : a.frame? s ≠ none) :
    (ids.foldl Arena.giveUp a).layers s = a.layers s :=
  layers_of_frames ht.layered hs (fun j _ => a.frame?_giveUpAll ids j) (ht.giveUpAll ids).layered

end Arena

/-- For which scopes captures are given up when an evaluation ends, by the machines before and after it and
the value that it gives, if it gives one. -/
abbrev Collector := Machine → Machine → Option Value → List ScopeId

namespace Collector

def none : Collector := fun _ _ _ => []

/-- The scope came up in the evaluation, and no function of the heap, of the records or in the value is
from there. -/
structure OutOfUse (before after : Machine) (v : Option Value) (s : ScopeId) : Prop where
  new : before.env.arena.scope? s = .none
  heap : s ∉ after.env.heap.scopes
  log : s ∉ after.log.scopes
  value : s ∉ Paired.scopes v

instance (before after : Machine) (v : Option Value) (s : ScopeId) :
    Decidable (OutOfUse before after v s) :=
  decidable_of_iff (before.env.arena.scope? s = .none ∧ s ∉ after.env.heap.scopes ∧
      s ∉ after.log.scopes ∧ s ∉ Paired.scopes v)
    ⟨fun ⟨h₁, h₂, h₃, h₄⟩ => ⟨h₁, h₂, h₃, h₄⟩, fun h => ⟨h.1, h.2, h.3, h.4⟩⟩

def collect (τ : Collector) (before : Machine) (v : Option Value) (after : Machine) : Machine :=
  let ids := (τ before after v).filter fun s => OutOfUse before after v s
  { after with env.arena := ids.foldl Arena.giveUp after.env.arena }

end Collector

open Collector

variable {d d' d₁ d₁' : Nat} {π π' : Pairing} {m m' n n' : Machine} {v w : Option Value}

def Pairing.inUse (π : Pairing) (used used' : ScopeId → Prop) : Pairing :=
  { π with lasting := fun s t => π.lasting s t ∧ used s ∧ used' t }

lemma Twin.collect (τ τ' : Collector) (hm : Twin d d' π m m') (hle : π ≤ π') (hn : Twin d₁ d₁' π' n n')
    (hv : Like π'.lasting v w) :
    ∃ π'', π ≤ π'' ∧ Twin d₁ d₁' π'' (τ.collect m v n) (τ'.collect m' w n') ∧ Like π''.lasting v w := by
  let π'' := π'.inUse (¬ OutOfUse m n v ·) (¬ OutOfUse m' n' w ·)
  have hscopes {s t : ScopeId} (hs : π''.Scopes s t) : π'.Scopes s t := hs.imp_left fun h => h.1
  have hvalue : Like π''.lasting v w :=
    Paired.imp (fun s hs t ht hst => ⟨hst, fun h => h.value hs, fun h => h.value ht⟩) hv
  refine ⟨π'', ⟨fun s t hst => ⟨hle.lasting s t hst, ?_⟩, hle.passing, hle.left, hle.right, hle.records⟩, ?_,
    hvalue⟩
  · obtain ⟨hocc, hocc'⟩ := hm.occupied (.inl hst)
    exact ⟨fun h => hocc (Arena.frame?_eq_none.mpr h.new), fun h => hocc' (Arena.frame?_eq_none.mpr h.new)⟩
  exact {
    hn with
    heap := hn.heap.imp fun s hs t ht hst => ⟨hst, fun h => h.heap hs, fun h => h.heap ht⟩
    log := fun hr => (hn.log hr).imp fun s hs t ht hst => ⟨hst, fun h => h.log hs, fun h => h.log ht⟩
    stack := (Arena.stack_giveUpAll _ _).trans hn.stack
    stack' := (Arena.stack_giveUpAll _ _).trans hn.stack'
    tended := (hn.tended.giveUpAll _).mono fun s ⟨t, hst⟩ =>
      ⟨⟨t, hst.1⟩, fun hmem => hst.2.1 (of_decide_eq_true (List.mem_filter.mp hmem).2)⟩
    tended' := (hn.tended'.giveUpAll _).mono fun t ⟨s, hst⟩ =>
      ⟨⟨s, hst.1⟩, fun hmem => hst.2.2 (of_decide_eq_true (List.mem_filter.mp hmem).2)⟩
    layers := fun {s t} hs => by
      obtain ⟨hocc, hocc'⟩ := hn.occupied (hscopes hs)
      exact (hn.tended.layers_giveUpAll _ hocc).trans
        ((hn.layers (hscopes hs)).trans (hn.tended'.layers_giveUpAll _ hocc').symm) }

namespace Eval

def collecting (τ : Collector) (body : Eval Value) : Eval Value := fun m =>
  onExit (fun v => τ.collect m (some v)) (τ.collect m none) (body m)

lemma Alike.collecting {body body' : Eval Value} (h : Alike d d' π body body') (τ τ' : Collector) :
    Alike d d' π (collecting τ body) (collecting τ' body') := by
  intro m m' hm
  refine (h m m' hm).onExit id (fun hle hn hab => ?_) fun hle hn => ?_
  · obtain ⟨π'', hle'', hn'', hab''⟩ := hm.collect τ τ' hle hn (Option.Rel.some hab)
    cases hab'' with
    | some hab'' => exact ⟨π'', hle'', hn'', hab''⟩
  · obtain ⟨π'', hle'', hn'', -⟩ := hm.collect τ τ' hle hn Option.Rel.none
    exact ⟨π'', hle'', hn''⟩

lemma collecting_none (body : Eval Value) : collecting Collector.none body = body := by
  funext m
  unfold collecting
  cases body m <;> rfl

end Eval

def evaluateWithinBy (τ : Collector) : Nat → Again
  | 0, e, _, _ => Eval.fail e (.recursionLimit maxDepth)
  | room + 1, e, scope, target =>
    Eval.nested e <| Eval.collecting τ do
      let v ← Eval.native (evaluateWithinBy τ room) e scope target
      Eval.convert (evaluateWithinBy τ room) scope target v

def evaluateBy (τ : Collector) : Again := fun e scope target m =>
  evaluateWithinBy τ (maxDepth - m.depth) e scope target m

lemma evaluateWithinBy_none (room : Nat) : evaluateWithinBy .none room = evaluateWithin room := by
  induction room with
  | zero => rfl
  | succ room ih =>
    funext e scope target
    rw [evaluateWithinBy, Eval.collecting_none, ih, evaluateWithin]

lemma evaluateBy_none : evaluateBy .none = evaluate := by
  funext e scope target m
  rw [evaluateBy, evaluateWithinBy_none, evaluate]

end DiceLang

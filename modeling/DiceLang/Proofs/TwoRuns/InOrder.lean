import DiceLang.Proofs.Eval.Typed
import DiceLang.Proofs.TwoRuns.Forms

/-! Machines that are in order: functions hold only scopes that are there for good. Such a machine is its own
twin, so a run leaves it in order. -/

namespace DiceLang

variable {α : Type} {kept : ScopeId → Prop} {m : Machine}

structure Machine.InOrder (kept : ScopeId → Prop) (m : Machine) : Prop where
  arena : m.env.arena.Tends kept
  heap : Heap.Like (.diagonal kept) m.env.heap m.env.heap
  log : RecordLog.Like (.diagonal kept) m.log m.log

def Pairing.itself (kept : ScopeId → Prop) (stack : Array ScopeId) : Pairing where
  lasting := .diagonal kept
  passing := .diagonal (· ∈ stack)
  left := stack
  right := stack
  records := True
  mem_left h := h.2
  mem_right h := h.1 ▸ h.2

lemma Pairing.scopes_itself {stack : Array ScopeId} {s : ScopeId} (hs : kept s ∨ s ∈ stack) :
    (itself kept stack).Scopes s s :=
  hs.imp (fun h => ⟨rfl, h⟩) fun h => ⟨rfl, h⟩

namespace Machine.InOrder

lemma twin (hm : m.InOrder kept) :
    Twin m.depth m.depth (.itself kept m.env.arena.stack) m m where
  depth := rfl
  depth' := rfl
  heap := hm.heap
  log _ := hm.log
  inFlight := rfl
  identity := rfl
  generator := rfl
  imports := rfl
  settings := rfl
  stack := rfl
  stack' := rfl
  tended := hm.arena.mono fun _ ⟨_, h⟩ => h.2
  tended' := hm.arena.mono fun _ ⟨_, h⟩ => h.1 ▸ h.2
  layers := by
    rintro s t (⟨rfl, -⟩ | ⟨rfl, -⟩)
    · rfl
    · rfl

end Machine.InOrder

lemma Twin.inOrder {d : Nat} {π : Pairing} (ht : Twin d d π m m) (hr : π.records) :
    m.InOrder fun s => π.lasting s s where
  arena := ht.tended.mono fun s hs => ⟨s, hs⟩
  heap := ht.heap.self
  log := (ht.log hr).self

namespace Machine.InOrder

variable [Paired α] {p : Eval α}

lemma after (hm : m.InOrder kept)
    (hp : Eval.Alike m.depth m.depth (.itself kept m.env.arena.stack) p p) :
    ∃ kept' : ScopeId → Prop, (∀ s, kept s → kept' s) ∧ (Eval.after (p m)).InOrder kept' ∧
      ∀ a n, p m = .ok a n → Like (.diagonal kept') a a := by
  have hends := hp m m hm.twin
  generalize p m = r at hends ⊢
  cases hends with
  | @ok π a b n n' hle ht hab =>
    refine ⟨fun s => π.lasting s s, fun s hs => hle.lasting s s ⟨rfl, hs⟩,
      ht.inOrder (hle.records ▸ trivial), ?_⟩
    rintro a n ⟨⟩
    exact Paired.self hab
  | @error π e n n' hle ht =>
    refine ⟨fun s => π.lasting s s, fun s hs => hle.lasting s s ⟨rfl, hs⟩,
      ht.inOrder (hle.records ▸ trivial), ?_⟩
    rintro a n ⟨⟩
  | left hne _ => exact absurd rfl hne
  | right hne _ => exact absurd rfl hne

end Machine.InOrder

lemma Machine.inOrder_initial (seed : UInt64) (settings : Settings) :
    (Machine.initial seed settings).InOrder (· = Environment.global) where
  arena := Arena.tends_empty.allocate_root.mono fun _ hs => .inr hs
  heap := Heap.like_empty.newMap like_nil
  log := RecordLog.like_empty

namespace Session

variable {s : Session} {vs : List Value}

inductive Serves : Session → List Value → Prop
  | start (options : Options) (fetch : Fetch) : Serves (start options fetch) []
  | eval {s : Session} {vs : List Value} (text : String) : Serves s vs →
      Serves (s.eval text).2 ((s.eval text).1.toOption.toList ++ vs)
  | run {s : Session} {vs : List Value} (source text : String) : Serves s vs →
      Serves (s.run source text).2 vs
  | convert {s : Session} {vs : List Value} (target : Option Kind) {v : Value} : v ∈ vs → Serves s vs →
      Serves (s.convert target v).2 ((s.convert target v).1.toOption.toList ++ vs)

structure Orderly (s : Session) (vs : List Value) (kept : ScopeId → Prop) : Prop where
  machine : s.machine.InOrder kept
  global : kept Environment.global
  values : Like (.diagonal kept) vs vs

lemma alike_evaluateAll {d d' : Nat} {π : Pairing} {v w : Value}
    (hs : π.Scopes Environment.global Environment.global) (hv : Like π.lasting v w) (es : List Expr) :
    Eval.Alike d d' π (evaluateAll v es) (evaluateAll w es) := by
  induction es generalizing π v w with
  | nil => exact .ret hv
  | cons e es ih => exact (Eval.asksAlike_evaluate hs e none).bind fun hle _ _ hv => ih (hs.mono hle) hv

lemma alike_aggregateRecords {d d' : Nat} {π : Pairing} (hr : π.records) :
    Eval.Alike d d' π aggregateRecords aggregateRecords := by
  refine .change fun ht => ?_
  have hlog := RecordLog.Like.aggregate ht.heap (ht.log hr)
  exact ⟨ht.withLog (fun _ => hlog) ht.inFlight, hlog.records⟩

namespace Orderly

lemma perform [Paired α] {step : Eval α} (hs : s.Orderly vs kept)
    (hp : ∀ {d π}, π.Scopes Environment.global Environment.global → (∀ s, kept s → π.lasting s s) →
      π.records → Eval.Alike d d π step step) :
    ∃ kept', (s.perform step).2.Orderly vs kept' ∧
      ∀ a, (s.perform step).1 = .ok a → Like (.diagonal kept') a a := by
  obtain ⟨kept', hle, hm, hgiven⟩ :=
    hs.machine.after (hp (.inl ⟨rfl, hs.global⟩) (fun _ hj => ⟨rfl, hj⟩) trivial)
  refine ⟨kept', ⟨?_, hle _ hs.global, ?_⟩, fun a ha => hgiven a _ (ok_of_perform ha)⟩
  · rw [machine_perform]
    exact hm
  · exact Paired.mono (fun j k hjk => ⟨hjk.1, hle j hjk.2⟩) hs.values

lemma give {o : Except RunError Value} (hs : s.Orderly vs kept)
    (ho : ∀ v, o = .ok v → Like (.diagonal kept) v v) : s.Orderly (o.toOption.toList ++ vs) kept := by
  cases o with
  | error e => exact hs
  | ok v => exact ⟨hs.machine, hs.global, like_cons (ho v rfl) hs.values⟩

end Orderly

lemma Serves.orderly (h : Serves s vs) : ∃ kept, s.Orderly vs kept := by
  induction h with
  | start options fetch => exact ⟨_, Machine.inOrder_initial _ _, rfl, like_nil⟩
  | @eval s vs text _ ih =>
    obtain ⟨kept, hs⟩ := ih
    unfold Session.eval
    cases parse "<eval>" text with
    | error _ => exact ⟨kept, hs⟩
    | ok program =>
      obtain ⟨kept', hs', hv⟩ := hs.perform fun hglobal _ _ =>
        alike_evaluateAll hglobal Value.like_undefined program
      exact ⟨kept', hs'.give hv⟩
  | @run s vs source text _ ih =>
    obtain ⟨kept, hs⟩ := ih
    have hcleared : Orderly { s with machine := s.machine.onLog fun _ => .empty } vs kept :=
      ⟨⟨hs.machine.arena, hs.machine.heap, RecordLog.like_empty⟩, hs.global, hs.values⟩
    unfold Session.run
    dsimp only
    split
    · exact ⟨kept, hcleared⟩
    · obtain ⟨kept', hs', -⟩ := hcleared.perform fun hglobal _ hr =>
        (alike_evaluateAll hglobal Value.like_undefined _).bind fun hle _ _ _ =>
          alike_aggregateRecords (hle.records ▸ hr)
      exact ⟨kept', hs'⟩
  | @convert s vs target v hv _ ih =>
    obtain ⟨kept, hs⟩ := ih
    have hself : Like (.diagonal kept) v v := List.forall₂_same.mp hs.values v hv
    obtain ⟨kept', hs', hgiven⟩ := hs.perform fun {d π} hglobal hle _ => by
      refine Eval.alike_convert Eval.asksAlike_evaluate hglobal target (Paired.mono ?_ hself)
      rintro j k ⟨rfl, hj⟩
      exact hle j hj
    exact ⟨kept', hs'.give hgiven⟩

end Session

end DiceLang

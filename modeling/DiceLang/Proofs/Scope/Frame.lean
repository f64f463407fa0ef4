import DiceLang.Proofs.Scope.Stack

/-! What each step of the arena does to its scopes. A scope is a frame, which it keeps as long as it
lives, and a number of holds, which come and go. -/

namespace DiceLang

structure Frame where
  parent : Option ScopeId
  depth : Nat
  bindings : MapRef
  anchored : Bool
  owned : List Capture

def Scope.frame (s : Scope) : Frame := ⟨s.parent, s.depth, s.bindings, s.anchored, s.owned⟩

lemma ScopeId.index_injective : Function.Injective ScopeId.index := by
  rintro ⟨i⟩ ⟨j⟩ rfl
  rfl

namespace Arena

variable {a : Arena} {id j p : ScopeId} {f : Frame}

def frame? (a : Arena) (id : ScopeId) : Option Frame := (a.scope? id).map Scope.frame

def holds (a : Arena) (id : ScopeId) : Nat := ((a.scope? id).map Scope.holds).getD 0

def fresh (a : Arena) : ScopeId :=
  match a.free.back? with
  | some i => ⟨i⟩
  | none => ⟨a.slots.size⟩

lemma frame?_eq_none : a.frame? id = none ↔ a.scope? id = none := by
  rw [frame?, Option.map_eq_none_iff]

lemma exists_scope (hf : a.frame? id = some f) : ∃ s, a.scope? id = some s ∧ s.frame = f :=
  Option.map_eq_some_iff.mp hf

lemma isSome_scope? : (a.scope? id).isSome ↔ a.frame? id ≠ none := by
  rw [Ne, frame?_eq_none, Option.isSome_iff_ne_none]

lemma isHeld_iff : a.isHeld id = true ↔ 0 < a.holds id := by
  rw [isHeld, holds]
  cases a.scope? id <;> simp

lemma index_lt (hf : a.frame? id ≠ none) : id.index < a.slots.size := by
  by_contra hle
  rw [not_lt] at hle
  apply hf
  simp [frame?, scope?, Array.getD, hle]

lemma scope?_setSlot (a : Arena) (id : ScopeId) (s : Option Scope) (hid : id.index < a.slots.size)
    (j : ScopeId) : (a.setSlot id s).scope? j = if j = id then s else a.scope? j := by
  rcases id with ⟨i⟩
  rcases j with ⟨k⟩
  by_cases hk : k = i
  · subst hk
    simp [setSlot, scope?, hid]
  · have hne : (ScopeId.mk k) ≠ ⟨i⟩ := fun heq => hk (congrArg ScopeId.index heq)
    simp [setSlot, scope?, hne, Ne.symm hk]

lemma frame?_setSlot (a : Arena) (id : ScopeId) (s : Option Scope) (hid : id.index < a.slots.size)
    (j : ScopeId) : (a.setSlot id s).frame? j = if j = id then s.map Scope.frame else a.frame? j := by
  rw [frame?, scope?_setSlot a id s hid j]
  split <;> rfl

lemma holds_setSlot (a : Arena) (id : ScopeId) (s : Option Scope) (hid : id.index < a.slots.size)
    (j : ScopeId) :
    (a.setSlot id s).holds j = if j = id then (s.map Scope.holds).getD 0 else a.holds j := by
  rw [holds, scope?_setSlot a id s hid j]
  split <;> rfl

def adjust (a : Arena) (id : ScopeId) (g : Scope → Scope) : Arena :=
  match a.scope? id with
  | some s => a.setSlot id (some (g s))
  | none => a

lemma scope?_adjust (a : Arena) (id : ScopeId) (g : Scope → Scope) (j : ScopeId) :
    (a.adjust id g).scope? j = if j = id then (a.scope? j).map g else a.scope? j := by
  rw [adjust]
  cases hs : a.scope? id with
  | some s =>
    dsimp only
    rw [scope?_setSlot _ _ _ (index_lt (by simp [frame?, hs]))]
    by_cases hj : j = id
    · rw [if_pos hj, if_pos hj, hj, hs]
      rfl
    · rw [if_neg hj, if_neg hj]
  | none =>
    dsimp only
    by_cases hj : j = id
    · rw [if_pos hj, hj, hs]
      rfl
    · rw [if_neg hj]

lemma adjust_same (a : Arena) (id : ScopeId) (g : Scope → Scope) :
    (a.adjust id g).free = a.free ∧ (a.adjust id g).parked = a.parked ∧
      (a.adjust id g).stack = a.stack ∧ (a.adjust id g).sweepAt = a.sweepAt ∧
      (a.adjust id g).slots.size = a.slots.size := by
  rw [adjust]
  split
  · exact ⟨rfl, rfl, rfl, rfl, by simp [setSlot]⟩
  · exact ⟨rfl, rfl, rfl, rfl, rfl⟩

lemma frame?_adjust (a : Arena) (id : ScopeId) {g : Scope → Scope} (hg : ∀ s, (g s).frame = s.frame)
    (j : ScopeId) : (a.adjust id g).frame? j = a.frame? j := by
  rw [frame?, frame?, scope?_adjust]
  split
  · rw [Option.map_map]
    exact congrArg (Option.map · _) (funext hg)
  · rfl

lemma holds_adjust (a : Arena) (id : ScopeId) {g : Scope → Scope} (hg : ∀ s, (g s).holds = s.holds)
    (j : ScopeId) : (a.adjust id g).holds j = a.holds j := by
  rw [holds, holds, scope?_adjust]
  split
  · rw [Option.map_map]
    exact congrArg (fun h => (Option.map h _).getD 0) (funext hg)
  · rfl

lemma holds_hold (hid : a.frame? id ≠ none) (j : ScopeId) :
    (a.hold id).holds j = if j = id then a.holds j + 1 else a.holds j := by
  have heq := a.scope?_adjust id (fun s => { s with holds := s.holds + 1 }) j
  change (a.hold id).scope? j = _ at heq
  obtain ⟨s, hs⟩ := Option.ne_none_iff_exists'.mp (mt frame?_eq_none.mpr hid)
  rw [holds, heq]
  by_cases hj : j = id
  · rw [if_pos hj, if_pos hj, holds, hj, hs]
    rfl
  · rw [if_neg hj, if_neg hj, holds]

lemma holds_unhold (a : Arena) (id j : ScopeId) :
    (a.unhold id).holds j = if j = id then a.holds j - 1 else a.holds j := by
  have heq := a.scope?_adjust id (fun s => { s with holds := s.holds - 1 }) j
  change (a.unhold id).scope? j = _ at heq
  rw [holds, heq]
  split
  · rw [holds]
    cases a.scope? j <;> rfl
  · rfl

@[simp] lemma free_hold (a : Arena) (id : ScopeId) : (a.hold id).free = a.free :=
  (a.adjust_same id _).1

@[simp] lemma free_unhold (a : Arena) (id : ScopeId) : (a.unhold id).free = a.free :=
  (a.adjust_same id _).1

@[simp] lemma parked_hold (a : Arena) (id : ScopeId) : (a.hold id).parked = a.parked :=
  (a.adjust_same id _).2.1

@[simp] lemma parked_unhold (a : Arena) (id : ScopeId) : (a.unhold id).parked = a.parked :=
  (a.adjust_same id _).2.1

@[simp] lemma size_hold (a : Arena) (id : ScopeId) : (a.hold id).slots.size = a.slots.size :=
  (a.adjust_same id _).2.2.2.2

@[simp] lemma size_unhold (a : Arena) (id : ScopeId) : (a.unhold id).slots.size = a.slots.size :=
  (a.adjust_same id _).2.2.2.2

@[simp] lemma frame?_hold (a : Arena) (id j : ScopeId) : (a.hold id).frame? j = a.frame? j :=
  frame?_adjust (g := fun s => { s with holds := s.holds + 1 }) a id (fun _ => rfl) j

@[simp] lemma frame?_unhold (a : Arena) (id j : ScopeId) : (a.unhold id).frame? j = a.frame? j :=
  frame?_adjust (g := fun s => { s with holds := s.holds - 1 }) a id (fun _ => rfl) j

lemma drop_of_busy {c : Capture} (hc : c.idle = false) : a.drop c = a.unhold c.scope := by
  rw [drop, if_neg (by simp [hc])]

structure Lightens (a a' : Arena) : Prop where
  free : a'.free = a.free
  parked : a'.parked = a.parked
  sweepAt : a'.sweepAt = a.sweepAt
  size : a'.slots.size = a.slots.size
  frame : ∀ j, a'.frame? j = a.frame? j

lemma lightens_unhold (a : Arena) (id : ScopeId) : Lightens a (a.unhold id) := by
  obtain ⟨hfree, hparked, -, hsweep, hsize⟩ :=
    a.adjust_same id fun s => { s with holds := s.holds - 1 }
  exact ⟨hfree, hparked, hsweep, hsize, a.frame?_unhold id⟩

lemma lightens_drop (a : Arena) (c : Capture) : Lightens a (a.drop c) := by
  rw [drop]
  split
  · exact ⟨rfl, rfl, rfl, rfl, fun _ => rfl⟩
  · exact a.lightens_unhold c.scope

lemma lightens_foldl_drop (cs : List Capture) (a : Arena) : Lightens a (cs.foldl drop a) := by
  induction cs generalizing a with
  | nil => exact ⟨rfl, rfl, rfl, rfl, fun _ => rfl⟩
  | cons c cs ih =>
    have hc := a.lightens_drop c
    have hcs := ih (a.drop c)
    exact ⟨hcs.free.trans hc.free, hcs.parked.trans hc.parked, hcs.sweepAt.trans hc.sweepAt,
      hcs.size.trans hc.size, fun j => (hcs.frame j).trans (hc.frame j)⟩

structure Reowns (a a' : Arena) (id : ScopeId) (g : List Capture → List Capture) : Prop where
  free : a'.free = a.free
  parked : a'.parked = a.parked
  stack : a'.stack = a.stack
  sweepAt : a'.sweepAt = a.sweepAt
  size : a'.slots.size = a.slots.size
  holds : ∀ j, a'.holds j = a.holds j
  frame : ∀ j, a'.frame? j =
    if j = id then (a.frame? j).map fun f => { f with owned := g f.owned } else a.frame? j

lemma reowns_adjust (a : Arena) (id : ScopeId) (g : List Capture → List Capture) :
    Reowns a (a.adjust id fun s => { s with owned := g s.owned }) id g := by
  obtain ⟨hfree, hparked, hstack, hsweep, hsize⟩ :=
    a.adjust_same id fun s => { s with owned := g s.owned }
  refine ⟨hfree, hparked, hstack, hsweep, hsize, a.holds_adjust id fun _ => rfl, fun j => ?_⟩
  rw [frame?, frame?, scope?_adjust]
  split
  · rw [Option.map_map, Option.map_map]
    rfl
  · rfl

lemma reowns_entrust (hid : a.frame? id ≠ none) (c : Capture) : Reowns a (a.entrust id c) id (c :: ·) := by
  obtain ⟨s, hs⟩ := Option.ne_none_iff_exists'.mp (mt frame?_eq_none.mpr hid)
  have heq : a.entrust id c = a.adjust id fun s => { s with owned := c :: s.owned } := by
    rw [entrust, adjust, hs]
  rw [heq]
  exact a.reowns_adjust id (c :: ·)

lemma fst_reclaim (hf : a.frame? id = some f) (n : Nat) : (a.reclaim id n).1 = f.owned[n]? := by
  obtain ⟨s, hs, rfl⟩ := exists_scope hf
  rw [reclaim, hs]
  rfl

lemma reowns_reclaim (a : Arena) (id : ScopeId) (n : Nat) :
    Reowns a (a.reclaim id n).2 id (·.eraseIdx n) := by
  have heq : (a.reclaim id n).2 = a.adjust id fun s => { s with owned := s.owned.eraseIdx n } := by
    rw [reclaim, adjust]
    cases a.scope? id <;> rfl
  rw [heq]
  exact a.reowns_adjust id (·.eraseIdx n)

lemma holdParent_child (a : Arena) (parent : Option ScopeId) (bindings : MapRef)
    (hparent : ∀ p ∈ parent, a.frame? p ≠ none) :
    a.holdParent (a.child parent bindings) = parent.elim a a.hold := by
  cases parent with
  | none => rfl
  | some p =>
    obtain ⟨s, hs⟩ := Option.ne_none_iff_exists'.mp (mt frame?_eq_none.mpr (hparent p rfl))
    simp [child, holdParent, hs]

lemma frame_child (a : Arena) (p : ScopeId) (bindings : MapRef) (hf : a.frame? p = some f) :
    (a.child (some p) bindings).frame = ⟨some p, f.depth + 1, bindings, true, []⟩ := by
  obtain ⟨s, hs, rfl⟩ := exists_scope hf
  simp [child, hs, Scope.frame]

lemma holds_child (a : Arena) (parent : Option ScopeId) (bindings : MapRef) :
    (a.child parent bindings).holds = 0 := by
  rw [child]
  split <;> rfl

lemma owned_child (a : Arena) (parent : Option ScopeId) (bindings : MapRef) :
    (a.child parent bindings).frame.owned = [] := by
  rw [child]
  split <;> rfl

def place (a : Arena) (s : Scope) : Arena :=
  match a.free.back? with
  | some i => { a.setSlot ⟨i⟩ (some s) with free := a.free.pop }
  | none => { a with slots := a.slots.push (some s) }

lemma scope?_place (s : Scope) (hfree : ∀ i ∈ a.free, i < a.slots.size) (j : ScopeId) :
    (a.place s).scope? j = if j = a.fresh then some s else a.scope? j := by
  cases hback : a.free.back? with
  | some i =>
    have hi : i < a.slots.size := hfree i (Array.mem_of_back? hback)
    simp only [place, fresh, hback]
    exact scope?_setSlot a ⟨i⟩ (some s) hi j
  | none =>
    rcases j with ⟨k⟩
    simp only [place, fresh, hback, scope?, ScopeId.mk.injEq]
    rw [Array.getD_eq_getD_getElem?, Array.getD_eq_getD_getElem?, Array.getElem?_push]
    split <;> rfl

lemma free_place (a : Arena) (s : Scope) : (a.place s).free = a.free.pop := by
  rw [place]
  cases hback : a.free.back? with
  | some _ => rfl
  | none => simp [Array.back?_eq_none_iff.mp hback]

lemma parked_place (a : Arena) (s : Scope) : (a.place s).parked = a.parked := by
  rw [place]
  split <;> rfl

lemma size_place_of_empty (s : Scope) (hempty : a.free = #[]) :
    (a.place s).slots.size = a.slots.size + 1 := by
  simp [place, hempty]

lemma size_place_of_ne (s : Scope) (hne : a.free ≠ #[]) : (a.place s).slots.size = a.slots.size := by
  rw [place]
  cases hback : a.free.back? with
  | some _ => simp [setSlot]
  | none => exact absurd (Array.back?_eq_none_iff.mp hback) hne

section Allocate

variable {parent : Option ScopeId} {bindings : MapRef}

lemma allocate_eq (hparent : ∀ p ∈ parent, a.frame? p ≠ none) :
    a.allocate parent bindings =
      (a.fresh, (parent.elim a a.hold).place (a.child parent bindings)) := by
  have hfree : (parent.elim a a.hold).free = a.free := by cases parent <;> simp
  have hsize : (parent.elim a a.hold).slots.size = a.slots.size := by cases parent <;> simp
  rw [allocate]
  dsimp only
  rw [holdParent_child a parent bindings hparent, place, fresh, hfree]
  cases a.free.back? with
  | some i => rfl
  | none => rw [hsize]

lemma fresh_held (a : Arena) (parent : Option ScopeId) : (parent.elim a a.hold).fresh = a.fresh := by
  cases parent <;> simp [fresh]

lemma frame?_held (a : Arena) (parent : Option ScopeId) (j : ScopeId) :
    (parent.elim a a.hold).frame? j = a.frame? j := by
  cases parent <;> simp

lemma holds_held (hparent : ∀ p ∈ parent, a.frame? p ≠ none) (j : ScopeId) :
    (parent.elim a a.hold).holds j = if parent = some j then a.holds j + 1 else a.holds j := by
  cases parent with
  | none => rfl
  | some p =>
    rw [Option.elim_some, holds_hold (hparent p rfl)]
    simp [eq_comm]

structure Gains (a a' : Arena) (id : ScopeId) (f : Frame) : Prop where
  vacant : a.frame? id = none
  frame : ∀ j, a'.frame? j = if j = id then some f else a.frame? j
  holds : ∀ j, a'.holds j = if j = id then 0 else if f.parent = some j then a.holds j + 1 else a.holds j

lemma Gains.congr {a' b : Arena} (hg : Gains a a' id f) (hslots : b.slots = a'.slots) :
    Gains a b id f := by
  have hscope (j : ScopeId) : b.scope? j = a'.scope? j := by rw [scope?, hslots]; rfl
  refine ⟨hg.vacant, fun j => ?_, fun j => ?_⟩
  · rw [frame?, hscope]
    exact hg.frame j
  · rw [Arena.holds, hscope]
    exact hg.holds j

lemma scope?_allocate (hparent : ∀ p ∈ parent, a.frame? p ≠ none)
    (hfree : ∀ i ∈ a.free, i < a.slots.size) (j : ScopeId) :
    (a.allocate parent bindings).2.scope? j =
      if j = a.fresh then some (a.child parent bindings) else (parent.elim a a.hold).scope? j := by
  rw [allocate_eq hparent, scope?_place, fresh_held]
  cases parent <;> simpa using hfree

lemma parent_child (hparent : ∀ p ∈ parent, a.frame? p ≠ none) :
    (a.child parent bindings).frame.parent = parent := by
  cases parent with
  | none => rfl
  | some p =>
    obtain ⟨g, hg⟩ := Option.ne_none_iff_exists'.mp (hparent p rfl)
    rw [frame_child a p bindings hg]

lemma depth_child (hparent : ∀ p ∈ parent, a.frame? p ≠ none) :
    ∀ p ∈ (a.child parent bindings).frame.parent,
      ∃ g, a.frame? p = some g ∧ (a.child parent bindings).frame.depth = g.depth + 1 := by
  rw [parent_child hparent]
  rintro p rfl
  obtain ⟨g, hg⟩ := Option.ne_none_iff_exists'.mp (hparent p rfl)
  exact ⟨g, hg, by rw [frame_child a p bindings hg]⟩

lemma anchored_child (hparent : ∀ p ∈ parent, a.frame? p ≠ none) :
    (a.child parent bindings).frame.anchored = (a.child parent bindings).frame.parent.isSome := by
  cases parent with
  | none => rfl
  | some p =>
    obtain ⟨g, hg⟩ := Option.ne_none_iff_exists'.mp (hparent p rfl)
    rw [frame_child a p bindings hg]
    rfl

lemma gains_allocate (hparent : ∀ p ∈ parent, a.frame? p ≠ none)
    (hfree : ∀ i ∈ a.free, i < a.slots.size) (hfresh : a.frame? a.fresh = none) :
    Gains a (a.allocate parent bindings).2 a.fresh (a.child parent bindings).frame := by
  refine ⟨hfresh, fun j => ?_, fun j => ?_⟩
  · rw [frame?, scope?_allocate hparent hfree]
    split
    · rfl
    · exact frame?_held a parent j
  · rw [holds, scope?_allocate hparent hfree, parent_child hparent]
    split
    · exact holds_child a parent bindings
    · exact holds_held hparent j

lemma free_allocate (hparent : ∀ p ∈ parent, a.frame? p ≠ none) :
    (a.allocate parent bindings).2.free = a.free.pop := by
  rw [allocate_eq hparent, free_place]
  cases parent <;> simp

lemma parked_allocate (hparent : ∀ p ∈ parent, a.frame? p ≠ none) :
    (a.allocate parent bindings).2.parked = a.parked := by
  rw [allocate_eq hparent, parked_place]
  cases parent <;> simp

lemma size_allocate_of_empty (hparent : ∀ p ∈ parent, a.frame? p ≠ none) (hempty : a.free = #[]) :
    (a.allocate parent bindings).2.slots.size = a.slots.size + 1 := by
  rw [allocate_eq hparent, size_place_of_empty] <;> cases parent <;> simp [hempty]

lemma size_allocate_of_ne (hparent : ∀ p ∈ parent, a.frame? p ≠ none) (hne : a.free ≠ #[]) :
    (a.allocate parent bindings).2.slots.size = a.slots.size := by
  rw [allocate_eq hparent, size_place_of_ne] <;> cases parent <;> simp [hne]

lemma fst_push (hparent : ∀ p ∈ parent, a.frame? p ≠ none) : (a.push parent bindings).1 = a.fresh :=
  congrArg Prod.fst (allocate_eq hparent)

lemma stack_push (hparent : ∀ p ∈ parent, a.frame? p ≠ none) :
    (a.push parent bindings).2.stack = a.stack.push a.fresh := by
  rw [← fst_push hparent, push]
  simp

end Allocate

def vacate (a : Arena) (id : ScopeId) : Arena :=
  { a.setSlot id none with free := a.free.push id.index }

lemma frame?_vacate (hid : a.frame? id ≠ none) (j : ScopeId) :
    (a.vacate id).frame? j = if j = id then none else a.frame? j :=
  frame?_setSlot a id none (index_lt hid) j

lemma holds_vacate (hid : a.frame? id ≠ none) (j : ScopeId) :
    (a.vacate id).holds j = if j = id then 0 else a.holds j :=
  holds_setSlot a id none (index_lt hid) j

/-- The arena without a scope and its hold on its parent, with the captures of its variables still there. -/
def leave (a : Arena) (id : ScopeId) (f : Frame) : Arena :=
  f.parent.elim (a.vacate id) (a.vacate id).unhold

lemma freeSlot_eq (hf : a.frame? id = some f) (hanchored : f.anchored = f.parent.isSome) :
    a.freeSlot id = f.owned.foldl drop (a.leave id f) := by
  obtain ⟨s, hs, rfl⟩ := exists_scope hf
  have hfree : a.freeSlot id = s.owned.foldl drop ((a.vacate id).unholdParent s) := by
    rw [freeSlot, hs]
    rfl
  have hleave : (a.vacate id).unholdParent s = a.leave id s.frame := by
    rw [unholdParent, leave, Scope.frame]
    cases hp : s.parent with
    | none => rfl
    | some p =>
      have hyes : s.anchored = true := by simpa [Scope.frame, hp] using hanchored
      simp [hyes]
  rw [hfree, hleave]
  rfl

structure Loses (a a' : Arena) (id : ScopeId) (f : Frame) : Prop where
  occupied : a.frame? id = some f
  free : a'.free = a.free.push id.index
  parked : a'.parked = a.parked
  stack : a'.stack = a.stack
  size : a'.slots.size = a.slots.size
  frame : ∀ j, a'.frame? j = if j = id then none else a.frame? j
  holds : ∀ j, j ≠ id → a'.holds j = if f.parent = some j then a.holds j - 1 else a.holds j

lemma loses_leave (hf : a.frame? id = some f) : Loses a (a.leave id f) id f := by
  have hid : a.frame? id ≠ none := by simp [hf]
  rw [leave]
  cases hp : f.parent with
  | none =>
    refine ⟨hf, rfl, rfl, rfl, by simp [vacate, setSlot], frame?_vacate hid, fun j hj => ?_⟩
    rw [Option.elim_none, holds_vacate hid, if_neg hj, hp, if_neg nofun]
  | some p =>
    rw [Option.elim_some]
    refine ⟨hf, by simp [vacate], by simp [vacate, setSlot], by simp [vacate], by simp [vacate, setSlot],
      fun j => ?_, fun j hj => ?_⟩
    · rw [frame?_unhold, frame?_vacate hid]
    · rw [holds_unhold, holds_vacate hid, if_neg hj, hp]
      simp [eq_comm]

lemma frame?_freeSlot (hf : a.frame? id = some f) (hanchored : f.anchored = f.parent.isSome)
    (j : ScopeId) : (a.freeSlot id).frame? j = if j = id then none else a.frame? j := by
  rw [freeSlot_eq hf hanchored, (lightens_foldl_drop _ _).frame, (loses_leave hf).frame]

end Arena

end DiceLang

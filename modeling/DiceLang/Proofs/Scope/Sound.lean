import DiceLang.Proofs.Lists
import DiceLang.Proofs.Scope.Frame

/-! The invariant of the arena. Every occupied slot is owned once, and a scope is held once by each capture of
it and once by each scope right under it. -/

namespace DiceLang.Arena

variable {a a' : Arena} {id j p : ScopeId} {f : Frame} {scopes scopes' captured captured' : List ScopeId}

def Layered (a : Arena) : Prop :=
  ∀ id f p, a.frame? id = some f → f.parent = some p → ∃ g, a.frame? p = some g ∧ f.depth = g.depth + 1

def Anchored (a : Arena) : Prop := ∀ id f, a.frame? id = some f → f.anchored = f.parent.isSome

structure ListsFree (a : Arena) : Prop where
  nodup : a.free.toList.Nodup
  mem : ∀ i, i ∈ a.free ↔ i < a.slots.size ∧ a.frame? ⟨i⟩ = none

structure Owned (a : Arena) (scopes : List ScopeId) : Prop where
  nodup : scopes.Nodup
  mem : ∀ id, id ∈ scopes ↔ a.frame? id ≠ none

def children (a : Arena) (p : ScopeId) : Finset ScopeId :=
  ((Finset.range a.slots.size).image ScopeId.mk).filter fun id =>
    (a.frame? id).bind Frame.parent = some p

def occupied (a : Arena) : Finset ScopeId :=
  ((Finset.range a.slots.size).image ScopeId.mk).filter fun id => (a.frame? id).isSome

def lentBy (a : Arena) (id k : ScopeId) : Nat :=
  (((a.frame? k).elim [] Frame.owned).map Capture.scope).count id

def lent (a : Arena) (id : ScopeId) : Nat := ∑ k ∈ a.occupied, a.lentBy id k

/-- The holds are those of the captures in `captured`, of captures that variables own, and of children. -/
structure Counted (a : Arena) (captured : List ScopeId) : Prop where
  occupied : ∀ id ∈ captured, a.frame? id ≠ none
  busy : ∀ k f, a.frame? k = some f → ∀ c ∈ f.owned, c.idle = false ∧ a.frame? c.scope ≠ none
  holds : ∀ id, a.frame? id ≠ none → a.holds id = captured.count id + a.lent id + (a.children id).card

lemma mem_children : id ∈ a.children p ↔ ∃ f, a.frame? id = some f ∧ f.parent = some p := by
  rw [children, Finset.mem_filter, Option.bind_eq_some_iff, and_iff_right_iff_imp]
  rintro ⟨f, hf, -⟩
  rw [Finset.mem_image]
  exact ⟨id.index, Finset.mem_range.mpr (index_lt (by simp [hf])), rfl⟩

lemma children_congr (hframe : ∀ j, a'.frame? j = a.frame? j) (p : ScopeId) :
    a'.children p = a.children p := by
  ext id
  rw [mem_children, mem_children, hframe]

lemma mem_occupied : id ∈ a.occupied ↔ a.frame? id ≠ none := by
  rw [occupied, Finset.mem_filter, Option.isSome_iff_ne_none, and_iff_right_iff_imp]
  intro hid
  exact Finset.mem_image.mpr ⟨id.index, Finset.mem_range.mpr (index_lt hid), rfl⟩

lemma lentBy_of_frame (hf : a.frame? j = some f) (id : ScopeId) :
    a.lentBy id j = (f.owned.map Capture.scope).count id := by
  rw [lentBy, hf]
  rfl

lemma lentBy_congr (hframe : a'.frame? j = a.frame? j) (id : ScopeId) :
    a'.lentBy id j = a.lentBy id j := by
  rw [lentBy, lentBy, hframe]

lemma lent_congr (hframe : ∀ j, a'.frame? j = a.frame? j) (id : ScopeId) : a'.lent id = a.lent id := by
  have hsame : a'.occupied = a.occupied := by
    ext k
    rw [mem_occupied, mem_occupied, hframe]
  rw [lent, lent, hsame]
  exact Finset.sum_congr rfl fun k _ => lentBy_congr (hframe k) id

lemma lent_eq_zero_iff : a.lent id = 0 ↔ ∀ k f, a.frame? k = some f → ∀ c ∈ f.owned, c.scope ≠ id := by
  rw [lent, Finset.sum_eq_zero_iff]
  constructor
  · intro h k f hf c hc heq
    have hzero := h k (mem_occupied.mpr (by simp [hf]))
    rw [lentBy_of_frame hf, List.count_eq_zero] at hzero
    exact hzero (heq ▸ List.mem_map_of_mem hc)
  · intro h k hk
    obtain ⟨f, hf⟩ := Option.ne_none_iff_exists'.mp (mem_occupied.mp hk)
    rw [lentBy_of_frame hf, List.count_eq_zero, List.mem_map]
    rintro ⟨c, hc, heq⟩
    exact h k f hf c hc heq

lemma Layered.congr (hl : a.Layered) (hframe : ∀ j, a'.frame? j = a.frame? j) : a'.Layered := by
  simpa only [Layered, hframe] using hl

lemma Anchored.congr (ha : a.Anchored) (hframe : ∀ j, a'.frame? j = a.frame? j) : a'.Anchored := by
  simpa only [Anchored, hframe] using ha

lemma ListsFree.congr (hs : a.ListsFree) (hframe : ∀ j, a'.frame? j = a.frame? j)
    (hfree : a'.free = a.free) (hsize : a'.slots.size = a.slots.size) : a'.ListsFree := by
  refine ⟨by rw [hfree]; exact hs.nodup, fun i => ?_⟩
  rw [hfree, hsize, hframe]
  exact hs.mem i

lemma Owned.congr (ho : a.Owned scopes) (hframe : ∀ j, a'.frame? j = a.frame? j)
    (hperm : scopes'.Perm scopes) : a'.Owned scopes' := by
  refine ⟨hperm.nodup_iff.mpr ho.nodup, fun id => ?_⟩
  rw [hperm.mem_iff, hframe]
  exact ho.mem id

lemma Counted.congr (hc : a.Counted captured) (hframe : ∀ j, a'.frame? j = a.frame? j)
    (hholds : ∀ j, a'.holds j = a.holds j) (hperm : captured'.Perm captured) : a'.Counted captured' := by
  refine ⟨fun id hid => ?_, ?_, fun id hid => ?_⟩
  · rw [hframe]
    exact hc.occupied id (hperm.mem_iff.mp hid)
  · simpa only [hframe] using hc.busy
  · rw [hframe] at hid
    rw [hholds, hc.holds id hid, hperm.count_eq, children_congr hframe, lent_congr hframe]

lemma Counted.hold (hc : a.Counted captured) (hid : a.frame? id ≠ none) :
    (a.hold id).Counted (id :: captured) := by
  refine ⟨by simpa [hid] using hc.occupied, by simpa using hc.busy, fun j hj => ?_⟩
  rw [frame?_hold] at hj
  rw [holds_hold hid, children_congr (a.frame?_hold id), lent_congr (a.frame?_hold id), hc.holds j hj]
  by_cases heq : j = id
  · subst heq
    rw [if_pos rfl, List.count_cons_self]
    omega
  · rw [if_neg heq, List.count_cons_of_ne (Ne.symm heq)]

lemma Counted.unhold (hc : a.Counted (id :: captured)) : (a.unhold id).Counted captured := by
  refine ⟨fun j hj => ?_, by simpa using hc.busy, fun j hj => ?_⟩
  · rw [frame?_unhold]
    exact hc.occupied j (List.mem_cons_of_mem id hj)
  · rw [frame?_unhold] at hj
    rw [holds_unhold, children_congr (a.frame?_unhold id), lent_congr (a.frame?_unhold id),
      hc.holds j hj]
    by_cases heq : j = id
    · subst heq
      rw [if_pos rfl, List.count_cons_self]
      omega
    · rw [if_neg heq, List.count_cons_of_ne (Ne.symm heq)]

namespace Gains

lemma kept (hg : Gains a a' id f) (hj : a.frame? j ≠ none) : a'.frame? j = a.frame? j := by
  rw [hg.frame, if_neg]
  rintro rfl
  exact hj hg.vacant

lemma children_eq (hg : Gains a a' id f) (j : ScopeId) :
    a'.children j = if f.parent = some j then insert id (a.children j) else a.children j := by
  ext k
  rw [mem_children]
  by_cases hk : k = id
  · have hnot : id ∉ a.children j := by
      rw [mem_children, hg.vacant]
      simp
    by_cases hp : f.parent = some j <;> simp [hg.frame, hk, hp, hnot]
  · simp only [hg.frame, hk, ↓reduceIte, ← mem_children]
    split <;> simp [hk]

lemma lent_eq (hg : Gains a a' id f) (hf : f.owned = []) (j : ScopeId) : a'.lent j = a.lent j := by
  have hnew : id ∉ a.occupied := by
    rw [mem_occupied, not_not]
    exact hg.vacant
  have hocc : a'.occupied = insert id a.occupied := by
    ext k
    rw [Finset.mem_insert, mem_occupied, mem_occupied, hg.frame]
    by_cases hk : k = id <;> simp [hk]
  have hnone : a'.lentBy j id = 0 := by
    rw [lentBy_of_frame ((hg.frame id).trans (if_pos rfl)), hf]
    rfl
  rw [lent, hocc, Finset.sum_insert hnew, hnone, Nat.zero_add, lent]
  exact Finset.sum_congr rfl fun k hk => lentBy_congr (hg.kept (mem_occupied.mp hk)) j

lemma layered (hg : Gains a a' id f) (hl : a.Layered)
    (hparent : ∀ p ∈ f.parent, ∃ g, a.frame? p = some g ∧ f.depth = g.depth + 1) : a'.Layered := by
  intro j h p hh hp
  have hup : ∃ g, a.frame? p = some g ∧ h.depth = g.depth + 1 := by
    rw [hg.frame] at hh
    split at hh
    · cases hh
      exact hparent p hp
    · exact hl j h p hh hp
  obtain ⟨g, hpg, hdepth⟩ := hup
  exact ⟨g, by rw [hg.kept (by simp [hpg]), hpg], hdepth⟩

lemma anchored (hg : Gains a a' id f) (ha : a.Anchored) (hf : f.anchored = f.parent.isSome) :
    a'.Anchored := by
  intro j h hh
  rw [hg.frame] at hh
  split at hh
  · cases hh
    exact hf
  · exact ha j h hh

lemma owned (hg : Gains a a' id f) (ho : a.Owned scopes) : a'.Owned (id :: scopes) := by
  refine ⟨List.nodup_cons.mpr ⟨?_, ho.nodup⟩, fun j => ?_⟩
  · rw [ho.mem]
    exact not_not.mpr hg.vacant
  · rw [List.mem_cons, ho.mem, hg.frame]
    by_cases hj : j = id <;> simp [hj]

lemma busy (hg : Gains a a' id f) (hf : f.owned = []) (hc : a.Counted captured) :
    ∀ k h, a'.frame? k = some h → ∀ c ∈ h.owned, c.idle = false ∧ a'.frame? c.scope ≠ none := by
  intro k h hh c hmem
  rw [hg.frame] at hh
  by_cases hk : k = id
  · rw [if_pos hk, Option.some.injEq] at hh
    rw [← hh, hf] at hmem
    cases hmem
  · rw [if_neg hk] at hh
    obtain ⟨hbusy, hocc⟩ := hc.busy k h hh c hmem
    exact ⟨hbusy, by rwa [hg.kept hocc]⟩

lemma counted (hg : Gains a a' id f) (hl : a.Layered) (hc : a.Counted captured)
    (hparent : ∀ p ∈ f.parent, a.frame? p ≠ none) (hf : f.owned = []) : a'.Counted captured := by
  refine ⟨fun j hj => ?_, hg.busy hf hc, fun j hj => ?_⟩
  · rw [hg.kept (hc.occupied j hj)]
    exact hc.occupied j hj
  · rw [hg.holds, hg.children_eq, hg.lent_eq hf]
    by_cases heq : j = id
    · -- nothing can have held a scope that was not there
      subst heq
      have hcount : captured.count j = 0 := by
        rw [List.count_eq_zero]
        exact fun hmem => hc.occupied _ hmem hg.vacant
      have hlent : a.lent j = 0 := by
        rw [lent_eq_zero_iff]
        rintro k h hh c hmem rfl
        exact (hc.busy k h hh c hmem).2 hg.vacant
      have hchildren : a.children j = ∅ := by
        rw [Finset.eq_empty_iff_forall_notMem]
        intro k hk
        obtain ⟨h, hh, hp⟩ := mem_children.mp hk
        obtain ⟨g, hjg, -⟩ := hl k h _ hh hp
        rw [hg.vacant] at hjg
        cases hjg
      have hne : f.parent ≠ some j := fun hp => hparent j hp hg.vacant
      simp [hcount, hlent, hchildren, hne]
    · rw [hg.frame, if_neg heq] at hj
      have hnew : id ∉ a.children j := by
        rw [mem_children, hg.vacant]
        simp
      rw [if_neg heq, hc.holds j hj]
      split
      · rw [Finset.card_insert_of_notMem hnew]
        omega
      · rfl

end Gains

namespace ListsFree

variable {parent : Option ScopeId} {bindings : MapRef}

lemma lt (hs : a.ListsFree) : ∀ i ∈ a.free, i < a.slots.size := fun i hi => ((hs.mem i).mp hi).1

lemma fresh_eq_none (hs : a.ListsFree) : a.frame? a.fresh = none := by
  rw [fresh]
  cases hback : a.free.back? with
  | some i => exact ((hs.mem i).mp (Array.mem_of_back? hback)).2
  | none =>
    by_contra hne
    exact (index_lt hne).false

lemma mem_pop (hs : a.ListsFree) (i : Nat) : i ∈ a.free.pop ↔ i ∈ a.free ∧ ScopeId.mk i ≠ a.fresh := by
  rw [fresh]
  split
  next k hback =>
    have hlist : a.free.toList = a.free.pop.toList ++ [k] := toList_of_back? hback
    have hnodup := hs.nodup
    rw [hlist, List.nodup_append] at hnodup
    rw [← Array.mem_toList_iff, ← Array.mem_toList_iff, hlist, List.mem_append, List.mem_singleton, Ne,
      ScopeId.mk.injEq]
    constructor
    · intro hi
      exact ⟨.inl hi, hnodup.2.2 i hi k (List.mem_singleton_self k)⟩
    · rintro ⟨hi, hne⟩
      exact hi.resolve_right hne
  next hback =>
    simp [Array.back?_eq_none_iff.mp hback]

lemma lt_size_allocate (hparent : ∀ p ∈ parent, a.frame? p ≠ none) {i : Nat}
    (hi : ScopeId.mk i ≠ a.fresh) :
    i < (a.allocate parent bindings).2.slots.size ↔ i < a.slots.size := by
  by_cases hempty : a.free = #[]
  · have hfresh : a.fresh = ⟨a.slots.size⟩ := by simp [fresh, hempty]
    have hne : i ≠ a.slots.size := by simpa [hfresh] using hi
    rw [size_allocate_of_empty hparent hempty]
    omega
  · rw [size_allocate_of_ne hparent hempty]

lemma allocate (hs : a.ListsFree) (hparent : ∀ p ∈ parent, a.frame? p ≠ none) :
    (a.allocate parent bindings).2.ListsFree := by
  have hg : Gains a _ _ (a.child parent bindings).frame := gains_allocate hparent hs.lt hs.fresh_eq_none
  refine ⟨?_, fun i => ?_⟩
  · rw [free_allocate hparent, Array.toList_pop]
    exact (List.dropLast_sublist _).nodup hs.nodup
  · rw [free_allocate hparent, hs.mem_pop, hs.mem, hg.frame]
    by_cases hi : ScopeId.mk i = a.fresh
    · simp [hi]
    · rw [lt_size_allocate hparent hi]
      simp [hi]

lemma leave (hs : a.ListsFree) (hf : a.frame? id = some f) : (a.leave id f).ListsFree := by
  have hid : a.frame? id ≠ none := by simp [hf]
  have hl := loses_leave hf
  refine ⟨?_, fun i => ?_⟩
  · rw [hl.free, Array.toList_push, List.nodup_append]
    refine ⟨hs.nodup, List.nodup_singleton _, fun i hi k hk => ?_⟩
    rw [List.mem_singleton] at hk
    rintro rfl
    have hnone := ((hs.mem i).mp (Array.mem_toList_iff.mp hi)).2
    rw [hk] at hnone
    exact hid hnone
  · rw [hl.free, Array.mem_push, hs.mem, hl.size, hl.frame]
    by_cases hi : ScopeId.mk i = id
    · have hlt := index_lt hid
      subst hi
      simpa using hlt
    · have hne : i ≠ id.index := fun heq => hi (by rw [heq])
      simp [hi, hne]

end ListsFree

namespace Loses

lemma children_eq (hl : Loses a a' id f) (j : ScopeId) : a'.children j = (a.children j).erase id := by
  ext k
  rw [Finset.mem_erase, mem_children, mem_children]
  by_cases hk : k = id <;> simp [hl.frame, hk]

lemma ne_and_eq_some {g : Frame} (hl : Loses a a' id f) (hg : a'.frame? j = some g) :
    j ≠ id ∧ a.frame? j = some g := by
  rw [hl.frame] at hg
  split_ifs at hg with hj
  exact ⟨hj, hg⟩

lemma layered (hl : Loses a a' id f) (ha : a.Layered) (hchildless : a.children id = ∅) : a'.Layered := by
  intro j g p hg hp
  obtain ⟨-, hjg⟩ := hl.ne_and_eq_some hg
  obtain ⟨g', hg', hdepth⟩ := ha j g p hjg hp
  refine ⟨g', ?_, hdepth⟩
  rw [hl.frame, if_neg, hg']
  rintro rfl
  have hchild : j ∈ a.children p := mem_children.mpr ⟨g, hjg, hp⟩
  simp [hchildless] at hchild

lemma anchored (hl : Loses a a' id f) (ha : a.Anchored) : a'.Anchored :=
  fun j g hg => ha j g (hl.ne_and_eq_some hg).2

lemma owned (hl : Loses a a' id f) (ho : a.Owned (id :: scopes)) : a'.Owned scopes := by
  have hnodup := List.nodup_cons.mp ho.nodup
  refine ⟨hnodup.2, fun j => ?_⟩
  have hmem := ho.mem j
  rw [List.mem_cons] at hmem
  rw [hl.frame]
  by_cases hj : j = id
  · subst hj
    simpa using hnodup.1
  · simpa [hj] using hmem

lemma lent_eq (hl : Loses a a' id f) (j : ScopeId) :
    a.lent j = (f.owned.map Capture.scope).count j + a'.lent j := by
  have hocc : a'.occupied = a.occupied.erase id := by
    ext k
    rw [Finset.mem_erase, mem_occupied, mem_occupied, hl.frame]
    by_cases hk : k = id <;> simp [hk]
  have hmem : id ∈ a.occupied := mem_occupied.mpr (by simp [hl.occupied])
  rw [lent, ← Finset.add_sum_erase _ _ hmem, lentBy_of_frame hl.occupied, lent, hocc]
  refine congrArg (_ + ·) (Finset.sum_congr rfl fun k hk => ?_)
  exact (lentBy_congr ((hl.frame k).trans (if_neg (Finset.ne_of_mem_erase hk))) j).symm

lemma kept (hl : Loses a a' id f) (hne : j ≠ id) (hj : a.frame? j ≠ none) : a'.frame? j ≠ none := by
  rwa [hl.frame, if_neg hne]

lemma counted (hl : Loses a a' id f) (hc : a.Counted captured) (hid : id ∉ captured)
    (hlent : a.lent id = 0) : a'.Counted (f.owned.map Capture.scope ++ captured) := by
  rw [lent_eq_zero_iff] at hlent
  refine ⟨fun j hj => ?_, fun k g hg c hmem => ?_, fun j hj => ?_⟩
  · rcases List.mem_append.mp hj with howned | hcaptured
    · obtain ⟨c, hmem, rfl⟩ := List.mem_map.mp howned
      exact hl.kept (hlent id f hl.occupied c hmem) (hc.busy id f hl.occupied c hmem).2
    · exact hl.kept (fun heq => hid (heq ▸ hcaptured)) (hc.occupied j hcaptured)
  · have hkg := (hl.ne_and_eq_some hg).2
    obtain ⟨hbusy, hocc⟩ := hc.busy k g hkg c hmem
    exact ⟨hbusy, hl.kept (hlent k g hkg c hmem) hocc⟩
  · obtain ⟨g, hg⟩ := Option.ne_none_iff_exists'.mp hj
    obtain ⟨hne, hjg⟩ := hl.ne_and_eq_some hg
    have hmem : id ∈ a.children j ↔ f.parent = some j := by
      rw [mem_children, hl.occupied]
      simp
    have hsum := hl.lent_eq j
    rw [hl.holds j hne, hl.children_eq, hc.holds j (by simp [hjg]), List.count_append]
    by_cases hp : f.parent = some j
    · have hpos := Finset.card_pos.mpr ⟨id, hmem.mpr hp⟩
      rw [if_pos hp, Finset.card_erase_of_mem (hmem.mpr hp)]
      omega
    · rw [if_neg hp, Finset.erase_eq_of_notMem (mt hmem.mp hp)]
      omega

end Loses

def owners (a : Arena) (roots loose : List ScopeId) : List ScopeId :=
  roots ++ a.stack.toList ++ a.parked.toList ++ loose

structure Sound (a : Arena) (roots captured loose : List ScopeId) : Prop where
  free : a.ListsFree
  owned : a.Owned (a.owners roots loose)
  layered : a.Layered
  anchored : a.Anchored
  counted : a.Counted captured

namespace Sound

variable {roots roots' loose loose' : List ScopeId}

lemma perm (hs : a.Sound roots captured loose) (hslots : a'.slots = a.slots) (hfree : a'.free = a.free)
    (howned : (a'.owners roots' loose').Perm (a.owners roots loose)) (hcap : captured'.Perm captured) :
    a'.Sound roots' captured' loose' := by
  have hscope (j : ScopeId) : a'.scope? j = a.scope? j := by rw [scope?, hslots]; rfl
  have hframe (j : ScopeId) : a'.frame? j = a.frame? j := by rw [frame?, hscope]; rfl
  have hholds (j : ScopeId) : a'.holds j = a.holds j := by rw [holds, hscope]; rfl
  exact ⟨hs.free.congr hframe hfree (by rw [hslots]), hs.owned.congr hframe howned,
    hs.layered.congr hframe, hs.anchored.congr hframe, hs.counted.congr hframe hholds hcap⟩

lemma hold (hs : a.Sound roots captured loose) (hid : a.frame? id ≠ none) :
    (a.hold id).Sound roots (id :: captured) loose := by
  have hframe := a.frame?_hold id
  refine ⟨hs.free.congr hframe (a.free_hold id) (a.size_hold id), hs.owned.congr hframe ?_,
    hs.layered.congr hframe, hs.anchored.congr hframe, hs.counted.hold hid⟩
  rw [owners, stack_hold, parked_hold]
  rfl

lemma unhold (hs : a.Sound roots (id :: captured) loose) : (a.unhold id).Sound roots captured loose := by
  have hframe := a.frame?_unhold id
  refine ⟨hs.free.congr hframe (a.free_unhold id) (a.size_unhold id), hs.owned.congr hframe ?_,
    hs.layered.congr hframe, hs.anchored.congr hframe, hs.counted.unhold⟩
  rw [owners, stack_unhold, parked_unhold]
  rfl

lemma dropAll {cs : List Capture} (hs : a.Sound roots (cs.map Capture.scope ++ captured) loose)
    (hcs : ∀ c ∈ cs, c.idle = false) : (cs.foldl drop a).Sound roots captured loose := by
  induction cs generalizing a with
  | nil => exact hs
  | cons c cs ih =>
    rw [List.forall_mem_cons] at hcs
    rw [List.foldl_cons, drop_of_busy hcs.1]
    exact ih hs.unhold hcs.2

lemma allocate {parent : Option ScopeId} {bindings : MapRef} (hs : a.Sound roots captured loose)
    (hparent : ∀ p ∈ parent, a.frame? p ≠ none) :
    (a.allocate parent bindings).2.Sound roots captured (a.fresh :: loose) := by
  have hg : Gains a _ _ (a.child parent bindings).frame :=
    gains_allocate hparent hs.free.lt hs.free.fresh_eq_none
  refine ⟨hs.free.allocate hparent, ?_, hg.layered hs.layered (depth_child hparent),
    hg.anchored hs.anchored (anchored_child hparent),
    hg.counted hs.layered hs.counted ?_ (owned_child a parent bindings)⟩
  · refine (hg.owned hs.owned).congr (fun _ => rfl) ?_
    rw [owners, owners, stack_allocate, parked_allocate hparent]
    exact List.perm_middle
  · rwa [parent_child hparent]

lemma push {parent : Option ScopeId} {bindings : MapRef} (hs : a.Sound roots captured [])
    (hparent : ∀ p ∈ parent, a.frame? p ≠ none) : (a.push parent bindings).2.Sound roots captured [] := by
  refine (hs.allocate hparent).perm rfl rfl ?_ (.refl captured)
  rw [allocate_eq hparent]
  simp only [Arena.push, allocate_eq hparent, owners, Array.toList_push]
  grind

lemma mem_loose (hs : a.Sound roots captured (id :: loose)) : a.frame? id ≠ none := by
  rw [← hs.owned.mem, owners]
  simp

lemma not_held (hs : a.Sound roots captured loose) (hid : a.frame? id ≠ none) (hheld : a.holds id = 0) :
    id ∉ captured ∧ a.lent id = 0 ∧ a.children id = ∅ := by
  have hcount := hs.counted.holds id hid
  rw [hheld] at hcount
  exact ⟨List.count_eq_zero.mp (by omega), by omega, Finset.card_eq_zero.mp (by omega)⟩

lemma freeSlot (hs : a.Sound roots captured (id :: loose)) (hheld : a.holds id = 0) :
    (a.freeSlot id).Sound roots captured loose := by
  obtain ⟨f, hf⟩ := Option.ne_none_iff_exists'.mp hs.mem_loose
  obtain ⟨huncaptured, hlent, hchildless⟩ := hs.not_held hs.mem_loose hheld
  have hl : Loses a _ id f := loses_leave hf
  -- first the scope goes, then the captures that its variables owned are dropped
  have hleft : (a.leave id f).Sound roots (f.owned.map Capture.scope ++ captured) loose := by
    refine ⟨hs.free.leave hf, ?_, hl.layered hs.layered hchildless, hl.anchored hs.anchored,
      hl.counted hs.counted huncaptured hlent⟩
    rw [owners, hl.stack, hl.parked]
    exact hl.owned (hs.owned.congr (fun _ => rfl) List.perm_middle.symm)
  rw [freeSlot_eq hf (hs.anchored id f hf)]
  exact hleft.dropAll fun c hc => (hs.counted.busy id f hf c hc).1

end Sound

section Reowns

variable {g : List Capture → List Capture}

namespace Reowns

lemma frame?_of_ne (hr : Reowns a a' id g) (hne : j ≠ id) : a'.frame? j = a.frame? j := by
  rw [hr.frame, if_neg hne]

lemma frame?_self (hr : Reowns a a' id g) (hf : a.frame? id = some f) :
    a'.frame? id = some { f with owned := g f.owned } := by
  rw [hr.frame, if_pos rfl, hf]
  rfl

lemma map_frame {α : Type} {q : Frame → α} (hr : Reowns a a' id g)
    (hq : ∀ f cs, q { f with owned := cs } = q f) (j : ScopeId) :
    (a'.frame? j).map q = (a.frame? j).map q := by
  rw [hr.frame]
  split
  · rw [Option.map_map]
    exact congrArg (Option.map · _) (funext fun f => hq f _)
  · rfl

lemma ne_none_iff (hr : Reowns a a' id g) (j : ScopeId) : a'.frame? j ≠ none ↔ a.frame? j ≠ none := by
  rw [hr.frame]
  split <;> simp

lemma exists_frame (hr : Reowns a a' id g) {f' : Frame} (hf' : a'.frame? j = some f') :
    ∃ f, a.frame? j = some f ∧ f'.parent = f.parent ∧ f'.depth = f.depth ∧ f'.anchored = f.anchored := by
  have hmap := hr.map_frame (q := fun f => (f.parent, f.depth, f.anchored)) (fun _ _ => rfl) j
  rw [hf'] at hmap
  obtain ⟨f, hf, heq⟩ := Option.map_eq_some_iff.mp hmap.symm
  simp only [Prod.mk.injEq] at heq
  exact ⟨f, hf, heq.1.symm, heq.2.1.symm, heq.2.2.symm⟩

lemma children_eq (hr : Reowns a a' id g) (p : ScopeId) : a'.children p = a.children p := by
  have hparent (j : ScopeId) := hr.map_frame (q := Frame.parent) (fun _ _ => rfl) j
  ext j
  simp only [mem_children, ← Option.map_eq_some_iff, hparent]

lemma layered (hr : Reowns a a' id g) (hl : a.Layered) : a'.Layered := by
  intro j f' p hf' hp
  obtain ⟨f, hf, hparent, hdepth, -⟩ := hr.exists_frame hf'
  obtain ⟨h, hh, hd⟩ := hl j f p hf (hparent ▸ hp)
  have hmap := hr.map_frame (q := Frame.depth) (fun _ _ => rfl) p
  rw [hh] at hmap
  obtain ⟨h', hh', heq⟩ := Option.map_eq_some_iff.mp hmap
  exact ⟨h', hh', by rw [hdepth, hd, heq]⟩

lemma lent_add (hr : Reowns a a' id g) (hf : a.frame? id = some f) (j : ScopeId) :
    a'.lent j + (f.owned.map Capture.scope).count j =
      a.lent j + ((g f.owned).map Capture.scope).count j := by
  have hocc : a'.occupied = a.occupied := by
    ext k
    rw [mem_occupied, mem_occupied, hr.ne_none_iff]
  have hmem : id ∈ a.occupied := mem_occupied.mpr (by simp [hf])
  have hrest : ∑ k ∈ a.occupied.erase id, a'.lentBy j k = ∑ k ∈ a.occupied.erase id, a.lentBy j k :=
    Finset.sum_congr rfl fun k hk => lentBy_congr (hr.frame?_of_ne (Finset.ne_of_mem_erase hk)) j
  rw [lent, lent, hocc, ← Finset.add_sum_erase _ _ hmem, ← Finset.add_sum_erase _ _ hmem, hrest,
    lentBy_of_frame hf, lentBy_of_frame (hr.frame?_self hf)]
  dsimp only
  omega

lemma counted {captured' : List ScopeId} (hr : Reowns a a' id g) (hf : a.frame? id = some f)
    (hc : a.Counted captured) (hbusy : ∀ c ∈ g f.owned, c.idle = false ∧ a.frame? c.scope ≠ none)
    (hperm : ((g f.owned).map Capture.scope ++ captured').Perm (f.owned.map Capture.scope ++ captured)) :
    a'.Counted captured' := by
  refine ⟨fun j hj => ?_, fun k h hh c hmem => ?_, fun j hj => ?_⟩
  · rw [hr.ne_none_iff]
    rcases List.mem_append.mp (hperm.mem_iff.mp (List.mem_append_right _ hj)) with howned | hcaptured
    · obtain ⟨c, hmem, rfl⟩ := List.mem_map.mp howned
      exact (hc.busy id f hf c hmem).2
    · exact hc.occupied j hcaptured
  · rw [hr.ne_none_iff]
    by_cases hk : k = id
    · subst hk
      rw [hr.frame?_self hf, Option.some.injEq] at hh
      exact hbusy c (by rw [← hh] at hmem; exact hmem)
    · rw [hr.frame?_of_ne hk] at hh
      exact hc.busy k h hh c hmem
  · have hcount := hperm.count_eq j
    have hlent := hr.lent_add hf j
    rw [hr.ne_none_iff] at hj
    rw [hr.holds, hc.holds j hj, hr.children_eq]
    rw [List.count_append, List.count_append] at hcount
    omega

lemma sound {captured' : List ScopeId} (hr : Reowns a a' id g) (hf : a.frame? id = some f)
    (hs : a.Sound roots captured loose)
    (hbusy : ∀ c ∈ g f.owned, c.idle = false ∧ a.frame? c.scope ≠ none)
    (hperm : ((g f.owned).map Capture.scope ++ captured').Perm (f.owned.map Capture.scope ++ captured)) :
    a'.Sound roots captured' loose := by
  refine ⟨⟨by rw [hr.free]; exact hs.free.nodup, fun i => ?_⟩, ⟨?_, fun j => ?_⟩,
    hr.layered hs.layered, fun j f' hf' => ?_, hr.counted hf hs.counted hbusy hperm⟩
  · have hnone := not_iff_not.mp (hr.ne_none_iff ⟨i⟩)
    rw [hr.free, hr.size, hs.free.mem, hnone]
  · rw [owners, hr.stack, hr.parked]
    exact hs.owned.nodup
  · rw [owners, hr.stack, hr.parked, hr.ne_none_iff]
    exact hs.owned.mem j
  · obtain ⟨f, hf, hparent, -, hanchored⟩ := hr.exists_frame hf'
    rw [hanchored, hparent]
    exact hs.anchored j f hf

end Reowns

lemma Sound.entrust {c : Capture} (hs : a.Sound roots (c.scope :: captured) loose) (hc : c.idle = false)
    (hid : a.frame? id ≠ none) : (a.entrust id c).Sound roots captured loose := by
  obtain ⟨f, hf⟩ := Option.ne_none_iff_exists'.mp hid
  refine (reowns_entrust hid c).sound hf hs (List.forall_mem_cons.mpr ⟨?_, hs.counted.busy id f hf⟩) ?_
  · exact ⟨hc, hs.counted.occupied c.scope List.mem_cons_self⟩
  · exact List.perm_middle.symm

lemma Sound.reclaim {n : Nat} (hs : a.Sound roots captured loose) (hf : a.frame? id = some f)
    (hn : n < f.owned.length) :
    (a.reclaim id n).2.Sound roots (f.owned[n].scope :: captured) loose := by
  refine (a.reowns_reclaim id n).sound hf hs
    (fun c hc => hs.counted.busy id f hf c (List.mem_of_mem_eraseIdx hc)) ?_
  have hperm := (List.getElem_cons_eraseIdx_perm hn).map Capture.scope
  exact List.perm_middle.trans (hperm.append_right captured)

end Reowns

section Tidy

variable {b : Arena} {roots captured base loose : List ScopeId} {P : ScopeId → Prop}

def Wanted (b : Arena) (roots captured base : List ScopeId) (P : ScopeId → Prop) : Prop :=
  ∀ j, P j → j ∈ roots ∨ j ∈ captured ∨ j ∈ base ∨
    ∃ k f, P k ∧ b.frame? k = some f ∧ (f.parent = some j ∨ ∃ c ∈ f.owned, c.scope = j)

structure Tidied (b : Arena) (roots captured base : List ScopeId) (P : ScopeId → Prop) (a : Arena)
    (loose : List ScopeId) : Prop where
  sound : a.Sound roots captured loose
  base_le : base <+: a.stack.toList
  kept : ∀ j, P j → a.frame? j = b.frame? j

namespace Tidied

lemma freed_not_wanted (hw : b.Wanted roots captured base P)
    (ht : Tidied b roots captured base P a (id :: loose)) (hheld : a.holds id = 0) : ¬ P id := by
  intro hid
  obtain ⟨huncaptured, hlent, hchildless⟩ := ht.sound.not_held ht.sound.mem_loose hheld
  have hnodup := ht.sound.owned.nodup
  rw [owners, List.nodup_append] at hnodup
  have hloose : id ∉ roots ++ a.stack.toList ++ a.parked.toList :=
    fun hmem => hnodup.2.2 id hmem id List.mem_cons_self rfl
  -- a root or a scope on the stack has that for its owner, the others are held
  rcases hw id hid with hroot | hcaptured | hbase | ⟨k, f, hk, hf, hp | ⟨c, hc, hscope⟩⟩
  · exact hloose (by simp [hroot])
  · exact huncaptured hcaptured
  · have hstack := ht.base_le.subset hbase
    exact hloose (List.mem_append_left _ (List.mem_append_right _ hstack))
  · have hchild : k ∈ a.children id := mem_children.mpr ⟨f, by rw [ht.kept k hk, hf], hp⟩
    simp [hchildless] at hchild
  · exact lent_eq_zero_iff.mp hlent k f (by rw [ht.kept k hk, hf]) c hc hscope

lemma settle (hw : b.Wanted roots captured base P)
    (ht : Tidied b roots captured base P a (id :: loose)) :
    Tidied b roots captured base P (a.settle id) loose := by
  refine ⟨?_, by rw [stack_settle]; exact ht.base_le, fun j hj => ?_⟩
  · rw [Arena.settle]
    split_ifs with hheld
    · exact ht.sound.perm rfl rfl (by simp [owners]) (.refl captured)
    · rw [isHeld_iff, Nat.not_lt, Nat.le_zero] at hheld
      exact ht.sound.freeSlot hheld
  · rw [← ht.kept j hj, Arena.settle]
    split_ifs with hheld
    · rfl
    · rw [isHeld_iff, Nat.not_lt, Nat.le_zero] at hheld
      obtain ⟨f, hf⟩ := Option.ne_none_iff_exists'.mp ht.sound.mem_loose
      rw [frame?_freeSlot hf (ht.sound.anchored id f hf), if_neg]
      rintro rfl
      exact ht.freed_not_wanted hw hheld hj

lemma foldl (hw : b.Wanted roots captured base P) (ids : List ScopeId)
    (ht : Tidied b roots captured base P a (ids ++ loose)) :
    Tidied b roots captured base P (ids.foldl Arena.settle a) loose := by
  induction ids generalizing a with
  | nil => exact ht
  | cons id ids ih => exact ih (ht.settle hw)

lemma sweepOnce (hw : b.Wanted roots captured base P) (ht : Tidied b roots captured base P a loose) :
    Tidied b roots captured base P a.sweepOnce loose := by
  rw [Arena.sweepOnce, ← Array.foldl_toList]
  refine foldl hw _ ⟨?_, ht.base_le, ht.kept⟩
  exact ht.sound.perm rfl rfl (by simp [owners]) (.refl captured)

lemma sweepRounds (hw : b.Wanted roots captured base P) (n : Nat)
    (ht : Tidied b roots captured base P a loose) :
    Tidied b roots captured base P (Arena.sweepRounds n a) loose := by
  induction n generalizing a with
  | zero => exact ht
  | succ n ih =>
    rw [Arena.sweepRounds]
    split
    · exact ht.sweepOnce hw
    · exact ih (ht.sweepOnce hw)

lemma sweep (hw : b.Wanted roots captured base P) (ht : Tidied b roots captured base P a loose) :
    Tidied b roots captured base P a.sweep loose :=
  ht.sweepRounds hw _

lemma unwind (hw : b.Wanted roots captured base P) (n : Nat)
    (ht : Tidied b roots captured base P a loose) (hn : base.length + n ≤ a.stack.size) :
    Tidied b roots captured base P (Arena.unwind n a) loose := by
  induction n generalizing a with
  | zero => exact ht
  | succ n ih =>
    rw [Arena.unwind]
    cases hback : a.stack.back? with
    | none => exact ht
    | some id =>
      have hlist : a.stack.toList = a.stack.pop.toList ++ [id] := toList_of_back? hback
      have hbase : base <+: a.stack.pop.toList := by
        have hle := ht.base_le
        rw [hlist, List.prefix_concat_iff] at hle
        refine hle.resolve_left fun heq => ?_
        have hlen : base.length = a.stack.size := by rw [heq, ← hlist, Array.length_toList]
        omega
      have hpop : Tidied b roots captured base P { a with stack := a.stack.pop } (id :: loose) := by
        refine ⟨ht.sound.perm rfl rfl ?_ (.refl captured), hbase, ht.kept⟩
        simp only [owners, hlist]
        grind
      apply ih (hpop.settle hw)
      rw [stack_settle, Array.size_pop]
      omega

lemma release (hw : b.Wanted roots captured base P) (ht : Tidied b roots captured base P a loose)
    {mark : Nat} (hmark : base.length ≤ mark) :
    Tidied b roots captured base P (a.release mark) loose := by
  have hlen : base.length ≤ a.stack.size := ht.base_le.length_le
  have hunwound := ht.unwind hw (a.stack.size - mark) (by omega)
  rw [Arena.release]
  dsimp only
  split
  · have hswept := hunwound.sweep hw
    exact ⟨hswept.sound.perm rfl rfl (.refl _) (.refl captured), hswept.base_le, hswept.kept⟩
  · exact hunwound

end Tidied

end Tidy

end DiceLang.Arena

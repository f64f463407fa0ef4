import DiceLang.Proofs.Scope.Client

/-! What a sweep leaves: the parked scopes that the stack needs or a capture that is still there, and
automatic sweeps keep the number of parked scopes below a bound. -/

namespace DiceLang

namespace Arena

variable {a b : Arena} {id j p : ScopeId} {f : Frame} {ids roots captured : List ScopeId}

def Under (a : Arena) (x y : ScopeId) : Prop := a.parent x = some y

def Needed (a : Arena) (captured : ScopeId → Prop) (id : ScopeId) : Prop :=
  (∃ s, captured s ∧ Relation.ReflTransGen a.Under s id) ∨ ∃ s ∈ a.stack, Relation.TransGen a.Under s id

def Lends (a : Arena) (id : ScopeId) : Prop :=
  ∃ k s c, a.scope? k = some s ∧ c ∈ s.owned ∧ c.scope = id

/-- A parked scope that is held by such scopes alone, those right under it and those whose variables own a
capture of it. -/
inductive Idle (a : Arena) (captured : List ScopeId) : ScopeId → Prop
  | mk {id : ScopeId} : id ∈ a.parked → id ∉ captured → (∀ k, a.parent k = some id → Idle a captured k) →
      (∀ k s c, a.scope? k = some s → c ∈ s.owned → c.scope = id → Idle a captured k) →
      Idle a captured id

@[simp] lemma parked_unholdParent (a : Arena) (s : Scope) : (a.unholdParent s).parked = a.parked := by
  rw [unholdParent]
  split
  · split <;> simp
  · rfl

@[simp] lemma parked_freeSlot (a : Arena) (id : ScopeId) : (a.freeSlot id).parked = a.parked := by
  rw [freeSlot]
  split
  · rfl
  · rw [(lightens_foldl_drop _ _).parked, parked_unholdParent]
    rfl

lemma settle_of_held (h : a.isHeld id = true) : a.settle id = { a with parked := a.parked.push id } := by
  rw [settle, if_pos h]

lemma parked_settle_of_not_held (h : a.isHeld id ≠ true) : (a.settle id).parked = a.parked := by
  rw [settle, if_neg h, parked_freeSlot]

lemma size_parked_settle_le (a : Arena) (id : ScopeId) :
    (a.settle id).parked.size ≤ a.parked.size + 1 := by
  by_cases h : a.isHeld id = true
  · simp [settle_of_held h]
  · rw [parked_settle_of_not_held h]
    exact Nat.le_succ _

lemma size_parked_foldl_le (ids : List ScopeId) (a : Arena) :
    (ids.foldl settle a).parked.size ≤ a.parked.size + ids.length := by
  induction ids generalizing a with
  | nil => exact le_rfl
  | cons id ids ih =>
    have hrest := ih (a.settle id)
    have hfirst := size_parked_settle_le a id
    rw [List.foldl_cons, List.length_cons]
    omega

lemma mem_parked_foldl (ids : List ScopeId) (a : Arena) (h : id ∈ (ids.foldl settle a).parked) :
    id ∈ a.parked ∨ id ∈ ids := by
  induction ids generalizing a with
  | nil => exact .inl h
  | cons k ids ih =>
    rcases ih _ h with hfirst | hrest
    · by_cases hk : a.isHeld k = true
      · rw [settle_of_held hk, Array.mem_push] at hfirst
        exact hfirst.imp_right fun heq => by rw [heq]; exact List.mem_cons_self
      · rw [parked_settle_of_not_held hk] at hfirst
        exact .inl hfirst
    · exact .inr (List.mem_cons_of_mem k hrest)

lemma foldl_settle_of_size (h : (ids.foldl settle a).parked.size = a.parked.size + ids.length) :
    ids.foldl settle a = { a with parked := a.parked ++ ids.toArray } ∧
      ∀ id ∈ ids, a.isHeld id = true := by
  induction ids generalizing a with
  | nil => exact ⟨by simp, List.forall_mem_nil _⟩
  | cons id ids ih =>
    rw [List.foldl_cons, List.length_cons] at h
    have hrest := size_parked_foldl_le ids (a.settle id)
    by_cases hid : a.isHeld id = true
    · rw [settle_of_held hid] at h
      obtain ⟨heq, hheld⟩ := ih (h.trans (by simp; omega))
      refine ⟨?_, List.forall_mem_cons.mpr ⟨hid, hheld⟩⟩
      rw [List.foldl_cons, settle_of_held hid, heq]
      simp
    · rw [parked_settle_of_not_held hid] at hrest
      omega

lemma sweepOnce_eq (a : Arena) :
    a.sweepOnce = a.parked.toList.foldl settle { a with parked := #[] } := by
  rw [sweepOnce, Array.foldl_toList]

lemma size_parked_sweepOnce_le (a : Arena) : a.sweepOnce.parked.size ≤ a.parked.size := by
  have hle := size_parked_foldl_le a.parked.toList { a with parked := #[] }
  rw [← sweepOnce_eq] at hle
  simpa using hle

lemma sweepOnce_of_size (h : a.sweepOnce.parked.size = a.parked.size) :
    a.sweepOnce = a ∧ ∀ id ∈ a.parked, a.isHeld id = true := by
  rw [sweepOnce_eq] at h ⊢
  obtain ⟨heq, hheld⟩ := foldl_settle_of_size (h.trans (by simp))
  exact ⟨by rw [heq]; simp, fun id hid => hheld id (Array.mem_toList_iff.mpr hid)⟩

lemma sweepRounds_eq {n : Nat} (hn : a.parked.size < n) : ∃ k ≤ a.parked.size,
    sweepRounds n a = sweepOnce^[k] a ∧ (sweepOnce^[k] a).sweepOnce = sweepOnce^[k] a ∧
      ∀ m < k, (sweepOnce^[m + 1] a).parked.size < (sweepOnce^[m] a).parked.size := by
  induction n generalizing a with
  | zero => cases hn
  | succ n ih =>
    rw [sweepRounds]
    split_ifs with hsize
    · have hsame := (sweepOnce_of_size hsize).1
      exact ⟨0, Nat.zero_le _, hsame, hsame, fun m hm => absurd hm (Nat.not_lt_zero m)⟩
    · have hless := lt_of_le_of_ne a.size_parked_sweepOnce_le hsize
      obtain ⟨k, hk, heq, hend, hfrees⟩ := ih (a := a.sweepOnce) (by omega)
      refine ⟨k + 1, by omega, heq, hend, fun m hm => ?_⟩
      cases m with
      | zero => exact hless
      | succ m => exact hfrees m (by omega)

lemma sweep_eq (a : Arena) : ∃ k ≤ a.parked.size,
    a.sweep = sweepOnce^[k] a ∧ (sweepOnce^[k] a).sweepOnce = sweepOnce^[k] a ∧
      ∀ m < k, (sweepOnce^[m + 1] a).parked.size < (sweepOnce^[m] a).parked.size :=
  sweepRounds_eq (Nat.lt_succ_self _)

lemma isHeld_of_mem_parked_sweep (h : id ∈ a.sweep.parked) : a.sweep.isHeld id = true := by
  obtain ⟨k, -, heq, hend, -⟩ := a.sweep_eq
  rw [heq] at h ⊢
  exact (sweepOnce_of_size (by rw [hend])).2 id h

lemma sweep_induction {P : Arena → Prop} (hround : ∀ b : Arena, P b → P b.sweepOnce) (ha : P a) :
    P a.sweep := by
  obtain ⟨k, -, heq, -, -⟩ := a.sweep_eq
  rw [heq]
  clear heq
  induction k with
  | zero => exact ha
  | succ k ih =>
    rw [Function.iterate_succ_apply']
    exact hround _ ih

lemma size_parked_sweep_le (a : Arena) : a.sweep.parked.size ≤ a.parked.size :=
  sweep_induction (P := fun b => b.parked.size ≤ a.parked.size)
    (fun b hb => b.size_parked_sweepOnce_le.trans hb) le_rfl

lemma mem_parked_of_mem_sweep (h : id ∈ a.sweep.parked) : id ∈ a.parked := by
  refine sweep_induction (P := fun b => ∀ id ∈ b.parked, id ∈ a.parked) (fun b hb id hid => ?_)
    (fun _ hid => hid) id h
  rw [sweepOnce_eq] at hid
  rcases mem_parked_foldl _ _ hid with hnone | hid
  · simp at hnone
  · exact hb id (Array.mem_toList_iff.mp hid)

@[simp] lemma frame?_unholdParent (a : Arena) (s : Scope) (j : ScopeId) :
    (a.unholdParent s).frame? j = a.frame? j := by
  rw [unholdParent]
  split
  · split <;> simp
  · rfl

lemma frame?_of_freeSlot (h : (a.freeSlot id).frame? j = some f) : a.frame? j = some f := by
  rw [freeSlot] at h
  cases hs : a.scope? id with
  | none =>
    rw [hs] at h
    exact h
  | some s =>
    rw [hs] at h
    have hid : a.frame? id ≠ none := by simp [frame?, hs]
    rw [(lightens_foldl_drop _ _).frame, frame?_unholdParent] at h
    have hvacate := (frame?_vacate hid j).symm.trans h
    split at hvacate
    · cases hvacate
    · exact hvacate

lemma frame?_of_settle (h : (a.settle id).frame? j = some f) : a.frame? j = some f := by
  rw [settle] at h
  split at h
  · exact h
  · exact frame?_of_freeSlot h

lemma frame?_of_foldl (ids : List ScopeId) (h : (ids.foldl settle a).frame? j = some f) :
    a.frame? j = some f := by
  induction ids generalizing a with
  | nil => exact h
  | cons id ids ih => exact frame?_of_settle (ih h)

lemma frame?_of_sweep (h : a.sweep.frame? j = some f) : a.frame? j = some f := by
  refine sweep_induction (P := fun b => ∀ j f, b.frame? j = some f → a.frame? j = some f)
    (fun b hb j f hj => ?_) (fun _ _ hj => hj) j f h
  rw [sweepOnce_eq] at hj
  have hb' : ({ b with parked := #[] } : Arena).frame? j = some f := frame?_of_foldl _ hj
  exact hb j f hb'

lemma frame?_of_unwind (n : Nat) (h : (unwind n a).frame? j = some f) : a.frame? j = some f := by
  induction n generalizing a with
  | zero => exact h
  | succ n ih =>
    rw [unwind] at h
    cases heq : a.stack.back? with
    | none =>
      rw [heq] at h
      exact h
    | some id =>
      rw [heq] at h
      have hpopped : ({ a with stack := a.stack.pop } : Arena).frame? j = some f :=
        frame?_of_settle (ih h)
      exact hpopped

lemma frame?_of_release (mark : Nat) (h : (a.release mark).frame? j = some f) : a.frame? j = some f := by
  rw [release] at h
  dsimp only at h
  split at h
  · have hswept : (unwind (a.stack.size - mark) a).sweep.frame? j = some f := h
    exact frame?_of_unwind _ (frame?_of_sweep hswept)
  · exact frame?_of_unwind _ h

lemma under_of_sweep {x y : ScopeId} (h : a.sweep.Under x y) : a.Under x y := by
  obtain ⟨f, hf, hp⟩ := exists_frame h
  rw [Under, parent_of_frame (frame?_of_sweep hf), hp]

lemma Sound.ne_parked (hs : a.Sound roots captured []) (hid : id ∈ a.parked) :
    id ∉ roots ∧ id ∉ a.stack := by
  have hnodup := hs.owned.nodup
  rw [owners, List.append_nil, List.nodup_append] at hnodup
  have hne := fun hmem => hnodup.2.2 id hmem id (Array.mem_toList_iff.mpr hid) rfl
  exact ⟨fun hr => hne (List.mem_append_left _ hr),
    fun hst => hne (List.mem_append_right _ (Array.mem_toList_iff.mpr hst))⟩

lemma Sound.sweep (hs : a.Sound roots captured []) : a.sweep.Sound roots captured [] := by
  -- no frame has to be kept here
  have ht : Tidied a roots captured [] (fun _ => False) a [] :=
    ⟨hs, List.nil_prefix, fun _ _ => rfl⟩
  exact (ht.sweep fun _ hj => hj.elim).sound

lemma lends_iff : a.Lends id ↔ ∃ k f c, a.frame? k = some f ∧ c ∈ f.owned ∧ c.scope = id := by
  constructor
  · rintro ⟨k, s, c, hs, hc, heq⟩
    exact ⟨k, s.frame, c, by rw [frame?, hs]; rfl, hc, heq⟩
  · rintro ⟨k, f, c, hf, hc, heq⟩
    obtain ⟨s, hs, rfl⟩ := exists_scope hf
    exact ⟨k, s, c, hs, hc, heq⟩

lemma lends_of_pos (hpos : 0 < a.lent id) : a.Lends id := by
  by_contra hnot
  refine hpos.ne' (lent_eq_zero_iff.mpr fun k f hf c hc heq => hnot ?_)
  exact lends_iff.mpr ⟨k, f, c, hf, hc, heq⟩

lemma Sound.held_by (hs : a.Sound roots captured []) (hid : a.frame? id ≠ none)
    (hheld : a.isHeld id = true) : id ∈ captured ∨ a.Lends id ∨ ∃ k, a.Under k id := by
  by_contra hnot
  simp only [not_or, not_exists] at hnot
  obtain ⟨hcaptured, hlends, hunder⟩ := hnot
  have hchildless : a.children id = ∅ := by
    rw [Finset.eq_empty_iff_forall_notMem]
    intro k hk
    obtain ⟨f, hf, hp⟩ := mem_children.mp hk
    exact hunder k (by rw [Under, parent_of_frame hf, hp])
  have hcount := hs.counted.holds id hid
  rw [List.count_eq_zero.mpr hcaptured, Nat.eq_zero_of_not_pos (mt lends_of_pos hlends), hchildless] at hcount
  exact (isHeld_iff.mp hheld).ne' hcount

lemma Sound.occupied_of_lends (hs : a.Sound roots captured []) (hid : a.Lends id) :
    a.frame? id ≠ none := by
  obtain ⟨k, f, c, hf, hc, rfl⟩ := lends_iff.mp hid
  exact (hs.counted.busy k f hf c hc).2

lemma Sound.occupied_of_mem_stack (hs : a.Sound roots captured []) (hid : id ∈ a.stack) :
    a.frame? id ≠ none := by
  rw [← hs.owned.mem, owners]
  simp [hid]

lemma Sound.occupied_of_mem_parked (hs : a.Sound roots captured []) (hid : id ∈ a.parked) :
    a.frame? id ≠ none := by
  rw [← hs.owned.mem, owners]
  simp [hid]

lemma Sound.mem_sweep_of_occupied (hs : a.Sound roots captured []) (hid : id ∈ a.parked)
    (hocc : a.sweep.frame? id ≠ none) : id ∈ a.sweep.parked := by
  rw [← hs.sweep.owned.mem, owners, stack_sweep] at hocc
  obtain ⟨hroot, hstack⟩ := hs.ne_parked hid
  simpa [hroot, hstack] using hocc

lemma Sound.occupied_sweep_of_path (hs : a.Sound roots captured []) (hj : a.sweep.frame? j ≠ none)
    (hpath : Relation.ReflTransGen a.Under j id) : a.sweep.frame? id ≠ none := by
  induction hpath with
  | refl => exact hj
  | @tail k p _ hp ih =>
    obtain ⟨f, hf⟩ := Option.ne_none_iff_exists'.mp ih
    have hparent : f.parent = some p := by rw [← parent_of_frame (frame?_of_sweep hf)]; exact hp
    obtain ⟨g, hg, -⟩ := hs.sweep.layered k f p hf hparent
    simp [hg]

lemma Sound.needed_of_held (hs : a.Sound roots captured []) (hroots : ∀ r ∈ roots, a.parent r = none)
    (hheld : ∀ id ∈ a.parked, a.isHeld id = true) (hid : id ∈ a.parked) :
    a.Needed (fun s => s ∈ captured ∨ a.Lends s) id := by
  obtain ⟨ids, hc⟩ := hs.layered.exists_climbs (hs.occupied_of_mem_parked hid)
  -- a walk outwards has no more scopes than there are slots, so the walk down to a child ends
  induction hn : a.slots.size - ids.length using Nat.strong_induction_on generalizing id ids with
  | _ n ih =>
    rcases hs.held_by (hs.occupied_of_mem_parked hid) (hheld id hid) with
      hcaptured | hlends | ⟨k, hunder⟩
    · exact .inl ⟨id, .inl hcaptured, .refl⟩
    · exact .inl ⟨id, .inr hlends, .refl⟩
    obtain ⟨f, hf, -⟩ := exists_frame hunder
    have howner : k ∈ a.owners roots [] := (hs.owned.mem k).mpr (by simp [hf])
    simp only [owners, List.append_nil, List.mem_append, Array.mem_toList_iff] at howner
    rcases howner with (hroot | hstack) | hparked
    · rw [Under, hroots k hroot] at hunder
      cases hunder
    · exact .inr ⟨k, hstack, .single hunder⟩
    · have hkc : a.Climbs k (k :: ids) := .next hunder hc
      have hlength := hkc.length_le hs.layered
      rw [List.length_cons] at hlength
      refine (ih _ ?_ hparked _ hkc rfl).imp ?_ ?_
      · rw [List.length_cons]
        omega
      · rintro ⟨s, hs, hpath⟩
        exact ⟨s, hs, hpath.tail hunder⟩
      · rintro ⟨s, hs, hpath⟩
        exact ⟨s, hs, hpath.tail hunder⟩

lemma Sound.mem_parked_sweep (hs : a.Sound roots captured []) (hroots : ∀ r ∈ roots, a.parent r = none) :
    id ∈ a.sweep.parked ↔
      id ∈ a.parked ∧ a.Needed (fun s => s ∈ captured ∨ a.sweep.Lends s) id := by
  constructor
  · intro hid
    refine ⟨mem_parked_of_mem_sweep hid, ?_⟩
    have hroots' : ∀ r ∈ roots, a.sweep.parent r = none := by
      intro r hr
      cases hp : a.sweep.parent r with
      | none => rfl
      | some p => exact (under_of_sweep hp).symm.trans (hroots r hr)
    refine (hs.sweep.needed_of_held hroots' (fun _ => isHeld_of_mem_parked_sweep) hid).imp ?_ ?_
    · rintro ⟨s, hs, hpath⟩
      exact ⟨s, hs, Relation.ReflTransGen.mono (fun _ _ => under_of_sweep) _ _ hpath⟩
    · rintro ⟨s, hs, hpath⟩
      rw [stack_sweep] at hs
      exact ⟨s, hs, Relation.TransGen.mono (fun _ _ => under_of_sweep) _ _ hpath⟩
  · rintro ⟨hid, ⟨s, hcaptured | hlends, hpath⟩ | ⟨s, hstack, hpath⟩⟩ <;>
      refine hs.mem_sweep_of_occupied hid (hs.occupied_sweep_of_path (j := s) ?_ ?_)
    · exact hs.sweep.counted.occupied s hcaptured
    · exact hpath
    · exact hs.sweep.occupied_of_lends hlends
    · exact hpath
    · exact hs.sweep.occupied_of_mem_stack (by rwa [stack_sweep])
    · exact hpath.to_reflTransGen

lemma Sound.frame?_sweep_of_not_idle (hs : a.Sound roots captured []) (hid : a.frame? id ≠ none)
    (hnot : ¬ a.Idle captured id) : a.sweep.frame? id = a.frame? id := by
  have hw : a.Wanted roots captured a.stack.toList fun j => a.frame? j ≠ none ∧ ¬ a.Idle captured j := by
    rintro j ⟨hj, hnot⟩
    by_contra hunwanted
    simp only [not_or, not_exists, not_and] at hunwanted
    obtain ⟨hroot, hcaptured, hstack, hheld⟩ := hunwanted
    have hparked : j ∈ a.parked := by
      rw [← hs.owned.mem, owners] at hj
      simpa [hroot, Array.mem_toList_iff.not.mp hstack] using hj
    refine hnot (.mk hparked hcaptured (fun k hk => ?_) fun k s c hk hc hscope => ?_)
    · obtain ⟨f, hf, hp⟩ := exists_frame hk
      by_contra hidle
      exact (hheld k f ⟨by simp [hf], hidle⟩ hf).1 hp
    · have hf : a.frame? k = some s.frame := by rw [frame?, hk]; rfl
      by_contra hidle
      exact (hheld k s.frame ⟨by simp [hf], hidle⟩ hf).2 c hc hscope
  exact (Tidied.sweep hw ⟨hs, List.prefix_refl _, fun _ _ => rfl⟩).kept id ⟨hid, hnot⟩

lemma Idle.mem_parked (hid : a.Idle captured id) : id ∈ a.parked := by
  cases hid with
  | mk hparked _ _ _ => exact hparked

lemma Sound.not_mem_sweep_of_idle (hs : a.Sound roots captured []) (hid : a.Idle captured id) :
    id ∉ a.sweep.parked := by
  induction hid with
  | mk hparked hcaptured hchildren howners hchild howner =>
    intro hkept
    have hgone {k : ScopeId} (hidle : a.Idle captured k) (hk : k ∉ a.sweep.parked) :
        a.sweep.frame? k = none := by
      by_contra hocc
      exact hk (hs.mem_sweep_of_occupied hidle.mem_parked hocc)
    rcases hs.sweep.held_by (hs.sweep.occupied_of_mem_parked hkept) (isHeld_of_mem_parked_sweep hkept) with
      hmem | hlends | ⟨k, hunder⟩
    · exact hcaptured hmem
    · obtain ⟨k, f, c, hf, hc, heq⟩ := lends_iff.mp hlends
      obtain ⟨s, hk, rfl⟩ := exists_scope (frame?_of_sweep hf)
      rw [hgone (howners k s c hk hc heq) (howner k s c hk hc heq)] at hf
      cases hf
    · have hk := under_of_sweep hunder
      obtain ⟨f, hf, -⟩ := exists_frame hunder
      rw [hgone (hchildren k hk) (hchild k hk)] at hf
      cases hf

lemma Sound.mem_parked_sweep_iff_idle (hs : a.Sound roots captured []) :
    id ∈ a.sweep.parked ↔ id ∈ a.parked ∧ ¬ a.Idle captured id := by
  constructor
  · exact fun hid => ⟨mem_parked_of_mem_sweep hid, fun hidle => hs.not_mem_sweep_of_idle hidle hid⟩
  · rintro ⟨hid, hnot⟩
    have hocc := hs.occupied_of_mem_parked hid
    exact hs.mem_sweep_of_occupied hid (by rwa [hs.frame?_sweep_of_not_idle hocc hnot])

@[simp] lemma sweepAt_hold (a : Arena) (id : ScopeId) : (a.hold id).sweepAt = a.sweepAt := by
  rw [hold]
  split <;> rfl

@[simp] lemma sweepAt_unhold (a : Arena) (id : ScopeId) : (a.unhold id).sweepAt = a.sweepAt := by
  rw [unhold]
  split <;> rfl

@[simp] lemma sweepAt_allocate (a : Arena) (parent : Option ScopeId) (bindings : MapRef) :
    (a.allocate parent bindings).2.sweepAt = a.sweepAt := by
  have hheld (s : Scope) : (a.holdParent s).sweepAt = a.sweepAt := by
    rw [holdParent]
    split
    · split <;> simp
    · rfl
  rw [allocate]
  dsimp only
  split
  · exact hheld _
  · exact hheld _

lemma sweepAt_unholdParent (a : Arena) (s : Scope) : (a.unholdParent s).sweepAt = a.sweepAt := by
  rw [unholdParent]
  split
  · split <;> simp
  · rfl

@[simp] lemma sweepAt_settle (a : Arena) (id : ScopeId) : (a.settle id).sweepAt = a.sweepAt := by
  rw [settle]
  split
  · rfl
  · rw [freeSlot]
    split
    · rfl
    · rw [(lightens_foldl_drop _ _).sweepAt, sweepAt_unholdParent]
      rfl

lemma sweepAt_foldl (ids : List ScopeId) (a : Arena) : (ids.foldl settle a).sweepAt = a.sweepAt := by
  induction ids generalizing a with
  | nil => rfl
  | cons id ids ih => rw [List.foldl_cons, ih, sweepAt_settle]

@[simp] lemma sweepAt_sweep (a : Arena) : a.sweep.sweepAt = a.sweepAt := by
  refine sweep_induction (P := fun b => b.sweepAt = a.sweepAt) (fun b hb => ?_) rfl
  rw [sweepOnce_eq, sweepAt_foldl]
  exact hb

lemma sweepAt_unwind (n : Nat) (a : Arena) : (unwind n a).sweepAt = a.sweepAt := by
  induction n generalizing a with
  | zero => rfl
  | succ n ih =>
    rw [unwind]
    split
    · rfl
    · rw [ih, sweepAt_settle]

structure Keeps (a a' : Arena) : Prop where
  sweepAt : a'.sweepAt = a.sweepAt
  parked : a'.parked = a.parked
  parent : ∀ j, a.frame? j ≠ none → a'.parent j = a.parent j

lemma Keeps.refl (a : Arena) : Keeps a a := ⟨rfl, rfl, fun _ _ => rfl⟩

lemma keeps_hold (a : Arena) (id : ScopeId) : Keeps a (a.hold id) := by
  refine ⟨a.sweepAt_hold id, a.parked_hold id, fun j _ => ?_⟩
  rw [parent_eq_bind, frame?_hold, ← parent_eq_bind]

lemma keeps_duplicate (a : Arena) (k : Capture) : Keeps a (a.duplicate k) := by
  rw [duplicate]
  split
  · exact .refl a
  · exact a.keeps_hold k.scope

lemma keeps_drop (a : Arena) (k : Capture) : Keeps a (a.drop k) := by
  have hl := a.lightens_drop k
  refine ⟨hl.sweepAt, hl.parked, fun j _ => ?_⟩
  rw [parent_eq_bind, hl.frame, ← parent_eq_bind]

lemma Reowns.keeps {g : List Capture → List Capture} (hr : Reowns a b id g) : Keeps a b :=
  ⟨hr.sweepAt, hr.parked, fun j _ => hr.parent_eq j⟩

lemma Sound.keeps_allocate {parent : Option ScopeId} {bindings : MapRef} (hs : a.Sound roots captured [])
    (hparent : ∀ p ∈ parent, a.frame? p ≠ none) : Keeps a (a.allocate parent bindings).2 := by
  refine ⟨a.sweepAt_allocate parent bindings, parked_allocate hparent, fun j hj => ?_⟩
  have hg : Gains a (a.allocate parent bindings).2 _ _ :=
    gains_allocate hparent hs.free.lt hs.free.fresh_eq_none
  rw [parent_eq_bind, hg.kept hj, ← parent_eq_bind]

def unwound (a : Arena) (mark : Nat) : Arena := unwind (a.stack.size - mark) a

structure Bounded (a : Arena) (survivors : Nat) : Prop where
  sweepAt : a.sweepAt = max leastSweep (2 * survivors)
  parked : a.parked.size < a.sweepAt

variable {n : Nat}

lemma Bounded.congr (hb : a.Bounded n) (hsweep : b.sweepAt = a.sweepAt)
    (hparked : b.parked.size ≤ a.parked.size) : b.Bounded n :=
  ⟨hsweep.trans hb.sweepAt, hsweep ▸ hparked.trans_lt hb.parked⟩

lemma Bounded.release (hb : a.Bounded n) (mark : Nat) :
    (a.release mark).Bounded (if a.sweepAt ≤ (a.unwound mark).parked.size
      then (a.release mark).parked.size else n) := by
  have hsame : (a.unwound mark).sweepAt = a.sweepAt := sweepAt_unwind _ a
  have heq : a.release mark = if (a.unwound mark).sweepAt ≤ (a.unwound mark).parked.size then
      { (a.unwound mark).sweep with
        sweepAt := max leastSweep ((a.unwound mark).sweep.parked.size * 2) }
    else a.unwound mark := rfl
  rw [hsame] at heq
  rw [heq]
  split_ifs with hfew
  · have hpos : 0 < leastSweep := by decide
    exact ⟨by rw [Nat.mul_comm], by dsimp only; omega⟩
  · exact ⟨hsame.trans hb.sweepAt, hsame ▸ Nat.lt_of_not_le hfew⟩

end Arena

namespace Client

variable {c : Client}

def isAutomatic (c : Client) : Request → Bool
  | .release mark => c.env.arena.sweepAt ≤ (c.env.arena.unwound mark).parked.size
  | _ => false

/-- How many parked scopes the last automatic sweep left, and `n` if there was none. -/
def survivors (c : Client) (n : Nat) : List Request → Nat
  | [] => n
  | r :: rs =>
    (c.step r).survivors (if c.isAutomatic r then (c.step r).env.arena.parked.size else n) rs

end Client

def Request.isCleaning : Request → Bool
  | .release _ | .sweep => true
  | _ => false

namespace Client

variable {c : Client} {n : Nat} {r : Request}

lemma Sound.keeps (hs : c.Sound) (hr : ∀ i ∈ r.scopes, (c.env.arena.scope? (c.slot i)).isSome)
    (hclean : r.isCleaning = false) : Arena.Keeps c.env.arena (c.step r).env.arena := by
  cases r with
  | push parent =>
    have hparent : ∀ p ∈ parent.map c.slot, c.env.arena.frame? p ≠ none := by
      intro p hp
      obtain ⟨i, rfl, rfl⟩ := Option.map_eq_some_iff.mp hp
      exact Arena.isSome_scope?.mp (hr i (by simp [Request.scopes]))
    have hkeeps : Arena.Keeps c.env.arena
        (c.env.arena.allocate (parent.map c.slot) (c.env.heap.newMap []).1).2 :=
      hs.arena.keeps_allocate hparent
    exact ⟨hkeeps.sweepAt, hkeeps.parked, hkeeps.parent⟩
  | pushRoot => exact hs.arena.keeps_allocate (by simp)
  | capture i => exact c.env.arena.keeps_hold (c.slot i)
  | duplicate m =>
    rw [Client.step]
    split
    · exact c.env.arena.keeps_duplicate _
    · exact .refl _
  | drop m =>
    rw [Client.step]
    split
    · exact c.env.arena.keeps_drop _
    · exact .refl _
  | entrust i m =>
    rw [Client.step]
    split
    · exact (Arena.reowns_entrust (Arena.isSome_scope?.mp (hr i (List.mem_singleton_self i))) _).keeps
    · exact .refl _
  | reclaim i m => exact (c.env.arena.reowns_reclaim (c.slot i) m).keeps
  | define i name v =>
    have hsame : (c.step (.define i name v)).env.arena = c.env.arena :=
      Environment.arena_define c.env (c.slot i) name v
    rw [hsame]
    exact .refl _
  | set i name v =>
    have hsame : (c.step (.set i name v)).env.arena = c.env.arena :=
      Environment.arena_set c.env (c.slot i) name v
    rw [hsame]
    exact .refl _
  | release | sweep => cases hclean

lemma Sound.step_bounded (hs : c.Sound) (hb : c.env.arena.Bounded n)
    (hr : ∀ i ∈ r.scopes, (c.env.arena.scope? (c.slot i)).isSome) :
    (c.step r).env.arena.Bounded
      (if c.isAutomatic r then (c.step r).env.arena.parked.size else n) := by
  cases r with
  | release mark =>
    simp only [isAutomatic, decide_eq_true_eq]
    exact hb.release mark
  | sweep => exact hb.congr (Arena.sweepAt_sweep _) (Arena.size_parked_sweep_le _)
  | _ =>
    have hkeeps := hs.keeps hr rfl
    exact hb.congr hkeeps.sweepAt (by rw [hkeeps.parked])

lemma Sound.run_bounded (hs : c.Sound) (hb : c.env.arena.Bounded n) (rs : List Request)
    (hrs : c.Serves rs) : (c.run rs).env.arena.Bounded (c.survivors n rs) := by
  induction rs generalizing c n with
  | nil => exact hb
  | cons r rs ih => exact ih (hs.step r hrs.1) (hs.step_bounded hb hrs.1) hrs.2

def Rooted (c : Client) : Prop := ∀ s ∈ c.roots, c.env.arena.parent s = none

lemma Sound.occupied_of_mem_roots (hs : c.Sound) {s : ScopeId} (hroot : s ∈ c.roots) :
    c.env.arena.frame? s ≠ none := by
  rw [← hs.arena.owned.mem, Arena.owners]
  simp [hroot]

lemma roots_step (hr : r ≠ .pushRoot) : (c.step r).roots = c.roots := by
  cases r with
  | pushRoot => exact absurd rfl hr
  | duplicate m | drop m | entrust i m =>
    rw [step]
    split <;> rfl
  | _ => rfl

lemma Sound.parent_pushRoot (hs : c.Sound) :
    (c.step .pushRoot).env.arena.parent c.env.pushRoot.1 = none := by
  have hnone : ∀ p ∈ (none : Option ScopeId), c.env.arena.frame? p ≠ none := by simp
  have hgains : Arena.Gains c.env.arena
      (c.env.arena.allocate none (c.env.heap.newMap []).1).2 _ _ :=
    Arena.gains_allocate hnone hs.arena.free.lt hs.arena.free.fresh_eq_none
  have hnew : c.env.pushRoot.1 = c.env.arena.fresh := congrArg Prod.fst (Arena.allocate_eq hnone)
  rw [hnew]
  exact Arena.parent_of_frame ((hgains.frame _).trans (if_pos rfl))

lemma Sound.step_rooted (hs : c.Sound) (hroots : c.Rooted)
    (hr : ∀ i ∈ r.scopes, (c.env.arena.scope? (c.slot i)).isSome) : (c.step r).Rooted := by
  have kept {a : Arena} (hparent : ∀ s ∈ c.roots, a.parent s = c.env.arena.parent s) :
      ∀ s ∈ c.roots, a.parent s = none :=
    fun s hroot => (hparent s hroot).trans (hroots s hroot)
  have hw : c.env.arena.Wanted c.roots (c.captures.map Capture.scope) [] (· ∈ c.roots) :=
    fun _ => .inl
  have ht := hs.tidied [] List.nil_prefix (· ∈ c.roots)
  have tidied {a : Arena} (ht : Arena.Tidied c.env.arena c.roots (c.captures.map Capture.scope) []
      (· ∈ c.roots) a []) (s : ScopeId) (hroot : s ∈ c.roots) : a.parent s = c.env.arena.parent s := by
    rw [Arena.parent_eq_bind, ht.kept s hroot, ← Arena.parent_eq_bind]
  cases r with
  | release mark => exact kept (tidied (ht.release hw (Nat.zero_le mark)))
  | sweep => exact kept (tidied (ht.sweep hw))
  | pushRoot =>
    have hkeeps := hs.keeps hr rfl
    exact List.forall_mem_cons.mpr ⟨hs.parent_pushRoot,
      kept fun s hroot => hkeeps.parent s (hs.occupied_of_mem_roots hroot)⟩
  | _ =>
    have hkeeps := hs.keeps hr rfl
    rw [Rooted, roots_step (by simp)]
    exact kept fun s hroot => hkeeps.parent s (hs.occupied_of_mem_roots hroot)

lemma Sound.run_rooted (hs : c.Sound) (hroots : c.Rooted) (rs : List Request) (hrs : c.Serves rs) :
    (c.run rs).Rooted := by
  induction rs generalizing c with
  | nil => exact hroots
  | cons r rs ih => exact ih (hs.step r hrs.1) (hs.step_rooted hroots hrs.1) hrs.2

lemma Sound.occupied_release_sweep (hs : c.Sound) (hroots : c.Rooted) (hnone : c.captures = [])
    (hlends : ∀ id, ¬ ((c.step (.release 0)).step .sweep).env.arena.Lends id) (id : ScopeId) :
    (((c.step (.release 0)).step .sweep).env.arena.scope? id).isSome ↔ id ∈ c.roots := by
  have hreleased := hs.step (.release 0) (by simp [Request.scopes])
  have hswept := hreleased.step .sweep (by simp [Request.scopes])
  have hrooted := hs.step_rooted (r := .release 0) hroots (by simp [Request.scopes])
  have hstack : (c.step (.release 0)).env.arena.stack = #[] := by
    rw [← Array.toList_eq_nil_iff]
    exact (Arena.stack_release _ 0).trans List.take_zero
  have hparked (j : ScopeId) : j ∉ ((c.step (.release 0)).step .sweep).env.arena.parked := by
    intro hj
    rcases ((hreleased.arena.mem_parked_sweep hrooted).mp hj).2 with ⟨s, hs | hs, -⟩ | ⟨s, hs, -⟩
    · rw [show (c.step (.release 0)).captures = [] from hnone] at hs
      cases hs
    · exact hlends s hs
    · rw [hstack] at hs
      simp at hs
  have hstack' : ((c.step (.release 0)).step .sweep).env.arena.stack = #[] :=
    (Arena.stack_sweep _).trans hstack
  rw [Arena.isSome_scope?, ← hswept.arena.owned.mem, Arena.owners, hstack',
    Array.eq_empty_iff_forall_not_mem.mpr hparked]
  simp only [List.append_nil]
  rfl

lemma rooted_initial : initial.Rooted := by
  intro s hs
  rw [List.mem_singleton.mp hs]
  rfl

lemma bounded_initial : initial.env.arena.Bounded 0 := ⟨rfl, by decide⟩

end Client

/-- In every state that a client can bring about, a sweep ends with the first round that frees nothing. It
keeps a parked scope exactly if the scope or a descendant of it has a capture that is there afterwards, or a
descendant of it is on the stack, and it frees exactly the parked scopes that only such scopes hold. If no
capture is left, a release of the whole stack and a sweep leave the roots alone. The automatic sweeps keep the
parked scopes below 64 or below twice the number that the last of them left. -/
theorem Client.sweep_complete_and_bounded (rs : List Request) (hrs : Client.initial.Serves rs) :
    let c := Client.initial.run rs
    let a := c.env.arena
    let b := ((c.step (.release 0)).step .sweep).env.arena
    (∃ k ≤ a.parked.size, a.sweep = Arena.sweepOnce^[k] a ∧
      (Arena.sweepOnce^[k] a).sweepOnce = Arena.sweepOnce^[k] a ∧
      ∀ m < k, (Arena.sweepOnce^[m + 1] a).parked.size < (Arena.sweepOnce^[m] a).parked.size) ∧
    (∀ id, id ∈ a.sweep.parked ↔
      id ∈ a.parked ∧ a.Needed (fun s => s ∈ c.captures.map Capture.scope ∨ a.sweep.Lends s) id) ∧
    (∀ id, id ∈ a.sweep.parked ↔ id ∈ a.parked ∧ ¬ a.Idle (c.captures.map Capture.scope) id) ∧
    (c.captures = [] → (∀ id, ¬ b.Lends id) → ∀ id, (b.scope? id).isSome ↔ id ∈ c.roots) ∧
    a.parked.size < a.sweepAt ∧ a.sweepAt = max 64 (2 * Client.initial.survivors 0 rs) := by
  intro c a b
  have hs : c.Sound := Client.sound_initial.run rs hrs
  have hroots : c.Rooted := Client.sound_initial.run_rooted Client.rooted_initial rs hrs
  have hb := Client.sound_initial.run_bounded Client.bounded_initial rs hrs
  exact ⟨a.sweep_eq, fun id => hs.arena.mem_parked_sweep hroots,
    fun id => hs.arena.mem_parked_sweep_iff_idle, hs.occupied_release_sweep hroots, hb.parked, hb.sweepAt⟩

theorem Client.stack_keeps_parked_parent :
    -- a variable of the scope 2 has a function that captures the scope 3
    let rs := [.push (some 0), .push (some 1), .push (some 0), .capture 3, .entrust 2 0, .capture 2,
      .release 0, .push (some 1), .drop 0]
    let a := (Client.initial.run rs).env.arena
    Client.initial.Serves rs ∧ a.parked = #[⟨3⟩, ⟨2⟩, ⟨1⟩] ∧ a.sweep.parked = #[⟨1⟩] ∧
      a.Needed a.sweep.Lends ⟨1⟩ ∧ a.Idle [] ⟨2⟩ ∧ a.Idle [] ⟨3⟩ := by
  intro rs a
  have hrs : Client.initial.Serves rs := by decide
  obtain ⟨-, hneeded, hidle, -⟩ := Client.sweep_complete_and_bounded rs hrs
  have hparked : a.parked = #[⟨3⟩, ⟨2⟩, ⟨1⟩] := by decide
  have hswept : a.sweep.parked = #[⟨1⟩] := by decide
  have idle {id : ScopeId} (hid : id ∈ a.parked) (hfreed : id ∉ a.sweep.parked) : a.Idle [] id := by
    by_contra hnot
    exact hfreed ((hidle id).mpr ⟨hid, hnot⟩)
  refine ⟨hrs, hparked, hswept, ?_, idle (by simp [hparked]) (by simp [hswept]),
    idle (by simp [hparked]) (by simp [hswept])⟩
  have hkept : ⟨1⟩ ∈ a.sweep.parked := by simp [hswept]
  simpa [show (Client.initial.run rs).captures = [] by decide] using ((hneeded ⟨1⟩).mp hkept).2

end DiceLang

import DiceLang.Proofs.Scope.Ledger

/-! An arena that keeps some of its scopes for good. Whatever else comes and goes, such a scope and those
around it stay, and so do the bindings that are searched from it. -/

namespace DiceLang.Arena

variable {a a' : Arena} {id j p s : ScopeId} {f : Frame} {ids : List ScopeId}

def layers (a : Arena) (id : ScopeId) : List MapRef := (a.chain id).map Scope.bindings

lemma Climbs.congr (hc : a.Climbs id ids) (hframe : ∀ j ∈ ids, a'.frame? j = a.frame? j) :
    a'.Climbs id ids := by
  have hparent {k : ScopeId} (hk : a'.frame? k = a.frame? k) : a'.parent k = a.parent k := by
    rw [parent_eq_bind, parent_eq_bind, hk]
  induction hc with
  | last hocc hp =>
    have hsame := hframe _ List.mem_cons_self
    refine .last (isSome_scope?.mpr ?_) ((hparent hsame).trans hp)
    rw [hsame]
    exact isSome_scope?.mp hocc
  | next hp _ ih =>
    rw [List.forall_mem_cons] at hframe
    exact .next ((hparent hframe.1).trans hp) (ih hframe.2)

lemma Climbs.eq_or_parent (hc : a.Climbs id ids) (hj : j ∈ ids) :
    j = id ∨ ∃ k ∈ ids, a.parent k = some j := by
  induction hc with
  | last => exact .inl (List.mem_singleton.mp hj)
  | @next id p ids hp _ ih =>
    rcases List.mem_cons.mp hj with rfl | hj
    · exact .inl rfl
    · rcases ih hj with rfl | ⟨k, hk, hparent⟩
      · exact .inr ⟨id, List.mem_cons_self, hp⟩
      · exact .inr ⟨k, List.mem_cons_of_mem _ hk, hparent⟩

lemma Climbs.map_layers (hl : a.Layered) (hc : a.Climbs id ids) :
    (a.layers id).map some = ids.map fun j => (a.frame? j).map Frame.bindings := by
  have hchain := congrArg (List.map (Option.map Scope.bindings)) (hc.map_chain hl)
  simp only [List.map_map] at hchain
  rw [layers, List.map_map]
  refine hchain.trans (List.map_congr_left fun j _ => ?_)
  rw [Function.comp_apply, frame?, Option.map_map]
  rfl

lemma layers_congr (hl : a.Layered) (hl' : a'.Layered) (hc : a.Climbs id ids)
    (hframe : ∀ j ∈ ids, a'.frame? j = a.frame? j) : a'.layers id = a.layers id := by
  refine (List.map_inj_right (f := some) fun _ _ => Option.some.inj).mp ?_
  rw [(hc.congr hframe).map_layers hl', hc.map_layers hl]
  exact List.map_congr_left fun j hj => by rw [hframe j hj]

lemma layers_of_frames (hl : a.Layered) (hid : a.frame? id ≠ none)
    (hframe : ∀ j, a.frame? j ≠ none → a'.frame? j = a.frame? j) (hl' : a'.Layered) :
    a'.layers id = a.layers id := by
  obtain ⟨ids, hc⟩ := hl.exists_climbs hid
  exact layers_congr hl hl' hc fun j hj => hframe j (hc.occupied j hj)

lemma layers_of_parent (hl : a.Layered) (hf : a.frame? id = some f) (hp : f.parent = some p) :
    a.layers id = f.bindings :: a.layers p := by
  have hparent : a.parent id = some p := by rw [parent_of_frame hf, hp]
  obtain ⟨ids, hc⟩ := hl.exists_climbs (hl.depth_parent hparent).1
  refine (List.map_inj_right (f := some) fun _ _ => Option.some.inj).mp ?_
  rw [(Climbs.next hparent hc).map_layers hl, List.map_cons, List.map_cons, hc.map_layers hl, hf]
  rfl

lemma layers_of_root (hl : a.Layered) (hf : a.frame? id = some f) (hp : f.parent = none) :
    a.layers id = [f.bindings] := by
  have hc : a.Climbs id [id] :=
    .last (isSome_scope?.mpr (by simp [hf])) (by rw [parent_of_frame hf, hp])
  refine (List.map_inj_right (f := some) fun _ _ => Option.some.inj).mp ?_
  rw [hc.map_layers hl, List.map_singleton, hf]
  rfl

lemma head?_layers (hl : a.Layered) (hf : a.frame? id = some f) :
    (a.layers id).head? = some f.bindings := by
  cases hp : f.parent with
  | none => rw [layers_of_root hl hf hp, List.head?_singleton]
  | some p => rw [layers_of_parent hl hf hp, List.head?_cons]

lemma own_eq_bindings (a : Arena) (h : Heap) (id : ScopeId) :
    Environment.own ⟨h, a⟩ id = (a.frame? id).map Frame.bindings := by
  rw [Environment.own, frame?, Option.map_map]
  rfl

lemma own_eq_head? (hl : a.Layered) (hid : a.frame? id ≠ none) (h : Heap) :
    Environment.own ⟨h, a⟩ id = (a.layers id).head? := by
  obtain ⟨f, hf⟩ := Option.ne_none_iff_exists'.mp hid
  rw [head?_layers hl hf, own_eq_bindings, hf]
  rfl

lemma own_parent (hl : a.Layered) (hid : a.frame? id ≠ none) (h : Heap) :
    (a.parent id).map (Environment.own ⟨h, a⟩) = (a.layers id).tail.head?.map some := by
  obtain ⟨f, hf⟩ := Option.ne_none_iff_exists'.mp hid
  rw [parent_of_frame hf]
  cases hp : f.parent with
  | none => rw [layers_of_root hl hf hp]; rfl
  | some p =>
    obtain ⟨g, hg, -⟩ := hl id f p hf hp
    rw [layers_of_parent hl hf hp, List.tail_cons, head?_layers hl hg, Option.map_some,
      own_eq_bindings, hg]
    rfl

lemma own_root (hl : a.Layered) (hid : a.frame? id ≠ none) (h : Heap) :
    Environment.own ⟨h, a⟩ (a.root id) = (a.layers id).getLast? := by
  obtain ⟨ids, hc⟩ := hl.exists_climbs hid
  have hlast := congrArg List.getLast? (hc.map_layers hl)
  rw [List.getLast?_map, List.getLast?_map, hc.getLast?_eq_root hl, Option.map_some,
    ← own_eq_bindings a h] at hlast
  cases hr : (a.layers id).getLast? with
  | none => rw [hr] at hlast; cases hlast
  | some r => rw [hr] at hlast; exact (Option.some.inj hlast).symm

def Tends (a : Arena) (lasting : ScopeId → Prop) : Prop :=
  ∃ roots captured, a.Sound roots captured [] ∧ ∀ s, lasting s → s ∈ roots ∨ s ∈ captured

namespace Tends

variable {lasting lasting' : ScopeId → Prop}

lemma mono (ht : a.Tends lasting) (hle : ∀ s, lasting' s → lasting s) : a.Tends lasting' := by
  obtain ⟨roots, captured, hs, hlasting⟩ := ht
  exact ⟨roots, captured, hs, fun s h => hlasting s (hle s h)⟩

lemma layered (ht : a.Tends lasting) : a.Layered := by
  obtain ⟨_, _, hs, _⟩ := ht
  exact hs.layered

lemma occupied (ht : a.Tends lasting) (hs : lasting s ∨ s ∈ a.stack) : a.frame? s ≠ none := by
  obtain ⟨roots, captured, hsound, hlasting⟩ := ht
  rcases hs with hs | hs
  · rcases hlasting s hs with hroot | hcaptured
    · rw [← hsound.owned.mem, owners]
      simp [hroot]
    · exact hsound.counted.occupied s hcaptured
  · rw [← hsound.owned.mem, owners]
    simp [hs]

lemma own_parent_ne_none (ht : a.Tends lasting) (hp : a.parent id = some p) (h : Heap) :
    Environment.own ⟨h, a⟩ p ≠ none := by
  rw [own_eq_bindings, Ne, Option.map_eq_none_iff]
  exact (ht.layered.depth_parent hp).1

lemma own_root_ne_none (ht : a.Tends lasting) (hid : a.frame? id ≠ none) (h : Heap) :
    Environment.own ⟨h, a⟩ (a.root id) ≠ none := by
  obtain ⟨ids, hc⟩ := ht.layered.exists_climbs hid
  rw [own_eq_bindings, Ne, Option.map_eq_none_iff]
  exact hc.occupied _ (List.mem_of_getLast? (hc.getLast?_eq_root ht.layered))

lemma hold (ht : a.Tends lasting) (hs : a.frame? s ≠ none) :
    (a.hold s).Tends fun j => lasting j ∨ j = s := by
  obtain ⟨roots, captured, hsound, hlasting⟩ := ht
  refine ⟨roots, s :: captured, hsound.hold hs, ?_⟩
  rintro j (hj | rfl)
  · exact (hlasting j hj).imp_right (List.mem_cons_of_mem s)
  · exact .inr List.mem_cons_self

lemma layers_hold (ht : a.Tends lasting) (hj : a.frame? j ≠ none) :
    (a.hold s).layers j = a.layers j :=
  layers_of_frames ht.layered hj (fun k _ => a.frame?_hold s k) (ht.layered.congr (a.frame?_hold s))

section Grow

variable {parent : Option ScopeId} {bindings : MapRef}

lemma gains (ht : a.Tends lasting) (hparent : ∀ p ∈ parent, a.frame? p ≠ none) :
    Gains a (a.allocate parent bindings).2 a.fresh (a.child parent bindings).frame := by
  obtain ⟨_, _, hs, _⟩ := ht
  exact gains_allocate hparent hs.free.lt hs.free.fresh_eq_none

lemma push (ht : a.Tends lasting) (hparent : ∀ p ∈ parent, a.frame? p ≠ none) :
    (a.push parent bindings).2.Tends lasting := by
  obtain ⟨roots, captured, hs, hlasting⟩ := ht
  exact ⟨roots, captured, hs.push hparent, hlasting⟩

lemma allocate_root (ht : a.Tends lasting) :
    (a.allocate none bindings).2.Tends fun j => lasting j ∨ j = a.fresh := by
  obtain ⟨roots, captured, hs, hlasting⟩ := ht
  have hnew : (a.allocate none bindings).1 = a.fresh := congrArg Prod.fst (allocate_eq (by simp))
  refine ⟨a.fresh :: roots, captured, hnew ▸ hs.pushRoot, ?_⟩
  rintro j (hj | rfl)
  · exact (hlasting j hj).imp_left (List.mem_cons_of_mem _)
  · exact .inl List.mem_cons_self

lemma layers_push (ht : a.Tends lasting) (hparent : ∀ p ∈ parent, a.frame? p ≠ none)
    (hj : a.frame? j ≠ none) : (a.push parent bindings).2.layers j = a.layers j :=
  layers_of_frames ht.layered hj (fun _ hk => (ht.gains hparent).kept hk)
    (ht.push hparent).layered

lemma layers_push_self (ht : a.Tends lasting) (hp : a.frame? p ≠ none) :
    (a.push (some p) bindings).2.layers a.fresh = bindings :: a.layers p := by
  have hparent : ∀ q ∈ some p, a.frame? q ≠ none := by simpa using hp
  obtain ⟨g, hg⟩ := Option.ne_none_iff_exists'.mp hp
  have hframe : (a.push (some p) bindings).2.frame? a.fresh =
      some ⟨some p, g.depth + 1, bindings, true, []⟩ := by
    rw [← frame_child a p bindings hg]
    exact ((ht.gains hparent).frame a.fresh).trans (if_pos rfl)
  rw [layers_of_parent (ht.push hparent).layered hframe rfl, ht.layers_push hparent hp]

lemma layers_allocate_root (ht : a.Tends lasting) (hj : a.frame? j ≠ none) :
    (a.allocate none bindings).2.layers j = a.layers j :=
  layers_of_frames ht.layered hj (fun _ hk => (ht.gains (by simp)).kept hk)
    ht.allocate_root.layered

lemma layers_allocate_root_self (ht : a.Tends lasting) :
    (a.allocate none bindings).2.layers a.fresh = [bindings] := by
  have hframe : (a.allocate none bindings).2.frame? a.fresh = some ⟨none, 0, bindings, false, []⟩ :=
    ((ht.gains (by simp)).frame a.fresh).trans (if_pos rfl)
  exact layers_of_root ht.allocate_root.layered hframe rfl

end Grow

lemma release (ht : a.Tends lasting) (mark : Nat) :
    (a.release mark).Tends lasting ∧ ∀ s, (lasting s ∨ s ∈ a.stack.toList.take mark) →
      (a.release mark).layers s = a.layers s := by
  have hlayered := ht.layered
  have hoccupied {s : ScopeId} (hs : lasting s ∨ s ∈ a.stack.toList.take mark) : a.frame? s ≠ none :=
    ht.occupied (hs.imp_right fun h => Array.mem_toList_iff.mp (List.mem_of_mem_take h))
  obtain ⟨roots, captured, hsound, hlasting⟩ := ht
  -- what is wanted are the walks outwards from these scopes
  let base := a.stack.toList.take mark
  let wanted (j : ScopeId) : Prop := ∃ s ids, (lasting s ∨ s ∈ base) ∧ a.Climbs s ids ∧ j ∈ ids
  have hw : a.Wanted roots captured base wanted := by
    rintro j ⟨s, ids, hs, hc, hj⟩
    rcases hc.eq_or_parent hj with rfl | ⟨k, hk, hparent⟩
    · rcases hs with hs | hs
      · exact (hlasting j hs).imp_right .inl
      · exact .inr (.inr (.inl hs))
    · obtain ⟨f, hf, hp⟩ := exists_frame hparent
      exact .inr (.inr (.inr ⟨k, f, ⟨s, ids, hs, hc, hk⟩, hf, .inl hp⟩))
  have htidied : Tidied a roots captured base wanted a [] :=
    ⟨hsound, List.take_prefix mark _, fun _ _ => rfl⟩
  have hreleased := htidied.release hw (List.length_take_le mark _)
  refine ⟨⟨roots, captured, hreleased.sound, hlasting⟩, fun s hs => ?_⟩
  obtain ⟨ids, hc⟩ := hlayered.exists_climbs (hoccupied hs)
  exact layers_congr hlayered hreleased.sound.layered hc fun j hj =>
    hreleased.kept j ⟨s, ids, hs, hc, hj⟩

end Tends

lemma tends_empty : Arena.empty.Tends fun _ => False := ⟨[], [], sound_empty, fun _ h => h.elim⟩

end DiceLang.Arena

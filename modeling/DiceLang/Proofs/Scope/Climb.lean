import DiceLang.Proofs.Scope.Sound

/-! Walks outwards. In a layered arena the walk from a scope over its parents ends, at the root of the scope.
-/

namespace DiceLang.Arena

variable {a : Arena} {id j p : ScopeId} {f : Frame} {ids : List ScopeId}

inductive Climbs (a : Arena) : ScopeId → List ScopeId → Prop
  | last {id : ScopeId} : (a.scope? id).isSome → a.parent id = none → Climbs a id [id]
  | next {id p : ScopeId} {ids : List ScopeId} : a.parent id = some p → Climbs a p ids →
      Climbs a id (id :: ids)

lemma parent_eq_bind (a : Arena) (id : ScopeId) : a.parent id = (a.frame? id).bind Frame.parent := by
  rw [parent, frame?]
  cases a.scope? id <;> rfl

lemma Reowns.parent_eq {a' : Arena} {g : List Capture → List Capture} (hr : Reowns a a' id g)
    (j : ScopeId) : a'.parent j = a.parent j := by
  rw [parent_eq_bind, parent_eq_bind, hr.frame]
  split
  · cases a.frame? j <;> rfl
  · rfl

lemma parent_of_frame (hf : a.frame? id = some f) : a.parent id = f.parent := by
  rw [parent_eq_bind, hf]
  rfl

lemma depth_of_frame (hf : a.frame? id = some f) : a.depth id = f.depth := by
  obtain ⟨s, hs, rfl⟩ := exists_scope hf
  rw [depth, hs]
  rfl

lemma exists_frame (hp : a.parent id = some p) : ∃ f, a.frame? id = some f ∧ f.parent = some p := by
  rw [parent_eq_bind] at hp
  exact Option.bind_eq_some_iff.mp hp

lemma Layered.depth_parent (hl : a.Layered) (hp : a.parent id = some p) :
    a.frame? p ≠ none ∧ a.depth id = a.depth p + 1 := by
  obtain ⟨f, hf, hfp⟩ := exists_frame hp
  obtain ⟨g, hg, hdepth⟩ := hl id f p hf hfp
  exact ⟨by simp [hg], by rw [depth_of_frame hf, depth_of_frame hg, hdepth]⟩

lemma Layered.exists_climbs (hl : a.Layered) (hid : a.frame? id ≠ none) : ∃ ids, a.Climbs id ids := by
  induction hn : a.depth id generalizing id with
  | zero =>
    refine ⟨[id], .last (isSome_scope?.mpr hid) ?_⟩
    cases hp : a.parent id with
    | none => rfl
    | some p =>
      have hdepth := (hl.depth_parent hp).2
      omega
  | succ n ih =>
    cases hp : a.parent id with
    | none => exact ⟨[id], .last (isSome_scope?.mpr hid) hp⟩
    | some p =>
      obtain ⟨hocc, hdepth⟩ := hl.depth_parent hp
      obtain ⟨ids, hids⟩ := ih hocc (by omega)
      exact ⟨id :: ids, .next hp hids⟩

namespace Climbs

lemma ne_nil (hc : a.Climbs id ids) : ids ≠ [] := by
  cases hc <;> simp

lemma occupied (hc : a.Climbs id ids) : ∀ j ∈ ids, a.frame? j ≠ none := by
  induction hc with
  | last hocc => simpa using isSome_scope?.mp hocc
  | next hp _ ih =>
    obtain ⟨f, hf, -⟩ := exists_frame hp
    exact List.forall_mem_cons.mpr ⟨by simp [hf], ih⟩

lemma depth_le (hl : a.Layered) (hc : a.Climbs id ids) : ∀ j ∈ ids, a.depth j ≤ a.depth id := by
  induction hc with
  | last => simp
  | next hp _ ih =>
    have hdepth := (hl.depth_parent hp).2
    refine List.forall_mem_cons.mpr ⟨le_rfl, fun j hj => ?_⟩
    have hle := ih j hj
    omega

lemma nodup (hl : a.Layered) (hc : a.Climbs id ids) : ids.Nodup := by
  induction hc with
  | last => exact List.nodup_singleton _
  | next hp hc ih =>
    refine List.nodup_cons.mpr ⟨fun hmem => ?_, ih⟩
    have hle := hc.depth_le hl _ hmem
    have hdepth := (hl.depth_parent hp).2
    omega

lemma length_le (hl : a.Layered) (hc : a.Climbs id ids) : ids.length ≤ a.slots.size := by
  have hnodup : (ids.map ScopeId.index).Nodup := (hc.nodup hl).map ScopeId.index_injective
  have hsub : ids.map ScopeId.index ⊆ List.range a.slots.size := by
    intro i hi
    obtain ⟨j, hj, rfl⟩ := List.mem_map.mp hi
    exact List.mem_range.mpr (index_lt (hc.occupied j hj))
  simpa using (hnodup.subperm hsub).length_le

lemma getLast?_eq_rootWithin (hc : a.Climbs id ids) {n : Nat} (hn : ids.length ≤ n + 1) :
    ids.getLast? = some (a.rootWithin n id) := by
  induction hc generalizing n with
  | last _ hp =>
    cases n with
    | zero => rfl
    | succ n => simp [rootWithin, hp]
  | @next id p ids hp hc ih =>
    have hpos := List.length_pos_iff.mpr hc.ne_nil
    rw [List.length_cons] at hn
    obtain ⟨n, rfl⟩ := Nat.exists_eq_add_one.mpr (show 0 < n by omega)
    rw [rootWithin, hp, ← ih (by omega)]
    exact List.getLast?_cons_of_ne_nil hc.ne_nil

lemma map_chainWithin (hc : a.Climbs id ids) {n : Nat} (hn : ids.length ≤ n) :
    (a.chainWithin n id).map some = ids.map a.scope? := by
  induction hc generalizing n with
  | @last id hocc hp =>
    obtain ⟨s, hs⟩ := Option.isSome_iff_exists.mp hocc
    obtain ⟨n, rfl⟩ := Nat.exists_eq_add_one.mpr (show 0 < n from hn)
    rw [parent, hs] at hp
    have hp : s.parent = none := hp
    simp [chainWithin, hs, hp]
  | @next id p ids hp hc ih =>
    obtain ⟨s, hs, hp⟩ := Option.bind_eq_some_iff.mp hp
    rw [List.length_cons] at hn
    obtain ⟨n, rfl⟩ := Nat.exists_eq_add_one.mpr (show 0 < n by omega)
    simp [chainWithin, hs, hp, ih (by omega : ids.length ≤ n)]

lemma getLast?_eq_root (hl : a.Layered) (hc : a.Climbs id ids) : ids.getLast? = some (a.root id) :=
  hc.getLast?_eq_rootWithin (Nat.le_succ_of_le (hc.length_le hl))

lemma map_chain (hl : a.Layered) (hc : a.Climbs id ids) : (a.chain id).map some = ids.map a.scope? :=
  hc.map_chainWithin (hc.length_le hl)

end Climbs

end DiceLang.Arena

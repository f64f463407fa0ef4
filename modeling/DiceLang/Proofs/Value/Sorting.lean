import DiceLang.Proofs.Value.TotalOrder
import Mathlib.Data.List.Sort

/-! Sorting values. A sorted list is in order, and elements that are equal in the order keep the order in
which they came. -/

namespace DiceLang

namespace DataTree

lemma order_trans {t u w : DataTree} {o : Ordering} (htu : t.order u = o) (huw : u.order w = o) :
    t.order w = o := by
  cases o with
  | lt => exact order_lt_trans htu huw
  | eq => rw [order_congr htu, huw]
  | gt =>
    rw [order_swap, Ordering.swap_eq_gt] at htu huw ⊢
    exact order_lt_trans huw htu

end DataTree

namespace Heap

variable {h : Heap} {a b c : Value} {α : Type} {wanted : Ordering} {x y z : Value × Nat}

open Classical in
noncomputable def tree (h : Heap) (v : Value) : DataTree :=
  if hv : ∃ t, h.Unfolds v t then hv.choose else .undefined

lemma Plain.unfolds_tree (ha : h.Plain a) : h.Unfolds a (h.tree a) := by
  rw [tree, dif_pos ha.exists_unfolds]
  exact ha.exists_unfolds.choose_spec

lemma Plain.order_eq_tree (ha : h.Plain a) (hb : h.Plain b) :
    h.order a b = (h.tree a).order (h.tree b) := order_eq_of_unfolds ha.unfolds_tree hb.unfolds_tree

lemma Plain.order_swap (ha : h.Plain a) (hb : h.Plain b) : h.order b a = (h.order a b).swap := by
  rw [hb.order_eq_tree ha, ha.order_eq_tree hb, DataTree.order_swap]

lemma Plain.order_self (ha : h.Plain a) : h.order a a = .eq := by
  rw [ha.order_eq_tree ha, DataTree.order_self]

lemma Plain.order_congr (ha : h.Plain a) (hb : h.Plain b) (hc : h.Plain c)
    (hab : h.order a b = .eq) : h.order a c = h.order b c := by
  rw [ha.order_eq_tree hb] at hab
  rw [ha.order_eq_tree hc, hb.order_eq_tree hc, DataTree.order_congr hab]

noncomputable def treeLE (h : Heap) (a b : Value) : Bool := (h.tree a).order (h.tree b) != .gt

lemma treeLE_eq_isLE (a b : Value) : h.treeLE a b = ((h.tree a).order (h.tree b)).isLE := by
  rw [treeLE]
  cases (h.tree a).order (h.tree b) <;> rfl

lemma treeLE_trans (a b c : Value) (hab : h.treeLE a b) (hbc : h.treeLE b c) : h.treeLE a c := by
  rw [treeLE_eq_isLE] at hab hbc ⊢
  exact DataTree.order_isLE_trans hab hbc

lemma treeLE_total (a b : Value) : h.treeLE a b || h.treeLE b a := by
  rw [treeLE, treeLE, DataTree.order_swap (h.tree a)]
  cases (h.tree a).order (h.tree b) <;> rfl

lemma mergeSort_eq_treeLE (value : α → Value) {xs : List α} (hp : ∀ x ∈ xs, h.Plain (value x)) :
    xs.mergeSort (fun x y => h.order (value x) (value y) != .gt) =
      xs.mergeSort fun x y => h.treeLE (value x) (value y) := by
  have hmap := List.map_mergeSort (f := id) (l := xs)
    (r := fun x y => h.order (value x) (value y) != .gt)
    (s := fun x y => h.treeLE (value x) (value y)) fun x hx y hy => by
      rw [(hp x hx).order_eq_tree (hp y hy)]
      rfl
  simpa only [List.map_id] using hmap

lemma pairwise_mergeSort_of_plain (value : α → Value) {xs : List α}
    (hp : ∀ x ∈ xs, h.Plain (value x)) :
    (xs.mergeSort fun x y => h.order (value x) (value y) != .gt).Pairwise
      fun x y => h.order (value x) (value y) ≠ .gt := by
  have hsorted : (xs.mergeSort fun x y => h.treeLE (value x) (value y)).Pairwise
      fun x y => h.treeLE (value x) (value y) = true :=
    List.pairwise_mergeSort (fun x y z => treeLE_trans (value x) (value y) (value z))
      (fun x y => treeLE_total (value x) (value y)) xs
  rw [mergeSort_eq_treeLE value hp]
  refine hsorted.imp_of_mem fun {x y} hx hy hxy => ?_
  rw [(hp x (List.mem_mergeSort.mp hx)).order_eq_tree (hp y (List.mem_mergeSort.mp hy))]
  simpa [treeLE] using hxy

def Precedes (h : Heap) (wanted : Ordering) (x y : Value × Nat) : Prop :=
  h.order x.1 y.1 = wanted ∨ (h.order x.1 y.1 = .eq ∧ x.2 < y.2)

lemma Precedes.isLE (hxy : h.Precedes .lt x y) : (h.order x.1 y.1).isLE := by
  rcases hxy with hxy | ⟨hxy, -⟩ <;> rw [hxy] <;> rfl

lemma Precedes.trans (hx : h.Plain x.1) (hy : h.Plain y.1) (hz : h.Plain z.1)
    (hxy : h.Precedes wanted x y) (hyz : h.Precedes wanted y z) : h.Precedes wanted x z := by
  rw [Precedes, hx.order_eq_tree hy] at hxy
  rw [Precedes, hy.order_eq_tree hz] at hyz
  rw [Precedes, hx.order_eq_tree hz]
  obtain hxy | ⟨hxy, hbefore⟩ := hxy
  · obtain hyz | ⟨hyz, -⟩ := hyz
    · exact .inl (DataTree.order_trans hxy hyz)
    · exact .inl (by rw [← DataTree.order_congr_right hyz, hxy])
  · rw [DataTree.order_congr hxy]
    exact hyz.imp_right fun ⟨hyz, hafter⟩ => ⟨hyz, hbefore.trans hafter⟩

lemma Precedes.of_eq_or (hx : h.Plain x.1) (hy : h.Plain y.1) (hz : h.Plain z.1)
    (hxy : y = x ∨ h.Precedes wanted x y) (hyz : h.Precedes wanted y z) : h.Precedes wanted x z := by
  obtain rfl | hxy := hxy
  · exact hyz
  · exact hxy.trans hx hy hz hyz

lemma Precedes.asymm (hx : h.Plain x.1) (hy : h.Plain y.1) (hw : wanted ≠ .eq)
    (hxy : h.Precedes wanted x y) : ¬ h.Precedes wanted y x := by
  intro hyx
  rw [Precedes, hx.order_swap hy] at hyx
  rw [Precedes] at hxy
  cases wanted <;> cases hc : h.order x.1 y.1 <;> simp_all <;> omega

lemma snd_fst_of_mem_zipIdx {vs : List Value} {x : (Value × Nat) × Nat}
    (hx : x ∈ vs.zipIdx.zipIdx) : x.1.2 = x.2 := by
  rw [List.mem_zipIdx_iff_getElem?, List.getElem?_zipIdx] at hx
  obtain ⟨v, -, heq⟩ := Option.map_eq_some_iff.mp hx
  rw [← heq]
  exact Nat.zero_add x.2

lemma pairwise_zipIdx_snd_ne {vs : List Value} {xs : List (Value × Nat)} (hxs : xs.Perm vs.zipIdx) :
    xs.Pairwise fun x y => x.2 ≠ y.2 := by
  have hnodup : (xs.map Prod.snd).Nodup := by
    rw [(hxs.map Prod.snd).nodup_iff, List.zipIdx_map_snd]
    exact List.nodup_range'
  exact List.pairwise_map.mp hnodup

lemma pairwise_mergeSort_zipIdx {vs : List Value} (hp : ∀ v ∈ vs, h.Plain v) :
    (vs.zipIdx.mergeSort fun x y => h.order x.1 y.1 != .gt).Pairwise (h.Precedes .lt) := by
  let le (x y : Value × Nat) : Bool := h.treeLE x.1 y.1
  have hplain (x : Value × Nat) (hx : x ∈ vs.zipIdx) : h.Plain x.1 :=
    hp x.1 (List.fst_mem_of_mem_zipIdx hx)
  -- The sort is stable: it is the sort that breaks ties by place, its places then forgotten.
  have hties : (vs.zipIdx.zipIdx.mergeSort (List.zipIdxLE le)).Pairwise
      fun x y => List.zipIdxLE le x y = true :=
    List.pairwise_mergeSort
      (List.zipIdxLE_trans fun x y z => treeLE_trans x.1 y.1 z.1)
      (List.zipIdxLE_total fun x y => treeLE_total x.1 y.1) _
  have hsorted : (vs.zipIdx.mergeSort le).Pairwise fun x y => le x y ∧ (le y x → x.2 ≤ y.2) := by
    rw [← List.mergeSort_zipIdx, List.pairwise_map]
    refine hties.imp_of_mem fun {x y} hx hy hxy => ?_
    rw [snd_fst_of_mem_zipIdx (List.mem_mergeSort.mp hx),
      snd_fst_of_mem_zipIdx (List.mem_mergeSort.mp hy)]
    rw [List.zipIdxLE] at hxy
    split at hxy
    · next hle => exact ⟨hle, fun hge => by simpa [hge] using hxy⟩
    · cases hxy
  rw [mergeSort_eq_treeLE Prod.fst hplain]
  refine (hsorted.and (pairwise_zipIdx_snd_ne (List.mergeSort_perm _ _))).imp_of_mem
    fun {x y} hx hy hxy => ?_
  obtain ⟨⟨hle, hge⟩, hne⟩ := hxy
  have horder := (hplain x (List.mem_mergeSort.mp hx)).order_eq_tree
    (hplain y (List.mem_mergeSort.mp hy))
  simp only [le, treeLE] at hle hge
  rw [DataTree.order_swap (h.tree x.1), ← horder] at hge
  rw [← horder] at hle
  rw [Precedes]
  cases hxy : h.order x.1 y.1 with
  | lt => exact .inl rfl
  | eq =>
    rw [hxy] at hge
    exact .inr ⟨rfl, lt_of_le_of_ne (hge rfl) hne⟩
  | gt =>
    rw [hxy] at hle
    cases hle

end Heap

end DiceLang

import DiceLang.Proofs.Value.Unfolding
import DiceLang.Value.Order

/-! The order of values is that of their trees: neither the containers that two values share nor those
that are under comparison already make a difference, unless values contain themselves. -/

namespace DiceLang

open Relation (ReflTransGen TransGen)

lemma Scalar.order_of_kind_ne {a b : Scalar} (hk : a.kind ≠ b.kind) :
    a.order b = compare a.kind.rank b.kind.rank := by
  cases a <;> cases b <;> first | exact absurd rfl hk | rfl

namespace Heap

variable {h : Heap} {a b : Value} {t u : DataTree} {x y : Container} {fuel : Nat}
  {path : List (Container × Container)}

lemma orderWithin_of_kind_ne (hk : a.kind ≠ b.kind) :
    h.orderWithin (fuel + 1) path a b = compare a.kind.rank b.kind.rank := by
  cases a with
  | scalar v =>
    cases b with
    | scalar w => exact Scalar.order_of_kind_ne hk
    | _ => simp only [orderWithin, ne_eq, hk, not_false_eq_true, ↓reduceIte]
  | function i =>
    cases b with
    | function j => exact absurd rfl hk
    | _ => simp only [orderWithin, ne_eq, hk, not_false_eq_true, ↓reduceIte]
  | _ => simp only [orderWithin, ne_eq, hk, not_false_eq_true, ↓reduceIte]

lemma orderWithin_container (hk : a.kind = b.kind) (ha : a.container? = some x)
    (hb : b.container? = some y) :
    h.orderWithin (fuel + 1) path a b = if x = y ∨ (x, y) ∈ path then .eq
      else orderLists (h.orderWithin fuel ((x, y) :: path)) (h.contents x) (h.contents y) := by
  cases a with
  | scalar | function => cases ha
  | list | map => simp only [orderWithin, ne_eq, hk, not_true_eq_false, ↓reduceIte, ha, hb]

lemma order_ofScalar (a b : Scalar) : (DataTree.ofScalar a).order (.ofScalar b) = a.order b := by
  have hkind (v : Scalar) : (DataTree.ofScalar v).kind = v.kind := by cases v <;> rfl
  by_cases hk : a.kind = b.kind
  · cases a with
    | undefined => cases b with
      | undefined => rfl
      | _ => cases hk
    | string s => cases b with
      | string s' =>
        rw [DataTree.ofScalar, DataTree.ofScalar, DataTree.order, Scalar.order,
          Text.compare_eq_compare_bytes]
      | _ => cases hk
    | boolean p => cases b with
      | boolean q => cases p <;> cases q <;> rfl
      | _ => cases hk
    | number m => cases b with
      | number n => rfl
      | _ => cases hk
  · rw [Scalar.order_of_kind_ne hk, DataTree.order_of_kind_ne (by rwa [hkind, hkind]), hkind, hkind]

lemma orderLists_eq {order : Value → Value → Ordering} {vs ws : List Value} {ts us : List DataTree}
    (hts : List.Forall₂ h.Unfolds vs ts) (hus : List.Forall₂ h.Unfolds ws us)
    (heq : ∀ v ∈ vs, ∀ t w u, h.Unfolds v t → h.Unfolds w u → order v w = t.order u) :
    orderLists order vs ws = ts.compareLex DataTree.order us := by
  induction hts generalizing ws us with
  | nil => cases hus <;> rfl
  | @cons v t vs ts ht _ ih =>
    cases hus with
    | nil => rfl
    | @cons w u ws us hu hus =>
      rw [List.forall_mem_cons] at heq
      rw [orderLists, List.compareLex_cons_cons, heq.1 t w u ht hu, ih hus heq.2]
      cases t.order u <;> rfl

lemma Unfolds.order_eq_compareLex (ht : h.Unfolds a t) (hu : h.Unfolds b u) (hk : a.kind = b.kind)
    (ha : a.container? = some x) : t.order u = t.children.compareLex DataTree.order u.children := by
  cases ht with
  | scalar => cases ha
  | list => cases hu with
    | list => exact DataTree.order_list _ _
    | map => cases hk
    | scalar v => cases v <;> cases hk
  | map => cases hu with
    | map => exact DataTree.order_map _ _
    | list => cases hk
    | scalar v => cases v <;> cases hk

lemma exists_container_of_kind (hk : a.kind = b.kind) (ha : a.container? = some x) :
    ∃ y, b.container? = some y := by
  cases b with
  | list | map => exact ⟨_, rfl⟩
  | scalar v =>
    cases a with
    | scalar | function => cases ha
    | list | map => cases v <;> cases hk
  | function =>
    cases a with
    | scalar | function => cases ha
    | list | map => cases hk

lemma orderWithin_eq (hp : h.Plain a) (hfuel : (h.met a).card < fuel)
    (hpath : ∀ p ∈ path, TransGen h.Holds p.1.value a) (ht : h.Unfolds a t) (hu : h.Unfolds b u) :
    h.orderWithin fuel path a b = t.order u := by
  induction fuel generalizing path a b t u with
  | zero => omega
  | succ fuel ih =>
    by_cases hk : a.kind = b.kind
    · cases ha : a.container? with
      | none =>
        cases ht with
        | list | map => cases ha
        | scalar v =>
          cases hu with
          | scalar w => exact (order_ofScalar v w).symm
          | list | map => cases v <;> cases hk
      | some x =>
        obtain ⟨y, hb⟩ := exists_container_of_kind hk ha
        have hx : x.value = a := value_of_container? ha
        rw [orderWithin_container hk ha hb]
        split_ifs with hmet
        · rcases hmet with rfl | hmet
          · obtain rfl : a = b := hx.symm.trans (value_of_container? hb)
            rw [ht.unique hu, DataTree.order_self]
          · have hcycle : TransGen h.Holds x.value a := hpath (x, y) hmet
            rw [hx] at hcycle
            exact absurd hcycle (hp.acyclic a .refl)
        · rw [ht.order_eq_compareLex hu hk ha]
          refine orderLists_eq (ht.contents ha) (hu.contents hb) fun w hw s w' s' hs hs' => ?_
          have hholds : h.Holds a w := ⟨x, ha, hw⟩
          have hcard := card_met_lt (hp.acyclic a .refl) hholds
          refine ih (hp.of_holds hholds) (by omega) (fun p hmem => ?_) hs hs'
          rcases List.mem_cons.mp hmem with rfl | hmem
          · exact .single (hx ▸ hholds)
          · exact (hpath p hmem).tail hholds
    · rw [orderWithin_of_kind_ne hk, DataTree.order_of_kind_ne (by rwa [ht.kind, hu.kind]), ht.kind,
        hu.kind]

lemma order_eq_of_unfolds (ht : h.Unfolds a t) (hu : h.Unfolds b u) : h.order a b = t.order u := by
  have hfuel : (h.met a).card < h.size * h.size + 1 :=
    Nat.lt_succ_of_le ((h.card_met_le a).trans (Nat.le_mul_self h.size))
  exact orderWithin_eq ht.plain hfuel (by simp) ht hu

/-- On values without functions and cycles the order is that of their trees, whichever containers hold
them. So it is reflexive, antisymmetric and transitive, and two values are equal in it exactly if their
trees are, keys aside. -/
theorem order_eq_tree_order (h : Heap) :
    (∀ a, h.Plain a ↔ ∃! t, h.Unfolds a t) ∧
    (∀ a b t u, h.Unfolds a t → h.Unfolds b u →
      h.order a b = t.order u ∧ (h.order a b = .eq ↔ t.withoutKeys = u.withoutKeys)) ∧
    (∀ a, h.Plain a → h.order a a = .eq) ∧
    (∀ a b, h.Plain a → h.Plain b → h.order b a = (h.order a b).swap) ∧
    ∀ a b c, h.Plain a → h.Plain b → h.Plain c →
      (h.order a b).isLE → (h.order b c).isLE → (h.order a c).isLE := by
  refine ⟨fun a => plain_iff_existsUnique_unfolds, ?_, ?_, ?_, ?_⟩
  · intro a b t u ht hu
    rw [order_eq_of_unfolds ht hu]
    exact ⟨rfl, t.order_eq_iff u⟩
  · intro a ha
    obtain ⟨t, ht⟩ := ha.exists_unfolds
    rw [order_eq_of_unfolds ht ht, t.order_self]
  · intro a b ha hb
    obtain ⟨t, ht⟩ := ha.exists_unfolds
    obtain ⟨u, hu⟩ := hb.exists_unfolds
    rw [order_eq_of_unfolds hu ht, order_eq_of_unfolds ht hu, t.order_swap u]
  · intro a b c ha hb hc hab hbc
    obtain ⟨t, ht⟩ := ha.exists_unfolds
    obtain ⟨u, hu⟩ := hb.exists_unfolds
    obtain ⟨w, hw⟩ := hc.exists_unfolds
    rw [order_eq_of_unfolds ht hu] at hab
    rw [order_eq_of_unfolds hu hw] at hbc
    rw [order_eq_of_unfolds ht hw]
    exact DataTree.order_isLE_trans hab hbc

def sharing : Heap :=
  ⟨#[[.number 1, .string "é"], [.number 1, .string "é"], [.list ⟨0⟩]],
    #[[("x", .list ⟨0⟩), ("y", .list ⟨0⟩)], [("p", .list ⟨0⟩), ("q", .list ⟨1⟩)]]⟩

def sharedTree (key key' : String) : DataTree :=
  .map [(key, .list [.number 1, .string "é"]), (key', .list [.number 1, .string "é"])]

lemma unfolds_sharing : sharing.Unfolds (.map ⟨0⟩) (sharedTree "x" "y") ∧
    sharing.Unfolds (.map ⟨1⟩) (sharedTree "p" "q") ∧
    sharing.Unfolds (.list ⟨2⟩) (.list [.list [.number 1, .string "é"]]) := by
  have hnumber : sharing.Unfolds (.number 1) (.number 1) := .scalar (.number 1)
  have hstring : sharing.Unfolds (.string "é") (.string "é") := .scalar (.string "é")
  have hlist (r : ListRef) (hr : sharing.items r = [.number 1, .string "é"]) :
      sharing.Unfolds (.list r) (.list [.number 1, .string "é"]) := by
    refine .list r _ (by rw [hr]; rfl) ?_
    rw [hr]
    simp [hnumber, hstring]
  have hfirst := hlist ⟨0⟩ rfl
  have hsecond := hlist ⟨1⟩ rfl
  refine ⟨.map _ _ rfl ?_, .map _ _ rfl ?_, .list _ _ rfl ?_⟩
  · show ∀ p ∈ [(Value.list ⟨0⟩, _), (Value.list ⟨0⟩, _)], _
    simp [hfirst]
  · show ∀ p ∈ [(Value.list ⟨0⟩, _), (Value.list ⟨1⟩, _)], _
    simp [hfirst, hsecond]
  · show ∀ p ∈ [(Value.list ⟨0⟩, _)], _
    simp [hfirst]

theorem shared_maps_with_other_keys_equal :
    let a := Value.map ⟨0⟩
    let b := Value.map ⟨1⟩
    let c := Value.list ⟨2⟩
    (sharing.order a b = .eq ∧ sharing.order b a = .eq ∧ sharing.order a a = .eq) ∧
      sharing.order c a = .lt ∧ (sharing.order c b).isLE := by
  obtain ⟨ha, hb, hc⟩ := unfolds_sharing
  obtain ⟨-, hequal, hself, hswap, htrans⟩ := order_eq_tree_order sharing
  have hab : sharing.order (.map ⟨0⟩) (.map ⟨1⟩) = .eq :=
    (hequal _ _ _ _ ha hb).2.mpr (by simp [sharedTree])
  have hca : sharing.order (.list ⟨2⟩) (.map ⟨0⟩) = .lt := (hequal _ _ _ _ hc ha).1
  refine ⟨⟨hab, ?_, hself _ ha.plain⟩, hca, ?_⟩
  · rw [hswap _ _ ha.plain hb.plain, hab]
    rfl
  · exact htrans _ _ _ hc.plain ha.plain hb.plain (by rw [hca]; rfl) (by rw [hab]; rfl)

end Heap

end DiceLang

import DiceLang.Proofs.Lists
import DiceLang.Proofs.Value.Unfolding
import DiceLang.Value.Printer

/-! How deep values nest. What nests deeper than there are containers contains itself, and nothing else
has no copy. -/

namespace DiceLang.Heap

open Relation (ReflTransGen TransGen)

variable {h h' : Heap} {v : Value} {n : Nat} {path : List Container}

inductive Deep (h : Heap) : Nat → Value → Prop
  | here (v : Value) : Deep h 0 v
  | inside {n : Nat} {v w : Value} : h.Holds v w → Deep h n w → Deep h (n + 1) v

lemma Deep.le_size (hacyclic : h.Acyclic v) (hd : h.Deep n v) : n ≤ h.size := by
  suffices hmet : n ≤ (h.met v).card from hmet.trans (h.card_met_le v)
  induction hd with
  | here => exact Nat.zero_le _
  | @inside n v w hw _ ih =>
    -- Each step down leaves a container behind for good.
    exact (ih (hacyclic.of_holds hw)).trans_lt (card_met_lt (hacyclic v .refl) hw)

inductive Descends (h : Heap) : List Container → Value → Prop
  | start (v : Value) : Descends h [] v
  | inside {path : List Container} {v w : Value} {c : Container} : Descends h path v →
      v.container? = some c → w ∈ h.contents c → Descends h (c :: path) w

lemma Descends.transGen (hd : h.Descends path v) : ∀ c ∈ path, TransGen h.Holds c.value v := by
  induction hd with
  | start => exact List.forall_mem_nil _
  | @inside path u v c _ hc hv ih =>
    obtain rfl := value_of_container? hc
    refine List.forall_mem_cons.mpr ⟨.single ⟨c, hc, hv⟩, fun d hd => ?_⟩
    exact (ih d hd).tail ⟨c, hc, hv⟩

lemma Descends.mem_containers (hd : h.Descends path v) : ∀ c ∈ path, c ∈ h.containers := by
  induction hd with
  | start => exact List.forall_mem_nil _
  | inside _ _ hv ih => exact List.forall_mem_cons.mpr ⟨Heap.mem_containers hv, ih⟩

lemma length_le_size (hpath : path.Nodup) (hin : ∀ c ∈ path, c ∈ h.containers) :
    path.length ≤ h.size :=
  calc path.length = path.toFinset.card := (List.toFinset_card_of_nodup hpath).symm
    _ ≤ h.containers.card := Finset.card_le_card fun c hc => hin c (List.mem_toFinset.mp hc)
    _ ≤ h.size := h.card_containers_le

lemma Descends.nodup (hd : h.Descends path v) (hacyclic : ∀ c ∈ path, ¬ TransGen h.Holds c.value c.value) :
    path.Nodup := by
  induction hd with
  | start => exact List.nodup_nil
  | @inside path u v c hd hc _ ih =>
    rw [List.forall_mem_cons] at hacyclic
    obtain rfl := value_of_container? hc
    exact List.nodup_cons.mpr ⟨fun hmem => hacyclic.1 (hd.transGen c hmem), ih hacyclic.2⟩

lemma Descends.exists_cycle (hd : h.Descends path v) (hlong : h.size < path.length) :
    ∃ c ∈ path, TransGen h.Holds c.value c.value := by
  by_contra hacyclic
  simp only [not_exists, not_and] at hacyclic
  exact hlong.not_ge (length_le_size (hd.nodup hacyclic) hd.mem_containers)

lemma deep_of_exprWithin (hn : h.exprWithin n v = none) : h.Deep n v := by
  induction n generalizing v with
  | zero => exact .here v
  | succ n ih =>
    cases v with
    | scalar | function => cases hn
    | list r =>
      obtain ⟨w, hw, hnone⟩ := exists_of_mapM_eq_none (Option.map_eq_none_iff.mp hn)
      exact .inside ⟨.list r, rfl, hw⟩ (ih hnone)
    | map r =>
      obtain ⟨e, he, hnone⟩ := exists_of_mapM_eq_none (Option.map_eq_none_iff.mp hn)
      have hheld : e.2 ∈ h.contents (.map r) := List.mem_map_of_mem he
      exact .inside ⟨.map r, rfl, hheld⟩ (ih (Option.map_eq_none_iff.mp hnone))

lemma not_acyclic_of_expr? (hv : h.expr? v = none) : ¬ h.Acyclic v :=
  fun hacyclic => Nat.not_succ_le_self _ ((deep_of_exprWithin hv).le_size hacyclic)

lemma holds_newList (items : List Value) {v w : Value} (hw : h.Holds v w) :
    (h.newList items).2.Holds v w := by
  obtain ⟨c, hc, hmem⟩ := hw
  refine ⟨c, hc, ?_⟩
  cases c with
  | map r => exact hmem
  | list r =>
    simp only [contents, Heap.items, Array.getD_eq_getD_getElem?] at hmem ⊢
    cases hr : h.lists[r.index]? with
    | none =>
      rw [hr] at hmem
      cases hmem
    | some vs =>
      rw [hr] at hmem
      rwa [newList, getElem?_push_of_some hr]

lemma holds_newMap (entries : List (String × Value)) {v w : Value} (hw : h.Holds v w) :
    (h.newMap entries).2.Holds v w := by
  obtain ⟨c, hc, hmem⟩ := hw
  refine ⟨c, hc, ?_⟩
  cases c with
  | list r => exact hmem
  | map r =>
    simp only [contents, Heap.entries, Array.getD_eq_getD_getElem?] at hmem ⊢
    cases hr : h.maps[r.index]? with
    | none =>
      rw [hr] at hmem
      cases hmem
    | some es =>
      rw [hr] at hmem
      rwa [newMap, getElem?_push_of_some hr]

end DiceLang.Heap

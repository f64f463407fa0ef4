import DiceLang.Proofs.Value.Tree

/-! Values as trees. A value that holds no function and does not contain itself unfolds to exactly one
tree, however its containers are shared. -/

namespace DiceLang

open Relation (ReflTransGen TransGen)

def Container.value : Container → Value
  | .list r => .list r
  | .map r => .map r

namespace Heap

variable {h : Heap} {v w : Value} {t u : DataTree} {c : Container}
  {path : List Container}

def Holds (h : Heap) (v w : Value) : Prop := ∃ c, v.container? = some c ∧ w ∈ h.contents c

def Acyclic (h : Heap) (v : Value) : Prop := ∀ w, ReflTransGen h.Holds v w → ¬ TransGen h.Holds w w

lemma Acyclic.of_holds (hv : h.Acyclic v) (hw : h.Holds v w) : h.Acyclic w :=
  fun x hx => hv x (.head hw hx)

structure Plain (h : Heap) (v : Value) : Prop where
  functionFree : ∀ w, ReflTransGen h.Holds v w → w.kind ≠ .function
  acyclic : ∀ w, ReflTransGen h.Holds v w → ¬ TransGen h.Holds w w

inductive Unfolds (h : Heap) : Value → DataTree → Prop
  | scalar (v : Scalar) : Unfolds h (.scalar v) (.ofScalar v)
  | list (r : ListRef) (items : List DataTree) : (h.items r).length = items.length →
      (∀ p ∈ (h.items r).zip items, Unfolds h p.1 p.2) → Unfolds h (.list r) (.list items)
  | map (r : MapRef) (entries : List (String × DataTree)) :
      (h.entries r).map Prod.fst = entries.map Prod.fst →
      (∀ p ∈ ((h.entries r).map Prod.snd).zip (entries.map Prod.snd), Unfolds h p.1 p.2) →
      Unfolds h (.map r) (.map entries)

lemma Unfolds.kind (hu : h.Unfolds v t) : t.kind = v.kind := by
  cases hu with
  | scalar v => cases v <;> rfl
  | list | map => rfl

lemma Unfolds.contents (hu : h.Unfolds v t) (hc : v.container? = some c) :
    List.Forall₂ h.Unfolds (h.contents c) t.children := by
  cases hu with
  | scalar v => cases hc
  | list r items hlen hall =>
    obtain rfl := Option.some.inj hc
    exact List.forall₂_iff_zip.mpr ⟨hlen, fun hp => hall _ hp⟩
  | map r entries hkeys hall =>
    obtain rfl := Option.some.inj hc
    have hlen : (h.entries r).length = entries.length := by simpa using congrArg List.length hkeys
    refine List.forall₂_iff_zip.mpr ⟨?_, fun hp => hall _ hp⟩
    simpa [Heap.contents, Entries.values] using hlen

lemma exists_unfolds_of_contents (hc : v.container? = some c)
    (hall : ∀ w ∈ h.contents c, ∃ t, h.Unfolds w t) : ∃ t, h.Unfolds v t := by
  have hchoose (vs : List Value) (hvs : ∀ w ∈ vs, ∃ t, h.Unfolds w t) :
      ∃ ts, List.Forall₂ h.Unfolds vs ts := by
    induction vs with
    | nil => exact ⟨[], .nil⟩
    | cons w vs ih =>
      rw [List.forall_mem_cons] at hvs
      obtain ⟨t, ht⟩ := hvs.1
      obtain ⟨ts, hts⟩ := ih hvs.2
      exact ⟨t :: ts, .cons ht hts⟩
  obtain ⟨ts, hts⟩ := hchoose _ hall
  rw [List.forall₂_iff_zip] at hts
  cases v with
  | scalar | function => cases hc
  | list r =>
    obtain rfl := Option.some.inj hc
    exact ⟨.list ts, .list r ts hts.1 fun p hp => hts.2 hp⟩
  | map r =>
    obtain rfl := Option.some.inj hc
    have hlen : ((h.entries r).map Prod.fst).length = ts.length := by
      simpa [Heap.contents, Entries.values] using hts.1
    refine ⟨.map (((h.entries r).map Prod.fst).zip ts), .map r _ ?_ ?_⟩
    · rw [List.map_fst_zip hlen.le]
    · rw [List.map_snd_zip hlen.ge]
      exact fun p hp => hts.2 hp

lemma forall₂_unique {vs : List Value} {ts us : List DataTree}
    (hunique : ∀ t ∈ ts, ∀ v u, h.Unfolds v t → h.Unfolds v u → t = u)
    (hts : List.Forall₂ h.Unfolds vs ts) (hus : List.Forall₂ h.Unfolds vs us) : ts = us := by
  induction hts generalizing us with
  | nil => cases hus; rfl
  | cons ht _ ih =>
    rw [List.forall_mem_cons] at hunique
    cases hus with
    | cons hu hus => rw [hunique.1 _ _ ht hu, ih hunique.2 hus]

lemma Unfolds.unique (ht : h.Unfolds v t) (hu : h.Unfolds v u) : t = u := by
  induction t using DataTree.children_induction generalizing v u with
  | step t ih =>
    have hchildren (c : Container) (hc : v.container? = some c) : t.children = u.children :=
      forall₂_unique (fun s hs w s' => ih s hs) (ht.contents hc) (hu.contents hc)
    cases ht with
    | scalar v => cases hu; rfl
    | list r items _ _ =>
      cases hu with
      | list _ items' _ _ => exact congrArg DataTree.list (hchildren _ rfl)
    | map r entries hkeys _ =>
      cases hu with
      | map _ entries' hkeys' _ =>
        have hvalues : entries.map Prod.snd = entries'.map Prod.snd := hchildren _ rfl
        have hnames : entries.map Prod.fst = entries'.map Prod.fst := hkeys.symm.trans hkeys'
        rw [← List.zip_unzip entries, ← List.zip_unzip entries', List.unzip_eq_map, List.unzip_eq_map,
          hvalues, hnames]

lemma exists_unfolds_of_mem {vs : List Value} {ts : List DataTree}
    (hall : List.Forall₂ h.Unfolds vs ts) (hw : w ∈ vs) : ∃ s ∈ ts, h.Unfolds w s := by
  induction hall with
  | nil => cases hw
  | @cons v t vs ts ht _ ih =>
    rcases List.mem_cons.mp hw with rfl | hw
    · exact ⟨t, List.mem_cons_self, ht⟩
    · obtain ⟨s, hs, hws⟩ := ih hw
      exact ⟨s, List.mem_cons_of_mem _ hs, hws⟩

lemma Unfolds.of_holds (hu : h.Unfolds v t) (hw : h.Holds v w) :
    ∃ s, h.Unfolds w s ∧ sizeOf s < sizeOf t := by
  obtain ⟨c, hc, hmem⟩ := hw
  obtain ⟨s, hs, hws⟩ := exists_unfolds_of_mem (hu.contents hc) hmem
  exact ⟨s, hws, DataTree.sizeOf_child hs⟩

lemma Unfolds.of_transGen (hu : h.Unfolds v t) (hw : TransGen h.Holds v w) :
    ∃ s, h.Unfolds w s ∧ sizeOf s < sizeOf t := by
  induction hw with
  | single hw => exact hu.of_holds hw
  | tail _ hw ih =>
    obtain ⟨s, hs, hlt⟩ := ih
    obtain ⟨s', hs', hlt'⟩ := hs.of_holds hw
    exact ⟨s', hs', hlt'.trans hlt⟩

lemma Unfolds.plain (hu : h.Unfolds v t) : h.Plain v := by
  have hbelow (w : Value) (hw : ReflTransGen h.Holds v w) : ∃ s, h.Unfolds w s := by
    rcases Relation.reflTransGen_iff_eq_or_transGen.mp hw with rfl | hw
    · exact ⟨t, hu⟩
    · obtain ⟨s, hs, -⟩ := hu.of_transGen hw
      exact ⟨s, hs⟩
  constructor
  · intro w hw hk
    obtain ⟨s, hs⟩ := hbelow w hw
    have hkind := hs.kind.trans hk
    cases s <;> cases hkind
  · intro w hw hcycle
    -- Trees get smaller on the way down, so none is met again.
    obtain ⟨s, hs⟩ := hbelow w hw
    obtain ⟨s', hs', hlt⟩ := hs.of_transGen hcycle
    rw [hs'.unique hs] at hlt
    exact hlt.false

lemma Plain.of_holds (hv : h.Plain v) (hw : h.Holds v w) : h.Plain w :=
  ⟨fun x hx => hv.functionFree x (.head hw hx), fun x hx => hv.acyclic x (.head hw hx)⟩

def containers (h : Heap) : Finset Container :=
  (Finset.range h.lists.size).image (fun i => .list ⟨i⟩) ∪
    (Finset.range h.maps.size).image fun i => .map ⟨i⟩

lemma card_containers_le (h : Heap) : h.containers.card ≤ h.size := by
  calc h.containers.card
      ≤ ((Finset.range h.lists.size).image fun i => Container.list ⟨i⟩).card +
        ((Finset.range h.maps.size).image fun i => Container.map ⟨i⟩).card := Finset.card_union_le _ _
    _ ≤ (Finset.range h.lists.size).card + (Finset.range h.maps.size).card :=
        Nat.add_le_add Finset.card_image_le Finset.card_image_le
    _ = h.size := by rw [Finset.card_range, Finset.card_range, size]

lemma mem_containers (hw : w ∈ h.contents c) : c ∈ h.containers := by
  rw [containers, Finset.mem_union, Finset.mem_image, Finset.mem_image]
  cases c with
  | list r =>
    refine .inl ⟨r.index, ?_, rfl⟩
    by_contra hr
    rw [Finset.mem_range, not_lt] at hr
    simp [contents, items, Array.getD, hr] at hw
  | map r =>
    refine .inr ⟨r.index, ?_, rfl⟩
    by_contra hr
    rw [Finset.mem_range, not_lt] at hr
    simp [contents, entries, Entries.values, Array.getD, hr] at hw

def unmet (h : Heap) (path : List Container) : Finset Container := h.containers \ path.toFinset

lemma card_unmet_le (h : Heap) (path : List Container) : (h.unmet path).card ≤ h.size :=
  (Finset.card_le_card Finset.sdiff_subset).trans h.card_containers_le

lemma card_unmet_lt (hc : c ∉ path) (hw : w ∈ h.contents c) :
    (h.unmet (c :: path)).card < (h.unmet path).card := by
  rw [unmet, unmet, List.toFinset_cons, Finset.sdiff_insert]
  apply Finset.card_erase_lt_of_mem
  rw [Finset.mem_sdiff, List.mem_toFinset]
  exact ⟨mem_containers hw, hc⟩

open Classical in
noncomputable def met (h : Heap) (v : Value) : Finset Container :=
  h.containers.filter fun c => ReflTransGen h.Holds v c.value

lemma mem_met : c ∈ h.met v ↔ c ∈ h.containers ∧ ReflTransGen h.Holds v c.value := by
  classical
  exact Finset.mem_filter

lemma card_met_le (h : Heap) (v : Value) : (h.met v).card ≤ h.size := by
  classical
  exact (Finset.card_filter_le _ _).trans h.card_containers_le

lemma value_of_container? (hc : v.container? = some c) : c.value = v := by
  cases v <;> cases hc <;> rfl

lemma card_met_lt (hcycle : ¬ TransGen h.Holds v v) (hw : h.Holds v w) :
    (h.met w).card < (h.met v).card := by
  apply Finset.card_lt_card
  rw [Finset.ssubset_iff_subset_ne]
  obtain ⟨c, hc, hmem⟩ := id hw
  constructor
  · intro x hx
    rw [mem_met] at hx ⊢
    exact ⟨hx.1, .head hw hx.2⟩
  · intro heq
    have hself : c ∈ h.met v := by
      rw [mem_met, value_of_container? hc]
      exact ⟨mem_containers hmem, .refl⟩
    rw [← heq, mem_met, value_of_container? hc] at hself
    exact hcycle (.head' hw hself.2)

lemma Plain.exists_unfolds (hv : h.Plain v) : ∃ t, h.Unfolds v t := by
  -- Induction on the number of containers that can still be met.
  induction hn : (h.met v).card using Nat.strong_induction_on generalizing v with
  | _ n ih =>
    cases hc : v.container? with
    | none =>
      cases v with
      | scalar v => exact ⟨_, .scalar v⟩
      | function => exact absurd rfl (hv.functionFree _ .refl)
      | list | map => cases hc
    | some c =>
      refine exists_unfolds_of_contents hc fun w hw => ?_
      have hholds : h.Holds v w := ⟨c, hc, hw⟩
      exact ih _ (hn ▸ card_met_lt (hv.acyclic v .refl) hholds) (hv.of_holds hholds) rfl

lemma plain_iff_existsUnique_unfolds : h.Plain v ↔ ∃! t, h.Unfolds v t := by
  constructor
  · intro hv
    obtain ⟨t, ht⟩ := hv.exists_unfolds
    exact ⟨t, ht, fun u hu => hu.unique ht⟩
  · rintro ⟨t, ht, -⟩
    exact ht.plain

end Heap

end DiceLang

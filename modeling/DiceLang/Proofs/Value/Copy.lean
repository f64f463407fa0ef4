import DiceLang.Proofs.Value.Nesting
import DiceLang.Proofs.Value.Untouched
import Mathlib.Data.List.Forall2

/-! Copies of values on a heap that grows. A copy is made of new containers only. -/

namespace DiceLang.Heap

open Relation (ReflTransGen)

variable {h h' h'' : Heap} {v w : Value} {t : DataTree} {c d : Container}

def Lies (h : Heap) (v : Value) (c : Container) : Prop := ReflTransGen h.Holds v c.value

lemma container?_value (c : Container) : c.value.container? = some c := by
  cases c <;> rfl

lemma lies_self (hc : v.container? = some c) : h.Lies v c := by
  rw [Lies, value_of_container? hc]

lemma Lies.of_holds (hw : h.Holds v w) (hc : h.Lies w c) : h.Lies v c := .head hw hc

lemma Lies.cases (hd : h.Lies v d) : v.container? = some d ∨ ∃ w, h.Holds v w ∧ h.Lies w d := by
  obtain rfl | ⟨w, hw, hd⟩ := ReflTransGen.cases_head hd
  · exact .inl (container?_value d)
  · exact .inr ⟨w, hw, hd⟩

lemma not_lies_scalar (s : Scalar) : ¬ h.Lies (.scalar s) c := by
  intro hc
  obtain hc | ⟨w, ⟨d, hd, -⟩, -⟩ := hc.cases
  · cases hc
  · cases hd

lemma untouched_iff : h.Untouched h' v ↔ ∀ c, h.Lies v c → h.HoldsSame h' c := by
  constructor
  · intro hu c hc
    exact hu c.value c hc (container?_value c)
  · intro hall w c hw hc
    exact hall c (by rwa [Lies, value_of_container? hc])

lemma Untouched.unfolds (hu : h.Untouched h' v) (ht : h.Unfolds v t) : h'.Unfolds v t := by
  induction ht with
  | scalar s => exact .scalar s
  | list r items hlen _ ih =>
    have hr : h'.items r = h.items r := hu.holdsSame (c := .list r) rfl
    refine .list r items (by rw [hr, hlen]) fun p hp => ?_
    rw [hr] at hp
    exact ih p hp (hu.of_holds ⟨.list r, rfl, (List.of_mem_zip hp).1⟩)
  | map r entries hkeys _ ih =>
    have hr : h'.entries r = h.entries r := hu.holdsSame (c := .map r) rfl
    refine .map r entries (by rw [hr, hkeys]) fun p hp => ?_
    rw [hr] at hp
    exact ih p hp (hu.of_holds ⟨.map r, rfl, (List.of_mem_zip hp).1⟩)

lemma Untouched.lies (hu : h.Untouched h' v) (hc : h'.Lies v c) : h.Lies v c := by
  induction hc using ReflTransGen.head_induction_on with
  | refl => exact lies_self (container?_value c)
  | @head v w hw _ ih =>
    obtain ⟨d, hd, hmem⟩ := hw
    rw [(hu.holdsSame hd).contents] at hmem
    have hw : h.Holds v w := ⟨d, hd, hmem⟩
    exact .of_holds hw (ih (hu.of_holds hw))

structure Extends (h h' : Heap) : Prop where
  grows : h.containers ⊆ h'.containers
  same : ∀ c ∈ h.containers, h.HoldsSame h' c

lemma Extends.refl (h : Heap) : h.Extends h := by
  refine ⟨subset_rfl, ?_⟩
  rintro (r | r) _ <;> rfl

lemma HoldsSame.trans (hc : h.HoldsSame h' c) (hc' : h'.HoldsSame h'' c) : h.HoldsSame h'' c := by
  cases c with
  | list r => exact Eq.trans hc' hc
  | map r => exact Eq.trans hc' hc

lemma Extends.trans (he : h.Extends h') (he' : h'.Extends h'') : h.Extends h'' :=
  ⟨he.grows.trans he'.grows, fun c hc => (he.same c hc).trans (he'.same c (he.grows hc))⟩

lemma list_mem_containers {r : ListRef} : .list r ∈ h.containers ↔ r.index < h.lists.size := by
  simp only [containers, Finset.mem_union, Finset.mem_image, Finset.mem_range]
  constructor
  · rintro (⟨i, hi, ⟨⟩⟩ | ⟨i, hi, ⟨⟩⟩)
    exact hi
  · intro hr
    exact .inl ⟨r.index, hr, rfl⟩

lemma map_mem_containers {r : MapRef} : .map r ∈ h.containers ↔ r.index < h.maps.size := by
  simp only [containers, Finset.mem_union, Finset.mem_image, Finset.mem_range]
  constructor
  · rintro (⟨i, hi, ⟨⟩⟩ | ⟨i, hi, ⟨⟩⟩)
    exact hi
  · intro hr
    exact .inr ⟨r.index, hr, rfl⟩

lemma items_newList (h : Heap) (items : List Value) :
    (h.newList items).2.items (h.newList items).1 = items := by
  simp [newList, Heap.items]

lemma entries_newMap (h : Heap) (entries : List (String × Value)) :
    (h.newMap entries).2.entries (h.newMap entries).1 = entries := by
  simp [newMap, Heap.entries]

lemma extends_newList (h : Heap) (items : List Value) : h.Extends (h.newList items).2 := by
  refine ⟨?_, ?_⟩
  · rintro (r | r) hr
    · rw [list_mem_containers] at hr ⊢
      rw [newList, Array.size_push]
      exact hr.trans (Nat.lt_succ_self _)
    · rw [map_mem_containers] at hr ⊢
      exact hr
  · rintro (r | r) hr
    · rw [list_mem_containers] at hr
      simp only [HoldsSame, Heap.items, newList, Array.getD_eq_getD_getElem?, Array.getElem?_push,
        if_neg hr.ne]
    · rfl

lemma extends_newMap (h : Heap) (entries : List (String × Value)) :
    h.Extends (h.newMap entries).2 := by
  refine ⟨?_, ?_⟩
  · rintro (r | r) hr
    · rw [list_mem_containers] at hr ⊢
      exact hr
    · rw [map_mem_containers] at hr ⊢
      rw [newMap, Array.size_push]
      exact hr.trans (Nat.lt_succ_self _)
  · rintro (r | r) hr
    · rfl
    · rw [map_mem_containers] at hr
      simp only [HoldsSame, Heap.entries, newMap, Array.getD_eq_getD_getElem?, Array.getElem?_push,
        if_neg hr.ne]

lemma list_newList_mem (h : Heap) (items : List Value) :
    .list (h.newList items).1 ∈ (h.newList items).2.containers ∧
      .list (h.newList items).1 ∉ h.containers := by
  rw [list_mem_containers, list_mem_containers, newList, Array.size_push]
  exact ⟨Nat.lt_succ_self _, Nat.lt_irrefl _⟩

lemma map_newMap_mem (h : Heap) (entries : List (String × Value)) :
    .map (h.newMap entries).1 ∈ (h.newMap entries).2.containers ∧
      .map (h.newMap entries).1 ∉ h.containers := by
  rw [map_mem_containers, map_mem_containers, newMap, Array.size_push]
  exact ⟨Nat.lt_succ_self _, Nat.lt_irrefl _⟩

structure Sound (h : Heap) (v : Value) : Prop where
  stored : ∀ c, h.Lies v c → c ∈ h.containers
  keys : ∀ r, h.Lies v (.map r) → ((h.entries r).map Prod.fst).Nodup

lemma Sound.of_holds (hs : h.Sound v) (hw : h.Holds v w) : h.Sound w :=
  ⟨fun c hc => hs.stored c (hc.of_holds hw), fun r hr => hs.keys r (hr.of_holds hw)⟩

lemma sound_scalar (h : Heap) (s : Scalar) : h.Sound (.scalar s) :=
  ⟨fun _ hc => absurd hc (not_lies_scalar s), fun _ hr => absurd hr (not_lies_scalar s)⟩

lemma Sound.untouched (hs : h.Sound v) (he : h.Extends h') : h.Untouched h' v :=
  untouched_iff.mpr fun c hc => he.same c (hs.stored c hc)

lemma Sound.extend (hs : h.Sound v) (he : h.Extends h') : h'.Sound v := by
  have hu := hs.untouched he
  refine ⟨fun c hc => he.grows (hs.stored c (hu.lies hc)), fun r hr => ?_⟩
  have hsame : h'.entries r = h.entries r := he.same _ (hs.stored _ (hu.lies hr))
  rw [hsame]
  exact hs.keys r (hu.lies hr)

lemma sound_of_contents (hc : v.container? = some c) (hmem : c ∈ h.containers)
    (hkeys : ∀ r, c = .map r → ((h.entries r).map Prod.fst).Nodup)
    (hall : ∀ w ∈ h.contents c, h.Sound w) : h.Sound v := by
  have hheld {w : Value} (hw : h.Holds v w) : h.Sound w := by
    obtain ⟨d, hd, hw⟩ := hw
    obtain rfl := Option.some.inj (hc.symm.trans hd)
    exact hall w hw
  constructor
  · intro d hd
    obtain hd | ⟨w, hw, hd⟩ := hd.cases
    · obtain rfl := Option.some.inj (hc.symm.trans hd)
      exact hmem
    · exact (hheld hw).stored d hd
  · intro r hr
    obtain hr | ⟨w, hw, hr⟩ := hr.cases
    · exact hkeys r (Option.some.inj (hc.symm.trans hr))
    · exact (hheld hw).keys r hr

structure Copied (h h' : Heap) (w : Value) (t : DataTree) : Prop where
  unfolds : h'.Unfolds w t
  sound : h'.Sound w
  fresh : ∀ c, h'.Lies w c → c ∉ h.containers

lemma copied_scalar (h h' : Heap) (s : Scalar) : Copied h h' (.scalar s) (.ofScalar s) :=
  ⟨.scalar s, sound_scalar h' s, fun _ hc => absurd hc (not_lies_scalar s)⟩

lemma Copied.extend (hw : Copied h h' w t) (he : h'.Extends h'') : Copied h h'' w t :=
  have hu := hw.sound.untouched he
  ⟨hu.unfolds hw.unfolds, hw.sound.extend he, fun c hc => hw.fresh c (hu.lies hc)⟩

lemma Copied.since (hw : Copied h' h'' w t) (he : h.Extends h') : Copied h h'' w t :=
  ⟨hw.unfolds, hw.sound, fun c hc hold => hw.fresh c hc (he.grows hold)⟩

lemma fresh_of_contents (hc : v.container? = some c) (hnew : c ∉ h.containers)
    (hall : ∀ w ∈ h'.contents c, ∀ d, h'.Lies w d → d ∉ h.containers) :
    ∀ d, h'.Lies v d → d ∉ h.containers := by
  intro d hd
  obtain hd | ⟨w, ⟨e, he, hw⟩, hd⟩ := hd.cases
  · obtain rfl := Option.some.inj (hc.symm.trans hd)
    exact hnew
  · obtain rfl := Option.some.inj (hc.symm.trans he)
    exact hall w hw d hd

lemma copied_newList {ws : List Value} {ts : List DataTree} (he : h.Extends h')
    (hws : List.Forall₂ (Copied h h') ws ts) :
    Copied h (h'.newList ws).2 (.list (h'.newList ws).1) (.list ts) := by
  have hnow := hws.imp fun _ _ hw => hw.extend (h'.extends_newList ws)
  have hitems : (h'.newList ws).2.contents (.list (h'.newList ws).1) = ws := items_newList h' ws
  obtain ⟨hmem, hnew⟩ := list_newList_mem h' ws
  refine ⟨.list _ ts ?_ ?_, sound_of_contents rfl hmem nofun ?_,
    fresh_of_contents rfl (fun hold => hnew (he.grows hold)) ?_⟩
  · rw [items_newList, hws.length_eq]
  · rw [items_newList]
    exact fun p hp => ((List.forall₂_iff_zip.mp hnow).2 hp).unfolds
  · rw [hitems]
    exact ((List.forall₂_and_left _ _).mp (hnow.imp fun _ _ hw => ⟨hw.sound, hw⟩)).1
  · rw [hitems]
    exact ((List.forall₂_and_left _ _).mp (hnow.imp fun _ _ hw => ⟨hw.fresh, hw⟩)).1

lemma copied_newMap {ws : List (String × Value)} {ts : List (String × DataTree)} (he : h.Extends h')
    (hkeys : ws.map Prod.fst = ts.map Prod.fst) (hdistinct : (ws.map Prod.fst).Nodup)
    (hws : List.Forall₂ (Copied h h') (ws.map Prod.snd) (ts.map Prod.snd)) :
    Copied h (h'.newMap ws).2 (.map (h'.newMap ws).1) (.map ts) := by
  have hnow := hws.imp fun _ _ hw => hw.extend (h'.extends_newMap ws)
  have hentries : (h'.newMap ws).2.contents (.map (h'.newMap ws).1) = ws.map Prod.snd :=
    congrArg Entries.values (entries_newMap h' ws)
  obtain ⟨hmem, hnew⟩ := map_newMap_mem h' ws
  refine ⟨.map _ ts ?_ ?_, sound_of_contents rfl hmem ?_ ?_,
    fresh_of_contents rfl (fun hold => hnew (he.grows hold)) ?_⟩
  · rw [entries_newMap, hkeys]
  · rw [entries_newMap]
    exact fun p hp => ((List.forall₂_iff_zip.mp hnow).2 hp).unfolds
  · rintro r ⟨⟩
    rw [entries_newMap]
    exact hdistinct
  · rw [hentries]
    exact ((List.forall₂_and_left _ _).mp (hnow.imp fun _ _ hw => ⟨hw.sound, hw⟩)).1
  · rw [hentries]
    exact ((List.forall₂_and_left _ _).mp (hnow.imp fun _ _ hw => ⟨hw.fresh, hw⟩)).1

structure CopyOf (h : Heap) (v : Value) (h' : Heap) (w : Value) : Prop where
  equal : ∃ t, h.Unfolds v t ∧ h'.Unfolds w t
  fresh : ∀ c, h'.Lies w c → c ∈ h'.containers ∧ c ∉ h.containers
  unchanged : ∀ c ∈ h.containers, c ∈ h'.containers ∧ h.HoldsSame h' c
  sound : h'.Sound w
  /-- Changes to the containers of the copy are none to the original. -/
  original : ∀ h'' t, (∀ c, ¬ h'.Lies w c → h'.HoldsSame h'' c) → h.Unfolds v t → h''.Unfolds v t
  /-- Changes to the containers of the original are none to the copy. -/
  copy : ∀ h'' t, (∀ c, ¬ h'.Lies v c → h'.HoldsSame h'' c) → h.Unfolds v t → h''.Unfolds w t

lemma Copied.copyOf (hw : Copied h h' w t) (ht : h.Unfolds v t) (hs : h.Sound v)
    (he : h.Extends h') : CopyOf h v h' w where
  equal := ⟨t, ht, hw.unfolds⟩
  fresh c hc := ⟨hw.sound.stored c hc, hw.fresh c hc⟩
  unchanged c hc := ⟨he.grows hc, he.same c hc⟩
  sound := hw.sound
  original h'' u hsame hu := by
    have huntouched : h.Untouched h'' v := untouched_iff.mpr fun c hc =>
      (he.same c (hs.stored c hc)).trans (hsame c fun hlies => hw.fresh c hlies (hs.stored c hc))
    exact huntouched.unfolds hu
  copy h'' u hsame hu := by
    obtain rfl := hu.unique ht
    have huntouched : h'.Untouched h'' w := untouched_iff.mpr fun c hc =>
      hsame c fun hlies => hw.fresh c hc (hs.stored c ((hs.untouched he).lies hlies))
    exact huntouched.unfolds hw.unfolds

end DiceLang.Heap

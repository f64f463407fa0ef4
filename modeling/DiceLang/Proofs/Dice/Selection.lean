import DiceLang.Dice
import DiceLang.Proofs.Value.Sorting

/-! Selection of elements from a list. Several elements are picked at positions that one stable order of the
list decides; a single element is found without sorting. -/

namespace DiceLang

namespace Dice

open Heap

variable {h : Heap} {items : List Value} {selector : Selector} {n : Nat} {count : Int64}

def byPlace (x y : Value × Nat) : Bool := x.2 ≤ y.2

def chosen (h : Heap) (selector : Selector) (n : Nat) (items : List Value) : List (Value × Nat) :=
  match selector with
  | .first => items.zipIdx.take n
  | .last => items.zipIdx.drop (items.length - n)
  | .highest => (ranked h items).drop (items.length - n)
  | .lowest => (ranked h items).take n

def omitted (h : Heap) (selector : Selector) (n : Nat) (items : List Value) : List (Value × Nat) :=
  match selector with
  | .first => items.zipIdx.drop n
  | .last => items.zipIdx.take (items.length - n)
  | .highest => (ranked h items).take (items.length - n)
  | .lowest => (ranked h items).drop n

def picks (h : Heap) (selector : Selector) (count : Int64) (items : List Value) :
    List (Value × Nat) :=
  (chosen h selector count.toInt.toNat items).mergeSort byPlace

def places (h : Heap) (selector : Selector) (count : Int64) (items : List Value) : List Nat :=
  (picks h selector count items).map Prod.snd

lemma ranked_perm (h : Heap) (items : List Value) : (ranked h items).Perm items.zipIdx :=
  List.mergeSort_perm _ _

lemma length_ranked (h : Heap) (items : List Value) : (ranked h items).length = items.length := by
  rw [(ranked_perm h items).length_eq, List.length_zipIdx]

lemma chosen_append_omitted (h : Heap) (selector : Selector) (n : Nat) (items : List Value) :
    (chosen h selector n items ++ omitted h selector n items).Perm items.zipIdx := by
  cases selector with
  | first => rw [chosen, omitted, List.take_append_drop]
  | last =>
    refine List.perm_append_comm.trans ?_
    rw [chosen, omitted, List.take_append_drop]
  | highest =>
    refine List.perm_append_comm.trans ?_
    rw [chosen, omitted, List.take_append_drop]
    exact ranked_perm h items
  | lowest =>
    rw [chosen, omitted, List.take_append_drop]
    exact ranked_perm h items

lemma length_chosen (h : Heap) (selector : Selector) (n : Nat) (items : List Value) :
    (chosen h selector n items).length = min n items.length := by
  cases selector <;>
    simp only [chosen, List.length_take, List.length_drop, List.length_zipIdx, length_ranked] <;>
    omega

lemma pairwise_mergeSort_byPlace (xs : List (Value × Nat)) :
    (xs.mergeSort byPlace).Pairwise fun x y => x.2 ≤ y.2 := by
  have hsorted : (xs.mergeSort byPlace).Pairwise fun x y => byPlace x y = true := by
    apply List.pairwise_mergeSort
    · intro x y z hxy hyz
      simp only [byPlace, decide_eq_true_eq] at hxy hyz ⊢
      exact hxy.trans hyz
    · intro x y
      simpa [byPlace] using Nat.le_total x.2 y.2
  exact hsorted.imp fun hxy => of_decide_eq_true hxy

lemma pairwise_zipIdx (items : List Value) : items.zipIdx.Pairwise fun x y => x.2 < y.2 := by
  rw [← List.pairwise_map, List.zipIdx_map_snd]
  exact List.pairwise_lt_range'

lemma mergeSort_byPlace_sublist {xs ys : List (Value × Nat)} (hperm : (xs ++ ys).Perm items.zipIdx) :
    (xs.mergeSort byPlace).Sublist items.zipIdx := by
  have hsubperm : (xs.mergeSort byPlace).Subperm items.zipIdx :=
    (List.mergeSort_perm xs byPlace).subperm.trans
      ((List.sublist_append_left xs ys).subperm.trans hperm.subperm)
  have hdistinct : (xs.mergeSort byPlace).Pairwise fun x y => x.2 ≠ y.2 := by
    obtain ⟨zs, hzs, hsub⟩ := hsubperm
    exact hzs.pairwise ((pairwise_zipIdx_snd_ne (.refl _)).sublist hsub) fun hne => hne.symm
  have hanti : Std.Antisymm fun x y : Value × Nat => x.2 < y.2 :=
    ⟨fun x y hxy hyx => absurd hyx hxy.asymm⟩
  refine List.sublist_of_subperm_of_pairwise hsubperm ?_ (pairwise_zipIdx items)
  exact ((pairwise_mergeSort_byPlace xs).and hdistinct).imp fun hxy => lt_of_le_of_ne hxy.1 hxy.2

lemma picks_sublist (h : Heap) (selector : Selector) (count : Int64) (items : List Value) :
    (picks h selector count items).Sublist items.zipIdx :=
  mergeSort_byPlace_sublist (chosen_append_omitted h selector _ items)

lemma mem_picks {x : Value × Nat} :
    x ∈ picks h selector count items ↔ x ∈ chosen h selector count.toInt.toNat items :=
  List.mem_mergeSort

lemma length_picks (h : Heap) (selector : Selector) (count : Int64) (items : List Value) :
    (picks h selector count items).length = min count.toInt.toNat items.length := by
  rw [picks, List.length_mergeSort, length_chosen]

lemma picks_of_length_le (hn : items.length ≤ count.toInt.toNat) :
    picks h selector count items = items.zipIdx := by
  apply (picks_sublist h selector count items).eq_of_length
  rw [length_picks, List.length_zipIdx, min_eq_right hn]

lemma picks_of_sublist (hsub : (chosen h selector count.toInt.toNat items).Sublist items.zipIdx) :
    picks h selector count items = chosen h selector count.toInt.toNat items := by
  apply List.mergeSort_of_pairwise
  exact ((pairwise_zipIdx items).sublist hsub).imp fun hxy => decide_eq_true hxy.le

lemma picks_first : picks h .first count items = items.zipIdx.take count.toInt.toNat :=
  picks_of_sublist (List.take_sublist _ _)

lemma picks_last :
    picks h .last count items = items.zipIdx.drop (items.length - count.toInt.toNat) :=
  picks_of_sublist (List.drop_sublist _ _)

lemma bestOf_eq (h : Heap) (selector : Selector) (count : Int64) (items : List Value) :
    bestOf h selector count items = (picks h selector count items).map Prod.fst := by
  by_cases hn : items.length ≤ count.toInt.toNat
  · have hall : bestOf h selector count items = items := by
      cases selector <;> simp only [bestOf, if_pos hn]
    rw [hall, picks_of_length_le hn, List.zipIdx_map_fst]
  · cases selector with
    | first => simp only [bestOf, if_neg hn, picks_first, List.map_take, List.zipIdx_map_fst]
    | last => simp only [bestOf, if_neg hn, picks_last, List.map_drop, List.zipIdx_map_fst]
    | highest =>
      simp only [bestOf, if_neg hn]
      rfl
    | lowest =>
      simp only [bestOf, if_neg hn]
      rfl

lemma places_sublist (h : Heap) (selector : Selector) (count : Int64) (items : List Value) :
    (places h selector count items).Sublist (List.range items.length) := by
  have hsub := (picks_sublist h selector count items).map Prod.snd
  rwa [List.zipIdx_map_snd, ← List.range_eq_range'] at hsub

lemma mem_places {i : Nat} {v : Value} (hv : items[i]? = some v) :
    i ∈ places h selector count items ↔ (v, i) ∈ chosen h selector count.toInt.toNat items := by
  rw [places, List.mem_map, ← mem_picks]
  constructor
  · rintro ⟨⟨w, j⟩, hmem, rfl⟩
    have hw := List.mem_zipIdx_iff_getElem?.mp ((picks_sublist h selector count items).subset hmem)
    rw [hv] at hw
    obtain rfl := Option.some.inj hw
    exact hmem
  · exact fun hmem => ⟨(v, i), hmem, rfl⟩

lemma mem_omitted {i : Nat} {v : Value} (hv : items[i]? = some v)
    (hi : i ∉ places h selector count items) :
    (v, i) ∈ omitted h selector count.toInt.toNat items := by
  have hmem : (v, i) ∈ items.zipIdx := List.mem_zipIdx_iff_getElem?.mpr hv
  rw [← (chosen_append_omitted h selector count.toInt.toNat items).mem_iff, List.mem_append] at hmem
  exact hmem.resolve_left fun hchosen => hi ((mem_places hv).mpr hchosen)

lemma map_some_bestOf (h : Heap) (selector : Selector) (count : Int64) (items : List Value) :
    (bestOf h selector count items).map some = (places h selector count items).map (items[·]?) := by
  rw [bestOf_eq, places, List.map_map, List.map_map]
  apply List.map_congr_left
  intro x hx
  exact (List.mem_zipIdx_iff_getElem?.mp ((picks_sublist h selector count items).subset hx)).symm

lemma plain_of_getElem? (hp : ∀ v ∈ items, h.Plain v) {i : Nat} {v : Value}
    (hv : items[i]? = some v) : h.Plain v := hp v (List.mem_of_getElem? hv)

lemma pairwise_ranked (hp : ∀ v ∈ items, h.Plain v) : (ranked h items).Pairwise (h.Precedes .lt) :=
  pairwise_mergeSort_zipIdx hp

lemma precedes_of_split (hp : ∀ v ∈ items, h.Plain v) {x y : Value × Nat}
    (hx : x ∈ (ranked h items).take n) (hy : y ∈ (ranked h items).drop n) :
    h.Precedes .lt x y := by
  have hsplit := pairwise_ranked hp
  rw [← List.take_append_drop n (ranked h items), List.pairwise_append] at hsplit
  exact hsplit.2.2 x hx y hy

structure Selected (h : Heap) (selector : Selector) (count : Int64) (items picked : List Value)
    (positions : List Nat) : Prop where
  elements : picked.map some = positions.map (items[·]?)
  subsequence : positions.Sublist (List.range items.length)
  number : (positions.length : Int) = min (max count.toInt 0) items.length
  initial : selector = .first → positions = List.range positions.length
  final : selector = .last →
    positions = List.range' (items.length - positions.length) positions.length
  extreme : ∀ i ∈ positions, ∀ j ∉ positions, ∀ v w, items[i]? = some v → items[j]? = some w →
    (selector = .highest → (h.order v w).isGE) ∧ (selector = .lowest → (h.order v w).isLE)

lemma length_places (h : Heap) (selector : Selector) (count : Int64) (items : List Value) :
    ((places h selector count items).length : Int) = min (max count.toInt 0) items.length := by
  rw [places, List.length_map, length_picks]
  omega

lemma selected_bestOf (hp : ∀ v ∈ items, h.Plain v) (selector : Selector) (count : Int64) :
    Selected h selector count items (bestOf h selector count items)
      (places h selector count items) where
  elements := map_some_bestOf h selector count items
  subsequence := places_sublist h selector count items
  number := length_places h selector count items
  initial := by
    rintro rfl
    rw [places, picks_first, List.map_take, List.zipIdx_map_snd, ← List.range_eq_range',
      List.length_take, List.length_range, List.take_range]
  final := by
    rintro rfl
    have hlength := length_places h .last count items
    rw [places, picks_last, List.map_drop, List.zipIdx_map_snd, List.drop_range'] at hlength ⊢
    rw [List.length_range'] at hlength ⊢
    congr 1
    omega
  extreme := by
    intro i hi j hj v w hv hw
    have hin := (mem_places hv).mp hi
    have hout := mem_omitted hw hj
    constructor
    · rintro rfl
      have hle := (precedes_of_split hp hout hin).isLE
      rw [(plain_of_getElem? hp hw).order_swap (plain_of_getElem? hp hv)]
      simpa using hle
    · rintro rfl
      exact (precedes_of_split hp hin hout).isLE

lemma disjoint_chosen_omitted (h : Heap) (selector : Selector) (n : Nat) (items : List Value) :
    (chosen h selector n items).Disjoint (omitted h selector n items) := by
  have hnodup : items.zipIdx.Nodup := (pairwise_zipIdx items).imp fun {x y} hxy heq =>
    absurd (congrArg Prod.snd heq) hxy.ne
  rw [← (chosen_append_omitted h selector n items).nodup_iff] at hnodup
  exact List.disjoint_of_nodup_append hnodup

lemma omitted_highest {n m : Int64} (hn : 0 ≤ n.toInt) (hm : 0 ≤ m.toInt)
    (hlen : n.toInt + m.toInt = items.length) :
    omitted h .highest n.toInt.toNat items = chosen h .lowest m.toInt.toNat items := by
  rw [omitted, chosen, show items.length - n.toInt.toNat = m.toInt.toNat by omega]

/-- Several elements are picked from a list as its selector and count say, in the order of the list, and what
the highest `n` leave out is just what the lowest of the others are. -/
theorem several_selected (hp : ∀ v ∈ items, h.Plain v) :
    (∀ selector count, Selected h selector count items (bestOf h selector count items)
      (places h selector count items)) ∧
    ∀ n m : Int64, 0 ≤ n.toInt → 0 ≤ m.toInt → n.toInt + m.toInt = items.length →
      (places h .highest n items).Disjoint (places h .lowest m items) ∧
      ∀ i < items.length, i ∈ places h .highest n items ∨ i ∈ places h .lowest m items := by
  refine ⟨selected_bestOf hp, fun n m hn hm hlen => ⟨fun i hhigh hlow => ?_, fun i hi => ?_⟩⟩
  · have hi : i < items.length :=
      List.mem_range.mp ((places_sublist h .highest n items).subset hhigh)
    have hv := List.getElem?_eq_getElem hi
    rw [mem_places hv] at hhigh hlow
    rw [← omitted_highest hn hm hlen] at hlow
    exact disjoint_chosen_omitted h .highest _ items hhigh hlow
  · have hv := List.getElem?_eq_getElem hi
    rw [or_iff_not_imp_left]
    intro hout
    rw [mem_places hv, ← omitted_highest hn hm hlen]
    exact mem_omitted hv hout

def tied : List Value := [.map ⟨0⟩, .number 3, .map ⟨1⟩, .list ⟨2⟩]

lemma plain_tied : ∀ v ∈ tied, sharing.Plain v := by
  obtain ⟨hfirst, hsecond, hlist⟩ := unfolds_sharing
  have hnumber : sharing.Unfolds (.number 3) (.number 3) := .scalar (.number 3)
  simp only [tied, List.forall_mem_cons]
  exact ⟨hfirst.plain, hnumber.plain, hsecond.plain, hlist.plain, List.forall_mem_nil _⟩

theorem equal_maps_shared_out :
    (∀ v ∈ tied, sharing.Plain v) ∧ places sharing .highest 1 tied = [2] ∧
      places sharing .lowest 3 tied = [0, 1, 3] ∧
      Selected sharing .highest 1 tied (bestOf sharing .highest 1 tied)
        (places sharing .highest 1 tied) ∧
      (places sharing .highest 1 tied).Disjoint (places sharing .lowest 3 tied) := by
  obtain ⟨hselected, hshared⟩ := several_selected plain_tied
  exact ⟨plain_tied, by cbv, by cbv, hselected .highest 1,
    (hshared 1 3 (by decide) (by decide) (by decide)).1⟩

def betterPick (h : Heap) (wanted : Ordering) (best x : Value × Nat) : Value × Nat :=
  if h.order x.1 best.1 = wanted then x else best

def pick (h : Heap) (selector : Selector) (items : List Value) : Option (Value × Nat) :=
  match items.zipIdx with
  | [] => none
  | x :: xs => some <|
    match selector with
    | .first => x
    | .last => xs.getLastD x
    | .highest => xs.foldl (betterPick h .gt) x
    | .lowest => xs.foldl (betterPick h .lt) x

lemma fst_foldl_betterPick (h : Heap) (wanted : Ordering) (xs : List (Value × Nat))
    (x : Value × Nat) :
    (xs.foldl (betterPick h wanted) x).1 = (xs.map Prod.fst).foldl (better h wanted) x.1 := by
  induction xs generalizing x with
  | nil => rfl
  | cons y ys ih =>
    have hstep : (betterPick h wanted x y).1 = better h wanted x.1 y.1 := by
      rw [betterPick, better]
      split <;> rfl
    rw [List.foldl_cons, ih, hstep, List.map_cons, List.foldl_cons]

lemma best_eq_of_pick {x : Value × Nat} (hx : pick h selector items = some x) :
    best h selector items = x.1 := by
  cases items with
  | nil => cases hx
  | cons v vs =>
    have hrest : (vs.zipIdx 1).map Prod.fst = vs := List.zipIdx_map_fst 1 vs
    rw [pick, List.zipIdx_cons, Option.some.injEq] at hx
    subst hx
    cases selector with
    | first => rfl
    | last =>
      simp only [best]
      nth_rewrite 1 [← hrest]
      rw [List.getLastD_eq_getLast?, List.getLastD_eq_getLast?, List.getLast?_map]
      exact Option.getD_map Prod.fst (v, 0) _
    | highest =>
      rw [fst_foldl_betterPick, hrest]
      rfl
    | lowest =>
      rw [fst_foldl_betterPick, hrest]
      rfl

lemma betterPick_cases {wanted : Ordering} (hw : wanted ≠ .eq) {x y : Value × Nat}
    (hx : h.Plain x.1) (hy : h.Plain y.1) (hplaces : x.2 < y.2) :
    (betterPick h wanted x y = y ∧ h.Precedes wanted y x) ∨
      (betterPick h wanted x y = x ∧ h.Precedes wanted x y) := by
  rw [betterPick]
  by_cases hbetter : h.order y.1 x.1 = wanted
  · exact .inl ⟨if_pos hbetter, .inl hbetter⟩
  · refine .inr ⟨if_neg hbetter, ?_⟩
    rw [Precedes, hy.order_swap hx]
    cases wanted <;> cases hc : h.order y.1 x.1 <;> simp_all

lemma foldl_betterPick {wanted : Ordering} (hw : wanted ≠ .eq) {xs : List (Value × Nat)}
    {x : Value × Nat} (hp : ∀ y ∈ x :: xs, h.Plain y.1)
    (hplaces : (x :: xs).Pairwise fun y z => y.2 < z.2) :
    xs.foldl (betterPick h wanted) x ∈ x :: xs ∧
      ∀ y ∈ x :: xs, y = xs.foldl (betterPick h wanted) x ∨
        h.Precedes wanted (xs.foldl (betterPick h wanted) x) y := by
  induction xs generalizing x with
  | nil => exact ⟨List.mem_cons_self, fun y hy => .inl (List.mem_singleton.mp hy)⟩
  | cons z zs ih =>
    rw [List.forall_mem_cons, List.forall_mem_cons] at hp
    obtain ⟨hx, hz, hzs⟩ := hp
    rw [List.pairwise_cons, List.forall_mem_cons] at hplaces
    obtain ⟨⟨hxz, hxzs⟩, hplaces⟩ := hplaces
    rw [List.foldl_cons]
    obtain ⟨hb, hbeats⟩ | ⟨hb, hbeats⟩ := betterPick_cases hw hx hz hxz <;> rw [hb]
    · have hplain : ∀ y ∈ z :: zs, h.Plain y.1 := List.forall_mem_cons.mpr ⟨hz, hzs⟩
      obtain ⟨hmem, hall⟩ := ih hplain hplaces
      refine ⟨List.mem_cons_of_mem x hmem, List.forall_mem_cons.mpr ⟨.inr ?_, hall⟩⟩
      exact .of_eq_or (hplain _ hmem) hz hx (hall z List.mem_cons_self) hbeats
    · have hplain : ∀ y ∈ x :: zs, h.Plain y.1 := List.forall_mem_cons.mpr ⟨hx, hzs⟩
      obtain ⟨hmem, hall⟩ := ih hplain
        (List.pairwise_cons.mpr ⟨hxzs, (List.pairwise_cons.mp hplaces).2⟩)
      obtain ⟨hallx, hallzs⟩ := List.forall_mem_cons.mp hall
      refine ⟨?_, ?_⟩
      · rw [List.mem_cons] at hmem
        rw [List.mem_cons, List.mem_cons]
        exact hmem.imp_right .inr
      · refine List.forall_mem_cons.mpr ⟨hallx, List.forall_mem_cons.mpr ⟨.inr ?_, hallzs⟩⟩
        exact .of_eq_or (hplain _ hmem) hx hz hallx hbeats

lemma plain_of_mem_zipIdx (hp : ∀ v ∈ items, h.Plain v) {x : Value × Nat} (hx : x ∈ items.zipIdx) :
    h.Plain x.1 := hp x.1 (List.fst_mem_of_mem_zipIdx hx)

lemma foldl_betterPick_zipIdx (hp : ∀ v ∈ items, h.Plain v) {wanted : Ordering} (hw : wanted ≠ .eq)
    {x : Value × Nat} {xs : List (Value × Nat)} (hitems : items.zipIdx = x :: xs) :
    xs.foldl (betterPick h wanted) x ∈ items.zipIdx ∧
      ∀ z ∈ items.zipIdx, z = xs.foldl (betterPick h wanted) x ∨
        h.Precedes wanted (xs.foldl (betterPick h wanted) x) z := by
  have hplain : ∀ z ∈ x :: xs, h.Plain z.1 := fun z hz => plain_of_mem_zipIdx hp (hitems ▸ hz)
  rw [hitems]
  exact foldl_betterPick hw hplain (hitems ▸ pairwise_zipIdx items)

lemma mem_of_picks_eq {y : Value × Nat} (hy : picks h selector count items = [y]) :
    y ∈ items.zipIdx := (picks_sublist h selector count items).subset (hy ▸ List.mem_singleton_self y)

lemma eq_or_mem_omitted {y z : Value × Nat} (hy : picks h selector count items = [y])
    (hz : z ∈ items.zipIdx) : z = y ∨ z ∈ omitted h selector count.toInt.toNat items := by
  rw [← (chosen_append_omitted h selector count.toInt.toNat items).mem_iff, List.mem_append,
    ← mem_picks, hy, List.mem_singleton] at hz
  exact hz

lemma mem_chosen_of_picks {y : Value × Nat} (hy : picks h selector count items = [y]) :
    y ∈ chosen h selector count.toInt.toNat items :=
  mem_picks.mp (hy ▸ List.mem_singleton_self y)

lemma exists_picks_one (h : Heap) (selector : Selector) (hne : items ≠ []) :
    ∃ y, picks h selector 1 items = [y] := by
  rw [← List.length_eq_one_iff, length_picks]
  exact min_eq_left (List.length_pos_of_ne_nil hne)

lemma eq_of_lowest (hp : ∀ v ∈ items, h.Plain v) {x y : Value × Nat} (hmem : x ∈ items.zipIdx)
    (hx : ∀ z ∈ items.zipIdx, z = x ∨ h.Precedes .lt x z)
    (hy : picks h .lowest count items = [y]) : x = y := by
  obtain hyx | hxy := hx y (mem_of_picks_eq hy)
  · exact hyx.symm
  obtain hxy' | hout := eq_or_mem_omitted hy hmem
  · exact hxy'
  have hyx := precedes_of_split hp (mem_chosen_of_picks hy) hout
  exact absurd hyx (hxy.asymm (plain_of_mem_zipIdx hp hmem)
    (plain_of_mem_zipIdx hp (mem_of_picks_eq hy)) nofun)

lemma ties_of_highest (hp : ∀ v ∈ items, h.Plain v) {x y z : Value × Nat} (hmem : x ∈ items.zipIdx)
    (hx : ∀ z ∈ items.zipIdx, z = x ∨ h.Precedes .gt x z)
    (hy : picks h .highest count items = [y]) (hz : z ∈ items.zipIdx) :
    h.order z.1 x.1 ≠ .gt ∧ (h.order z.1 x.1 = .eq → x.2 ≤ z.2 ∧ z.2 ≤ y.2) := by
  have hplain {u : Value × Nat} (hu : u ∈ items.zipIdx) : h.Plain u.1 := plain_of_mem_zipIdx hp hu
  have hymem := mem_of_picks_eq hy
  have hge {u : Value × Nat} (hu : u ∈ items.zipIdx) : h.order x.1 u.1 ≠ .lt := by
    obtain rfl | hxu | ⟨hxu, -⟩ := hx u hu
    · simp [(hplain hu).order_self]
    · simp [hxu]
    · simp [hxu]
  refine ⟨?_, fun htie => ⟨?_, ?_⟩⟩
  · rw [(hplain hmem).order_swap (hplain hz), Ne, Ordering.swap_eq_gt]
    exact hge hz
  · obtain rfl | hxz | ⟨-, hbefore⟩ := hx z hz
    · exact le_rfl
    · rw [(hplain hmem).order_swap (hplain hz), hxz] at htie
      cases htie
    · exact hbefore.le
  · obtain rfl | hout := eq_or_mem_omitted hy hz
    · exact le_rfl
    obtain hzy | ⟨-, hbefore⟩ := precedes_of_split hp hout (mem_chosen_of_picks hy)
    · rw [(hplain hz).order_congr (hplain hmem) (hplain hymem) htie] at hzy
      exact absurd hzy (hge hymem)
    · exact hbefore.le

lemma order_eq_of_highest (hp : ∀ v ∈ items, h.Plain v) {x y : Value × Nat}
    (hmem : x ∈ items.zipIdx) (hx : ∀ z ∈ items.zipIdx, z = x ∨ h.Precedes .gt x z)
    (hy : picks h .highest count items = [y]) : h.order y.1 x.1 = .eq := by
  have hplain := plain_of_mem_zipIdx hp hmem
  have hyplain := plain_of_mem_zipIdx hp (mem_of_picks_eq hy)
  have hle := (ties_of_highest hp hmem hx hy (mem_of_picks_eq hy)).1
  obtain rfl | hout := eq_or_mem_omitted hy hmem
  · exact hplain.order_self
  have hge := (precedes_of_split hp hout (mem_chosen_of_picks hy)).isLE
  rw [hplain.order_swap hyplain] at hle ⊢
  cases hc : h.order x.1 y.1 <;> simp_all

/-- For every selector but one, a single element is the same element by both ways, at the same position. The
highest element is too, if no other is equal to it; else the one is the first of the highest and the other
the last. -/
theorem single_selected (hp : ∀ v ∈ items, h.Plain v) (hne : items ≠ []) (selector : Selector) :
    ∃ x ∈ items.zipIdx, ∃ y ∈ items.zipIdx,
      pick h selector items = some x ∧ best h selector items = x.1 ∧
      picks h selector 1 items = [y] ∧ bestOf h selector 1 items = [y.1] ∧
      ((selector = .highest → ∀ z ∈ items.zipIdx, h.order z.1 x.1 = .eq → z = x) → x = y) ∧
      (selector = .highest → h.order y.1 x.1 = .eq ∧
        ∀ z ∈ items.zipIdx, h.order z.1 x.1 ≠ .gt ∧
          (h.order z.1 x.1 = .eq → x.2 ≤ z.2 ∧ z.2 ≤ y.2)) := by
  have hzip : items.zipIdx ≠ [] := by simpa using hne
  obtain ⟨first, rest, hitems⟩ := List.exists_cons_of_ne_nil hzip
  obtain ⟨y, hy⟩ := exists_picks_one h selector hne
  have hmemy := mem_of_picks_eq hy
  have hsorted : bestOf h selector 1 items = [y.1] := by rw [bestOf_eq, hy, List.map_singleton]
  cases selector with
  | first =>
    have hpick : pick h .first items = some first := by rw [pick, hitems]
    have hmem : first ∈ items.zipIdx := hitems ▸ List.mem_cons_self
    refine ⟨first, hmem, y, hmemy, hpick, best_eq_of_pick hpick, hy, hsorted, fun _ => ?_, nofun⟩
    rw [picks_first, hitems] at hy
    exact (List.cons.inj hy).1
  | last =>
    have hpick : pick h .last items = some (rest.getLastD first) := by rw [pick, hitems]
    have hlast : picks h .last 1 items = [rest.getLastD first] := by
      have hlength : items.length = (first :: rest).length := by rw [← hitems, List.length_zipIdx]
      rw [picks_last, hitems, hlength]
      exact (List.drop_length_sub_one (List.cons_ne_nil first rest)).trans
        (by rw [List.getLast_eq_getLastD])
    rw [hlast] at hy
    obtain rfl := (List.cons.inj hy).1
    exact ⟨_, hmemy, _, hmemy, hpick, best_eq_of_pick hpick, hlast, hsorted, fun _ => rfl, nofun⟩
  | highest =>
    have hpick : pick h .highest items = some (rest.foldl (betterPick h .gt) first) := by
      rw [pick, hitems]
    obtain ⟨hmem, hx⟩ := foldl_betterPick_zipIdx hp (by decide : Ordering.gt ≠ .eq) hitems
    have htie := order_eq_of_highest hp hmem hx hy
    refine ⟨_, hmem, y, hmemy, hpick, best_eq_of_pick hpick, hy, hsorted, fun huntied => ?_,
      fun _ => ⟨htie, fun z hz => ties_of_highest hp hmem hx hy hz⟩⟩
    exact (huntied rfl y hmemy htie).symm
  | lowest =>
    have hpick : pick h .lowest items = some (rest.foldl (betterPick h .lt) first) := by
      rw [pick, hitems]
    obtain ⟨hmem, hx⟩ := foldl_betterPick_zipIdx hp (by decide : Ordering.lt ≠ .eq) hitems
    exact ⟨_, hmem, y, hmemy, hpick, best_eq_of_pick hpick, hy, hsorted,
      fun _ => eq_of_lowest hp hmem hx hy, nofun⟩

theorem equal_maps_at_both_ends :
    (∀ v ∈ tied, sharing.Plain v) ∧ tied ≠ [] ∧
      pick sharing .highest tied = some (.map ⟨0⟩, 0) ∧
      picks sharing .highest 1 tied = [(.map ⟨1⟩, 2)] ∧
      sharing.order (.map ⟨1⟩) (.map ⟨0⟩) = .eq ∧
      bestOf sharing .lowest 1 tied = [best sharing .lowest tied] := by
  have hne : tied ≠ [] := List.cons_ne_nil _ _
  have hfirst : pick sharing .highest tied = some (.map ⟨0⟩, 0) := by cbv
  have hlast : picks sharing .highest 1 tied = [(.map ⟨1⟩, 2)] := by cbv
  obtain ⟨x, -, y, -, hx, -, hy, -, -, hties⟩ := single_selected plain_tied hne .highest
  obtain ⟨x', -, y', -, -, hbest, -, hbestOf, hsame, -⟩ := single_selected plain_tied hne .lowest
  obtain rfl := Option.some.inj (hfirst.symm.trans hx)
  obtain rfl := (List.cons.inj (hlast.symm.trans hy)).1
  refine ⟨plain_tied, hne, hfirst, hlast, (hties rfl).1, ?_⟩
  rw [hbestOf, hbest, hsame (by rintro ⟨⟩)]

theorem highest_of_equal_maps_differs :
    (∀ v ∈ tied, sharing.Plain v) ∧ tied ≠ [] ∧ best sharing .highest tied = .map ⟨0⟩ ∧
      bestOf sharing .highest 1 tied = [.map ⟨1⟩] ∧
      bestOf sharing .highest 1 tied ≠ [best sharing .highest tied] := by
  have hbest : best sharing .highest tied = .map ⟨0⟩ := by cbv
  have hbestOf : bestOf sharing .highest 1 tied = [.map ⟨1⟩] := by cbv
  refine ⟨plain_tied, List.cons_ne_nil _ _, hbest, hbestOf, ?_⟩
  rw [hbest, hbestOf]
  intro heq
  cases heq

end Dice

end DiceLang

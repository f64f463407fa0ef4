import DiceLang.Proofs.Distribution.Counting
import DiceLang.Proofs.Lists

/-! A distribution does not remember how it came about, but for which of several equal values was observed
first. -/

namespace DiceLang

namespace Heap

variable {h : Heap} {a b : Value}

noncomputable def key (h : Heap) (v : Value) : DataTree := (h.tree v).withoutKeys

lemma order_eq_order_key (ha : h.Plain a) (hb : h.Plain b) :
    h.order a b = (h.key a).order (h.key b) := by
  rw [order_eq_of_unfolds ha.unfolds_tree hb.unfolds_tree, key, key, DataTree.order_withoutKeys,
    DataTree.order_swap (h.tree b).withoutKeys, DataTree.order_withoutKeys, DataTree.order_swap]

lemma same_iff_key_eq (ha : h.Plain a) (hb : h.Plain b) : h.same a b = true ↔ h.key a = h.key b := by
  rw [same, beq_iff_eq, order_eq_of_unfolds ha.unfolds_tree hb.unfolds_tree, DataTree.order_eq_iff]
  rfl

end Heap

namespace Distribution

variable {h : Heap} {seen seen' : List Value} {c : Counter} {cs cs' : List Counter}
  {d d' : Distribution}

noncomputable def mark (h : Heap) (c : Counter) : DataTree × Nat := (h.key c.value, c.count)

open Classical in
lemma Tallies.mem_marks (ht : Tallies h seen cs) (hplain : ∀ v ∈ seen, h.Plain v) {k : DataTree} {n : Nat} :
    (k, n) ∈ cs.map (mark h) ↔ k ∈ seen.map h.key ∧ n = (seen.map h.key).countP (k = ·) := by
  have hcount (c : Counter) (hc : c ∈ cs) : c.count = (seen.map h.key).countP (h.key c.value = ·) := by
    rw [ht.count c hc, List.countP_map]
    apply List.countP_congr
    intro v hv
    rw [Function.comp_apply, decide_eq_true_eq]
    exact Heap.same_iff_key_eq (hplain _ (ht.stems c hc)) (hplain v hv)
  constructor
  · intro hmem
    obtain ⟨c, hc, heq⟩ := List.mem_map.mp hmem
    obtain ⟨rfl, rfl⟩ := Prod.mk.inj heq
    exact ⟨List.mem_map_of_mem (ht.stems c hc), hcount c hc⟩
  · rintro ⟨hk, rfl⟩
    obtain ⟨v, hv, rfl⟩ := List.mem_map.mp hk
    obtain ⟨c, hc, hsame⟩ := ht.covers v hv
    have hkey := (Heap.same_iff_key_eq (hplain _ (ht.stems c hc)) (hplain v hv)).mp hsame
    apply List.mem_map.mpr
    refine ⟨c, hc, ?_⟩
    rw [mark, hcount c hc, hkey]

lemma SumsUp.pairwise_marks (hs : SumsUp h d) (hplain : ∀ c ∈ d.counters, h.Plain c.value) :
    (d.counters.map (mark h)).Pairwise fun a b => a.1.order b.1 = .lt := by
  apply List.pairwise_map.mpr
  apply hs.increasing.imp_of_mem
  intro a b ha hb hab
  rwa [mark, mark, ← Heap.order_eq_order_key (hplain a ha) (hplain b hb)]

lemma Consistent.forall₂_same (hd : Consistent h seen d) (hd' : Consistent h seen' d')
    (hperm : seen.Perm seen') (hplain : ∀ v ∈ seen, h.Plain v) (hagg : d.aggregated = true)
    (hagg' : d'.aggregated = true) :
    List.Forall₂ (fun c c' => h.same c.value c'.value = true ∧ c.count = c'.count) d.counters
      d'.counters := by
  classical
  have hplain' : ∀ v ∈ seen', h.Plain v := fun v hv => hplain v (hperm.mem_iff.mpr hv)
  have hstems : ∀ c ∈ d.counters, h.Plain c.value := fun c hc => hplain _ (hd.tallies.stems c hc)
  have hstems' : ∀ c ∈ d'.counters, h.Plain c.value := fun c hc => hplain' _ (hd'.tallies.stems c hc)
  have hup := (hd.sumsUp hagg).pairwise_marks hstems
  have hup' := (hd'.sumsUp hagg').pairwise_marks hstems'
  have hnodup {ms : List (DataTree × Nat)} (hms : ms.Pairwise fun a b => a.1.order b.1 = .lt) :
      ms.Nodup := by
    apply hms.imp
    rintro a _ hlt rfl
    rw [DataTree.order_self] at hlt
    cases hlt
  have hmarks : d.counters.map (mark h) = d'.counters.map (mark h) := by
    refine List.Perm.eq_of_pairwise ?_ hup hup' ?_
    · intro a b _ _ hab hba
      rw [DataTree.order_swap, hab] at hba
      cases hba
    · apply (List.perm_ext_iff_of_nodup (hnodup hup) (hnodup hup')).mpr
      rintro ⟨k, n⟩
      have hkeys := hperm.map h.key
      rw [hd.tallies.mem_marks hplain, hd'.tallies.mem_marks hplain', hkeys.mem_iff, hkeys.countP_eq]
  apply forall₂_of_map_eq hmarks
  intro c hc c' hc' hmark
  obtain ⟨hkey, hcount⟩ := Prod.mk.inj hmark
  exact ⟨(Heap.same_iff_key_eq (hstems c hc) (hstems' c' hc')).mpr hkey, hcount⟩

def Firsts (h : Heap) (seen : List Value) (cs : List Counter) : Prop :=
  ∀ c ∈ cs, seen.find? (h.same c.value) = some c.value

lemma Firsts.perm (hf : Firsts h seen cs) (hperm : (cs'.map tally).Perm (cs.map tally)) :
    Firsts h seen cs' := by
  intro c' hc'
  obtain ⟨c, hc, heq⟩ := List.mem_map.mp (hperm.mem_iff.mp (List.mem_map_of_mem hc'))
  have hvalue : c.value = c'.value := congrArg Prod.fst heq
  rw [← hvalue]
  exact hf c hc

lemma Firsts.countIn (hf : Firsts h seen cs) (ht : Tallies h seen cs) (v : Value) :
    Firsts h (seen ++ [v]) (countIn h v cs) := by
  intro c' hc'
  rw [List.find?_append]
  rcases mem_countIn ht.distinct hc' with ⟨hc, -⟩ | ⟨c, hc, -, rfl⟩ | ⟨rfl, hnone⟩
  · rw [hf c' hc]
    rfl
  · rw [hf c hc]
    rfl
  · -- A value that none of the counters has was not seen before.
    have hnew : seen.find? (h.same v) = none := by
      rw [List.find?_eq_none]
      intro w hw hvw
      obtain ⟨c, hc, hcw⟩ := ht.covers w hw
      have hcv := Heap.same_congr hcw v
      rw [hnone c hc, h.same_comm, hvw] at hcv
      cases hcv
    show (seen.find? (h.same v)).or _ = some v
    rw [hnew, Option.none_or]
    simp [h.same_self, Counter.single]

structure Agrees (R : Value → Value → Prop) (c c' : Counter) : Prop where
  value : R c.value c'.value
  count : c.count = c'.count
  atMost : c.atMost = c'.atMost
  atLeast : c.atLeast = c'.atLeast
  counted : c.counted = c'.counted
  outOf : c.outOf = c'.outOf

lemma agrees_accumulate {R : Value → Value → Prop}
    (hcs : List.Forall₂ (fun c c' => R c.value c'.value ∧ c.count = c'.count) cs cs') (total n : Nat) :
    List.Forall₂ (Agrees R) (accumulate total n cs) (accumulate total n cs') := by
  induction hcs generalizing n with
  | nil => exact .nil
  | cons hc _ ih =>
    rw [accumulate, accumulate, hc.2]
    exact .cons ⟨hc.1, rfl, rfl, rfl, rfl, rfl⟩ (ih _)

lemma eq_of_forall₂_agrees (hcs : List.Forall₂ (Agrees Eq) cs cs') : cs = cs' := by
  rw [← List.forall₂_eq_eq_eq]
  apply hcs.imp
  rintro ⟨⟩ ⟨⟩ ⟨rfl, rfl, rfl, rfl, rfl, rfl⟩
  rfl

lemma accumulate_idem (total n : Nat) (cs : List Counter) :
    accumulate total n (accumulate total n cs) = accumulate total n cs := by
  induction cs generalizing n with
  | nil => rfl
  | cons c cs ih => rw [accumulate, accumulate, ih]

structure Traced (h : Heap) (seen : List Value) (d : Distribution) : Prop extends Consistent h seen d where
  firsts : Firsts h seen d.counters
  settled : d.aggregated = true → d.counters = accumulate d.total 0 d.counters

lemma traced_empty (h : Heap) : Traced h [] .empty :=
  ⟨consistent_empty h, List.forall_mem_nil _, nofun⟩

lemma Traced.incr (hd : Traced h seen d) (v : Value) : Traced h (seen ++ [v]) (d.incr h v) :=
  ⟨hd.toConsistent.incr v, hd.firsts.countIn hd.tallies v, nofun⟩

lemma Traced.aggregate (hd : Traced h seen d) (hplain : ∀ v ∈ seen, h.Plain v) :
    Traced h seen (d.aggregate h) := by
  refine ⟨hd.toConsistent.aggregate hplain, hd.firsts.perm (perm_aggregate h d), fun _ => ?_⟩
  rw [Distribution.aggregate]
  split
  · exact hd.settled ‹_›
  · exact (accumulate_idem _ _ _).symm

lemma Traced.agrees (hd : Traced h seen d) (hd' : Traced h seen' d') (hperm : seen.Perm seen')
    (hplain : ∀ v ∈ seen, h.Plain v) (hagg : d.aggregated = true) (hagg' : d'.aggregated = true)
    {R : Value → Value → Prop}
    (hR : ∀ c ∈ d.counters, ∀ c' ∈ d'.counters, h.same c.value c'.value = true → R c.value c'.value) :
    d.total = d'.total ∧ List.Forall₂ (Agrees R) d.counters d'.counters := by
  have htotal : d.total = d'.total := by
    rw [hd.seen_length, hd'.seen_length, hperm.length_eq]
  refine ⟨htotal, ?_⟩
  rw [hd.settled hagg, hd'.settled hagg', htotal]
  apply agrees_accumulate
  have hsame := hd.forall₂_same hd'.toConsistent hperm hplain hagg hagg'
  rw [List.forall₂_iff_zip] at hsame ⊢
  refine ⟨hsame.1, fun hmem => ?_⟩
  obtain ⟨hc, hc'⟩ := List.of_mem_zip hmem
  exact ⟨hR _ hc _ hc' (hsame.2 hmem).1, (hsame.2 hmem).2⟩

lemma Traced.value_eq (hd : Traced h seen d) (hd' : Traced h seen d') {c' : Counter}
    (hc : c ∈ d.counters) (hc' : c' ∈ d'.counters) (hsame : h.same c.value c'.value = true) :
    c.value = c'.value := by
  have hfirst := hd.firsts c hc
  rw [funext (Heap.same_congr hsame), hd'.firsts c' hc', Option.some_inj] at hfirst
  exact hfirst.symm

lemma Traced.eq_of_aggregated (hd : Traced h seen d) (hd' : Traced h seen d')
    (hplain : ∀ v ∈ seen, h.Plain v) (hagg : d.aggregated = true) (hagg' : d'.aggregated = true) :
    d = d' := by
  obtain ⟨htotal, hcounters⟩ := hd.agrees hd' (.refl seen) hplain hagg hagg'
    fun c hc c' hc' => hd.value_eq hd' hc hc'
  rw [← hagg'] at hagg
  cases d
  cases d'
  simp only at htotal hagg hcounters
  rw [htotal, hagg, eq_of_forall₂_agrees hcounters]

def countAll (h : Heap) (values : List Value) : Distribution := values.foldl (incr h) .empty

lemma traced_useAll (uses : List Use) (hplain : ∀ v ∈ counted uses, h.Plain v) :
    Traced h (counted uses) (useAll h uses) :=
  invariant_useAll (traced_empty h) Traced.incr Traced.aggregate uses hplain

lemma traced_countAll (values : List Value) (hplain : ∀ v ∈ values, h.Plain v) :
    Traced h values (countAll h values) := by
  have hcounted : counted (values.map Use.incr) = values := by
    rw [counted, List.filterMap_map]
    exact List.filterMap_some
  have huses : useAll h (values.map Use.incr) = countAll h values := by
    rw [useAll, List.foldl_map]
    rfl
  have htraced := traced_useAll (h := h) (values.map Use.incr) (by rwa [hcounted])
  rwa [hcounted, huses] at htraced

/-- Aggregating and asking for statistics between the increments makes no difference to the distribution
that is aggregated in the end. Increments in another order give the same total and, position by position,
equal values with the same numbers. -/
theorem aggregate_path_independent (h : Heap) (values : List Value) (hplain : ∀ v ∈ values, h.Plain v) :
    (∀ uses : List Use, counted uses = values →
      (useAll h uses).aggregate h = (countAll h values).aggregate h) ∧
    ∀ values' : List Value, values'.Perm values →
      ((countAll h values').aggregate h).total = ((countAll h values).aggregate h).total ∧
      List.Forall₂ (fun c c' => h.same c.value c'.value = true ∧ c.count = c'.count ∧
          c.atMost = c'.atMost ∧ c.atLeast = c'.atLeast)
        ((countAll h values').aggregate h).counters ((countAll h values).aggregate h).counters := by
  have hdirect := (traced_countAll values hplain).aggregate hplain
  have hflag := aggregated_aggregate h
  constructor
  · rintro uses rfl
    have huses := (traced_useAll uses hplain).aggregate hplain
    exact huses.eq_of_aggregated hdirect hplain (hflag _) (hflag _)
  · intro values' hperm
    have hplain' : ∀ v ∈ values', h.Plain v := fun v hv => hplain v (hperm.mem_iff.mp hv)
    have hother := (traced_countAll values' hplain').aggregate hplain'
    obtain ⟨htotal, hcounters⟩ := hother.agrees hdirect hperm hplain' (hflag _) (hflag _)
      (R := fun v w => h.same v w = true) fun _ _ _ _ hsame => hsame
    refine ⟨htotal, hcounters.imp ?_⟩
    intro c c' hc
    exact ⟨hc.value, hc.count, hc.atMost, hc.atLeast⟩

theorem equal_maps_in_either_order :
    let values : List Value := [.map ⟨0⟩, .list ⟨2⟩, .map ⟨1⟩, .number 3]
    let values' : List Value := [.number 3, .map ⟨1⟩, .list ⟨2⟩, .map ⟨0⟩]
    let uses : List Use := [.incr (.map ⟨0⟩), .ask .mean, .incr (.list ⟨2⟩), .aggregate, .ask .mode,
      .incr (.map ⟨1⟩), .ask .stddev, .incr (.number 3), .ask .medianLow, .ask .medianHigh]
    let shown (d : Distribution) := d.counters.map fun c => (c.count, c.atMost, c.atLeast)
    (∀ v ∈ values, Heap.sharing.Plain v) ∧ counted uses = values ∧ values'.Perm values ∧
      (useAll Heap.sharing uses).aggregate Heap.sharing =
        (countAll Heap.sharing values).aggregate Heap.sharing ∧
      ((countAll Heap.sharing values').aggregate Heap.sharing).total =
        ((countAll Heap.sharing values).aggregate Heap.sharing).total ∧
      shown ((countAll Heap.sharing values').aggregate Heap.sharing) = [(1, 1, 4), (1, 2, 3), (2, 4, 2)] := by
  intro values values' uses shown
  obtain ⟨ha, hb, hc⟩ := Heap.unfolds_sharing
  have hnumber : Heap.sharing.Unfolds (.number 3) (.number 3) := .scalar (.number 3)
  have hplain : ∀ v ∈ values, Heap.sharing.Plain v := by
    simp only [values, List.forall_mem_cons]
    exact ⟨ha.plain, hc.plain, hb.plain, hnumber.plain, List.forall_mem_nil _⟩
  have hperm : values'.Perm values := List.reverse_perm values
  obtain ⟨huses, hvalues⟩ := aggregate_path_independent Heap.sharing values hplain
  exact ⟨hplain, rfl, hperm, huses uses rfl, (hvalues values' hperm).1, by unfold shown values'; cbv⟩

end Distribution

end DiceLang

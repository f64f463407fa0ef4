import DiceLang.Distribution
import DiceLang.Proofs.Value.Bisimulation
import DiceLang.Proofs.Value.Sorting

/-! What a distribution knows about the values it was given. -/

namespace DiceLang

namespace Heap

variable {h : Heap} {a b c : Value}

lemma same_iff_bisimilar : h.same a b = true ↔ h.Bisimilar a b := by
  rw [same, beq_iff_eq, order_eq_iff_bisimilar]

lemma same_comm (a b : Value) : h.same a b = h.same b a := by
  rw [Bool.eq_iff_iff, same_iff_bisimilar, same_iff_bisimilar]
  exact ⟨.symm, .symm⟩

lemma same_congr (hab : h.same a b = true) (c : Value) : h.same a c = h.same b c := by
  rw [same_iff_bisimilar] at hab
  rw [Bool.eq_iff_iff, same_iff_bisimilar, same_iff_bisimilar]
  exact ⟨hab.symm.trans, hab.trans⟩

lemma same_self (h : Heap) (a : Value) : h.same a a = true := same_iff_bisimilar.mpr (.refl h a)

end Heap

namespace Distribution

variable {h : Heap} {v : Value} {vs seen : List Value} {c c' : Counter} {cs cs' : List Counter}
  {d : Distribution}

structure Tallies (h : Heap) (seen : List Value) (cs : List Counter) : Prop where
  distinct : cs.Pairwise fun a b => h.same a.value b.value = false
  count : ∀ c ∈ cs, c.count = seen.countP (h.same c.value)
  stems : ∀ c ∈ cs, c.value ∈ seen
  covers : ∀ v ∈ seen, ∃ c ∈ cs, h.same c.value v = true

def counts (cs : List Counter) : Nat := (cs.map Counter.count).sum

@[simp] lemma counts_nil : counts [] = 0 := rfl

@[simp] lemma counts_cons (c : Counter) (cs : List Counter) : counts (c :: cs) = c.count + counts cs := rfl

@[simp] lemma counts_append (cs cs' : List Counter) : counts (cs ++ cs') = counts cs + counts cs' := by
  rw [counts, List.map_append, List.sum_append]
  rfl

lemma tallies_nil (h : Heap) : Tallies h [] [] :=
  ⟨.nil, by simp, by simp, by simp⟩

lemma Tallies.pos (ht : Tallies h seen cs) (hc : c ∈ cs) : 0 < c.count := by
  rw [ht.count c hc, List.countP_pos_iff]
  exact ⟨c.value, ht.stems c hc, h.same_self c.value⟩

lemma value_of_mem_countIn (hc : c' ∈ countIn h v cs) : c'.value = v ∨ ∃ c ∈ cs, c'.value = c.value := by
  induction cs with
  | nil => exact .inl (congrArg Counter.value (List.mem_singleton.mp hc))
  | cons c cs ih =>
    rw [countIn] at hc
    split at hc
    · rcases List.mem_cons.mp hc with rfl | hc
      · exact .inr ⟨c, List.mem_cons_self, rfl⟩
      · exact .inr ⟨c', List.mem_cons_of_mem c hc, rfl⟩
    · rcases List.mem_cons.mp hc with rfl | hc
      · exact .inr ⟨c', List.mem_cons_self, rfl⟩
      · apply (ih hc).imp_right
        rintro ⟨x, hx, heq⟩
        exact ⟨x, List.mem_cons_of_mem c hx, heq⟩

lemma distinct_countIn (hd : cs.Pairwise fun a b => h.same a.value b.value = false) :
    (countIn h v cs).Pairwise fun a b => h.same a.value b.value = false := by
  induction cs with
  | nil => exact List.pairwise_singleton _ _
  | cons c cs ih =>
    rw [List.pairwise_cons] at hd
    rw [countIn]
    split_ifs with hnot
    · exact List.pairwise_cons.mpr hd
    · refine List.pairwise_cons.mpr ⟨fun x hx => ?_, ih hd.2⟩
      rcases value_of_mem_countIn hx with heq | ⟨y, hy, heq⟩
      · rw [heq]
        exact Bool.eq_false_of_not_eq_true hnot
      · rw [heq]
        exact hd.1 y hy

lemma mem_countIn (hd : cs.Pairwise fun a b => h.same a.value b.value = false)
    (hc : c' ∈ countIn h v cs) :
    (c' ∈ cs ∧ h.same c'.value v = false) ∨
      (∃ c ∈ cs, h.same c.value v = true ∧ c' = { c with count := c.count + 1 }) ∨
      c' = .single v ∧ ∀ c ∈ cs, h.same c.value v = false := by
  induction cs with
  | nil => exact .inr (.inr ⟨List.mem_singleton.mp hc, by simp⟩)
  | cons c cs ih =>
    rw [List.pairwise_cons] at hd
    rw [countIn] at hc
    split at hc
    next hsame =>
      rcases List.mem_cons.mp hc with rfl | hc
      · exact .inr (.inl ⟨c, List.mem_cons_self, hsame, rfl⟩)
      · refine .inl ⟨List.mem_cons_of_mem c hc, ?_⟩
        rw [h.same_comm, ← Heap.same_congr hsame]
        exact hd.1 c' hc
    next hnot =>
      rcases List.mem_cons.mp hc with rfl | hc
      · exact .inl ⟨List.mem_cons_self, Bool.eq_false_of_not_eq_true hnot⟩
      · rcases ih hd.2 hc with ⟨hmem, hne⟩ | ⟨x, hx, hsame, rfl⟩ | ⟨rfl, hnone⟩
        · exact .inl ⟨List.mem_cons_of_mem c hmem, hne⟩
        · exact .inr (.inl ⟨x, List.mem_cons_of_mem c hx, hsame, rfl⟩)
        · refine .inr (.inr ⟨rfl, List.forall_mem_cons.mpr ⟨?_, hnone⟩⟩)
          exact Bool.eq_false_of_not_eq_true hnot

lemma exists_same_of_countIn (hc : c ∈ cs) : ∃ c' ∈ countIn h v cs, c'.value = c.value := by
  induction cs with
  | nil => cases hc
  | cons x cs ih =>
    rw [countIn]
    split
    · rcases List.mem_cons.mp hc with rfl | hc
      · exact ⟨_, List.mem_cons_self, rfl⟩
      · exact ⟨c, List.mem_cons_of_mem _ hc, rfl⟩
    · rcases List.mem_cons.mp hc with rfl | hc
      · exact ⟨c, List.mem_cons_self, rfl⟩
      · obtain ⟨c', hc', heq⟩ := ih hc
        exact ⟨c', List.mem_cons_of_mem x hc', heq⟩

lemma exists_counts_value (h : Heap) (v : Value) (cs : List Counter) :
    ∃ c ∈ countIn h v cs, h.same c.value v = true := by
  induction cs with
  | nil => exact ⟨.single v, List.mem_singleton_self _, h.same_self v⟩
  | cons x cs ih =>
    rw [countIn]
    split
    · exact ⟨_, List.mem_cons_self, ‹_›⟩
    · obtain ⟨c, hc, hsame⟩ := ih
      exact ⟨c, List.mem_cons_of_mem x hc, hsame⟩

lemma Tallies.countIn (ht : Tallies h seen cs) (v : Value) :
    Tallies h (seen ++ [v]) (countIn h v cs) := by
  refine ⟨distinct_countIn ht.distinct, fun c' hc' => ?_, fun c' hc' => ?_, fun w hw => ?_⟩
  · rw [List.countP_append, List.countP_singleton]
    rcases mem_countIn ht.distinct hc' with ⟨hc, hne⟩ | ⟨c, hc, hsame, rfl⟩ | ⟨rfl, hnone⟩
    · simpa [hne] using ht.count c' hc
    · simp [ht.count c hc, hsame]
    · -- whatever was seen so far has a counter, and none of these values equals the new one
      have hnew : seen.countP (h.same v) = 0 := by
        rw [List.countP_eq_zero]
        intro w hw hvw
        obtain ⟨c, hc, hcw⟩ := ht.covers w hw
        have hcv := Heap.same_congr hcw v
        rw [hnone c hc, h.same_comm, hvw] at hcv
        cases hcv
      simp [Counter.single, hnew, h.same_self]
  · rcases mem_countIn ht.distinct hc' with ⟨hc, -⟩ | ⟨c, hc, -, rfl⟩ | ⟨rfl, -⟩
    · exact List.mem_append_left _ (ht.stems c' hc)
    · exact List.mem_append_left _ (ht.stems c hc)
    · exact List.mem_append_right _ (List.mem_singleton_self v)
  · rcases List.mem_append.mp hw with hw | hw
    · obtain ⟨c, hc, hcw⟩ := ht.covers w hw
      obtain ⟨c', hc', heq⟩ := exists_same_of_countIn (h := h) (v := v) hc
      exact ⟨c', hc', by rw [heq, hcw]⟩
    · obtain rfl := List.mem_singleton.mp hw
      exact exists_counts_value h w cs

lemma counts_countIn (h : Heap) (v : Value) (cs : List Counter) :
    counts (countIn h v cs) = counts cs + 1 := by
  induction cs with
  | nil => rfl
  | cons c cs ih =>
    rw [countIn]
    split
    · rw [counts_cons, counts_cons]
      dsimp only
      omega
    · rw [counts_cons, counts_cons, ih]
      omega

def tally (c : Counter) : Value × Nat := (c.value, c.count)

lemma Tallies.perm (ht : Tallies h seen cs) (hperm : (cs'.map tally).Perm (cs.map tally)) :
    Tallies h seen cs' := by
  have hmem (c' : Counter) (hc' : c' ∈ cs') : ∃ c ∈ cs, c.value = c'.value ∧ c.count = c'.count := by
    obtain ⟨c, hc, heq⟩ := List.mem_map.mp (hperm.mem_iff.mp (List.mem_map_of_mem hc'))
    exact ⟨c, hc, Prod.mk.inj heq⟩
  refine ⟨?_, fun c' hc' => ?_, fun c' hc' => ?_, fun v hv => ?_⟩
  · have hpairs : (cs.map tally).Pairwise fun a b => h.same a.1 b.1 = false :=
      List.pairwise_map.mpr ht.distinct
    refine List.pairwise_map.mp ((hperm.pairwise_iff fun {a b} hab => ?_).mpr hpairs)
    rw [h.same_comm]
    exact hab
  · obtain ⟨c, hc, hvalue, hcount⟩ := hmem c' hc'
    rw [← hvalue, ← hcount]
    exact ht.count c hc
  · obtain ⟨c, hc, hvalue, -⟩ := hmem c' hc'
    rw [← hvalue]
    exact ht.stems c hc
  · obtain ⟨c, hc, hcv⟩ := ht.covers v hv
    obtain ⟨c', hc', heq⟩ := List.mem_map.mp (hperm.mem_iff.mpr (List.mem_map_of_mem hc))
    exact ⟨c', hc', by rw [show c'.value = c.value from congrArg Prod.fst heq, hcv]⟩

lemma map_tally_accumulate (total before : Nat) (cs : List Counter) :
    (accumulate total before cs).map tally = cs.map tally := by
  induction cs generalizing before with
  | nil => rfl
  | cons c cs ih =>
    rw [accumulate, List.map_cons, ih]
    rfl

lemma perm_aggregate (h : Heap) (d : Distribution) :
    ((d.aggregate h).counters.map tally).Perm (d.counters.map tally) := by
  rw [aggregate]
  split
  · exact .refl _
  · rw [map_tally_accumulate]
    exact (List.mergeSort_perm _ _).map tally

lemma counts_eq_of_perm (hperm : (cs'.map tally).Perm (cs.map tally)) : counts cs' = counts cs := by
  have hsnd (cs : List Counter) : cs.map Counter.count = (cs.map tally).map Prod.snd := by
    rw [List.map_map]
    rfl
  rw [counts, counts, hsnd, hsnd]
  exact (hperm.map Prod.snd).sum_eq

structure SumsUp (h : Heap) (d : Distribution) : Prop where
  increasing : d.counters.Pairwise fun a b => h.order a.value b.value = .lt
  sums : ∀ before c after, d.counters = before ++ c :: after →
    counts before ≤ d.total ∧ c.atMost = counts before + c.count ∧
      c.atLeast = d.total - counts before ∧ c.atLeast = c.count + counts after

lemma sums_accumulate {total n : Nat} (htotal : n + counts cs = total) {before after : List Counter}
    (heq : accumulate total n cs = before ++ c :: after) :
    n + counts before ≤ total ∧ c.atMost = n + counts before + c.count ∧
      c.atLeast = total - (n + counts before) ∧ c.atLeast = c.count + counts after := by
  induction cs generalizing n before with
  | nil => simp [accumulate] at heq
  | cons x cs ih =>
    rw [counts_cons] at htotal
    rw [accumulate] at heq
    cases before with
    | nil =>
      obtain ⟨rfl, rfl⟩ := List.cons.inj heq
      have hafter : counts (accumulate total (n + x.count) cs) = counts cs :=
        counts_eq_of_perm (by rw [map_tally_accumulate])
      rw [hafter, counts_nil]
      dsimp only
      omega
    | cons y before =>
      obtain ⟨rfl, hrest⟩ := List.cons.inj heq
      have hsums := ih (n := n + x.count) (by omega) hrest
      rw [counts_cons]
      dsimp only
      omega

lemma Tallies.sumsUp (ht : Tallies h seen d.counters) (htotal : counts d.counters = d.total)
    (hplain : ∀ v ∈ seen, h.Plain v) (hd : d.aggregated = false) : SumsUp h (d.aggregate h) := by
  have hperm := perm_aggregate h d
  have hagg : (d.aggregate h).counters = accumulate d.total 0 (sorted h d.counters) := by
    simp [aggregate, hd]
  constructor
  · -- equal values would share a counter, so the sorted values increase
    have hdistinct := (ht.perm hperm).distinct
    have hsorted : (d.aggregate h).counters.Pairwise fun a b => h.order a.value b.value ≠ .gt := by
      have hpairs : ((sorted h d.counters).map tally).Pairwise fun a b => h.order a.1 b.1 ≠ .gt :=
        List.pairwise_map.mpr (Heap.pairwise_mergeSort_of_plain Counter.value
          fun c hc => hplain _ (ht.stems c hc))
      rw [← map_tally_accumulate d.total 0, ← hagg] at hpairs
      exact List.pairwise_map.mp hpairs
    refine (hsorted.and hdistinct).imp fun {a b} hab => ?_
    have hne : h.order a.value b.value ≠ .eq := by
      intro heq
      simp [Heap.same, heq] at hab
    cases ho : h.order a.value b.value with
    | lt => rfl
    | eq => exact absurd ho hne
    | gt => exact absurd ho hab.1
  · intro before c after heq
    rw [hagg] at heq
    have hsorted : counts (sorted h d.counters) = d.total := by
      rw [← htotal]
      exact counts_eq_of_perm ((List.mergeSort_perm _ _).map tally)
    have hsums := sums_accumulate (n := 0) (by rw [Nat.zero_add, hsorted]) heq
    simpa [aggregate, hd] using hsums

inductive Statistic where
  | mean
  | stddev
  | mode
  | medianLow
  | medianHigh

def Statistic.read (h : Heap) (d : Distribution) : Statistic → Float ⊕ Option Value
  | .mean => .inl (d.mean h)
  | .stddev => .inl (d.stddev h)
  | .mode => .inr d.mode
  | .medianLow => .inr d.medianLow
  | .medianHigh => .inr d.medianHigh

def ask (h : Heap) (d : Distribution) (s : Statistic) : (Float ⊕ Option Value) × Distribution :=
  let whole := d.aggregate h
  (s.read h whole, whole)

inductive Use where
  | incr (v : Value)
  | aggregate
  | ask (s : Statistic)

def use (h : Heap) (d : Distribution) : Use → Distribution
  | .incr v => d.incr h v
  | .aggregate => d.aggregate h
  | .ask s => (d.ask h s).2

def useAll (h : Heap) (uses : List Use) : Distribution := uses.foldl (use h) .empty

def counted (uses : List Use) : List Value :=
  uses.filterMap fun
    | .incr v => some v
    | .aggregate | .ask _ => none

structure Consistent (h : Heap) (seen : List Value) (d : Distribution) : Prop where
  tallies : Tallies h seen d.counters
  total : counts d.counters = d.total
  seen_length : d.total = seen.length
  sumsUp : d.aggregated = true → SumsUp h d

lemma consistent_empty (h : Heap) : Consistent h [] .empty := ⟨tallies_nil h, rfl, rfl, nofun⟩

lemma Consistent.incr (hd : Consistent h seen d) (v : Value) :
    Consistent h (seen ++ [v]) (d.incr h v) := by
  refine ⟨hd.tallies.countIn v, ?_, ?_, nofun⟩
  · rw [Distribution.incr, counts_countIn, hd.total]
  · rw [List.length_append, ← hd.seen_length]
    rfl

lemma Consistent.aggregate (hd : Consistent h seen d) (hplain : ∀ v ∈ seen, h.Plain v) :
    Consistent h seen (d.aggregate h) := by
  have htotal := total_aggregate h d
  refine ⟨hd.tallies.perm (perm_aggregate h d), ?_, htotal.trans hd.seen_length, fun _ => ?_⟩
  · rw [counts_eq_of_perm (perm_aggregate h d), hd.total, htotal]
  · cases hflag : d.aggregated with
    | true =>
      rw [Distribution.aggregate, if_pos hflag]
      exact hd.sumsUp hflag
    | false => exact hd.tallies.sumsUp hd.total hplain hflag

lemma invariant_useAll {I : List Value → Distribution → Prop} (hempty : I [] .empty)
    (hincr : ∀ {seen d}, I seen d → ∀ v, I (seen ++ [v]) (d.incr h v))
    (haggregate : ∀ {seen d}, I seen d → (∀ v ∈ seen, h.Plain v) → I seen (d.aggregate h))
    (uses : List Use) (hplain : ∀ v ∈ counted uses, h.Plain v) : I (counted uses) (useAll h uses) := by
  induction uses using List.reverseRecOn with
  | nil => exact hempty
  | append_singleton uses u ih =>
    rw [counted, List.filterMap_append] at hplain ⊢
    rw [useAll, List.foldl_append]
    have hbefore : ∀ v ∈ counted uses, h.Plain v := fun v hv => hplain v (List.mem_append_left _ hv)
    cases u with
    | incr v => exact hincr (ih hbefore) v
    | aggregate | ask =>
      rw [List.filterMap_cons, List.filterMap_nil, List.append_nil]
      exact haggregate (ih hbefore) hbefore

lemma SumsUp.ends (hs : SumsUp h d) (htotal : counts d.counters = d.total) :
    (∀ c ∈ d.counters.getLast?, c.atMost = d.total) ∧ ∀ c ∈ d.counters.head?, c.atLeast = d.total := by
  constructor
  · intro c hc
    have hsplit := (List.dropLast_append_getLast? c hc).symm
    obtain ⟨-, hmost, -⟩ := hs.sums _ _ _ hsplit
    rw [hmost, ← htotal, hsplit]
    simp
  · intro c hc
    obtain ⟨rest, hsplit⟩ := List.head?_eq_some_iff.mp hc
    obtain ⟨-, -, hleast, -⟩ := hs.sums [] c rest hsplit
    simpa using hleast

/-- Whatever a distribution was used for, the counters have pairwise different values and count the equal
increments. Once aggregated they increase and carry the sums up to and from each of
them, nothing is subtracted from less, and aggregating again changes nothing. -/
theorem counters_consistent_after_calls (h : Heap) (uses : List Use)
    (hplain : ∀ v ∈ counted uses, h.Plain v) :
    let d := useAll h uses
    d.counters.Pairwise (fun a b => h.same a.value b.value = false) ∧
    (∀ c ∈ d.counters, 1 ≤ c.count ∧ c.count = (counted uses).countP (h.same c.value)) ∧
    (d.counters.map Counter.count).sum = d.total ∧ d.total = (counted uses).length ∧
    (d.aggregated = true →
      d.counters.Pairwise (fun a b => h.order a.value b.value = .lt) ∧
      (∀ i c, d.counters[i]? = some c →
        ((d.counters.take i).map Counter.count).sum ≤ d.total ∧
        c.atMost = ((d.counters.take (i + 1)).map Counter.count).sum ∧
        c.atLeast = ((d.counters.drop i).map Counter.count).sum ∧
        c.atLeast = d.total - ((d.counters.take i).map Counter.count).sum) ∧
      (∀ c ∈ d.counters.getLast?, c.atMost = d.total) ∧
      ∀ c ∈ d.counters.head?, c.atLeast = d.total) ∧
    (d.aggregate h).aggregated = true ∧ (d.aggregate h).aggregate h = d.aggregate h := by
  intro d
  have hd : Consistent h (counted uses) d :=
    invariant_useAll (consistent_empty h) Consistent.incr Consistent.aggregate uses hplain
  have hflag := aggregated_aggregate h d
  refine ⟨hd.tallies.distinct, fun c hc => ⟨hd.tallies.pos hc, hd.tallies.count c hc⟩, hd.total,
    hd.seen_length, fun hagg => ⟨(hd.sumsUp hagg).increasing, fun i c hi => ?_,
      (hd.sumsUp hagg).ends hd.total⟩, hflag, ?_⟩
  · obtain ⟨hlt, rfl⟩ := List.getElem?_eq_some_iff.mp hi
    have hsplit : d.counters = d.counters.take i ++ d.counters[i] :: d.counters.drop (i + 1) := by
      rw [← List.drop_eq_getElem_cons hlt, List.take_append_drop]
    obtain ⟨hle, hmost, hleast, hrest⟩ := (hd.sumsUp hagg).sums _ _ _ hsplit
    refine ⟨hle, ?_, ?_, hleast⟩
    · rw [hmost, List.take_succ_eq_append_getElem hlt]
      exact (counts_append (d.counters.take i) [d.counters[i]]).symm
    · rw [hrest, List.drop_eq_getElem_cons hlt]
      rfl
  · rw [Distribution.aggregate, if_pos hflag]

theorem equal_maps_counted_together :
    let uses : List Use := [.incr (.map ⟨0⟩), .ask .mode, .incr (.list ⟨2⟩), .incr (.map ⟨1⟩),
      .incr (.number 3), .aggregate]
    let d := useAll Heap.sharing uses
    (∀ v ∈ counted uses, Heap.sharing.Plain v) ∧ d.aggregated = true ∧
      d.counters.map (fun c => (c.count, c.atMost, c.atLeast)) = [(1, 1, 4), (1, 2, 3), (2, 4, 2)] ∧
      d.counters.Pairwise (fun a b => Heap.sharing.order a.value b.value = .lt) ∧
      (d.counters.map Counter.count).sum = d.total := by
  intro uses d
  obtain ⟨ha, hb, hc⟩ := Heap.unfolds_sharing
  have hnumber : Heap.sharing.Unfolds (.number 3) (.number 3) := .scalar (.number 3)
  have hplain : ∀ v ∈ counted uses, Heap.sharing.Plain v := by
    simp only [uses, counted, List.filterMap_cons, List.filterMap_nil, List.forall_mem_cons]
    exact ⟨ha.plain, hc.plain, hb.plain, hnumber.plain, by simp⟩
  have hflag : d.aggregated = true := rfl
  obtain ⟨-, -, hsum, -, hsums, -⟩ := counters_consistent_after_calls Heap.sharing uses hplain
  exact ⟨hplain, hflag, by cbv, (hsums hflag).1, hsum⟩

end Distribution

end DiceLang

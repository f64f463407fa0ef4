import DiceLang.Proofs.Distribution.Paths
import DiceLang.Proofs.Lists

/-! Mode and medians. The searches for a half find what they look for, and neither falls back on another
search. -/

namespace DiceLang

namespace Distribution

variable {h : Heap} {seen : List Value} {v : Value} {c : Counter} {cs before after : List Counter}
  {d : Distribution}

lemma counts_eq_countP (hdistinct : cs.Pairwise fun a b => h.same a.value b.value = false)
    (hcount : ∀ c ∈ cs, c.count = seen.countP (h.same c.value)) :
    counts cs = seen.countP fun v => cs.any fun c => h.same c.value v := by
  induction cs with
  | nil => simp
  | cons c cs ih =>
    obtain ⟨hc, hcs⟩ := List.forall_mem_cons.mp hcount
    obtain ⟨hother, hdistinct⟩ := List.pairwise_cons.mp hdistinct
    have hapart : ∀ v ∈ seen, h.same c.value v = true → cs.any (fun x => h.same x.value v) = false := by
      intro v _ hcv
      rw [List.any_eq_false]
      intro x hx hxv
      rw [h.same_comm, ← Heap.same_congr hcv, hother x hx] at hxv
      cases hxv
    rw [counts_cons, hc, ih hdistinct hcs, ← countP_or_of_disjoint hapart]
    rfl

lemma Tallies.counts_part (ht : Tallies h seen d.counters) (hpart : cs.Sublist d.counters) :
    counts cs = seen.countP fun v => cs.any fun c => h.same c.value v :=
  counts_eq_countP (ht.distinct.sublist hpart) fun c hc => ht.count c (hpart.subset hc)

lemma outOf_of_mem_accumulate {total n : Nat} (hc : c ∈ accumulate total n cs) : c.outOf = total := by
  induction cs generalizing n with
  | nil => cases hc
  | cons x cs ih =>
    rcases List.mem_cons.mp hc with rfl | hc
    · rfl
    · exact ih hc

def atMostIn (h : Heap) (seen : List Value) (v : Value) : Nat := seen.countP fun w => (h.order w v).isLE

def atLeastIn (h : Heap) (seen : List Value) (v : Value) : Nat := seen.countP fun w => (h.order w v).isGE

structure Summary (h : Heap) (seen : List Value) (d : Distribution) : Prop extends Traced h seen d where
  aggregated : d.aggregated = true
  plain : ∀ v ∈ seen, h.Plain v
  nonempty : seen ≠ []

namespace Summary

lemma total_pos (hd : Summary h seen d) : 0 < d.total := by
  rw [hd.seen_length]
  exact List.length_pos_of_ne_nil hd.nonempty

lemma counters_ne_nil (hd : Summary h seen d) : d.counters ≠ [] := by
  intro hnil
  have hpos := hd.total_pos
  rw [← hd.total, hnil] at hpos
  exact absurd hpos (Nat.lt_irrefl 0)

lemma plain_value (hd : Summary h seen d) (hc : c ∈ d.counters) : h.Plain c.value :=
  hd.plain _ (hd.tallies.stems c hc)

lemma sums (hd : Summary h seen d) (hsplit : d.counters = before ++ c :: after) :
    c.atMost = counts before + c.count ∧ c.atLeast = c.count + counts after ∧
      d.total = counts before + c.count + counts after := by
  obtain ⟨-, hmost, -, hleast⟩ := (hd.sumsUp hd.aggregated).sums before c after hsplit
  refine ⟨hmost, hleast, ?_⟩
  rw [← hd.total, hsplit, counts_append, counts_cons]
  omega

lemma order_value (hd : Summary h seen d) (hsplit : d.counters = before ++ c :: after) :
    (∀ x ∈ before, h.order x.value c.value = .lt) ∧ h.order c.value c.value = .eq ∧
      ∀ x ∈ after, h.order x.value c.value = .gt := by
  have hmem {x : Counter} (hx : x ∈ before ++ c :: after) : h.Plain x.value :=
    hd.plain_value (hsplit ▸ hx)
  have hup := (hd.sumsUp hd.aggregated).increasing
  rw [hsplit, List.pairwise_append, List.pairwise_cons] at hup
  obtain ⟨-, ⟨hafter, -⟩, hbefore⟩ := hup
  refine ⟨fun x hx => hbefore x hx c List.mem_cons_self, (hmem (by simp)).order_self, fun x hx => ?_⟩
  rw [(hmem (by simp)).order_swap (hmem (by simp [hx])), hafter x hx]
  rfl

lemma exists_counter (hd : Summary h seen d) (hv : v ∈ seen) :
    ∃ x ∈ d.counters, h.same x.value v = true ∧ ∀ w, h.Plain w → h.order v w = h.order x.value w := by
  obtain ⟨x, hx, hsame⟩ := hd.tallies.covers v hv
  refine ⟨x, hx, hsame, fun w hw => ?_⟩
  exact ((hd.plain_value hx).order_congr (hd.plain v hv) hw (beq_iff_eq.mp hsame)).symm

lemma counts_eq (hd : Summary h seen d) (hc : c ∈ d.counters) (hpart : cs.Sublist d.counters)
    {p : Ordering → Bool} (hp : ∀ x ∈ d.counters, x ∈ cs ↔ p (h.order x.value c.value) = true) :
    counts cs = seen.countP fun v => p (h.order v c.value) := by
  rw [hd.tallies.counts_part hpart]
  apply List.countP_congr
  intro v hv
  rw [List.any_eq_true]
  constructor
  · rintro ⟨x, hx, hsame⟩
    have hmem := hpart.subset hx
    rw [← (hd.plain_value hmem).order_congr (hd.plain v hv) (hd.plain_value hc) (beq_iff_eq.mp hsame)]
    exact (hp x hmem).mp hx
  · intro hpv
    obtain ⟨x, hx, hsame, horder⟩ := hd.exists_counter hv
    rw [horder _ (hd.plain_value hc)] at hpv
    exact ⟨x, (hp x hx).mpr hpv, hsame⟩

lemma atMost_eq (hd : Summary h seen d) (hsplit : d.counters = before ++ c :: after) :
    c.atMost = atMostIn h seen c.value := by
  obtain ⟨hbefore, hself, hafter⟩ := hd.order_value hsplit
  have hcounts : c.atMost = counts (before ++ [c]) := by
    rw [(hd.sums hsplit).1, counts_append, counts_cons, counts_nil, Nat.add_zero]
  rw [hcounts, atMostIn]
  refine hd.counts_eq (by simp [hsplit]) ?_ fun x hx => ?_
  · rw [hsplit, List.append_cons before c after]
    exact List.sublist_append_left _ _
  · rw [hsplit, List.mem_append, List.mem_cons] at hx
    rw [List.mem_append, List.mem_singleton]
    constructor
    · rintro (hx | rfl)
      · rw [hbefore x hx]
        rfl
      · rw [hself]
        rfl
    · intro hle
      rcases hx with hx | hx | hx
      · exact .inl hx
      · exact .inr hx
      · rw [hafter x hx] at hle
        cases hle

lemma atLeast_eq (hd : Summary h seen d) (hsplit : d.counters = before ++ c :: after) :
    c.atLeast = atLeastIn h seen c.value := by
  obtain ⟨hbefore, hself, hafter⟩ := hd.order_value hsplit
  rw [(hd.sums hsplit).2.1, ← counts_cons, atLeastIn]
  refine hd.counts_eq (by simp [hsplit]) ?_ fun x hx => ?_
  · rw [hsplit]
    exact List.sublist_append_right _ _
  · rw [hsplit, List.mem_append, List.mem_cons] at hx
    rw [List.mem_cons]
    constructor
    · rintro (rfl | hx)
      · rw [hself]
        rfl
      · rw [hafter x hx]
        rfl
    · intro hge
      rcases hx with hx | hx
      · rw [hbefore x hx] at hge
        cases hge
      · exact hx

lemma exists_sums (hd : Summary h seen d) (hv : v ∈ seen) :
    ∃ x ∈ d.counters, x.atMost = atMostIn h seen v ∧ x.atLeast = atLeastIn h seen v ∧
      ∀ w, h.Plain w → h.order v w = h.order x.value w := by
  obtain ⟨x, hx, -, horder⟩ := hd.exists_counter hv
  obtain ⟨before, after, hsplit⟩ := List.append_of_mem hx
  have hflip (w : Value) (hw : w ∈ seen) : h.order w x.value = h.order w v := by
    rw [(hd.plain_value hx).order_swap (hd.plain w hw), (hd.plain v hv).order_swap (hd.plain w hw),
      horder w (hd.plain w hw)]
  refine ⟨x, hx, ?_, ?_, horder⟩
  · rw [hd.atMost_eq hsplit]
    exact List.countP_congr fun w hw => by rw [hflip w hw]
  · rw [hd.atLeast_eq hsplit]
    exact List.countP_congr fun w hw => by rw [hflip w hw]

lemma reachesHalf_iff (hd : Summary h seen d) (hc : c ∈ d.counters) :
    reachesHalf c = true ↔ d.total ≤ 2 * c.atMost := by
  rw [hd.settled hd.aggregated] at hc
  simp [reachesHalf, outOf_of_mem_accumulate hc, hd.total_pos]

lemma leavesHalf_iff (hd : Summary h seen d) (hc : c ∈ d.counters) :
    leavesHalf c = true ↔ d.total ≤ 2 * c.atLeast := by
  rw [hd.settled hd.aggregated] at hc
  simp [leavesHalf, outOf_of_mem_accumulate hc, hd.total_pos]

structure Low (d : Distribution) (before : List Counter) (c : Counter) (after : List Counter) : Prop where
  split : d.counters = before ++ c :: after
  found : d.counters.find? reachesHalf = some c
  reached : d.total ≤ 2 * c.atMost
  below : 2 * counts before < d.total

structure High (d : Distribution) (before : List Counter) (c : Counter) (after : List Counter) : Prop where
  split : d.counters = before ++ c :: after
  found : d.counters.reverse.find? leavesHalf = some c
  reached : d.total ≤ 2 * c.atLeast
  above : 2 * counts after < d.total

lemma exists_low (hd : Summary h seen d) : ∃ before c after, Low d before c after := by
  have hne := hd.counters_ne_nil
  have hlast := (hd.sumsUp hd.aggregated).ends hd.total |>.1 _ (List.getLast?_eq_getLast_of_ne_nil hne)
  have hsome : (d.counters.find? reachesHalf).isSome := by
    rw [List.find?_isSome]
    refine ⟨_, List.getLast_mem hne, (hd.reachesHalf_iff (List.getLast_mem hne)).mpr ?_⟩
    omega
  obtain ⟨c, hfound⟩ := Option.isSome_iff_exists.mp hsome
  obtain ⟨hc, before, after, hsplit, hbefore⟩ := List.find?_eq_some_iff_append.mp hfound
  refine ⟨before, c, after, hsplit, hfound, (hd.reachesHalf_iff (by simp [hsplit])).mp hc, ?_⟩
  -- the sum before `c` is that of the last counter before it, which does not reach a half
  rcases List.eq_nil_or_concat before with rfl | ⟨init, x, rfl⟩
  · exact hd.total_pos
  · have hx := hbefore x (by simp)
    rw [Bool.not_eq_true', ← Bool.not_eq_true, hd.reachesHalf_iff (by simp [hsplit]), not_le] at hx
    rw [List.concat_eq_append, List.append_assoc, List.singleton_append] at hsplit
    have hsums := hd.sums hsplit
    rw [List.concat_eq_append, counts_append, counts_cons, counts_nil]
    omega

lemma exists_high (hd : Summary h seen d) : ∃ before c after, High d before c after := by
  obtain ⟨first, rest, hcounters⟩ := List.exists_cons_of_ne_nil hd.counters_ne_nil
  have hfirst := (hd.sumsUp hd.aggregated).ends hd.total |>.2 first (by simp [hcounters])
  have hsome : (d.counters.reverse.find? leavesHalf).isSome := by
    rw [List.find?_isSome]
    refine ⟨first, by simp [hcounters], (hd.leavesHalf_iff (by simp [hcounters])).mpr ?_⟩
    omega
  obtain ⟨c, hfound⟩ := Option.isSome_iff_exists.mp hsome
  obtain ⟨hc, before, after, hreverse, hbefore⟩ := List.find?_eq_some_iff_append.mp hfound
  have hsplit : d.counters = after.reverse ++ c :: before.reverse := by
    rw [← List.reverse_reverse d.counters, hreverse]
    simp
  refine ⟨_, c, _, hsplit, hfound, (hd.leavesHalf_iff (by simp [hsplit])).mp hc, ?_⟩
  cases hrest : before.reverse with
  | nil => exact hd.total_pos
  | cons x tail =>
    rw [hrest] at hsplit
    have hx := hbefore x (by rw [← List.mem_reverse, hrest]; exact List.mem_cons_self)
    rw [Bool.not_eq_true', ← Bool.not_eq_true, hd.leavesHalf_iff (by simp [hsplit]), not_le] at hx
    rw [List.append_cons] at hsplit
    have hsums := hd.sums hsplit
    rw [counts_cons]
    omega

lemma atMost_le_counts (hd : Summary h seen d) (hsplit : d.counters = before ++ cs) {x : Counter}
    (hx : x ∈ before) : x.atMost ≤ counts before := by
  obtain ⟨left, right, rfl⟩ := List.append_of_mem hx
  rw [List.append_assoc, List.cons_append] at hsplit
  rw [(hd.sums hsplit).1, counts_append, counts_cons]
  omega

lemma atLeast_le_counts (hd : Summary h seen d) (hsplit : d.counters = cs ++ after) {x : Counter}
    (hx : x ∈ after) : x.atLeast ≤ counts after := by
  obtain ⟨left, right, rfl⟩ := List.append_of_mem hx
  rw [← List.append_assoc] at hsplit
  rw [(hd.sums hsplit).2.1, counts_append, counts_cons]
  omega

end Summary

def HalfAtMost (h : Heap) (seen : List Value) (v : Value) : Prop := seen.length ≤ 2 * atMostIn h seen v

def HalfAtLeast (h : Heap) (seen : List Value) (v : Value) : Prop := seen.length ≤ 2 * atLeastIn h seen v

namespace Summary

lemma low_spec (hd : Summary h seen d) (hlow : Low d before c after) :
    c.value ∈ seen ∧ HalfAtMost h seen c.value ∧ HalfAtLeast h seen c.value ∧
      ∀ v ∈ seen, HalfAtMost h seen v → (h.order c.value v).isLE := by
  have hc : c ∈ d.counters := by simp [hlow.split]
  obtain ⟨-, hleast, htotal⟩ := hd.sums hlow.split
  refine ⟨hd.tallies.stems c hc, ?_, ?_, fun v hv hhalf => ?_⟩
  · rw [HalfAtMost, ← hd.atMost_eq hlow.split, ← hd.seen_length]
    exact hlow.reached
  · have hbelow := hlow.below
    rw [HalfAtLeast, ← hd.atLeast_eq hlow.split, ← hd.seen_length]
    omega
  · obtain ⟨x, hx, hmost, -, horder⟩ := hd.exists_sums hv
    obtain ⟨-, hself, hafter⟩ := hd.order_value hlow.split
    rw [(hd.plain v hv).order_swap (hd.plain_value hc), horder _ (hd.plain_value hc)]
    rw [HalfAtMost, ← hmost, ← hd.seen_length] at hhalf
    rw [hlow.split, List.mem_append, List.mem_cons] at hx
    rcases hx with hx | rfl | hx
    · have hle := hd.atMost_le_counts hlow.split hx
      have hbelow := hlow.below
      omega
    · rw [hself]
      rfl
    · rw [hafter x hx]
      rfl

lemma high_spec (hd : Summary h seen d) (hhigh : High d before c after) :
    c.value ∈ seen ∧ HalfAtLeast h seen c.value ∧ HalfAtMost h seen c.value ∧
      ∀ v ∈ seen, HalfAtLeast h seen v → (h.order v c.value).isLE := by
  have hc : c ∈ d.counters := by simp [hhigh.split]
  obtain ⟨hmost, -, htotal⟩ := hd.sums hhigh.split
  refine ⟨hd.tallies.stems c hc, ?_, ?_, fun v hv hhalf => ?_⟩
  · rw [HalfAtLeast, ← hd.atLeast_eq hhigh.split, ← hd.seen_length]
    exact hhigh.reached
  · have habove := hhigh.above
    rw [HalfAtMost, ← hd.atMost_eq hhigh.split, ← hd.seen_length]
    omega
  · obtain ⟨x, hx, -, hleast, horder⟩ := hd.exists_sums hv
    obtain ⟨hbefore, hself, -⟩ := hd.order_value hhigh.split
    rw [horder _ (hd.plain_value hc)]
    rw [HalfAtLeast, ← hleast, ← hd.seen_length] at hhalf
    rw [hhigh.split, List.mem_append, List.mem_cons] at hx
    rcases hx with hx | rfl | hx
    · rw [hbefore x hx]
      rfl
    · rw [hself]
      rfl
    · have hsplit := hhigh.split
      rw [List.append_cons] at hsplit
      have hle := hd.atLeast_le_counts hsplit hx
      have habove := hhigh.above
      omega

lemma foldl_oftener (c : Counter) (cs : List Counter) : ∃ before after,
    c :: cs = before ++ cs.foldl oftener c :: after ∧
      (∀ x ∈ before, x.count < (cs.foldl oftener c).count) ∧
      ∀ x ∈ after, x.count ≤ (cs.foldl oftener c).count := by
  induction cs generalizing c with
  | nil => exact ⟨[], [], rfl, List.forall_mem_nil _, List.forall_mem_nil _⟩
  | cons y cs ih =>
    rw [List.foldl_cons]
    by_cases hless : c.count < y.count
    · rw [oftener, if_pos hless]
      obtain ⟨before, after, hsplit, hbefore, hafter⟩ := ih y
      refine ⟨c :: before, after, by rw [hsplit, List.cons_append], ?_, hafter⟩
      have hy : y.count ≤ (cs.foldl oftener y).count := by
        have hmem : y ∈ before ++ cs.foldl oftener y :: after := hsplit ▸ List.mem_cons_self
        rw [List.mem_append, List.mem_cons] at hmem
        rcases hmem with hmem | heq | hmem
        · exact (hbefore y hmem).le
        · exact (congrArg Counter.count heq).le
        · exact hafter y hmem
      exact List.forall_mem_cons.mpr ⟨hless.trans_le hy, hbefore⟩
    · rw [oftener, if_neg hless]
      obtain ⟨before, after, hsplit, hbefore, hafter⟩ := ih c
      cases before with
      | nil =>
        obtain ⟨hc, rfl⟩ := List.cons.inj hsplit
        refine ⟨[], y :: cs, by rw [← hc]; rfl, List.forall_mem_nil _, ?_⟩
        rw [← hc] at hafter ⊢
        exact List.forall_mem_cons.mpr ⟨not_lt.mp hless, hafter⟩
      | cons z before =>
        obtain ⟨rfl, hcs⟩ := List.cons.inj hsplit
        obtain ⟨hc, hbefore⟩ := List.forall_mem_cons.mp hbefore
        refine ⟨c :: y :: before, after, ?_, ?_, hafter⟩
        · nth_rewrite 1 [hcs]
          rfl
        · exact List.forall_mem_cons.mpr ⟨hc, List.forall_mem_cons.mpr
            ⟨(not_lt.mp hless).trans_lt hc, hbefore⟩⟩

lemma mode_spec (hd : Summary h seen d) : ∃ m, d.mode = some m ∧ m ∈ seen ∧
    ∀ v ∈ seen, seen.countP (h.same v) ≤ seen.countP (h.same m) ∧
      (seen.countP (h.same v) = seen.countP (h.same m) → (h.order m v).isLE) := by
  obtain ⟨first, rest, hcounters⟩ := List.exists_cons_of_ne_nil hd.counters_ne_nil
  obtain ⟨before, after, hsplit, hbefore, hafter⟩ := foldl_oftener first rest
  generalize hbest : rest.foldl oftener first = best at hsplit hbefore hafter
  rw [← hcounters] at hsplit
  have hmem : best ∈ d.counters := by simp [hsplit]
  refine ⟨best.value, ?_, hd.tallies.stems best hmem, fun v hv => ?_⟩
  · rw [mode, hcounters]
    exact congrArg (some ∘ Counter.value) hbest
  · obtain ⟨x, hx, hsame, horder⟩ := hd.exists_counter hv
    obtain ⟨-, hself, habove⟩ := hd.order_value hsplit
    rw [← funext (Heap.same_congr hsame), ← hd.tallies.count x hx, ← hd.tallies.count best hmem,
      (hd.plain v hv).order_swap (hd.plain_value hmem), horder _ (hd.plain_value hmem)]
    rw [hsplit, List.mem_append, List.mem_cons] at hx
    rcases hx with hx | rfl | hx
    · exact ⟨(hbefore x hx).le, fun heq => absurd heq (hbefore x hx).ne⟩
    · rw [hself]
      exact ⟨le_rfl, fun _ => rfl⟩
    · rw [habove x hx]
      exact ⟨hafter x hx, fun _ => rfl⟩

end Summary

lemma summary_useAll {uses : List Use} (hplain : ∀ v ∈ counted uses, h.Plain v) (hne : counted uses ≠ []) :
    Summary h (counted uses) ((useAll h uses).aggregate h) :=
  ⟨(traced_useAll uses hplain).aggregate hplain, aggregated_aggregate h _, hplain, hne⟩

/-- Whatever a distribution was used for, as soon as it has counted a value both searches for a half succeed.
The lower median is the least value with half of the observations at or below it, the upper median the
greatest with half of them at or above it; either halves the observations both ways, and the lower is not
above the upper. The mode is the least of the values that were counted most often. -/
theorem order_statistics (h : Heap) (uses : List Use) (hplain : ∀ v ∈ counted uses, h.Plain v)
    (hne : counted uses ≠ []) :
    let d := useAll h uses
    let seen := counted uses
    let whole := d.aggregate h
    (∀ c ∈ whole.counters, (reachesHalf c = true ↔ whole.total ≤ 2 * c.atMost) ∧
      (leavesHalf c = true ↔ whole.total ≤ 2 * c.atLeast)) ∧
    (whole.counters.find? reachesHalf).isSome ∧ (whole.counters.reverse.find? leavesHalf).isSome ∧
    ∃ low high most, (d.ask h .medianLow).1 = .inr (some low) ∧ (d.ask h .medianHigh).1 = .inr (some high) ∧
      (d.ask h .mode).1 = .inr (some most) ∧
      (low ∈ seen ∧ HalfAtMost h seen low ∧ ∀ v ∈ seen, HalfAtMost h seen v → (h.order low v).isLE) ∧
      (high ∈ seen ∧ HalfAtLeast h seen high ∧ ∀ v ∈ seen, HalfAtLeast h seen v → (h.order v high).isLE) ∧
      HalfAtLeast h seen low ∧ HalfAtMost h seen high ∧ (h.order low high).isLE ∧
      (most ∈ seen ∧ ∀ v ∈ seen, seen.countP (h.same v) ≤ seen.countP (h.same most) ∧
        (seen.countP (h.same v) = seen.countP (h.same most) → (h.order most v).isLE)) := by
  intro d seen whole
  have hd : Summary h seen whole := summary_useAll hplain hne
  obtain ⟨_, c, _, hlow⟩ := hd.exists_low
  obtain ⟨_, c', _, hhigh⟩ := hd.exists_high
  obtain ⟨most, hmode, hmost⟩ := hd.mode_spec
  obtain ⟨hlowseen, hlowmost, hlowleast, hleast⟩ := hd.low_spec hlow
  obtain ⟨hhighseen, hhighleast, hhighmost, hgreatest⟩ := hd.high_spec hhigh
  have hmedianLow : whole.medianLow = some c.value := by
    rw [medianLow, hlow.found]
    rfl
  have hmedianHigh : whole.medianHigh = some c'.value := by
    rw [medianHigh, hhigh.found]
    rfl
  refine ⟨fun x hx => ⟨hd.reachesHalf_iff hx, hd.leavesHalf_iff hx⟩, by rw [hlow.found]; rfl,
    by rw [hhigh.found]; rfl, c.value, c'.value, most, congrArg Sum.inr hmedianLow,
    congrArg Sum.inr hmedianHigh, congrArg Sum.inr hmode, ⟨hlowseen, hlowmost, hleast⟩,
    ⟨hhighseen, hhighleast, hgreatest⟩, hlowleast, hhighmost, ?_, hmost⟩
  -- half of the observations are at or above the lower median, and the upper one is the greatest such value
  exact hgreatest _ hlowseen hlowleast

theorem maps_split_in_halves :
    let uses : List Use :=
      [.incr (.map ⟨0⟩), .ask .mode, .incr (.list ⟨2⟩), .incr (.map ⟨1⟩), .incr (.number 3)]
    (∀ v ∈ counted uses, Heap.sharing.Plain v) ∧ counted uses ≠ [] ∧
      ∃ low high most, ((useAll Heap.sharing uses).ask Heap.sharing .medianLow).1 = .inr (some low) ∧
        ((useAll Heap.sharing uses).ask Heap.sharing .medianHigh).1 = .inr (some high) ∧
        ((useAll Heap.sharing uses).ask Heap.sharing .mode).1 = .inr (some most) ∧
        low = .list ⟨2⟩ ∧ high = .map ⟨0⟩ ∧ most = .map ⟨0⟩ ∧ (Heap.sharing.order low high).isLE := by
  intro uses
  obtain ⟨ha, hb, hc⟩ := Heap.unfolds_sharing
  have hnumber : Heap.sharing.Unfolds (.number 3) (.number 3) := .scalar (.number 3)
  have hplain : ∀ v ∈ counted uses, Heap.sharing.Plain v := by
    simp only [uses, counted, List.filterMap_cons, List.filterMap_nil, List.forall_mem_cons]
    exact ⟨ha.plain, hc.plain, hb.plain, hnumber.plain, List.forall_mem_nil _⟩
  have hne : counted uses ≠ [] := List.cons_ne_nil _ _
  obtain ⟨-, -, -, low, high, most, hlow, hhigh, hmost, -, -, -, -, hle, -⟩ :=
    order_statistics Heap.sharing uses hplain hne
  have hlow' : ((useAll Heap.sharing uses).ask Heap.sharing .medianLow).1 = .inr (some (.list ⟨2⟩)) := by cbv
  have hhigh' : ((useAll Heap.sharing uses).ask Heap.sharing .medianHigh).1 = .inr (some (.map ⟨0⟩)) := by cbv
  have hmost' : ((useAll Heap.sharing uses).ask Heap.sharing .mode).1 = .inr (some (.map ⟨0⟩)) := by cbv
  refine ⟨hplain, hne, low, high, most, hlow, hhigh, hmost, ?_, ?_, ?_, hle⟩
  · exact Option.some.inj (Sum.inr.inj (hlow.symm.trans hlow'))
  · exact Option.some.inj (Sum.inr.inj (hhigh.symm.trans hhigh'))
  · exact Option.some.inj (Sum.inr.inj (hmost.symm.trans hmost'))

end Distribution

end DiceLang

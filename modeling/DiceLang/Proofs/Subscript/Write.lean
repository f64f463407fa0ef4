import DiceLang.Proofs.Dice.Deck
import DiceLang.Proofs.Eval.Sound
import DiceLang.Proofs.Subscript.Read

/-! Writing entries of containers. What is written to an entry is what is read from it next, and nothing else
changes but that a list is filled up to a new index. -/

namespace DiceLang

namespace Heap

def elementsOf (h : Heap) (v : Value) : List Value := (h.toList v).2.items (h.toList v).1

lemma spares_setMap (h : Heap) (r : MapRef) (es : List (String × Value)) (kept : Finset Container) :
    h.Spares (h.setMap r es) (kept.erase (.map r)) := by
  refine ⟨(h.containers_setMap r es).ge, fun c hc => ?_⟩
  obtain ⟨hne, -⟩ := Finset.mem_erase.mp hc
  cases c with
  | list q => rfl
  | map q =>
    have hindex : r.index ≠ q.index := fun heq => hne (congrArg (Container.map ∘ MapRef.mk) heq.symm)
    simp [HoldsSame, entries, setMap, hindex]

lemma extends_toList (h : Heap) (v : Value) : h.Extends (h.toList v).2 := by
  cases v with
  | list r => exact .refl h
  | map r => exact h.extends_newList _
  | function => exact h.extends_newList _
  | scalar s => cases s <;> exact h.extends_newList _

end Heap

namespace Eval

variable {h h' : Heap} {c s t v : Value} {x : Container} {m : Machine} {again : Again} {scope : ScopeId}

def Misses (h : Heap) (c s : Value) : Prop :=
  match c, s with
  | .list r, .number n => (h.items r).length + n.toInt < 0
  | .map _, .string _ => False
  | _, _ => True

def Overfull (h : Heap) (c s : Value) : Prop :=
  match c, s with
  | .list r, .number n => (h.items r).length ≤ n.toInt ∧ maxItems ≤ n.toInt
  | _, _ => False

/-- The entry of `c` that `s` names has become `v`. A list is filled up to a new index, a new key comes last,
and all other entries of `c` are as they were, in their places. -/
def Sets (h : Heap) (c s v : Value) (h' : Heap) : Prop :=
  match c, s with
  | .list r, .number n =>
    ∃ i : Nat, (i : Int) = (if 0 ≤ n.toInt then n.toInt else (h.items r).length + n.toInt) ∧
      (h'.items r).length = max (h.items r).length (i + 1) ∧ (h'.items r)[i]? = some v ∧
      ∀ k ≠ i, k < (h'.items r).length →
        (h'.items r)[k]? = if k < (h.items r).length then (h.items r)[k]? else some .undefined
  | .map r, .string key =>
    (h'.entries r).map Prod.fst =
      (if key ∈ (h.entries r).map Prod.fst then (h.entries r).map Prod.fst
        else (h.entries r).map Prod.fst ++ [key]) ∧
      Entries.get? (h'.entries r) key = some v ∧
      ∀ other ≠ key, Entries.get? (h'.entries r) other = Entries.get? (h.entries r) other
  | _, _ => False

lemma place?_eq_none_iff {index : Int64} {length : Nat} :
    place? index length = none ↔ length + index.toInt < 0 := by
  rw [place?]
  split
  · simp
    omega
  · split <;> simp <;> omega

lemma place?_eq_some_iff {index : Int64} {length i : Nat} : place? index length = some i ↔
    (i : Int) = if 0 ≤ index.toInt then index.toInt else length + index.toInt := by
  rw [place?]
  split
  · rw [Option.some.injEq]
    omega
  · split
    · rw [Option.some.injEq]
      omega
    · simp
      omega

lemma length_putItem (items : List Value) (i : Nat) (v : Value) :
    (putItem items i v).length = max items.length (i + 1) := by
  rw [putItem]
  split
  · rw [List.length_set]
    omega
  · simp only [List.length_append, List.length_replicate, List.length_singleton]
    omega

lemma getElem?_putItem_self (items : List Value) (i : Nat) (v : Value) : (putItem items i v)[i]? = some v := by
  rw [putItem]
  split_ifs with hi
  · exact List.getElem?_set_self hi
  · have hlen : (items ++ List.replicate (i - items.length) Value.undefined).length = i := by
      simp only [List.length_append, List.length_replicate]
      omega
    rw [List.getElem?_append_right hlen.le, hlen, Nat.sub_self]
    rfl

lemma getElem?_putItem_ne (items : List Value) {i k : Nat} (v : Value) (hk : k ≠ i)
    (hlt : k < (putItem items i v).length) :
    (putItem items i v)[k]? = if k < items.length then items[k]? else some .undefined := by
  rw [length_putItem] at hlt
  rw [putItem]
  split
  · rw [List.getElem?_set_ne hk.symm, if_pos (by omega)]
  · rw [List.append_assoc]
    split_ifs with hold
    · exact List.getElem?_append_left hold
    · have hpad : k - items.length < (List.replicate (i - items.length) Value.undefined).length := by
        rw [List.length_replicate]
        omega
      rw [List.getElem?_append_right (by omega), List.getElem?_append_left hpad,
        List.getElem?_replicate_of_lt (by simpa using hpad)]

lemma writeAt_index (again : Again) (site : Expr) (scope : ScopeId) (r : ListRef) (path : List Container)
    (depth : Nat) (index : Int64) (v : Value) (m : Machine) :
    writeAt again site scope (.list r) path (depth + 1) (.number index) v m =
      (place? index (m.env.heap.items r).length).elim
        (.error (.failed (site.error (.invalidSubscript .number))) m)
        fun i => if (m.env.heap.items r).length ≤ i ∧ maxItems < i + 1 then
            .error (.unfinished (w := .makeRoom (i + 1))) m
          else .ok () (m.withHeap (m.env.heap.setList r (putItem (m.env.heap.items r) i v))) := by
  have hitems : items r m = .ok (m.env.heap.items r) m := rfl
  rw [writeAt.eq_def]
  dsimp only
  rw [bind_run hitems]
  cases place? index (m.env.heap.items r).length with
  | none => rfl
  | some i =>
    dsimp only [Option.elim_some]
    by_cases hnew : (m.env.heap.items r).length ≤ i
    · rw [if_pos hnew]
      by_cases hroom : i + 1 ≤ maxItems
      · rw [if_neg (by omega), makeRoom, if_pos hroom]
        rfl
      · rw [if_pos ⟨hnew, not_le.mp hroom⟩, makeRoom, if_neg hroom]
        rfl
    · rw [if_neg hnew, if_neg fun hboth => hnew hboth.1]
      rfl

lemma overfull_iff {r : ListRef} {n : Int64} {i : Nat} (hplace : place? n (h.items r).length = some i) :
    Overfull h (.list r) (.number n) ↔ (h.items r).length ≤ i ∧ maxItems < i + 1 := by
  rw [place?_eq_some_iff] at hplace
  rw [Overfull]
  split at hplace <;> omega

inductive EndsWrite (m : Machine) (site : Expr) (c s v : Value) (x : Container) :
    EStateM.Result Interrupt Machine Unit → Prop
  | misses {fault : Fault} : Misses m.env.heap c s →
      EndsWrite m site c s v x (.error (.failed (site.error fault)) m)
  | overfull {n : Nat} : ¬ Misses m.env.heap c s → Overfull m.env.heap c s →
      EndsWrite m site c s v x (.error (.unfinished (w := .makeRoom n)) m)
  | sets {h' : Heap} : ¬ Misses m.env.heap c s → ¬ Overfull m.env.heap c s → Sets m.env.heap c s v h' →
      m.env.heap.Spares h' (m.env.heap.containers.erase x) → EndsWrite m site c s v x (.ok () (m.withHeap h'))

lemma write_entry (again : Again) (site : Expr) (scope : ScopeId) (path : List Container) (depth : Nat)
    (v : Value) (hx : c.container? = some x) (hmem : x ∈ m.env.heap.containers)
    (hs : s.kind = .number ∨ s.kind = .string) :
    EndsWrite m site c s v x (writeAt again site scope c path (depth + 1) s v m) := by
  cases s with
  | list | map | function => rcases hs with hs | hs <;> cases hs
  | scalar t =>
    cases t with
    | undefined | boolean => rcases hs with hs | hs <;> cases hs
    | number n =>
      cases c with
      | scalar | function => cases hx
      | map r => exact .misses trivial
      | list r =>
        obtain rfl := Option.some.inj hx
        rw [writeAt_index]
        cases hplace : place? n (m.env.heap.items r).length with
        | none => exact .misses (place?_eq_none_iff.mp hplace)
        | some i =>
          have hfits : ¬ Misses m.env.heap (.list r) (.number n) := by
            intro hmiss
            rw [place?_eq_none_iff.mpr hmiss] at hplace
            cases hplace
          have hitems := Heap.items_setList hmem (putItem (m.env.heap.items r) i v)
          rw [Option.elim_some]
          split
          · exact .overfull hfits ((overfull_iff hplace).mpr ‹_›)
          · refine .sets hfits (mt (overfull_iff hplace).mp ‹_›) ⟨i, place?_eq_some_iff.mp hplace, ?_⟩
              (m.env.heap.spares_setList r _ _)
            rw [hitems]
            exact ⟨length_putItem _ i v, getElem?_putItem_self _ i v, fun k hk => getElem?_putItem_ne _ v hk⟩
    | string key =>
      cases c with
      | scalar | function => cases hx
      | list r => exact .misses trivial
      | map r =>
        obtain rfl := Option.some.inj hx
        have hentries := Heap.entries_setMap hmem (Entries.put (m.env.heap.entries r) key v) r
        rw [if_pos rfl] at hentries
        refine .sets id id ?_ (m.env.heap.spares_setMap r _ _)
        rw [Sets, hentries]
        exact ⟨Entries.keys_put _ key v, Entries.get?_put_self _ key v,
          fun other hne => Entries.get?_put_ne _ v hne⟩

lemma Sets.entryAt_self (hset : Sets h c s v h') : entryAt h' c s = some v := by
  rw [Sets.eq_def] at hset
  split at hset
  next r n =>
    obtain ⟨i, hplace, hlength, hi, -⟩ := hset
    have hplace' : place? n (h'.items r).length = some i := by
      -- an index from the end stays where it is, since only a new index makes the list longer
      rw [place?_eq_some_iff]
      split at hplace <;> omega
    show some (itemAt (h'.items r) n) = some v
    rw [itemAt, hplace', Option.bind_some, hi, Option.getD_some]
  next r key =>
    show some ((Entries.get? (h'.entries r) key).getD .undefined) = some v
    rw [hset.2.1, Option.getD_some]
  · cases hset

/-- The subscript names an entry of `c` however many there are: an index that is not negative and that a list
can have, or a key. -/
inductive Addresses : (c s : Value) → Prop
  | index {r : ListRef} {n : Int64} : 0 ≤ n.toInt → n.toInt < maxItems → Addresses (.list r) (.number n)
  | key {r : MapRef} {key : String} : Addresses (.map r) (.string key)

lemma Addresses.kind (hs : Addresses c s) : s.kind = .number ∨ s.kind = .string := by
  cases hs with
  | index => exact .inl rfl
  | key => exact .inr rfl

lemma Addresses.not_misses (hs : Addresses c s) : ¬ Misses h c s := by
  cases hs with
  | index hn =>
    rw [Misses]
    omega
  | key => exact id

lemma Addresses.not_overfull (hs : Addresses c s) : ¬ Overfull h c s := by
  cases hs with
  | index _ hroom =>
    rw [Overfull]
    omega
  | key => exact id

lemma itemAt_of_nonneg {items : List Value} {index : Int64} (hindex : 0 ≤ index.toInt) :
    itemAt items index = items[index.toInt.toNat]?.getD .undefined := by
  rw [itemAt, place?, if_pos hindex]
  rfl

lemma Sets.entryAt_ne (hset : Sets h c s v h') (hs : Addresses c s) (ht : Addresses c t) (hne : t ≠ s) :
    entryAt h' c t = entryAt h c t := by
  cases hs with
  | @index r n hn =>
    cases ht with
    | @index _ k hk =>
      obtain ⟨i, hi, hlength, -, hother⟩ := hset
      rw [if_pos hn] at hi
      have hki : k.toInt.toNat ≠ i := fun heq => hne (by rw [Int64.toInt_inj.mp (by omega : k.toInt = n.toInt)])
      show some (itemAt (h'.items r) k) = some (itemAt (h.items r) k)
      rw [itemAt_of_nonneg hk, itemAt_of_nonneg hk]
      by_cases hlt : k.toInt.toNat < (h'.items r).length
      · rw [hother _ hki hlt]
        split_ifs with hold
        · rfl
        · rw [List.getElem?_eq_none (not_lt.mp hold)]
          rfl
      · rw [List.getElem?_eq_none (by omega), List.getElem?_eq_none (by omega)]
  | @key r key =>
    cases ht with
    | @key _ other =>
      obtain ⟨-, -, hother⟩ := hset
      show some ((Entries.get? (h'.entries r) other).getD .undefined) =
        some ((Entries.get? (h.entries r) other).getD .undefined)
      rw [hother other fun heq => hne (by rw [heq])]

lemma EndsWrite.of_addresses {site : Expr} {r : EStateM.Result Interrupt Machine Unit}
    (hends : EndsWrite m site c s v x r) (hs : Addresses c s) : ∃ h', r = .ok () (m.withHeap h') ∧
      Sets m.env.heap c s v h' ∧ m.env.heap.Spares h' (m.env.heap.containers.erase x) := by
  cases hends with
  | misses hmiss => exact absurd hmiss hs.not_misses
  | overfull _ hfull => exact absurd hfull hs.not_overfull
  | sets _ _ hset hspares => exact ⟨_, rfl, hset, hspares⟩

lemma elements_run (again : Again) (scope : ScopeId) (hv : v.kind ≠ .function) :
    elements again scope v m = .ok (m.env.heap.elementsOf v) (m.withHeap (m.env.heap.toList v).2) := by
  cases v with
  | function => exact absurd rfl hv
  | list | map => rfl
  | scalar t => cases t <;> rfl

lemma write_entries (again : Again) (site : Expr) (scope : ScopeId) (path : List Container) (depth : Nat)
    (values : List Value) (hx : c.container? = some x) {ts : List Value}
    (hts : ∀ t ∈ ts, Addresses c t) (hnodup : ts.Nodup) (k : Nat)
    (hmem : x ∈ m.env.heap.containers) :
    ∃ h', (ts.zipIdx k).forM (fun t =>
        writeAt again site scope c path (depth + 1) t.1 (values.getD t.2 .undefined)) m =
          .ok () (m.withHeap h') ∧
      m.env.heap.Spares h' (m.env.heap.containers.erase x) ∧
      (∀ t, Addresses c t → t ∉ ts → entryAt h' c t = entryAt m.env.heap c t) ∧
      ∀ p ∈ ts.zipIdx k, entryAt h' c p.1 = some (values.getD p.2 .undefined) := by
  induction ts generalizing k m with
  | nil =>
    exact ⟨m.env.heap, rfl, (Heap.Extends.refl _).spares (Finset.erase_subset _ _), fun _ _ _ => rfl,
      by simp⟩
  | cons t ts ih =>
    obtain ⟨ht, hts⟩ := List.forall_mem_cons.mp hts
    obtain ⟨hnew, hnodup⟩ := List.nodup_cons.mp hnodup
    obtain ⟨h₁, hrun, hset, hspares⟩ :=
      (write_entry again site scope path depth (values.getD k .undefined) hx hmem ht.kind).of_addresses ht
    obtain ⟨h', hruns, hspares', hframe, hentries⟩ :=
      ih hts hnodup (k + 1) (m := m.withHeap h₁) (hspares.grows hmem)
    refine ⟨h', ?_, hspares.trans (hspares'.mono (Finset.erase_subset_erase x hspares.grows)), ?_, ?_⟩
    · rw [List.zipIdx_cons]
      exact (bind_run hrun).trans hruns
    · intro u hu hmemu
      rw [List.mem_cons, not_or] at hmemu
      exact (hframe u hu hmemu.2).trans (hset.entryAt_ne ht hu hmemu.1)
    · rw [List.zipIdx_cons]
      exact List.forall_mem_cons.mpr ⟨(hframe t ht hnew).trans hset.entryAt_self, hentries⟩

lemma writeAt_of_list (again : Again) (site : Expr) (scope : ScopeId) (path : List Container) (depth : Nat)
    (v : Value) (subs : ListRef) (hc : c.container?.isSome) :
    writeAt again site scope c path (depth + 1) (.list subs) v = (do
      let values ← elements again scope v
      let ts ← items subs
      ts.zipIdx.forM fun t =>
        writeAt again site scope c (.list subs :: path) depth t.1 (values.getD t.2 .undefined)) := by
  cases c with
  | scalar | function => cases hc
  | list | map => rfl

/-- The entry `e` of `c` is read as `v`: as it is, or as a function made anew for `c`. Its identity is one from
`lo` on, so it is not the same as a function that was made before. -/
inductive ReadAs (h : Heap) (c : Value) (lo : Nat) : (e v : Value) → Prop
  | itself {e : Value} : e.kind ≠ .function → ReadAs h c lo e e
  | anew {i j : Nat} {held : ScopeId} {f : Lambda} {owner : Value} : lo ≤ j →
      (i < lo → h.same (.function i held f owner) (.function j held f c) = false) →
      ReadAs h c lo (.function i held f owner) (.function j held f c)

lemma Delivers.readAs {lo hi : Nat} {e : Value} (hv : Delivers h h' c lo hi s v) (he : entryAt h c s = some e) :
    ReadAs h' c lo e v := by
  cases hv with
  | entry he' hk =>
    obtain rfl := Option.some.inj (he.symm.trans he')
    exact .itself hk
  | function he' hle =>
    obtain rfl := Option.some.inj (he.symm.trans he')
    refine .anew hle fun hlt => ?_
    rw [← Bool.not_eq_true, Heap.same_iff_bisimilar]
    exact not_bisimilar_functions (hlt.trans_le hle).ne
  | container hx =>
    rw [entryAt_container hx] at he
    cases he

lemma size_pos_of_mem (hx : x ∈ h.containers) : 0 < h.size := by
  cases x with
  | list r => exact Nat.add_pos_left (Nat.zero_lt_of_lt (Heap.list_mem_containers.mp hx)) _
  | map r => exact Nat.add_pos_right _ (Nat.zero_lt_of_lt (Heap.map_mem_containers.mp hx))

lemma read_entries (site : Expr) (hx : c.container? = some x) (hmem : x ∈ m.env.heap.containers) {q : ListRef}
    {es : List Value} (hes : (m.env.heap.items q).map (entryAt m.env.heap c) = es.map some) :
    ∃ w n, subscript site c (.list q) m = .ok (.list w) n ∧
      List.Forall₂ (ReadAs n.env.heap c m.identity) es (n.env.heap.items w) := by
  have hlen : (m.env.heap.items q).length = es.length := by simpa using congrArg List.length hes
  have hat (i : Nat) (hi : i < (m.env.heap.items q).length) (hi' : i < es.length) :
      entryAt m.env.heap c ((m.env.heap.items q).get ⟨i, hi⟩) = some (es.get ⟨i, hi'⟩) := by
    have hi'' := congrArg (·[i]?) hes
    simpa [hi, hi'] using hi''
  obtain ⟨size, hsize⟩ := Nat.exists_eq_succ_of_ne_zero (size_pos_of_mem hmem).ne'
  have hreadable : Readable m.env.heap c (m.env.heap.size + 1) (.list q) := by
    refine .container (hx ▸ rfl) rfl fun t ht => ?_
    obtain ⟨⟨i, hi⟩, rfl⟩ := List.get_of_mem ht
    rw [hsize]
    exact .entry (hat i hi (hlen ▸ hi))
  obtain ⟨v, n, hrun, -, hv⟩ := hreadable.delivers site [] m
  cases hv with
  | entry he => cases c <;> cases he
  | function he => cases c <;> cases he
  | @container _ _ _ y hq hy _ hk hlen' hall =>
    obtain rfl := Option.some.inj hq
    cases v with
    | scalar | function => cases hy
    | map => cases hk
    | list w =>
      obtain rfl := Option.some.inj hy
      refine ⟨w, n, hrun, List.forall₂_iff_get.mpr ⟨hlen.symm.trans hlen', fun i hi hi' => ?_⟩⟩
      have hiq : i < (m.env.heap.items q).length := hlen ▸ hi
      exact (hall _ (get_pair_mem_zip hiq hi')).readAs (hat i hiq hi)

lemma map_getD_zipIdx (ts values : List Value) (k : Nat) :
    (ts.zipIdx k).map (fun t => values.getD t.2 .undefined) = (values.drop k).takeD ts.length .undefined := by
  induction ts generalizing k with
  | nil => rfl
  | cons t ts ih =>
    rw [List.zipIdx_cons, List.map_cons, ih, List.length_cons, List.takeD_succ, List.head?_drop, List.tail_drop,
      List.getD_eq_getElem?_getD]

lemma write_list (again : Again) (site : Expr) (scope : ScopeId) (path : List Container) (depth : Nat)
    (hx : c.container? = some x) (hmem : x ∈ m.env.heap.containers) (hv : v.kind ≠ .function) {subs : ListRef}
    (hsubs : .list subs ∈ m.env.heap.containers) (hnodup : (m.env.heap.items subs).Nodup)
    (hall : ∀ t ∈ m.env.heap.items subs, Addresses c t) :
    ∃ h', writeAt again site scope c path (depth + 2) (.list subs) v m = .ok () (m.withHeap h') ∧
      m.env.heap.Spares h' (m.env.heap.containers.erase x) ∧
      (m.env.heap.items subs).map (entryAt h' c) =
        ((m.env.heap.elementsOf v).takeD (m.env.heap.items subs).length .undefined).map some := by
  have hext := m.env.heap.extends_toList v
  have hitems : (m.env.heap.toList v).2.items subs = m.env.heap.items subs := hext.same (.list subs) hsubs
  obtain ⟨h', hrun, hspares, -, hentries⟩ := write_entries again site scope (.list subs :: path) depth
    (m.env.heap.elementsOf v) hx hall hnodup 0 (m := m.withHeap (m.env.heap.toList v).2) (hext.grows hmem)
  refine ⟨h', ?_, (hext.spares (Finset.erase_subset x _)).trans
    (hspares.mono (Finset.erase_subset_erase x hext.grows)), ?_⟩
  · have hread : items subs (m.withHeap (m.env.heap.toList v).2) =
        .ok (m.env.heap.items subs) (m.withHeap (m.env.heap.toList v).2) := by
      rw [← hitems]
      rfl
    rw [writeAt_of_list again site scope path (depth + 1) v subs (hx ▸ rfl),
      bind_run (elements_run again scope hv), bind_run hread]
    exact hrun
  · calc (m.env.heap.items subs).map (entryAt h' c)
      _ = ((m.env.heap.items subs).zipIdx.map Prod.fst).map (entryAt h' c) := by rw [List.zipIdx_map_fst]
      _ = (m.env.heap.items subs).zipIdx.map fun t => some ((m.env.heap.elementsOf v).getD t.2 .undefined) := by
        rw [List.map_map]
        exact List.map_congr_left hentries
      _ = _ := by
        rw [← List.drop_zero (l := m.env.heap.elementsOf v), ← map_getD_zipIdx, List.map_map]
        rfl

lemma assign_subscript {m₀ m₁ : Machine} {left right : Expr} (loc : Location)
    (hleft : again left scope none m₀ = .ok c m₁) (hright : again right scope none m₁ = .ok s m) :
    assign again scope (.binary loc .subscript left right) v m₀ =
      writeAt again (.binary loc .subscript left right) scope c [] m.settings.budget s v m := by
  have hbudget : budget m = .ok m.settings.budget m := rfl
  rw [assign, bind_run hleft, bind_run hright, bind_run hbudget]

/-- An assignment to one entry fails exactly if the subscript misses the container, and breaks off exactly if
there is no room for a list with the new index; nothing is done then. Otherwise the value is read there next and
nothing else has changed. Different indices counted from the start for which there is room, or different keys,
take the elements of the value in their order, and `undefined` where there are too few; so they are read next,
functions as new ones of the container. -/
theorem entries_written_then_read {m₀ m₁ : Machine} {left right : Expr} (loc : Location)
    (hleft : again left scope none m₀ = .ok c m₁) (hright : again right scope none m₁ = .ok s m)
    (hx : c.container? = some x) (hmem : x ∈ m.env.heap.containers) (hv : v.kind ≠ .function)
    (hbudget : 2 ≤ m.settings.budget) :
    let target : Expr := .binary loc .subscript left right
    (s.kind = .number ∨ s.kind = .string →
      (Misses m.env.heap c s ∧ ∃ fault,
        assign again scope target v m₀ = .error (.failed (target.error fault)) m) ∨
      (¬ Misses m.env.heap c s ∧ Overfull m.env.heap c s ∧ ∃ n,
        assign again scope target v m₀ = .error (.unfinished (w := .makeRoom n)) m) ∨
      ¬ Misses m.env.heap c s ∧ ¬ Overfull m.env.heap c s ∧
        ∃ h', assign again scope target v m₀ = .ok () (m.withHeap h') ∧
          (∀ site, subscript site c s (m.withHeap h') = .ok v (m.withHeap h')) ∧
          Sets m.env.heap c s v h' ∧ m.env.heap.Spares h' (m.env.heap.containers.erase x)) ∧
    ∀ subs, s = .list subs → .list subs ∈ m.env.heap.containers → (m.env.heap.items subs).Nodup →
      (∀ t ∈ m.env.heap.items subs, Addresses c t) →
      ∃ h', assign again scope target v m₀ = .ok () (m.withHeap h') ∧
        m.env.heap.Spares h' (m.env.heap.containers.erase x) ∧
        ∀ site q, h'.items q = m.env.heap.items subs →
          ∃ w n, subscript site c (.list q) (m.withHeap h') = .ok (.list w) n ∧
            List.Forall₂ (ReadAs n.env.heap c m.identity)
              ((m.env.heap.elementsOf v).takeD (m.env.heap.items subs).length .undefined)
              (n.env.heap.items w) := by
  intro target
  obtain ⟨depth, hdepth⟩ := Nat.exists_eq_add_of_le' hbudget
  rw [assign_subscript loc hleft hright, hdepth]
  constructor
  · intro hs
    have hends := write_entry again target scope [] (depth + 1) v hx hmem hs
    generalize writeAt again target scope c [] (depth + 2) s v m = r at hends ⊢
    cases hends with
    | misses hmiss => exact .inl ⟨hmiss, _, rfl⟩
    | overfull hfits hfull => exact .inr (.inl ⟨hfits, hfull, _, rfl⟩)
    | @sets h' hfits hroom hset hspares =>
      refine .inr (.inr ⟨hfits, hroom, h', rfl, fun site => ?_, hset, hspares⟩)
      rw [subscript_of_entry (m := m.withHeap h') site hset.entryAt_self, own_of_kind_ne hv]
      rfl
  · rintro subs rfl hsubs hnodup hall
    obtain ⟨h', hrun, hspares, hentries⟩ := write_list again target scope [] depth hx hmem hv hsubs hnodup hall
    refine ⟨h', hrun, hspares, fun site q hq => ?_⟩
    rw [← hq] at hentries ⊢
    exact read_entries (m := m.withHeap h') site hx (hspares.grows hmem) hentries

def namedShelf : Machine :=
  let f : Value := .function 0 Environment.global ⟨[], .scalar .builtin (.number 1)⟩ .undefined
  let lists := shelf.lists ++ #[[.number 1, .number 3, .number 0], [f, .number 7]]
  let names : List (String × Value) :=
    [("c", .list ⟨0⟩), ("i", .list ⟨1⟩), ("v", .list ⟨2⟩), ("f", .list ⟨3⟩), ("j", .list ⟨4⟩)]
  { shelfMachine with env := ⟨⟨lists, #[names]⟩, Environment.initial.arena⟩ }

/-- Three subscripts, of which one needs filling up, take a function and a number; there is nothing left for the
third. -/
theorem shelf_written_then_read :
    let c : Expr := .var .builtin "c"
    let three : Expr := .scalar .builtin (.number 3)
    let j : Expr := .var .builtin "j"
    let heap := namedShelf.env.heap
    let f : Value := .function 0 Environment.global ⟨[], .scalar .builtin (.number 1)⟩ .undefined
    evaluate c Environment.global none namedShelf = .ok (.list ⟨0⟩) namedShelf ∧
      evaluate three Environment.global none namedShelf = .ok (.number 3) namedShelf ∧
      evaluate j Environment.global none namedShelf = .ok (.list ⟨4⟩) namedShelf ∧
      .list ⟨0⟩ ∈ heap.containers ∧ .list ⟨4⟩ ∈ heap.containers ∧
      heap.items ⟨4⟩ = [.number 1, .number 3, .number 0] ∧ heap.items ⟨5⟩ = [f, .number 7] ∧
      2 ≤ namedShelf.settings.budget ∧
      (∃ h', assign evaluate Environment.global (.binary .builtin .subscript c three) (.list ⟨2⟩) namedShelf =
          .ok () (namedShelf.withHeap h') ∧
        subscript c (.list ⟨0⟩) (.number 3) (namedShelf.withHeap h') =
          .ok (.list ⟨2⟩) (namedShelf.withHeap h') ∧
        Sets heap (.list ⟨0⟩) (.number 3) (.list ⟨2⟩) h') ∧
      ∃ h' w n, assign evaluate Environment.global (.binary .builtin .subscript c j) (.list ⟨5⟩) namedShelf =
          .ok () (namedShelf.withHeap h') ∧
        subscript c (.list ⟨0⟩) (.list ⟨4⟩) (namedShelf.withHeap h') = .ok (.list w) n ∧
        List.Forall₂ (ReadAs n.env.heap (.list ⟨0⟩) namedShelf.identity) [f, .number 7, .undefined]
          (n.env.heap.items w) := by
  intro c three j heap f
  have hc : evaluate c Environment.global none namedShelf = .ok (.list ⟨0⟩) namedShelf := rfl
  have hthree : evaluate three Environment.global none namedShelf = .ok (.number 3) namedShelf := rfl
  have hj : evaluate j Environment.global none namedShelf = .ok (.list ⟨4⟩) namedShelf := rfl
  have hmem : .list ⟨0⟩ ∈ heap.containers := by decide
  have hsubs : .list ⟨4⟩ ∈ heap.containers := by decide
  have hnodup : (heap.items ⟨4⟩).Nodup := by simp [heap, namedShelf, shelf, Heap.items]
  have hv (r : ListRef) : (Value.list r).kind ≠ .function := by simp [Value.kind]
  have hbudget : 2 ≤ namedShelf.settings.budget := by decide
  have haddress (n : Int64) (hn : 0 ≤ n.toInt ∧ n.toInt < maxItems) : Addresses (.list ⟨0⟩) (.number n) :=
    .index hn.1 hn.2
  refine ⟨hc, hthree, hj, hmem, hsubs, rfl, rfl, hbudget, ?_, ?_⟩
  · have hthird := haddress 3 (by decide)
    rcases (entries_written_then_read .builtin hc hthree rfl hmem (hv ⟨2⟩) hbudget).1 (.inl rfl) with
      ⟨hmiss, -⟩ | ⟨-, hfull, -⟩ | ⟨-, -, h', hrun, hread, hset, -⟩
    · exact absurd hmiss hthird.not_misses
    · exact absurd hfull hthird.not_overfull
    · exact ⟨h', hrun, hread c, hset⟩
  · have hall : ∀ t ∈ heap.items ⟨4⟩, Addresses (.list ⟨0⟩) t := by
      have hthird := haddress 0 (by decide)
      exact List.forall_mem_cons.mpr ⟨haddress 1 (by decide), List.forall_mem_cons.mpr
        ⟨haddress 3 (by decide), List.forall_mem_singleton.mpr hthird⟩⟩
    obtain ⟨h', hrun, hspares, hread⟩ :=
      (entries_written_then_read .builtin hc hj rfl hmem (hv ⟨5⟩) hbudget).2 ⟨4⟩ rfl hsubs hnodup hall
    obtain ⟨w, n, hw, hread⟩ := hread c ⟨4⟩ (hspares.same (.list ⟨4⟩) (by decide))
    exact ⟨h', w, n, hrun, hw, hread⟩

theorem function_written_differs_from_read :
    let c : Expr := .var .builtin "c"
    let i : Expr := .var .builtin "i"
    ∃ n w n', evaluate c Environment.global none namedShelf = .ok (.list ⟨0⟩) namedShelf ∧
      evaluate i Environment.global none namedShelf = .ok (.list ⟨1⟩) namedShelf ∧
      namedShelf.env.heap.items ⟨1⟩ = [.number 0] ∧ (namedShelf.env.heap.items ⟨3⟩).length = 1 ∧
      assign evaluate Environment.global (.binary .builtin .subscript c i) (.list ⟨3⟩) namedShelf = .ok () n ∧
      subscript c (.list ⟨0⟩) (.list ⟨1⟩) n = .ok w n' ∧ n'.env.heap.same w (.list ⟨3⟩) = false :=
  ⟨_, _, _, rfl, rfl, rfl, rfl, rfl, rfl, by cbv⟩

end Eval

end DiceLang

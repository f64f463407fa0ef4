import DiceLang.Proofs.Distribution.Counting
import DiceLang.Proofs.Eval.Copy
import DiceLang.Proofs.Lists

/-! Reading entries of containers. Functions are made anew for the container that they are read from, so a
second reading gives an equal value exactly if no function is read. -/

namespace DiceLang

lemma Value.function_or (v : Value) :
    (∃ i held f owner, v = .function i held f owner) ∨ v.kind ≠ .function := by
  cases v with
  | function i held f owner => exact .inl ⟨i, held, f, owner, rfl⟩
  | scalar s => exact .inr (by cases s <;> simp [kind, Scalar.kind])
  | list | map => exact .inr (by simp [kind])

namespace Heap

variable {h : Heap} {a b : Value} {x y : Container}

lemma bisimilar_iff_contents (hk : a.kind = b.kind) (ha : a.container? = some x) (hb : b.container? = some y) :
    h.Bisimilar a b ↔ List.Forall₂ h.Bisimilar (h.contents x) (h.contents y) := by
  rw [← inside_of_container? ha, ← inside_of_container? hb]
  refine ⟨fun hab => hab.matches.2, fun hall => ?_⟩
  have hmatches : h.Matches h.Bisimilar a b := ⟨face_of_length hk ha hall.length_eq, hall⟩
  exact bisimilar_of_matches (R := h.Matches h.Bisimilar)
    (fun v w hvw => hvw.mono fun _ _ hb => hb.matches) hmatches

end Heap

namespace Eval

variable {h h' h'' : Heap} {c s e v w : Value} {x y : Container} {site : Expr} {m n : Machine}
  {path : List Container} {depth lo hi : Nat}

def entryAt (h : Heap) (c s : Value) : Option Value :=
  match c, s with
  | .list r, .number n => some (itemAt (h.items r) n)
  | .map r, .string key => some ((Entries.get? (h.entries r) key).getD .undefined)
  | _, _ => none

def misfit (c s : Value) : Fault :=
  match s with
  | .undefined | .boolean _ | .function .. => .invalidSubscript s.kind
  | _ => .subscriptContainer c.kind s.kind

def assemble (h : Heap) (x : Container) (vs : List Value) : Eval Value :=
  match x with
  | .list _ => newList vs
  | .map r => newMap (((h.entries r).map Prod.fst).zip vs)

lemma mapM_entries (f : Value → Eval Value) (es : List (String × Value)) :
    es.mapM (fun e => do return (e.1, ← f e.2)) =
      (Entries.values es).mapM f >>= fun vs => pure ((es.map Prod.fst).zip vs) := by
  induction es with
  | nil => rfl
  | cons e es ih =>
    have hvalues : Entries.values (e :: es) = e.2 :: Entries.values es := rfl
    rw [List.mapM_cons, ih, hvalues, List.mapM_cons]
    simp

lemma readAt_of_entry (site : Expr) (depth : Nat) (he : entryAt h c s = some e) :
    readAt h site c path (depth + 1) s = own c e := by
  rw [entryAt.eq_def] at he
  split at he
  · obtain rfl := Option.some.inj he
    rfl
  · obtain rfl := Option.some.inj he
    rfl
  · cases he

lemma readAt_of_container (site : Expr) (depth : Nat) (hc : c.container?.isSome) (hs : s.container? = some x) :
    readAt h site c path (depth + 1) s =
      (h.contents x).mapM (readAt h site c (x :: path) depth) >>= assemble h x := by
  have hmaps (r : MapRef) :
      ((h.entries r).mapM fun e => do return (e.1, ← readAt h site c (.map r :: path) depth e.2)) >>= newMap =
      (h.contents (.map r)).mapM (readAt h site c (.map r :: path) depth) >>= assemble h (.map r) := by
    rw [mapM_entries, bind_assoc]
    rfl
  cases s with
  | scalar | function => cases hs
  | list subs =>
    obtain rfl := Option.some.inj hs
    cases c with
    | scalar | function => cases hc
    | list | map => rfl
  | map subs =>
    obtain rfl := Option.some.inj hs
    rw [← hmaps]
    cases c with
    | scalar | function => cases hc
    | list | map => rfl

lemma readAt_of_misfit (site : Expr) (depth : Nat) (he : entryAt h c s = none)
    (hs : c.container?.isSome → s.container? = none) :
    readAt h site c path (depth + 1) s = fail site (misfit c s) := by
  rw [readAt.eq_def]
  dsimp only
  split
  · rfl
  · rfl
  · rfl
  · cases he
  · cases he
  · cases hs rfl
  · cases hs rfl
  · cases hs rfl
  · cases hs rfl
  next hundefined hboolean hfunction _ _ _ _ _ _ =>
    rw [misfit.eq_def]
    split
    · exact absurd rfl hundefined
    · exact absurd rfl (hboolean _)
    · exact absurd rfl (hfunction _ _ _ _)
    · rfl

inductive Readable (h : Heap) (c : Value) : (depth : Nat) → (s : Value) → Prop
  | entry {depth : Nat} {s e : Value} : entryAt h c s = some e → Readable h c (depth + 1) s
  | container {depth : Nat} {s : Value} {x : Container} : c.container?.isSome → s.container? = some x →
      (∀ t ∈ h.contents x, Readable h c depth t) → Readable h c (depth + 1) s

lemma ok_of_mapM {α β : Type} {f : α → Eval β} {xs : List α} {ys : List β} (hxs : xs.mapM f m = .ok ys n) :
    ∀ a ∈ xs, ∃ m' b n', f a m' = .ok b n' := by
  induction xs generalizing m n ys with
  | nil => exact List.forall_mem_nil _
  | cons a xs ih =>
    rw [List.mapM_cons] at hxs
    obtain ⟨b, m₁, ha, hxs⟩ := ok_of_bind hxs
    obtain ⟨bs, m₂, hxs, -⟩ := ok_of_bind hxs
    exact List.forall_mem_cons.mpr ⟨⟨m, b, m₁, ha⟩, ih hxs⟩

lemma readable_of_ok (hr : readAt h site c path depth s m = .ok v n) : Readable h c depth s := by
  induction depth generalizing s m v n path with
  | zero => cases hr
  | succ depth ih =>
    cases he : entryAt h c s with
    | some e => exact .entry he
    | none =>
      by_cases hs : c.container?.isSome ∧ s.container?.isSome
      · obtain ⟨hc, hs⟩ := hs
        obtain ⟨x, hx⟩ := Option.isSome_iff_exists.mp hs
        rw [readAt_of_container site depth hc hx] at hr
        obtain ⟨vs, m', hvs, -⟩ := ok_of_bind hr
        refine .container hc hx fun t ht => ?_
        obtain ⟨_, _, _, hrun⟩ := ok_of_mapM hvs t ht
        exact ih hrun
      · rw [readAt_of_misfit site depth he fun hc => by simpa [hc] using hs] at hr
        cases hr

lemma Readable.mono (hr : Readable h c depth s) {depth' : Nat} (hle : depth ≤ depth') :
    Readable h c depth' s := by
  induction hr generalizing depth' with
  | entry he =>
    obtain ⟨k, rfl⟩ := Nat.exists_eq_add_of_le' hle
    exact .entry he
  | @container depth s x hc hx _ ih =>
    obtain ⟨k, rfl⟩ := Nat.exists_eq_add_of_le' hle
    exact .container hc hx fun t ht => ih t ht (Nat.le_add_left depth k)

structure Grown (m n : Machine) : Prop where
  heap : m.env.heap.Extends n.env.heap
  identity : m.identity ≤ n.identity

lemma Grown.refl (m : Machine) : Grown m m := ⟨.refl _, le_rfl⟩

lemma Grown.trans {n' : Machine} (h : Grown m n) (h' : Grown n n') : Grown m n' :=
  ⟨h.heap.trans h'.heap, h.identity.trans h'.identity⟩

inductive Delivers (h h' : Heap) (c : Value) (lo hi : Nat) : (s v : Value) → Prop
  | entry {s e : Value} : entryAt h c s = some e → e.kind ≠ .function → Delivers h h' c lo hi s e
  | function {s owner : Value} {i j : Nat} {held : ScopeId} {f : Lambda} :
      entryAt h c s = some (.function i held f owner) → lo ≤ j → j < hi →
      Delivers h h' c lo hi s (.function j held f c)
  | container {s v : Value} {x y : Container} : s.container? = some x → v.container? = some y →
      y ∈ h'.containers → s.kind = v.kind → (h.contents x).length = (h'.contents y).length →
      (∀ p ∈ (h.contents x).zip (h'.contents y), Delivers h h' c lo hi p.1 p.2) → Delivers h h' c lo hi s v

lemma Delivers.mono (hv : Delivers h h' c lo hi s v) {lo' hi' : Nat} (he : h'.Extends h'') (hlo : lo' ≤ lo)
    (hhi : hi ≤ hi') : Delivers h h'' c lo' hi' s v := by
  induction hv with
  | entry hentry hk => exact .entry hentry hk
  | function hentry hle hlt => exact .function hentry (hlo.trans hle) (hlt.trans_le hhi)
  | container hx hy hmem hk hlen _ ih =>
    rw [← (he.same _ hmem).contents] at hlen ih
    exact .container hx hy (he.grows hmem) hk hlen ih

lemma own_of_kind_ne (hk : e.kind ≠ .function) : own c e = pure e := by
  cases e with
  | scalar | list | map => rfl
  | function => exact absurd rfl hk

lemma own_delivers (hentry : entryAt h c s = some e) (m : Machine) : ∃ v n, own c e m = .ok v n ∧
    Grown m n ∧ Delivers h n.env.heap c m.identity n.identity s v := by
  rcases e.function_or with ⟨i, held, f, owner, rfl⟩ | hk
  · exact ⟨_, _, rfl, ⟨.refl _, Nat.le_succ _⟩, .function hentry le_rfl (Nat.lt_succ_self _)⟩
  · rw [own_of_kind_ne hk]
    exact ⟨e, m, rfl, .refl m, .entry hentry hk⟩

lemma mapM_delivers {f : Value → Eval Value} {ss : List Value}
    (hf : ∀ s ∈ ss, ∀ m, ∃ v n, f s m = .ok v n ∧ Grown m n ∧
      Delivers h n.env.heap c m.identity n.identity s v) (m : Machine) :
    ∃ vs n, ss.mapM f m = .ok vs n ∧ Grown m n ∧
      List.Forall₂ (Delivers h n.env.heap c m.identity n.identity) ss vs := by
  induction ss generalizing m with
  | nil => exact ⟨[], m, rfl, .refl m, .nil⟩
  | cons s ss ih =>
    obtain ⟨hs, hss⟩ := List.forall_mem_cons.mp hf
    obtain ⟨v, m₁, hrun, hgrown, hv⟩ := hs m
    obtain ⟨vs, m₂, hruns, hgrown', hvs⟩ := ih hss m₁
    refine ⟨v :: vs, m₂, ?_, hgrown.trans hgrown', .cons (hv.mono hgrown'.heap le_rfl hgrown'.identity) ?_⟩
    · rw [List.mapM_cons, bind_run hrun, bind_run hruns]
      rfl
    · exact hvs.imp fun s v hsv => hsv.mono (.refl _) hgrown.identity le_rfl

lemma assemble_run (x : Container) {vs : List Value} (hlen : (h.contents x).length = vs.length) (m : Machine) :
    ∃ v y n, assemble h x vs m = .ok v n ∧ Grown m n ∧ v.container? = some y ∧ y ∈ n.env.heap.containers ∧
      x.value.kind = v.kind ∧ n.env.heap.contents y = vs := by
  cases x with
  | list r =>
    exact ⟨_, _, _, rfl, ⟨m.env.heap.extends_newList vs, le_rfl⟩, rfl, (m.env.heap.list_newList_mem vs).1, rfl,
      m.env.heap.items_newList vs⟩
  | map r =>
    let es := ((h.entries r).map Prod.fst).zip vs
    have hlen' : vs.length ≤ ((h.entries r).map Prod.fst).length := by
      simpa [Heap.contents, Entries.values] using hlen.ge
    refine ⟨_, _, _, rfl, ⟨m.env.heap.extends_newMap es, le_rfl⟩, rfl, (m.env.heap.map_newMap_mem es).1,
      rfl, ?_⟩
    exact (congrArg Entries.values (m.env.heap.entries_newMap es)).trans (List.map_snd_zip hlen')

lemma Readable.delivers (hr : Readable h c depth s) (site : Expr) (path : List Container) (m : Machine) :
    ∃ v n, readAt h site c path depth s m = .ok v n ∧ Grown m n ∧
      Delivers h n.env.heap c m.identity n.identity s v := by
  induction hr generalizing m path with
  | entry he =>
    rw [readAt_of_entry site _ he]
    exact own_delivers he m
  | @container depth s x hc hx _ ih =>
    rw [readAt_of_container site depth hc hx]
    obtain ⟨vs, m₁, hruns, hgrown, hvs⟩ := mapM_delivers (fun t ht => ih t ht (x :: path)) m
    obtain ⟨v, y, n, hrun, hgrown', hy, hmem, hk, hcontents⟩ := assemble_run x hvs.length_eq m₁
    refine ⟨v, n, (bind_run hruns).trans hrun, hgrown.trans hgrown', .container hx hy hmem ?_ ?_ fun p hp => ?_⟩
    · rw [← Heap.value_of_container? hx, hk]
    · rw [hcontents, hvs.length_eq]
    · rw [hcontents] at hp
      exact ((List.forall₂_iff_zip.mp hvs).2 hp).mono hgrown'.heap le_rfl hgrown'.identity

/-- The entries that a subscript names, itself or by the subscripts in it. -/
inductive Selects (h : Heap) (c : Value) : (s e : Value) → Prop
  | entry {s e : Value} : entryAt h c s = some e → Selects h c s e
  | inside {s t e : Value} {x : Container} : s.container? = some x → t ∈ h.contents x → Selects h c t e →
      Selects h c s e

lemma entryAt_container (hs : s.container? = some x) : entryAt h c s = none := by
  cases s with
  | scalar | function => cases hs
  | list | map => cases c <;> rfl

lemma selects_iff_of_entry (he : entryAt h c s = some e) : Selects h c s w ↔ w = e := by
  constructor
  · intro hw
    cases hw with
    | entry hw => exact Option.some.inj (hw.symm.trans he)
    | inside hx =>
      rw [entryAt_container hx] at he
      cases he
  · rintro rfl
    exact .entry he

lemma selects_iff_of_container (hx : s.container? = some x) :
    Selects h c s w ↔ ∃ t ∈ h.contents x, Selects h c t w := by
  constructor
  · intro hw
    cases hw with
    | entry hw =>
      rw [entryAt_container hx] at hw
      cases hw
    | inside hx' ht hw =>
      obtain rfl := Option.some.inj (hx.symm.trans hx')
      exact ⟨_, ht, hw⟩
  · rintro ⟨t, ht, hw⟩
    exact .inside hx ht hw

lemma Selects.kind_ne (he : Selects h c s e) (hc : ∀ v ∈ h.inside c, v.kind ≠ .function) :
    e.kind ≠ .function := by
  induction he with
  | inside _ _ _ ih => exact ih
  | @entry s e he =>
    rw [entryAt.eq_def] at he
    split at he
    · obtain rfl := Option.some.inj he
      exact itemAt_of_forall (P := fun v => v.kind ≠ .function) (by decide) hc _
    · obtain rfl := Option.some.inj he
      cases hget : Entries.get? _ _ with
      | none => decide
      | some v =>
        exact Entries.forall_of_get? (P := fun v => v.kind ≠ .function)
          (fun e he => hc e.2 (List.mem_map_of_mem he)) hget
    · cases he

lemma not_bisimilar_functions {i j : Nat} {held held' : ScopeId} {f f' : Lambda} {o o' : Value} (hne : i ≠ j) :
    ¬ h.Bisimilar (.function i held f o) (.function j held' f' o') :=
  fun hb => hne (Heap.Face.function.inj hb.matches.1)

lemma get_pair_mem_zip {as bs : List Value} {i : Nat} (hi : i < as.length) (hi' : i < bs.length) :
    (as.get ⟨i, hi⟩, bs.get ⟨i, hi'⟩) ∈ as.zip bs := by
  refine List.mem_iff_getElem.mpr ⟨i, by simp [hi, hi'], ?_⟩
  simp

lemma Delivers.bisimilar_iff {mid : Nat} (hv : Delivers h h' c lo mid s v) (hw : Delivers h h' c mid hi s w) :
    h'.Bisimilar v w ↔ ∀ e, Selects h c s e → e.kind ≠ .function := by
  induction hv generalizing w with
  | @entry s e he hk =>
    simp only [selects_iff_of_entry he, forall_eq]
    cases hw with
    | entry he' =>
      obtain rfl := Option.some.inj (he.symm.trans he')
      exact ⟨fun _ => hk, fun _ => .refl h' e⟩
    | function he' =>
      obtain rfl := Option.some.inj (he.symm.trans he')
      exact absurd rfl hk
    | container hx =>
      rw [entryAt_container hx] at he
      cases he
  | @function s owner i j held f he _ hlt =>
    simp only [selects_iff_of_entry he, forall_eq]
    cases hw with
    | entry he' hk =>
      obtain rfl := Option.some.inj (he.symm.trans he')
      exact absurd rfl hk
    | function he' hle =>
      exact iff_of_false (not_bisimilar_functions (hlt.trans_le hle).ne) fun hk => hk rfl
    | container hx =>
      rw [entryAt_container hx] at he
      cases he
  | @container s v x y hx hy _ hk hlen _ ih =>
    cases hw with
    | entry he =>
      rw [entryAt_container hx] at he
      cases he
    | function he =>
      rw [entryAt_container hx] at he
      cases he
    | @container _ _ _ z hx' hz _ hk' hlen' hall =>
      obtain rfl := Option.some.inj (hx.symm.trans hx')
      rw [Heap.bisimilar_iff_contents (hk.symm.trans hk') hy hz]
      have hat (i : Nat) (hi : i < (h.contents x).length) :
          h'.Bisimilar ((h'.contents y).get ⟨i, hlen ▸ hi⟩) ((h'.contents z).get ⟨i, hlen' ▸ hi⟩) ↔
            ∀ e, Selects h c ((h.contents x).get ⟨i, hi⟩) e → e.kind ≠ .function :=
        ih _ (get_pair_mem_zip hi _) (hall _ (get_pair_mem_zip hi _))
      simp only [selects_iff_of_container hx]
      constructor
      · rintro hall e ⟨t, ht, he⟩
        obtain ⟨⟨i, hi⟩, rfl⟩ := List.get_of_mem ht
        exact (hat i hi).mp ((List.forall₂_iff_get.mp hall).2 i _ _) e he
      · intro hfree
        refine List.forall₂_iff_get.mpr ⟨hlen.symm.trans hlen', fun i hi _ => ?_⟩
        exact (hat i (hlen ▸ hi)).mpr fun e he => hfree e ⟨_, List.get_mem _ _, he⟩

lemma entryAt_congr (he : h.Extends h') (hc : c.Stored h.containers) (s : Value) :
    entryAt h' c s = entryAt h c s := by
  cases c with
  | scalar | function => rfl
  | list r =>
    have hr : h'.items r = h.items r := he.same (.list r) hc
    cases s with
    | list | map | function => rfl
    | scalar t => cases t with
      | number n => exact congrArg (fun vs => some (itemAt vs n)) hr
      | undefined | string | boolean => rfl
  | map r =>
    have hr : h'.entries r = h.entries r := he.same (.map r) hc
    cases s with
    | list | map | function => rfl
    | scalar t => cases t with
      | string key => exact congrArg (fun es => some ((Entries.get? es key).getD .undefined)) hr
      | undefined | number | boolean => rfl

lemma assemble_congr (he : h.Extends h') (hx : x ∈ h.containers) : assemble h' x = assemble h x := by
  cases x with
  | list r => rfl
  | map r =>
    have hr : h'.entries r = h.entries r := he.same (.map r) hx
    funext vs
    rw [assemble, assemble, hr]

lemma readAt_congr (hh : h.Intact) (he : h.Extends h') (hc : c.Stored h.containers) (site : Expr) (depth : Nat)
    (hs : s.Stored h.containers) : readAt h' site c path depth s = readAt h site c path depth s := by
  induction depth generalizing s path with
  | zero => rfl
  | succ depth ih =>
    have hsame := entryAt_congr he hc s
    cases hentry : entryAt h c s with
    | some e => rw [readAt_of_entry site depth hentry, readAt_of_entry site depth (hsame.trans hentry)]
    | none =>
      by_cases hboth : c.container?.isSome ∧ s.container?.isSome
      · obtain ⟨hc', hs'⟩ := hboth
        obtain ⟨x, hx⟩ := Option.isSome_iff_exists.mp hs'
        have hmem := hs.mem hx
        rw [readAt_of_container site depth hc' hx, readAt_of_container site depth hc' hx,
          assemble_congr he hmem, (he.same x hmem).contents]
        congr 1
        exact mapM_congr fun t ht => ih (hh.contents x t ht)
      · have hmisfit : c.container?.isSome → s.container? = none := fun hc => by simpa [hc] using hboth
        rw [readAt_of_misfit site depth hentry hmisfit,
          readAt_of_misfit site depth (hsame.trans hentry) hmisfit]

lemma size_le_of_extends (he : h.Extends h') : h.size ≤ h'.size := by
  have hlists : h.lists.size ≤ h'.lists.size := by
    by_contra hlt
    have hmem := he.grows (Heap.list_mem_containers.mpr (not_le.mp hlt) : .list ⟨h'.lists.size⟩ ∈ h.containers)
    exact absurd (Heap.list_mem_containers.mp hmem) (Nat.lt_irrefl _)
  have hmaps : h.maps.size ≤ h'.maps.size := by
    by_contra hlt
    have hmem := he.grows (Heap.map_mem_containers.mpr (not_le.mp hlt) : .map ⟨h'.maps.size⟩ ∈ h.containers)
    exact absurd (Heap.map_mem_containers.mp hmem) (Nat.lt_irrefl _)
  exact Nat.add_le_add hlists hmaps

lemma read_again (hh : m.env.heap.Intact) (hc : c.Stored m.env.heap.containers)
    (hs : s.Stored m.env.heap.containers) (hread : subscript site c s m = .ok v n) :
    ∃ w n', subscript site c s n = .ok w n' ∧
      (n'.env.heap.same v w = true ↔ ∀ e, Selects m.env.heap c s e → e.kind ≠ .function) := by
  have hread : readAt m.env.heap site c [] (m.env.heap.size + 1) s m = .ok v n := hread
  have hreadable := readable_of_ok hread
  obtain ⟨v', n₁, hrun, hgrown, hv⟩ := hreadable.delivers site [] m
  obtain ⟨rfl, rfl⟩ := EStateM.Result.ok.inj (hread.symm.trans hrun)
  have hagain := hreadable.mono (Nat.succ_le_succ (size_le_of_extends hgrown.heap))
  obtain ⟨w, n', hrun', hgrown', hw⟩ := hagain.delivers site [] n
  refine ⟨w, n', ?_, ?_⟩
  · rw [← readAt_congr hh hgrown.heap hc site _ hs] at hrun'
    exact hrun'
  · rw [Heap.same_iff_bisimilar]
    exact (hv.mono hgrown'.heap le_rfl le_rfl).bisimilar_iff hw

lemma get?_of_find? {es : List (String × Value)} {p : String × Value → Bool} {x : String × Value}
    (hkeys : (es.map Prod.fst).Nodup) (hx : es.find? p = some x) : Entries.get? es x.1 = some x.2 := by
  have hmem := List.mem_of_find?_eq_some hx
  clear hx
  induction es with
  | nil => cases hmem
  | cons e es ih =>
    rw [List.map_cons, List.nodup_cons] at hkeys
    rw [Entries.get?]
    rcases List.mem_cons.mp hmem with rfl | hmem
    · rw [if_pos rfl]
    · rw [if_neg, ih hkeys.2 hmem]
      exact fun heq => hkeys.1 (heq ▸ List.mem_map_of_mem hmem)

lemma itemAt_ofNat {items : List Value} {i : Nat} (hlen : items.length ≤ 2 ^ 63) (hi : items[i]? = some w) :
    itemAt items (Int64.ofNat i) = w := by
  have hlt := (List.getElem?_eq_some_iff.mp hi).1
  have hint : (Int64.ofNat i).toInt = i := Int64.toInt_ofNat_of_lt (hlt.trans_le hlen)
  have hplace : place? (Int64.ofNat i) items.length = some i := by
    rw [place?, hint]
    simp
  rw [itemAt, hplace, Option.bind_some, hi, Option.getD_some]

lemma entryAt_indexOf (hh : h.Intact) (hx : c.container? = some x) (hlen : (h.contents x).length ≤ 2 ^ 63)
    (hfound : indexOf h e c ≠ .undefined) : ∃ w, entryAt h c (indexOf h e c) = some w ∧ h.same w e = true := by
  cases c with
  | scalar | function => cases hx
  | list r =>
    obtain rfl := Option.some.inj hx
    rw [indexOf] at hfound ⊢
    cases hi : (h.items r).findIdx? fun v => h.same v e with
    | none =>
      rw [hi] at hfound
      exact absurd rfl hfound
    | some i =>
      obtain ⟨hlt, hsame, -⟩ := List.findIdx?_eq_some_iff_getElem.mp hi
      exact ⟨_, congrArg some (itemAt_ofNat hlen (List.getElem?_eq_getElem hlt)), hsame⟩
  | map r =>
    rw [indexOf] at hfound ⊢
    cases hi : (h.entries r).find? fun e' => h.same e'.2 e with
    | none =>
      rw [hi] at hfound
      exact absurd rfl hfound
    | some x =>
      have hsame : h.same x.2 e = true := by simpa using List.find?_some hi
      refine ⟨x.2, ?_, hsame⟩
      exact congrArg (fun o : Option Value => some (o.getD .undefined)) (get?_of_find? (hh.entries r).keys hi)

lemma subscript_of_entry (site : Expr) (he : entryAt m.env.heap c s = some e) :
    subscript site c s m = own c e m := by
  show readAt m.env.heap site c [] (m.env.heap.size + 1) s m = _
  rw [readAt_of_entry site _ he]

lemma read_found (hh : m.env.heap.Intact) (site : Expr) (hx : c.container? = some x)
    (hlen : (m.env.heap.contents x).length ≤ 2 ^ 63) (hfound : indexOf m.env.heap e c ≠ .undefined) :
    ∃ w n, subscript site c (indexOf m.env.heap e c) m = .ok w n ∧
      (e.kind ≠ .function → n.env.heap.same w e = true) ∧
      ∀ i held f owner, e = .function i held f owner → i < m.identity → n.env.heap.same w e = false := by
  obtain ⟨w, hentry, hsame⟩ := entryAt_indexOf hh hx hlen hfound
  have hface := (Heap.same_iff_bisimilar.mp hsame).matches.1
  have hkind := Heap.kind_of_face hface
  rw [subscript_of_entry site hentry]
  rcases w.function_or with ⟨j, held, f, owner, rfl⟩ | hk
  · refine ⟨_, _, rfl, fun hk => absurd hkind.symm hk, ?_⟩
    rintro i held' f' owner' rfl hlt
    rw [← Bool.not_eq_true, Heap.same_iff_bisimilar]
    exact not_bisimilar_functions hlt.ne'
  · rw [own_of_kind_ne hk]
    refine ⟨w, m, rfl, fun _ => hsame, ?_⟩
    rintro i held f owner rfl
    exact absurd hkind hk

/-- A subscript that can be read can be read again. The two values are equal exactly if none of the entries read
is a function; a function is made anew by each reading. Where an element other than a function is found in a
container, as long as numbers can count its elements, reading gives an equal value. -/
theorem entries_read_again (hh : m.env.heap.Intact) (hc : c.Stored m.env.heap.containers) (site : Expr) :
    (∀ s v n, s.Stored m.env.heap.containers → subscript site c s m = .ok v n →
      ∃ w n', subscript site c s n = .ok w n' ∧
        (n'.env.heap.same v w = true ↔ ∀ e, Selects m.env.heap c s e → e.kind ≠ .function)) ∧
    ∀ x e, c.container? = some x → (m.env.heap.contents x).length ≤ 2 ^ 63 →
      indexOf m.env.heap e c ≠ .undefined →
      ∃ w n, subscript site c (indexOf m.env.heap e c) m = .ok w n ∧
        (e.kind ≠ .function → n.env.heap.same w e = true) ∧
        ∀ i held f owner, e = .function i held f owner → i < m.identity → n.env.heap.same w e = false :=
  ⟨fun _ _ _ hs hread => read_again hh hc hs hread, fun _ _ hx hlen hfound => read_found hh site hx hlen hfound⟩

def shelf : Heap :=
  ⟨#[[.number 5, .list ⟨1⟩], [.number 0], [.number 1, .list ⟨1⟩],
    [.function 0 Environment.global ⟨[], .scalar .builtin (.number 1)⟩ .undefined]], #[[]]⟩

def shelfMachine : Machine :=
  { Machine.initial 0 ⟨1, .kind .number, .ofTable [], 100⟩ with
    env := ⟨shelf, Environment.initial.arena⟩, identity := 1 }

lemma intact_shelf : shelf.Intact := Heap.intact_of_forall (by decide) (by decide)

theorem shelf_read_again :
    let site : Expr := .var .builtin "x"
    shelfMachine.env.heap.Intact ∧ Value.Stored shelf.containers (.list ⟨0⟩) ∧
      Value.Stored shelf.containers (.list ⟨2⟩) ∧ indexOf shelf (.list ⟨1⟩) (.list ⟨0⟩) ≠ .undefined ∧
      (∃ v n w n', subscript site (.list ⟨0⟩) (.list ⟨2⟩) shelfMachine = .ok v n ∧
        subscript site (.list ⟨0⟩) (.list ⟨2⟩) n = .ok w n' ∧ n'.env.heap.same v w = true) ∧
      ∃ w n, subscript site (.list ⟨0⟩) (indexOf shelf (.list ⟨1⟩) (.list ⟨0⟩)) shelfMachine = .ok w n ∧
        n.env.heap.same w (.list ⟨1⟩) = true := by
  intro site
  have hc : Value.Stored shelf.containers (.list ⟨0⟩) := by decide
  have hs : Value.Stored shelf.containers (.list ⟨2⟩) := by decide
  have hfound : indexOf shelf (.list ⟨1⟩) (.list ⟨0⟩) ≠ .undefined := by
    have hone : indexOf shelf (.list ⟨1⟩) (.list ⟨0⟩) = .number 1 := by cbv
    rw [hone]
    intro heq
    cases heq
  obtain ⟨hagain, hplace⟩ := entries_read_again (m := shelfMachine) intact_shelf hc site
  obtain ⟨w, n', hread, hsame⟩ := hagain (.list ⟨2⟩) _ _ hs rfl
  obtain ⟨u, k, hu, hequal, -⟩ := hplace (.list ⟨0⟩) (.list ⟨1⟩) rfl (by decide) hfound
  refine ⟨intact_shelf, hc, hs, hfound, ⟨_, _, w, n', rfl, hread, hsame.mpr ?_⟩, u, k, hu, hequal (by decide)⟩
  exact fun e he => he.kind_ne (by decide)

theorem function_differs_from_itself :
    let site : Expr := .var .builtin "x"
    let f : Value := .function 0 Environment.global ⟨[], .scalar .builtin (.number 1)⟩ .undefined
    ∃ v n w n', shelfMachine.env.heap.Intact ∧ Value.Stored shelf.containers (.list ⟨3⟩) ∧
      shelf.items ⟨3⟩ = [f] ∧ subscript site (.list ⟨3⟩) (.number 0) shelfMachine = .ok v n ∧
      subscript site (.list ⟨3⟩) (.number 0) n = .ok w n' ∧ n'.env.heap.same v w = false ∧
      indexOf shelf f (.list ⟨3⟩) = .number 0 ∧ n.env.heap.same v f = false :=
  ⟨_, _, _, _, intact_shelf, by decide, rfl, rfl, rfl, by cbv, by cbv, by cbv⟩

end Eval

end DiceLang

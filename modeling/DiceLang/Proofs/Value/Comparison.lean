import DiceLang.Proofs.Value.TotalOrder

/-! How two values are compared when nothing but the containers under comparison bounds the run. On every heap
the run comes to its end, and the order is its outcome. -/

namespace DiceLang.Heap

variable {h : Heap} {a b : Value} {x y : Container} {o : Ordering} {fuel : Nat}
  {path : List (Container × Container)}

inductive Glance (path : List (Container × Container)) : Value → Value → Ordering → Prop
  | scalars (a b : Scalar) : Glance path (.scalar a) (.scalar b) (a.order b)
  | functions (i j : Nat) (s t : ScopeId) (f g : Lambda) (v w : Value) :
      Glance path (.function i s f v) (.function j t g w) (compare i j)
  | kinds {a b : Value} : a.kind ≠ b.kind → Glance path a b (compare a.kind.rank b.kind.rank)
  | met {a b : Value} {x y : Container} : a.kind = b.kind → a.container? = some x →
      b.container? = some y → x = y ∨ (x, y) ∈ path → Glance path a b .eq

structure Opens (path : List (Container × Container)) (a b : Value) (x y : Container) : Prop where
  kind : a.kind = b.kind
  left : a.container? = some x
  right : b.container? = some y
  ne : x ≠ y
  fresh : (x, y) ∉ path

lemma orderLists_cons (order : Value → Value → Ordering) (a b : Value) (as bs : List Value) :
    orderLists order (a :: as) (b :: bs) = (order a b).then (orderLists order as bs) := by
  rw [orderLists]
  cases order a b <;> rfl

lemma glance_or_opens (path : List (Container × Container)) (a b : Value) :
    (∃ o, Glance path a b o) ∨ ∃ x y, Opens path a b x y := by
  by_cases hk : a.kind = b.kind
  · cases ha : a.container? with
    | none =>
      cases a with
      | list | map => cases ha
      | scalar v =>
        cases b with
        | scalar w => exact .inl ⟨_, .scalars v w⟩
        | _ => cases v <;> cases hk
      | function =>
        cases b with
        | function => exact .inl ⟨_, .functions ..⟩
        | scalar w => cases w <;> cases hk
        | _ => cases hk
    | some x =>
      obtain ⟨y, hb⟩ := exists_container_of_kind hk ha
      by_cases hmet : x = y ∨ (x, y) ∈ path
      · exact .inl ⟨_, .met hk ha hb hmet⟩
      · rw [not_or] at hmet
        exact .inr ⟨x, y, hk, ha, hb, hmet.1, hmet.2⟩
  · exact .inl ⟨_, .kinds hk⟩

lemma Glance.orderWithin_eq (hg : Glance path a b o) : h.orderWithin (fuel + 1) path a b = o := by
  cases hg with
  | scalars | functions => rfl
  | kinds hk => exact orderWithin_of_kind_ne hk
  | met hk ha hb hmet => rw [orderWithin_container hk ha hb, if_pos hmet]

lemma Opens.orderWithin_eq (hopen : Opens path a b x y) :
    h.orderWithin (fuel + 1) path a b =
      orderLists (h.orderWithin fuel ((x, y) :: path)) (h.contents x) (h.contents y) := by
  rw [orderWithin_container hopen.kind hopen.left hopen.right, if_neg]
  exact not_or.mpr ⟨hopen.ne, hopen.fresh⟩

mutual

inductive Compares (h : Heap) : List (Container × Container) → Value → Value → Ordering → Prop
  | glance {path : List (Container × Container)} {a b : Value} {o : Ordering} :
      Glance path a b o → Compares h path a b o
  | contents {path : List (Container × Container)} {a b : Value} {x y : Container} {o : Ordering} :
      Opens path a b x y → ComparesAll h ((x, y) :: path) (h.contents x) (h.contents y) o →
      Compares h path a b o

inductive ComparesAll (h : Heap) :
    List (Container × Container) → List Value → List Value → Ordering → Prop
  | nil {path : List (Container × Container)} : ComparesAll h path [] [] .eq
  | shorter {path : List (Container × Container)} {b : Value} {bs : List Value} :
      ComparesAll h path [] (b :: bs) .lt
  | longer {path : List (Container × Container)} {a : Value} {as : List Value} :
      ComparesAll h path (a :: as) [] .gt
  | first {path : List (Container × Container)} {a b : Value} {as bs : List Value} {o : Ordering} :
      Compares h path a b o → o ≠ .eq → ComparesAll h path (a :: as) (b :: bs) o
  | next {path : List (Container × Container)} {a b : Value} {as bs : List Value} {o : Ordering} :
      Compares h path a b .eq → ComparesAll h path as bs o → ComparesAll h path (a :: as) (b :: bs) o

end

mutual

lemma Compares.orderWithin_eq {path : List (Container × Container)} {a b : Value} {o : Ordering} :
    h.Compares path a b o → ∃ n, ∀ fuel, n ≤ fuel → h.orderWithin fuel path a b = o
  | .glance hg => by
    refine ⟨1, fun fuel hfuel => ?_⟩
    obtain ⟨fuel, rfl⟩ := Nat.exists_eq_add_of_le' hfuel
    exact hg.orderWithin_eq
  | .contents hopen hall => by
    obtain ⟨n, hn⟩ := hall.orderLists_eq
    refine ⟨n + 1, fun fuel hfuel => ?_⟩
    obtain ⟨fuel, rfl⟩ := Nat.exists_eq_add_of_le' (Nat.le_of_add_left_le hfuel)
    rw [hopen.orderWithin_eq, hn fuel (Nat.le_of_succ_le_succ hfuel)]

lemma ComparesAll.orderLists_eq {path : List (Container × Container)} {as bs : List Value}
    {o : Ordering} : h.ComparesAll path as bs o →
    ∃ n, ∀ fuel, n ≤ fuel → orderLists (h.orderWithin fuel path) as bs = o
  | .nil => ⟨0, fun _ _ => rfl⟩
  | .shorter => ⟨0, fun _ _ => rfl⟩
  | .longer => ⟨0, fun _ _ => rfl⟩
  | .first hfirst hne => by
    obtain ⟨n, hn⟩ := hfirst.orderWithin_eq
    refine ⟨n, fun fuel hfuel => ?_⟩
    rw [orderLists_cons, hn fuel hfuel]
    cases o with
    | lt | gt => rfl
    | eq => exact absurd rfl hne
  | .next hfirst hrest => by
    obtain ⟨n, hn⟩ := hfirst.orderWithin_eq
    obtain ⟨m, hm⟩ := hrest.orderLists_eq
    refine ⟨max n m, fun fuel hfuel => ?_⟩
    rw [orderLists_cons, hn fuel (le_of_max_le_left hfuel), hm fuel (le_of_max_le_right hfuel)]
    rfl

end

structure Descent (h : Heap) (path : List (Container × Container)) : Prop where
  nodup : path.Nodup
  left : ∀ p ∈ path, p.1 ∈ h.containers
  right : ∀ p ∈ path, p.2 ∈ h.containers

lemma descent_nil : h.Descent [] := ⟨.nil, by simp, by simp⟩

lemma Descent.length_le (hd : h.Descent path) : path.length ≤ h.size * h.size := by
  have hsub : path.toFinset ⊆ h.containers ×ˢ h.containers := by
    intro p hp
    rw [List.mem_toFinset] at hp
    exact Finset.mem_product.mpr ⟨hd.left p hp, hd.right p hp⟩
  calc path.length = path.toFinset.card := (List.toFinset_card_of_nodup hd.nodup).symm
    _ ≤ (h.containers ×ˢ h.containers).card := Finset.card_le_card hsub
    _ = h.containers.card * h.containers.card := Finset.card_product _ _
    _ ≤ h.size * h.size := Nat.mul_le_mul h.card_containers_le h.card_containers_le

lemma Descent.cons (hd : h.Descent path) (hopen : Opens path a b x y) {v w : Value}
    (hv : v ∈ h.contents x) (hw : w ∈ h.contents y) : h.Descent ((x, y) :: path) :=
  ⟨List.nodup_cons.mpr ⟨hopen.fresh, hd.nodup⟩,
    List.forall_mem_cons.mpr ⟨mem_containers hv, hd.left⟩,
    List.forall_mem_cons.mpr ⟨mem_containers hw, hd.right⟩⟩

lemma comparesAll_orderLists {order : Value → Value → Ordering} {as bs : List Value}
    (hall : ∀ v ∈ as, ∀ w ∈ bs, h.Compares path v w (order v w)) :
    h.ComparesAll path as bs (orderLists order as bs) := by
  induction as generalizing bs with
  | nil =>
    cases bs with
    | nil => exact .nil
    | cons b bs => exact .shorter
  | cons a as ih =>
    cases bs with
    | nil => exact .longer
    | cons b bs =>
      have hfirst := hall a List.mem_cons_self b List.mem_cons_self
      rw [orderLists_cons]
      cases ho : order a b with
      | lt | gt =>
        rw [ho] at hfirst
        exact .first hfirst (by simp)
      | eq =>
        rw [ho] at hfirst
        apply ComparesAll.next hfirst
        apply ih
        intro v hv w hw
        exact hall v (List.mem_cons_of_mem a hv) w (List.mem_cons_of_mem b hw)

lemma compares_orderWithin (hd : h.Descent path) (hfuel : h.size * h.size < fuel + path.length)
    (a b : Value) : h.Compares path a b (h.orderWithin fuel path a b) := by
  induction fuel generalizing path a b with
  | zero =>
    have hlen := hd.length_le
    omega
  | succ fuel ih =>
    rcases glance_or_opens path a b with ⟨o, hg⟩ | ⟨x, y, hopen⟩
    · rw [hg.orderWithin_eq]
      exact .glance hg
    · rw [hopen.orderWithin_eq]
      apply Compares.contents hopen
      apply comparesAll_orderLists
      intro v hv w hw
      apply ih (hd.cons hopen hv hw)
      rw [List.length_cons]
      omega

lemma orderWithin_nil_of_lt (hfuel : h.size * h.size < fuel) (a b : Value) :
    h.orderWithin fuel [] a b = h.order a b := by
  obtain ⟨n, hn⟩ := (compares_orderWithin descent_nil hfuel a b).orderWithin_eq
  obtain ⟨m, hm⟩ := (compares_orderWithin descent_nil (Nat.lt_succ_self _) a b).orderWithin_eq
  rw [← hn (max n m) (le_max_left n m), hm (max n m) (le_max_right n m)]
  rfl

lemma compares_nil_iff : h.Compares [] a b o ↔ h.order a b = o := by
  constructor
  · intro hrun
    obtain ⟨n, hn⟩ := hrun.orderWithin_eq
    rw [← hn (max n (h.size * h.size + 1)) (le_max_left _ _)]
    exact (orderWithin_nil_of_lt (Nat.lt_of_succ_le (le_max_right _ _)) a b).symm
  · rintro rfl
    exact compares_orderWithin descent_nil (Nat.lt_succ_self _) a b

lemma scalar_order_swap (a b : Scalar) : b.order a = (a.order b).swap := by
  rw [← order_ofScalar, ← order_ofScalar]
  exact DataTree.order_swap _ _

lemma Glance.swap (hg : Glance path a b o) : Glance (path.map Prod.swap) b a o.swap := by
  cases hg with
  | scalars a b =>
    rw [← scalar_order_swap]
    exact .scalars b a
  | functions i j =>
    rw [← Nat.compare_swap j i, Ordering.swap_swap]
    exact .functions ..
  | kinds hk =>
    rw [Nat.compare_swap]
    exact .kinds (Ne.symm hk)
  | met hk ha hb hmet =>
    refine .met hk.symm hb ha (hmet.imp Eq.symm fun hmem => ?_)
    exact List.mem_map_of_mem (f := Prod.swap) hmem

lemma Opens.swap (hopen : Opens path a b x y) : Opens (path.map Prod.swap) b a y x where
  kind := hopen.kind.symm
  left := hopen.right
  right := hopen.left
  ne := hopen.ne.symm
  fresh hmem := by
    obtain ⟨p, hp, heq⟩ := List.mem_map.mp hmem
    obtain rfl : p = (x, y) := Prod.swap_eq_iff_eq_swap.mp heq
    exact hopen.fresh hp

lemma orderLists_swap {order order' : Value → Value → Ordering}
    (hswap : ∀ a b, order' b a = (order a b).swap) (as bs : List Value) :
    orderLists order' bs as = (orderLists order as bs).swap := by
  induction as generalizing bs with
  | nil => cases bs <;> rfl
  | cons a as ih =>
    cases bs with
    | nil => rfl
    | cons b bs => rw [orderLists_cons, orderLists_cons, Ordering.swap_then, hswap, ih]

lemma orderWithin_swap (fuel : Nat) (path : List (Container × Container)) (a b : Value) :
    h.orderWithin fuel (path.map Prod.swap) b a = (h.orderWithin fuel path a b).swap := by
  induction fuel generalizing path a b with
  | zero => rfl
  | succ fuel ih =>
    rcases glance_or_opens path a b with ⟨o, hg⟩ | ⟨x, y, hopen⟩
    · rw [hg.orderWithin_eq, hg.swap.orderWithin_eq]
    · rw [hopen.orderWithin_eq, hopen.swap.orderWithin_eq]
      exact orderLists_swap (ih ((x, y) :: path)) _ _

lemma order_swap (a b : Value) : h.order b a = (h.order a b).swap :=
  orderWithin_swap _ [] a b

end DiceLang.Heap

import DiceLang.Proofs.Text.ByteOrder
import DiceLang.Value.Basic

/-! Trees of data and their order. A tree is what is left of a value when nobody asks which containers
hold it. -/

namespace DiceLang

inductive DataTree where
  | undefined
  | string (s : String)
  | boolean (b : Bool)
  | number (n : Int64)
  | list (items : List DataTree)
  | map (entries : List (String × DataTree))

namespace DataTree

def kind : DataTree → Kind
  | .undefined => .undefined
  | .string _ => .string
  | .boolean _ => .boolean
  | .number _ => .number
  | .list _ => .list
  | .map _ => .map

def ofScalar : Scalar → DataTree
  | .undefined => .undefined
  | .string s => .string s
  | .boolean b => .boolean b
  | .number n => .number n

def children : DataTree → List DataTree
  | .list items => items
  | .map entries => entries.map Prod.snd
  | _ => []

mutual

def order : DataTree → DataTree → Ordering
  | .string a, .string b => compare (Text.bytes a) (Text.bytes b)
  | .boolean a, .boolean b => compare a.toNat b.toNat
  | .number a, .number b => compare a.toInt b.toInt
  | .list as, .list bs => orderItems as bs
  | .map as, .map bs => orderEntries as bs
  | a, b => compare a.kind.rank b.kind.rank

def orderItems : List DataTree → List DataTree → Ordering
  | [], [] => .eq
  | [], _ :: _ => .lt
  | _ :: _, [] => .gt
  | a :: as, b :: bs => (order a b).then (orderItems as bs)

def orderEntries : List (String × DataTree) → List (String × DataTree) → Ordering
  | [], [] => .eq
  | [], _ :: _ => .lt
  | _ :: _, [] => .gt
  | (_, a) :: as, (_, b) :: bs => (order a b).then (orderEntries as bs)

end

mutual

def withoutKeys : DataTree → DataTree
  | .list items => .list (withoutKeysAll items)
  | .map entries => .map (withoutKeysIn entries)
  | t => t

def withoutKeysAll : List DataTree → List DataTree
  | [] => []
  | t :: ts => withoutKeys t :: withoutKeysAll ts

def withoutKeysIn : List (String × DataTree) → List (String × DataTree)
  | [] => []
  | (_, t) :: ts => ("", withoutKeys t) :: withoutKeysIn ts

end

@[simp] lemma children_list (items : List DataTree) : (list items).children = items := rfl

@[simp] lemma children_map (entries : List (String × DataTree)) :
    (map entries).children = entries.map Prod.snd := rfl

lemma sizeOf_child {t c : DataTree} (h : c ∈ t.children) : sizeOf c < sizeOf t := by
  cases t with
  | list items =>
    have hlt : sizeOf c < sizeOf items := List.sizeOf_lt_of_mem h
    simp only [list.sizeOf_spec]
    omega
  | map entries =>
    obtain ⟨⟨key, c⟩, he, rfl⟩ := List.mem_map.mp h
    have hlt : sizeOf (key, c) < sizeOf entries := List.sizeOf_lt_of_mem he
    simp only [map.sizeOf_spec, Prod.mk.sizeOf_spec] at *
    omega
  | _ => cases h

lemma children_induction {P : DataTree → Prop} (step : ∀ t, (∀ c ∈ t.children, P c) → P t)
    (t : DataTree) : P t :=
  step t fun c _ => children_induction step c
termination_by sizeOf t
decreasing_by exact sizeOf_child ‹_›

@[simp] lemma order_list (as bs : List DataTree) :
    order (.list as) (.list bs) = as.compareLex order bs := by
  have hitems : orderItems as bs = as.compareLex order bs := by
    induction as generalizing bs with
    | nil => cases bs <;> rfl
    | cons a as ih =>
      cases bs with
      | nil => rfl
      | cons b bs => rw [orderItems, ih, List.compareLex_cons_cons]
  rw [order, hitems]

@[simp] lemma order_map (as bs : List (String × DataTree)) :
    order (.map as) (.map bs) = (as.map Prod.snd).compareLex order (bs.map Prod.snd) := by
  have hentries : orderEntries as bs = (as.map Prod.snd).compareLex order (bs.map Prod.snd) := by
    induction as generalizing bs with
    | nil => cases bs <;> rfl
    | cons a as ih =>
      cases bs with
      | nil => rfl
      | cons b bs => rw [orderEntries, ih, List.map_cons, List.map_cons, List.compareLex_cons_cons]
  rw [order, hentries]

@[simp] lemma withoutKeys_list (items : List DataTree) :
    (list items).withoutKeys = .list (items.map withoutKeys) := by
  have hall : withoutKeysAll items = items.map withoutKeys := by
    induction items with
    | nil => rfl
    | cons t ts ih => rw [withoutKeysAll, ih, List.map_cons]
  rw [withoutKeys, hall]

@[simp] lemma withoutKeys_map (entries : List (String × DataTree)) :
    (map entries).withoutKeys = .map (entries.map fun e => ("", e.2.withoutKeys)) := by
  have hall : withoutKeysIn entries = entries.map fun e => ("", e.2.withoutKeys) := by
    induction entries with
    | nil => rfl
    | cons e es ih => rw [withoutKeysIn, ih, List.map_cons]
  rw [withoutKeys, hall]

lemma rank_injective : Function.Injective Kind.rank := by
  intro a b h
  cases a <;> cases b <;> first | rfl | cases h

@[elab_as_elim]
lemma cases_of_kind_eq {P : ∀ t u : DataTree, t.kind = u.kind → Prop}
    (undefined : P .undefined .undefined rfl) (string : ∀ a b, P (.string a) (.string b) rfl)
    (boolean : ∀ a b, P (.boolean a) (.boolean b) rfl) (number : ∀ a b, P (.number a) (.number b) rfl)
    (list : ∀ as bs, P (.list as) (.list bs) rfl) (map : ∀ as bs, P (.map as) (.map bs) rfl)
    (t u : DataTree) (hk : t.kind = u.kind) : P t u hk := by
  cases t with
  | undefined => cases u with
    | undefined => exact undefined
    | _ => cases hk
  | string a => cases u with
    | string b => exact string a b
    | _ => cases hk
  | boolean a => cases u with
    | boolean b => exact boolean a b
    | _ => cases hk
  | number a => cases u with
    | number b => exact number a b
    | _ => cases hk
  | list as => cases u with
    | list bs => exact list as bs
    | _ => cases hk
  | map as => cases u with
    | map bs => exact map as bs
    | _ => cases hk

lemma order_of_kind_ne {t u : DataTree} (h : t.kind ≠ u.kind) :
    t.order u = compare t.kind.rank u.kind.rank := by
  cases t <;> cases u <;> first | exact absurd rfl h | simp [order]

lemma order_of_rank_lt {t u : DataTree} (h : t.kind.rank < u.kind.rank) : t.order u = .lt := by
  have hne : t.kind ≠ u.kind := fun heq => absurd (congrArg Kind.rank heq) h.ne
  rw [order_of_kind_ne hne]
  exact Nat.compare_eq_lt.mpr h

lemma rank_le_of_order_lt {t u : DataTree} (h : t.order u = .lt) : t.kind.rank ≤ u.kind.rank := by
  by_cases hk : t.kind = u.kind
  · rw [hk]
  · rw [order_of_kind_ne hk] at h
    exact (Nat.compare_eq_lt.mp h).le

lemma kind_of_order_eq {t u : DataTree} (h : t.order u = .eq) : t.kind = u.kind := by
  by_contra hk
  rw [order_of_kind_ne hk] at h
  exact hk (rank_injective (Nat.compare_eq_eq.mp h))

lemma compareLex_swap {as : List DataTree} (h : ∀ a ∈ as, ∀ b, b.order a = (a.order b).swap)
    (bs : List DataTree) : bs.compareLex order as = (as.compareLex order bs).swap := by
  induction as generalizing bs with
  | nil => cases bs <;> rfl
  | cons a as ih =>
    cases bs with
    | nil => rfl
    | cons b bs =>
      rw [List.forall_mem_cons] at h
      rw [List.compareLex_cons_cons, List.compareLex_cons_cons, Ordering.swap_then, h.1, ih h.2]

lemma compareLex_eq_iff {as : List DataTree}
    (h : ∀ a ∈ as, ∀ b, a.order b = .eq ↔ a.withoutKeys = b.withoutKeys) (bs : List DataTree) :
    as.compareLex order bs = .eq ↔ as.map withoutKeys = bs.map withoutKeys := by
  induction as generalizing bs with
  | nil => cases bs <;> simp [List.compareLex]
  | cons a as ih =>
    cases bs with
    | nil => simp [List.compareLex]
    | cons b bs =>
      rw [List.forall_mem_cons] at h
      rw [List.compareLex_cons_cons, Ordering.then_eq_eq, h.1, ih h.2, List.map_cons, List.map_cons,
        List.cons.injEq]

lemma compareLex_withoutKeys {as : List DataTree}
    (h : ∀ a ∈ as, ∀ b, a.withoutKeys.order b = a.order b) (bs : List DataTree) :
    (as.map withoutKeys).compareLex order bs = as.compareLex order bs := by
  induction as generalizing bs with
  | nil => rfl
  | cons a as ih =>
    cases bs with
    | nil => rfl
    | cons b bs =>
      rw [List.forall_mem_cons] at h
      rw [List.map_cons, List.compareLex_cons_cons, List.compareLex_cons_cons, h.1, ih h.2]

lemma order_swap (t u : DataTree) : u.order t = (t.order u).swap := by
  induction t using children_induction generalizing u with
  | step t ih =>
    by_cases hk : t.kind = u.kind
    · cases t, u, hk using cases_of_kind_eq with
      | undefined => rfl
      | string a b => simpa only [order] using Std.OrientedOrd.eq_swap
      | boolean a b => simpa only [order] using Std.OrientedOrd.eq_swap
      | number a b => simpa only [order] using Std.OrientedOrd.eq_swap
      | list as bs => simpa only [order_list, children_list] using compareLex_swap ih bs
      | map as bs => simpa only [order_map, children_map] using compareLex_swap ih _
    · rw [order_of_kind_ne hk, order_of_kind_ne (Ne.symm hk)]
      exact Std.OrientedOrd.eq_swap

lemma kind_withoutKeys (t : DataTree) : t.withoutKeys.kind = t.kind := by
  cases t <;> simp [kind, withoutKeys]

lemma map_withoutKeys_inj {as bs : List (String × DataTree)} :
    (map as).withoutKeys = (map bs).withoutKeys ↔
      (as.map Prod.snd).map withoutKeys = (bs.map Prod.snd).map withoutKeys := by
  have hsplit (es : List (String × DataTree)) : (es.map fun e => ("", e.2.withoutKeys)) =
      ((es.map Prod.snd).map withoutKeys).map (Prod.mk "") := by simp
  rw [withoutKeys_map, withoutKeys_map, map.injEq, hsplit as, hsplit bs]
  exact (List.map_injective_iff.mpr (Prod.mk_right_injective "")).eq_iff

lemma order_eq_iff (t u : DataTree) : t.order u = .eq ↔ t.withoutKeys = u.withoutKeys := by
  induction t using children_induction generalizing u with
  | step t ih =>
    by_cases hk : t.kind = u.kind
    · cases t, u, hk using cases_of_kind_eq with
      | undefined => simp [order]
      | string a b => simp [order, withoutKeys, Text.bytes_injective.eq_iff]
      | boolean a b => cases a <;> cases b <;> simp [order, withoutKeys]
      | number a b => simp [order, withoutKeys, Int64.toInt_inj]
      | list as bs =>
        rw [order_list, withoutKeys_list, withoutKeys_list, list.injEq]
        exact compareLex_eq_iff ih bs
      | map as bs =>
        rw [order_map, map_withoutKeys_inj]
        exact compareLex_eq_iff ih _
    · constructor
      · exact fun h => absurd (kind_of_order_eq h) hk
      · intro h
        rw [← t.kind_withoutKeys, h, u.kind_withoutKeys] at hk
        exact absurd rfl hk

lemma order_withoutKeys (t u : DataTree) : t.withoutKeys.order u = t.order u := by
  induction t using children_induction generalizing u with
  | step t ih =>
    by_cases hk : t.kind = u.kind
    · cases t, u, hk using cases_of_kind_eq with
      | undefined | string | boolean | number => rfl
      | list as bs =>
        rw [withoutKeys_list, order_list, order_list]
        exact compareLex_withoutKeys ih bs
      | map as bs =>
        rw [withoutKeys_map, order_map, order_map, List.map_map]
        exact Eq.trans (by simp [Function.comp_def]) (compareLex_withoutKeys ih _)
    · rw [order_of_kind_ne hk, order_of_kind_ne (by rwa [kind_withoutKeys]), kind_withoutKeys]

lemma order_congr {t u : DataTree} (h : t.order u = .eq) (w : DataTree) : t.order w = u.order w := by
  rw [← order_withoutKeys t, (order_eq_iff t u).mp h, order_withoutKeys]

lemma order_congr_right {t u : DataTree} (h : t.order u = .eq) (w : DataTree) :
    w.order t = w.order u := by
  rw [order_swap t w, order_swap u w, order_congr h]

lemma compareLex_lt_trans {as : List DataTree}
    (h : ∀ a ∈ as, ∀ b c, a.order b = .lt → b.order c = .lt → a.order c = .lt)
    {bs cs : List DataTree} (hab : as.compareLex order bs = .lt) (hbc : bs.compareLex order cs = .lt) :
    as.compareLex order cs = .lt := by
  induction as generalizing bs cs with
  | nil =>
    cases cs with
    | nil => cases bs <;> cases hbc
    | cons c cs => rfl
  | cons a as ih =>
    cases bs with
    | nil => cases hab
    | cons b bs =>
      cases cs with
      | nil => cases hbc
      | cons c cs =>
        rw [List.forall_mem_cons] at h
        rw [List.compareLex_cons_cons, Ordering.then_eq_lt] at hab hbc ⊢
        rcases hab with hab | ⟨hab, htab⟩
        · rcases hbc with hbc | ⟨hbc, -⟩
          · exact .inl (h.1 b c hab hbc)
          · exact .inl (by rw [← order_congr_right hbc, hab])
        · rw [order_congr hab]
          exact hbc.imp_right fun hbc => ⟨hbc.1, ih h.2 htab hbc.2⟩

lemma order_lt_trans {t u w : DataTree} (htu : t.order u = .lt) (huw : u.order w = .lt) :
    t.order w = .lt := by
  induction t using children_induction generalizing u w with
  | step t ih =>
    have hrank := rank_le_of_order_lt htu
    have hrank' := rank_le_of_order_lt huw
    by_cases hlt : t.kind.rank < w.kind.rank
    · exact order_of_rank_lt hlt
    -- All three are of one kind.
    have hk : t.kind = u.kind := rank_injective (by omega)
    have hk' : u.kind = w.kind := rank_injective (by omega)
    cases t, u, hk using cases_of_kind_eq with
    | undefined => cases htu
    | string a b => cases w with
      | string c =>
        simp only [order] at htu huw ⊢
        exact Std.TransCmp.lt_trans htu huw
      | _ => cases hk'
    | boolean a b => cases w with
      | boolean c =>
        simp only [order] at htu huw ⊢
        exact Std.TransCmp.lt_trans htu huw
      | _ => cases hk'
    | number a b => cases w with
      | number c =>
        simp only [order] at htu huw ⊢
        exact Std.TransCmp.lt_trans htu huw
      | _ => cases hk'
    | list as bs => cases w with
      | list cs =>
        rw [order_list] at htu huw ⊢
        exact compareLex_lt_trans (fun a ha _ _ => ih a ha) htu huw
      | _ => cases hk'
    | map as bs => cases w with
      | map cs =>
        rw [order_map] at htu huw ⊢
        exact compareLex_lt_trans (fun a ha _ _ => ih a ha) htu huw
      | _ => cases hk'

lemma order_self (t : DataTree) : t.order t = .eq := (order_eq_iff t t).mpr rfl

lemma order_isLE_trans {t u w : DataTree} (htu : (t.order u).isLE) (huw : (u.order w).isLE) :
    (t.order w).isLE := by
  rw [Ordering.isLE_iff_eq_lt_or_eq_eq] at htu
  rcases htu with htu | htu
  · rw [Ordering.isLE_iff_eq_lt_or_eq_eq] at huw
    rcases huw with huw | huw
    · rw [order_lt_trans htu huw]
      rfl
    · rw [← order_congr_right huw, htu]
      rfl
  · rwa [order_congr htu]

end DataTree

end DiceLang

import DiceLang.Proofs.Value.Comparison

/-! Values that look the same to whoever follows their references for ever. Two values are equal exactly if
they do, also when they contain themselves. -/

namespace DiceLang.Heap

variable {h : Heap} {a b c : Value} {x y : Container} {o : Ordering}
  {path : List (Container × Container)}

inductive Face where
  | scalar (value : Scalar)
  | function (identity : Nat)
  | list (length : Nat)
  | map (length : Nat)

def face (h : Heap) : Value → Face
  | .scalar v => .scalar v
  | .function i .. => .function i
  | .list r => .list (h.items r).length
  | .map r => .map (h.entries r).length

def inside (h : Heap) (v : Value) : List Value :=
  match v.container? with
  | some c => h.contents c
  | none => []

/-- The face of the value at a place of the unfolding, which need not end: each number of a place leads
one container further down. -/
def faceAt (h : Heap) (v : Value) : List Nat → Option Face
  | [] => some (h.face v)
  | i :: place => (h.inside v)[i]?.bind fun w => h.faceAt w place

/-- The unfoldings of `a` and `b` have the same places, with the same faces there. Keys are not looked
at. -/
def Bisimilar (h : Heap) (a b : Value) : Prop := ∀ place, h.faceAt a place = h.faceAt b place

lemma inside_of_container? (ha : a.container? = some x) : h.inside a = h.contents x := by
  rw [inside, ha]

lemma inside_eq_nil (ha : a.container? = none) : h.inside a = [] := by
  rw [inside, ha]

lemma kind_of_face (hf : h.face a = h.face b) : a.kind = b.kind := by
  cases a with
  | scalar v => cases b with
    | scalar w => obtain rfl := Face.scalar.inj hf; rfl
    | _ => cases hf
  | function => cases b with
    | function => rfl
    | _ => cases hf
  | list => cases b with
    | list => rfl
    | _ => cases hf
  | map => cases b with
    | map => rfl
    | _ => cases hf

lemma length_of_face (hf : h.face a = h.face b) : (h.inside a).length = (h.inside b).length := by
  cases a with
  | scalar => cases b with
    | scalar => rfl
    | _ => cases hf
  | function => cases b with
    | function => rfl
    | _ => cases hf
  | list => cases b with
    | list => exact Face.list.inj hf
    | _ => cases hf
  | map r => cases b with
    | map s =>
      have hlen : (h.entries r).length = (h.entries s).length := Face.map.inj hf
      simpa [inside, Value.container?, contents, Entries.values] using hlen
    | _ => cases hf

lemma face_of_length (hk : a.kind = b.kind) (ha : a.container? = some x)
    (hlen : (h.inside a).length = (h.inside b).length) : h.face a = h.face b := by
  cases a with
  | scalar | function => cases ha
  | list => cases b with
    | list => exact congrArg Face.list hlen
    | scalar w => cases w <;> cases hk
    | _ => cases hk
  | map => cases b with
    | map => exact congrArg Face.map (by simpa [inside, Value.container?, contents, Entries.values] using hlen)
    | scalar w => cases w <;> cases hk
    | _ => cases hk

def Matches (h : Heap) (R : Value → Value → Prop) (a b : Value) : Prop :=
  h.face a = h.face b ∧ List.Forall₂ R (h.inside a) (h.inside b)

lemma Matches.mono {R S : Value → Value → Prop} (hRS : ∀ v w, R v w → S v w) (hm : h.Matches R a b) :
    h.Matches S a b := ⟨hm.1, hm.2.imp hRS⟩

lemma Bisimilar.matches (hb : h.Bisimilar a b) : h.Matches h.Bisimilar a b := by
  have hface : h.face a = h.face b := Option.some.inj (hb [])
  refine ⟨hface, List.forall₂_iff_get.mpr ⟨length_of_face hface, fun i hi hj place => ?_⟩⟩
  simpa [faceAt, List.getElem?_eq_getElem, hi, hj] using hb (i :: place)

lemma bisimilar_of_matches {R : Value → Value → Prop} (hR : ∀ v w, R v w → h.Matches R v w)
    (hab : R a b) : h.Bisimilar a b := by
  intro place
  induction place generalizing a b with
  | nil => exact congrArg some (hR a b hab).1
  | cons i place ih =>
    obtain ⟨hface, hall⟩ := hR a b hab
    rw [faceAt, faceAt]
    by_cases hi : i < (h.inside a).length
    · have hj : i < (h.inside b).length := length_of_face hface ▸ hi
      rw [List.getElem?_eq_getElem hi, List.getElem?_eq_getElem hj]
      exact ih ((List.forall₂_iff_get.mp hall).2 i hi hj)
    · have hj : ¬ i < (h.inside b).length := length_of_face hface ▸ hi
      rw [List.getElem?_eq_none (not_lt.mp hi), List.getElem?_eq_none (not_lt.mp hj)]

lemma Bisimilar.refl (h : Heap) (a : Value) : h.Bisimilar a a := fun _ => rfl

lemma Bisimilar.symm (hab : h.Bisimilar a b) : h.Bisimilar b a := fun place => (hab place).symm

lemma Bisimilar.trans (hab : h.Bisimilar a b) (hbc : h.Bisimilar b c) : h.Bisimilar a c :=
  fun place => (hab place).trans (hbc place)

lemma scalar_order_eq_iff (a b : Scalar) : a.order b = .eq ↔ a = b := by
  rw [← order_ofScalar, DataTree.order_eq_iff]
  cases a <;> cases b <;> simp [DataTree.ofScalar, DataTree.withoutKeys]

lemma Glance.eq_of_bisimilar (hg : Glance path a b o) (hb : h.Bisimilar a b) : o = .eq := by
  have hface : h.face a = h.face b := hb.matches.1
  cases hg with
  | scalars a b => exact (scalar_order_eq_iff a b).mpr (Face.scalar.inj hface)
  | functions i j => exact Nat.compare_eq_eq.mpr (Face.function.inj hface)
  | kinds hk => exact absurd (kind_of_face hface) hk
  | met => rfl

lemma orderLists_eq_of_forall₂ {order : Value → Value → Ordering} {as bs : List Value}
    (hall : List.Forall₂ (fun a b => order a b = .eq) as bs) : orderLists order as bs = .eq := by
  induction hall with
  | nil => rfl
  | cons heq _ ih => rw [orderLists_cons, heq, ih]; rfl

lemma Bisimilar.orderWithin_eq (hb : h.Bisimilar a b) (fuel : Nat)
    (path : List (Container × Container)) : h.orderWithin fuel path a b = .eq := by
  induction fuel generalizing path a b with
  | zero => rfl
  | succ fuel ih =>
    rcases glance_or_opens path a b with ⟨o, hg⟩ | ⟨x, y, hopen⟩
    · rw [hg.orderWithin_eq]
      exact hg.eq_of_bisimilar hb
    · rw [hopen.orderWithin_eq]
      apply orderLists_eq_of_forall₂
      have hall := hb.matches.2
      rw [inside_of_container? hopen.left, inside_of_container? hopen.right] at hall
      exact hall.imp fun v w hvw => ih hvw _

def MatchesBut (h : Heap) (path : List (Container × Container)) (R : Value → Value → Prop) : Prop :=
  ∀ v w, R v w → (∃ p ∈ path, v.container? = some p.1 ∧ w.container? = some p.2) ∨ h.Matches R v w

lemma MatchesBut.or {R S : Value → Value → Prop} (hR : h.MatchesBut path R) (hS : h.MatchesBut path S) :
    h.MatchesBut path fun v w => R v w ∨ S v w := by
  rintro v w (hvw | hvw)
  · exact (hR v w hvw).imp_right (Matches.mono fun _ _ => .inl)
  · exact (hS v w hvw).imp_right (Matches.mono fun _ _ => .inr)

lemma Glance.exists_matchesBut (hg : Glance path a b .eq) :
    ∃ R : Value → Value → Prop, R a b ∧ h.MatchesBut path R := by
  have hleaf (hf : h.face a = h.face b) (ha : a.container? = none) (hb : b.container? = none) :
      ∃ R : Value → Value → Prop, R a b ∧ h.MatchesBut path R := by
    refine ⟨fun v w => v = a ∧ w = b, ⟨rfl, rfl⟩, ?_⟩
    rintro v w ⟨rfl, rfl⟩
    refine .inr ⟨hf, ?_⟩
    rw [inside_eq_nil ha, inside_eq_nil hb]
    exact .nil
  generalize ho : Ordering.eq = o at hg
  cases hg with
  | scalars a b =>
    obtain rfl := (scalar_order_eq_iff a b).mp ho.symm
    exact hleaf rfl rfl rfl
  | functions i j =>
    obtain rfl := Nat.compare_eq_eq.mp ho.symm
    exact hleaf rfl rfl rfl
  | kinds hk =>
    exact absurd (DataTree.rank_injective (Nat.compare_eq_eq.mp ho.symm)) hk
  | @met _ _ x y _ ha hb hmet =>
    rcases hmet with rfl | hmem
    · obtain rfl : a = b := (value_of_container? ha).symm.trans (value_of_container? hb)
      refine ⟨Eq, rfl, ?_⟩
      rintro v w rfl
      exact .inr ⟨rfl, List.forall₂_refl _⟩
    · refine ⟨fun v w => v = a ∧ w = b, ⟨rfl, rfl⟩, ?_⟩
      rintro v w ⟨rfl, rfl⟩
      exact .inl ⟨(x, y), hmem, ha, hb⟩

lemma Opens.exists_matchesBut (hopen : Opens path a b x y) {R : Value → Value → Prop}
    (hall : List.Forall₂ R (h.contents x) (h.contents y)) (hR : h.MatchesBut ((x, y) :: path) R) :
    ∃ S : Value → Value → Prop, S a b ∧ h.MatchesBut path S := by
  let S : Value → Value → Prop := fun v w => R v w ∨ v = a ∧ w = b
  rw [← inside_of_container? hopen.left, ← inside_of_container? hopen.right] at hall
  -- What lies in `a` and `b` has been related in pairs, so `a` and `b` need not be excepted any more.
  have hab : h.Matches S a b :=
    ⟨face_of_length hopen.kind hopen.left hall.length_eq, hall.imp fun _ _ => .inl⟩
  refine ⟨S, .inr ⟨rfl, rfl⟩, ?_⟩
  rintro v w (hvw | ⟨rfl, rfl⟩)
  · rcases hR v w hvw with ⟨p, hp, hv, hw⟩ | hm
    · rcases List.mem_cons.mp hp with rfl | hp
      · obtain rfl : v = a := (value_of_container? hv).symm.trans (value_of_container? hopen.left)
        obtain rfl : w = b := (value_of_container? hw).symm.trans (value_of_container? hopen.right)
        exact .inr hab
      · exact .inl ⟨p, hp, hv, hw⟩
    · exact .inr (hm.mono fun _ _ => .inl)
  · exact .inr hab

mutual

lemma Compares.exists_matchesBut {path : List (Container × Container)} {a b : Value} {o : Ordering} :
    h.Compares path a b o → o = .eq → ∃ R : Value → Value → Prop, R a b ∧ h.MatchesBut path R
  | .glance hg, ho => (ho ▸ hg).exists_matchesBut
  | .contents hopen hall, ho => by
    obtain ⟨R, hRall, hR⟩ := hall.exists_matchesBut ho
    exact hopen.exists_matchesBut hRall hR

lemma ComparesAll.exists_matchesBut {path : List (Container × Container)} {as bs : List Value}
    {o : Ordering} : h.ComparesAll path as bs o → o = .eq →
    ∃ R : Value → Value → Prop, List.Forall₂ R as bs ∧ h.MatchesBut path R
  | .nil, _ => ⟨fun _ _ => False, .nil, fun _ _ => False.elim⟩
  | .first _ hne, ho => absurd ho hne
  | .next hfirst hrest, ho => by
    obtain ⟨R, hab, hR⟩ := hfirst.exists_matchesBut rfl
    obtain ⟨S, hall, hS⟩ := hrest.exists_matchesBut ho
    exact ⟨fun v w => R v w ∨ S v w, .cons (.inl hab) (hall.imp fun _ _ => .inr), hR.or hS⟩

end

lemma order_eq_iff_bisimilar : h.order a b = .eq ↔ h.Bisimilar a b := by
  constructor
  · intro heq
    obtain ⟨R, hab, hR⟩ := (compares_nil_iff.mpr heq).exists_matchesBut rfl
    refine bisimilar_of_matches (fun v w hvw => ?_) hab
    simpa using hR v w hvw
  · exact fun hb => hb.orderWithin_eq _ _

/-- On every heap, with cycles or without, a comparison comes to an end, its outcome is reversed when the
values are exchanged, and values are equal exactly if their unfoldings cannot be told apart. So equality
is an equivalence. -/
theorem same_iff_bisimilar_on_any_heap (h : Heap) :
    (∀ a b o, h.Compares [] a b o ↔ h.order a b = o) ∧
    (∀ a b, h.order b a = (h.order a b).swap) ∧
    (∀ a b, h.same a b = true ↔ h.Bisimilar a b) ∧
    Equivalence fun a b => h.same a b = true := by
  have hsame (a b : Value) : h.same a b = true ↔ h.Bisimilar a b := by
    rw [same, beq_iff_eq, order_eq_iff_bisimilar]
  refine ⟨fun a b o => compares_nil_iff, fun a b => order_swap a b, hsame, ?_⟩
  simp only [hsame]
  exact ⟨.refl h, .symm, .trans⟩

end DiceLang.Heap

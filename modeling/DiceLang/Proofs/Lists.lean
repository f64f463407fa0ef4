import Mathlib.Data.List.Forall2
import Mathlib.Tactic.Lemma

/-! Facts about lists and arrays, whatever is in them. -/

namespace DiceLang

variable {α β γ : Type}

lemma map_eq_of_forall₂ {f : α → γ} {g : β → γ} {as : List α} {bs : List β}
    (h : List.Forall₂ (fun a b => f a = g b) as bs) : as.map f = bs.map g := by
  induction h with
  | nil => rfl
  | cons h _ ih => rw [List.map_cons, List.map_cons, h, ih]

lemma forall₂_of_map_eq {f : α → β} {R : α → α → Prop} {xs ys : List α} (heq : xs.map f = ys.map f)
    (hR : ∀ x ∈ xs, ∀ y ∈ ys, f x = f y → R x y) : List.Forall₂ R xs ys := by
  rw [← List.forall₂_eq_eq_eq, List.forall₂_map_left_iff, List.forall₂_map_right_iff,
    List.forall₂_iff_zip] at heq
  apply List.forall₂_iff_zip.mpr
  refine ⟨heq.1, fun hmem => ?_⟩
  obtain ⟨hx, hy⟩ := List.of_mem_zip hmem
  exact hR _ hx _ hy (heq.2 hmem)

lemma exists_of_forall₂ {R : α → β → Prop} {as : List α} {bs : List β} (h : List.Forall₂ R as bs) {b : β}
    (hb : b ∈ bs) : ∃ a ∈ as, R a b := by
  induction h with
  | nil => cases hb
  | @cons a b' as bs hab _ ih =>
    rcases List.mem_cons.mp hb with rfl | hb
    · exact ⟨a, List.mem_cons_self, hab⟩
    · obtain ⟨a', ha', hab'⟩ := ih hb
      exact ⟨a', List.mem_cons_of_mem a ha', hab'⟩

lemma mapM_congr {m : Type → Type} [Monad m] [LawfulMonad m] {f g : α → m β} {xs : List α}
    (hfg : ∀ a ∈ xs, f a = g a) : xs.mapM f = xs.mapM g := by
  induction xs with
  | nil => rfl
  | cons a xs ih =>
    obtain ⟨ha, hxs⟩ := List.forall_mem_cons.mp hfg
    rw [List.mapM_cons, List.mapM_cons, ha, ih hxs]

lemma mapM_eq_some {f : α → Option γ} {g : β → γ} {as : List α} {bs : List β}
    (hall : List.Forall₂ (fun a b => f a = some (g b)) as bs) : as.mapM f = some (bs.map g) := by
  induction hall with
  | nil => rfl
  | cons hab _ ih => simp [List.mapM_cons, hab, ih]

lemma exists_of_mem_mapM {f : α → Option β} {xs : List α} {ys : List β} (h : xs.mapM f = some ys) {y : β}
    (hy : y ∈ ys) : ∃ x ∈ xs, f x = some y := by
  induction xs generalizing ys with
  | nil =>
    cases h
    cases hy
  | cons x xs ih =>
    rw [List.mapM_cons] at h
    obtain ⟨z, hz, h⟩ := Option.bind_eq_some_iff.mp h
    obtain ⟨zs, hzs, h⟩ := Option.bind_eq_some_iff.mp h
    cases h
    rcases List.mem_cons.mp hy with rfl | hy
    · exact ⟨x, List.mem_cons_self, hz⟩
    · obtain ⟨x', hx', hy⟩ := ih hzs hy
      exact ⟨x', List.mem_cons_of_mem _ hx', hy⟩

lemma exists_of_mapM_eq_none {f : α → Option β} {xs : List α} (h : xs.mapM f = none) :
    ∃ x ∈ xs, f x = none := by
  induction xs with
  | nil => cases h
  | cons x xs ih =>
    cases hx : f x with
    | none => exact ⟨x, List.mem_cons_self, hx⟩
    | some y =>
      cases hxs : xs.mapM f with
      | none =>
        obtain ⟨x', hmem, hx'⟩ := ih hxs
        exact ⟨x', List.mem_cons_of_mem _ hmem, hx'⟩
      | some ys =>
        rw [List.mapM_cons, hx, hxs] at h
        cases h

lemma countP_or_of_disjoint {p q : α → Bool} {xs : List α} (hpq : ∀ x ∈ xs, p x = true → q x = false) :
    xs.countP (fun x => p x || q x) = xs.countP p + xs.countP q := by
  induction xs with
  | nil => rfl
  | cons x xs ih =>
    obtain ⟨hx, hxs⟩ := List.forall_mem_cons.mp hpq
    rw [List.countP_cons, List.countP_cons, List.countP_cons, ih hxs]
    cases hp : p x <;> cases hq : q x <;> simp_all <;> omega

lemma drop_takeWhile (p : α → Bool) (xs : List α) : xs.drop (xs.takeWhile p).length = xs.dropWhile p := by
  have h : (xs.takeWhile p ++ xs.dropWhile p).drop (xs.takeWhile p).length = xs.dropWhile p := List.drop_left
  rwa [List.takeWhile_append_dropWhile] at h

lemma toList_of_back? {xs : Array α} {x : α} (hback : xs.back? = some x) :
    xs.toList = xs.pop.toList ++ [x] := by
  rw [Array.toList_pop]
  exact (List.dropLast_append_getLast? x (by rwa [Array.getLast?_toList])).symm

lemma getElem?_push_of_some {xs : Array α} {i : Nat} {x : α} (hi : xs[i]? = some x) (y : α) :
    (xs.push y)[i]? = some x := by
  have hlt := (Array.getElem?_eq_some_iff.mp hi).1
  rw [Array.getElem?_push, if_neg (Nat.ne_of_lt hlt), hi]

end DiceLang

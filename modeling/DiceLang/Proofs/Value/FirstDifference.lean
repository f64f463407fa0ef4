import DiceLang.Proofs.Value.Bisimulation

/-! The first difference of two values decides their order, and where there is one the order is transitive.
Values that contain themselves need not have one. -/

namespace DiceLang.Heap

open Relation (ReflTransGen TransGen)

section Lists

variable {alike : Value → Value → Prop} {apart : Value → Value → Ordering → Prop}
  {as bs cs : List Value} {o o' : Ordering}

inductive FirstOf (alike : Value → Value → Prop) (apart : Value → Value → Ordering → Prop) :
    List Value → List Value → Ordering → Prop
  | shorter {b : Value} {bs : List Value} : FirstOf alike apart [] (b :: bs) .lt
  | longer {a : Value} {as : List Value} : FirstOf alike apart (a :: as) [] .gt
  | here {a b : Value} {as bs : List Value} {o : Ordering} :
      apart a b o → FirstOf alike apart (a :: as) (b :: bs) o
  | later {a b : Value} {as bs : List Value} {o : Ordering} :
      alike a b → FirstOf alike apart as bs o → FirstOf alike apart (a :: as) (b :: bs) o

namespace FirstOf

lemma mono {apart' : Value → Value → Ordering → Prop} (hap : ∀ a b o, apart a b o → apart' a b o)
    (hf : FirstOf alike apart as bs o) : FirstOf alike apart' as bs o := by
  induction hf with
  | shorter => exact .shorter
  | longer => exact .longer
  | here hab => exact .here (hap _ _ _ hab)
  | later hab _ ih => exact .later hab ih

lemma ne_eq (hap : ∀ a b o, apart a b o → o ≠ .eq) (hf : FirstOf alike apart as bs o) : o ≠ .eq := by
  induction hf with
  | shorter | longer => simp
  | here hab => exact hap _ _ _ hab
  | later _ _ ih => exact ih

lemma not_forall₂ (hap : ∀ a b o, apart a b o → ¬ alike a b) (hf : FirstOf alike apart as bs o) :
    ¬ List.Forall₂ alike as bs := by
  induction hf with
  | shorter | longer => exact nofun
  | here hab => exact fun hall => hap _ _ _ hab (List.forall₂_cons.mp hall).1
  | later _ _ ih => exact fun hall => ih (List.forall₂_cons.mp hall).2

lemma unique {apart' : Value → Value → Ordering → Prop}
    (heq : ∀ a b o o', apart a b o → apart' a b o' → o = o')
    (hap : ∀ a b o, apart a b o → ¬ alike a b) (hap' : ∀ a b o, apart' a b o → ¬ alike a b)
    (hf : FirstOf alike apart as bs o) (hf' : FirstOf alike apart' as bs o') : o = o' := by
  induction hf with
  | shorter => cases hf'; rfl
  | longer => cases hf'; rfl
  | here hab =>
    cases hf' with
    | here hab' => exact heq _ _ _ _ hab hab'
    | later halike => exact absurd halike (hap _ _ _ hab)
  | later halike _ ih =>
    cases hf' with
    | here hab' => exact absurd halike (hap' _ _ _ hab')
    | later _ hf' => exact ih hf'

lemma swap {apart' : Value → Value → Ordering → Prop} (hsymm : ∀ a b, alike a b → alike b a)
    (hap : ∀ a b o, apart a b o → apart' b a o.swap) (hf : FirstOf alike apart as bs o) :
    FirstOf alike apart' bs as o.swap := by
  induction hf with
  | shorter => exact .longer
  | longer => exact .shorter
  | here hab => exact .here (hap _ _ _ hab)
  | later hab _ ih => exact .later (hsymm _ _ hab) ih

lemma congr_right (htrans : ∀ a b c, alike a b → alike b c → alike a c)
    (hap : ∀ a b c o, apart a b o → alike b c → apart a c o)
    (hf : FirstOf alike apart as bs o) (hall : List.Forall₂ alike bs cs) :
    FirstOf alike apart as cs o := by
  induction hf generalizing cs with
  | shorter =>
    cases hall
    exact .shorter
  | longer =>
    cases hall
    exact .longer
  | here hab =>
    cases hall with
    | cons hbc _ => exact .here (hap _ _ _ _ hab hbc)
  | later hab _ ih =>
    cases hall with
    | cons hbc hall => exact .later (htrans _ _ _ hab hbc) (ih hall)

lemma lt_trans (htrans : ∀ a b c, alike a b → alike b c → alike a c)
    (hright : ∀ a b c, apart a b .lt → alike b c → apart a c .lt)
    (hleft : ∀ a b c, alike a b → apart b c .lt → apart a c .lt)
    (hlt : ∀ a b c, apart a b .lt → apart b c .lt → apart a c .lt)
    (hab : FirstOf alike apart as bs .lt) (hbc : FirstOf alike apart bs cs .lt) :
    FirstOf alike apart as cs .lt := by
  induction as generalizing bs cs with
  | nil =>
    cases hab
    cases hbc with
    | here | later => exact .shorter
  | cons a as ih =>
    cases hab with
    | here hab =>
      cases hbc with
      | here hbc => exact .here (hlt _ _ _ hab hbc)
      | later hbc => exact .here (hright _ _ _ hab hbc)
    | later hab hrest =>
      cases hbc with
      | here hbc => exact .here (hleft _ _ _ hab hbc)
      | later hbc hrest' => exact .later (htrans _ _ _ hab hbc) (ih hrest hrest')

lemma orderLists_eq {order : Value → Value → Ordering} (halike : ∀ a b, alike a b → order a b = .eq)
    (hap : ∀ a b o, apart a b o → order a b = o ∧ o ≠ .eq) (hf : FirstOf alike apart as bs o) :
    orderLists order as bs = o := by
  induction hf with
  | shorter | longer => rfl
  | @here a b as bs o hab =>
    obtain ⟨heq, hne⟩ := hap _ _ _ hab
    rw [orderLists_cons, heq]
    cases o with
    | lt | gt => rfl
    | eq => exact absurd rfl hne
  | later hab _ ih =>
    rw [orderLists_cons, halike _ _ hab, ih]
    rfl

end FirstOf

end Lists

variable {h : Heap} {a b c : Value} {x y : Container} {o o' : Ordering} {m n fuel : Nat}
  {path : List (Container × Container)}

lemma Glance.mono (hg : Glance [] a b o) : Glance path a b o := by
  cases hg with
  | scalars => exact .scalars ..
  | functions => exact .functions ..
  | kinds hk => exact .kinds hk
  | met hk ha hb hmet => exact .met hk ha hb (hmet.imp_right (by simp))

lemma Glance.unique (hg : Glance path a b o) (hg' : Glance path a b o') : o = o' := by
  have heq (o : Ordering) (hg : Glance path a b o) : Heap.empty.orderWithin 1 path a b = o :=
    hg.orderWithin_eq
  exact (heq o hg).symm.trans (heq o' hg')

lemma glance_of_rank_lt (hlt : a.kind.rank < b.kind.rank) : Glance path a b .lt := by
  have hk : a.kind ≠ b.kind := fun heq => hlt.ne (congrArg Kind.rank heq)
  rw [← Nat.compare_eq_lt.mpr hlt]
  exact .kinds hk

lemma Glance.rank_le (hg : Glance path a b o) (ho : o = .lt) : a.kind.rank ≤ b.kind.rank := by
  by_cases hk : a.kind = b.kind
  · rw [hk]
  · rw [hg.unique (.kinds hk)] at ho
    exact (Nat.compare_eq_lt.mp ho).le

lemma Glance.congr_right (hg : Glance [] a b o) (hne : o ≠ .eq) (hbc : h.Bisimilar b c) :
    Glance [] a c o := by
  have hface : h.face b = h.face c := hbc.matches.1
  cases hg with
  | scalars s t =>
    cases c with
    | scalar u =>
      obtain rfl := Face.scalar.inj hface
      exact .scalars s t
    | _ => cases hface
  | functions i j =>
    cases c with
    | function k =>
      obtain rfl := Face.function.inj hface
      exact .functions ..
    | _ => cases hface
  | kinds hk =>
    rw [kind_of_face hface] at hk ⊢
    exact .kinds hk
  | met => exact absurd rfl hne

lemma Glance.eq_of_container (hg : Glance path a b o) (hk : a.kind = b.kind) (ha : a.container? = some x) :
    o = .eq := by
  cases hg with
  | scalars | functions => cases ha
  | kinds hne => exact absurd hk hne
  | met => rfl

lemma Glance.congr_container (hg : Glance [] a b o) (hne : o ≠ .eq) (hk : b.kind = c.kind)
    (hb : b.container? = some y) : Glance [] a c o := by
  cases hg with
  | scalars | functions => cases hb
  | kinds hab =>
    rw [hk] at hab ⊢
    exact .kinds hab
  | met => exact absurd rfl hne

lemma Glance.lt_trans (hab : Glance [] a b o) (ho : o = .lt) (hbc : Glance [] b c o') (ho' : o' = .lt) :
    Glance [] a c .lt := by
  have hrank := hab.rank_le ho
  have hrank' := hbc.rank_le ho'
  by_cases hlt : a.kind.rank < c.kind.rank
  · exact glance_of_rank_lt hlt
  -- All three are of one kind.
  have hk : a.kind = b.kind := DataTree.rank_injective (by omega)
  have hk' : b.kind = c.kind := DataTree.rank_injective (by omega)
  cases hab with
  | kinds hne => exact absurd hk hne
  | met => cases ho
  | scalars s t =>
    cases hbc with
    | kinds hne => exact absurd hk' hne
    | met _ ht => cases ht
    | scalars t u =>
      have hsu : s.order u = .lt := by
        rw [← order_ofScalar] at ho ho' ⊢
        exact DataTree.order_lt_trans ho ho'
      exact hsu ▸ .scalars s u
  | functions i j =>
    cases hbc with
    | kinds hne => exact absurd hk' hne
    | met _ ht => cases ht
    | functions j k =>
      have hik : compare i k = .lt := Std.TransCmp.lt_trans ho ho'
      exact hik ▸ .functions ..

/-- `a` and `b` first differ at most `n` containers down, all that is read before being alike, and the
difference puts them in the order `o`. -/
def PartsWithin (h : Heap) : Nat → Value → Value → Ordering → Prop
  | 0, _, _, _ => False
  | n + 1, a, b, o => Glance [] a b o ∧ o ≠ .eq ∨
      a.kind = b.kind ∧ FirstOf h.Bisimilar (h.PartsWithin n) (h.inside a) (h.inside b) o

lemma exists_container_of_firstOf {apart : Value → Value → Ordering → Prop} (hk : a.kind = b.kind)
    (hf : FirstOf h.Bisimilar apart (h.inside a) (h.inside b) o) :
    ∃ x y, a.container? = some x ∧ b.container? = some y := by
  cases ha : a.container? with
  | some x =>
    obtain ⟨y, hb⟩ := exists_container_of_kind hk ha
    exact ⟨x, y, rfl, hb⟩
  | none =>
    cases hb : b.container? with
    | some y =>
      obtain ⟨x, ha'⟩ := exists_container_of_kind hk.symm hb
      rw [ha] at ha'
      cases ha'
    | none =>
      rw [inside_eq_nil ha, inside_eq_nil hb] at hf
      cases hf

namespace PartsWithin

lemma mono (hle : n ≤ m) (hp : h.PartsWithin n a b o) : h.PartsWithin m a b o := by
  induction n generalizing m a b o with
  | zero => exact hp.elim
  | succ n ih =>
    obtain ⟨m, rfl⟩ := Nat.exists_eq_add_of_le' (Nat.le_of_add_left_le hle)
    rcases hp with hg | ⟨hk, hf⟩
    · exact .inl hg
    · exact .inr ⟨hk, hf.mono fun _ _ _ => ih (Nat.le_of_succ_le_succ hle)⟩

lemma ne_eq (hp : h.PartsWithin n a b o) : o ≠ .eq := by
  induction n generalizing a b o with
  | zero => exact hp.elim
  | succ n ih =>
    rcases hp with ⟨-, hne⟩ | ⟨-, hf⟩
    · exact hne
    · exact hf.ne_eq fun _ _ _ => ih

lemma not_bisimilar (hp : h.PartsWithin n a b o) : ¬ h.Bisimilar a b := by
  induction n generalizing a b o with
  | zero => exact hp.elim
  | succ n ih =>
    intro hab
    rcases hp with ⟨hg, hne⟩ | ⟨-, hf⟩
    · exact hne (hg.eq_of_bisimilar hab)
    · exact hf.not_forall₂ (fun _ _ _ hap => ih hap) hab.matches.2

lemma unique (hp : h.PartsWithin n a b o) (hp' : h.PartsWithin n a b o') : o = o' := by
  induction n generalizing a b o o' with
  | zero => exact hp.elim
  | succ n ih =>
    rcases hp with ⟨hg, hne⟩ | ⟨hk, hf⟩
    · rcases hp' with ⟨hg', -⟩ | ⟨hk', hf'⟩
      · exact hg.unique hg'
      · obtain ⟨x, -, ha, -⟩ := exists_container_of_firstOf hk' hf'
        exact absurd (hg.eq_of_container hk' ha) hne
    · rcases hp' with ⟨hg', hne'⟩ | ⟨-, hf'⟩
      · obtain ⟨x, -, ha, -⟩ := exists_container_of_firstOf hk hf
        exact absurd (hg'.eq_of_container hk ha) hne'
      · refine FirstOf.unique ?_ ?_ ?_ hf hf'
        · exact fun _ _ _ _ => ih
        · exact fun _ _ _ hap => hap.not_bisimilar
        · exact fun _ _ _ hap => hap.not_bisimilar

lemma swap (hp : h.PartsWithin n a b o) : h.PartsWithin n b a o.swap := by
  induction n generalizing a b o with
  | zero => exact hp.elim
  | succ n ih =>
    rcases hp with ⟨hg, hne⟩ | ⟨hk, hf⟩
    · exact .inl ⟨hg.swap, fun ho => hne (Ordering.swap_eq_eq.mp ho)⟩
    · exact .inr ⟨hk.symm, hf.swap (fun _ _ => .symm) fun _ _ _ => ih⟩

lemma congr_right (hp : h.PartsWithin n a b o) (hbc : h.Bisimilar b c) : h.PartsWithin n a c o := by
  induction n generalizing a b c o with
  | zero => exact hp.elim
  | succ n ih =>
    obtain ⟨hface, hall⟩ := hbc.matches
    rcases hp with ⟨hg, hne⟩ | ⟨hk, hf⟩
    · exact .inl ⟨hg.congr_right hne hbc, hne⟩
    · refine .inr ⟨hk.trans (kind_of_face hface), ?_⟩
      exact hf.congr_right (fun _ _ _ => .trans) (fun _ _ _ _ hap => ih hap) hall

lemma congr_left (hab : h.Bisimilar a b) (hp : h.PartsWithin n b c o) : h.PartsWithin n a c o := by
  have hswap := (hp.swap.congr_right hab.symm).swap
  rwa [Ordering.swap_swap] at hswap

lemma lt_trans (hab : h.PartsWithin n a b .lt) (hbc : h.PartsWithin n b c .lt) :
    h.PartsWithin n a c .lt := by
  induction n generalizing a b c with
  | zero => exact hab.elim
  | succ n ih =>
    rcases hab with ⟨hab, hne⟩ | ⟨hk, hab⟩
    · rcases hbc with ⟨hbc, -⟩ | ⟨hk', hbc⟩
      · exact .inl ⟨hab.lt_trans rfl hbc rfl, hne⟩
      · obtain ⟨y, -, hy, -⟩ := exists_container_of_firstOf hk' hbc
        exact .inl ⟨hab.congr_container hne hk' hy, hne⟩
    · rcases hbc with ⟨hbc, hne⟩ | ⟨hk', hbc⟩
      · obtain ⟨-, y, -, hy⟩ := exists_container_of_firstOf hk hab
        have hswap := (hbc.swap.congr_container (by simp) hk.symm hy).swap
        exact .inl ⟨hswap, hne⟩
      · refine .inr ⟨hk.trans hk', ?_⟩
        exact hab.lt_trans (fun _ _ _ => .trans) (fun _ _ _ => congr_right) (fun _ _ _ => congr_left)
          (fun _ _ _ => ih) hbc

lemma orderWithin_eq (hp : h.PartsWithin n a b o) (hfuel : n ≤ fuel)
    (hpath : ∀ p ∈ path, ∀ o, ¬ h.PartsWithin n p.1.value p.2.value o) :
    h.orderWithin fuel path a b = o := by
  induction n generalizing fuel path a b o with
  | zero => exact hp.elim
  | succ n ih =>
    have hclear (p : Container × Container) (hmem : p ∈ path) (o : Ordering) :
        ¬ h.PartsWithin n p.1.value p.2.value o :=
      fun hless => hpath p hmem o (hless.mono n.le_succ)
    by_cases hless : ∃ o, h.PartsWithin n a b o
    · obtain ⟨o', hp'⟩ := hless
      rw [ih hp' (Nat.le_of_succ_le hfuel) hclear]
      exact (hp'.mono n.le_succ).unique hp
    obtain ⟨fuel, rfl⟩ := Nat.exists_eq_add_of_le' (Nat.le_of_add_left_le hfuel)
    rcases id hp with ⟨hg, -⟩ | ⟨hk, hf⟩
    · exact hg.mono.orderWithin_eq
    obtain ⟨x, y, ha, hb⟩ := exists_container_of_firstOf hk hf
    have hx : x.value = a := value_of_container? ha
    have hy : y.value = b := value_of_container? hb
    have hopen : Opens path a b x y := by
      refine ⟨hk, ha, hb, ?_, ?_⟩
      · rintro rfl
        exact hp.not_bisimilar (hx.symm.trans hy ▸ .refl h a)
      · intro hmem
        refine hpath (x, y) hmem o ?_
        rwa [hx, hy]
    rw [hopen.orderWithin_eq]
    rw [inside_of_container? ha, inside_of_container? hb] at hf
    apply hf.orderLists_eq
    · exact fun v w hvw => hvw.orderWithin_eq fuel _
    · intro v w o hvw
      refine ⟨ih hvw (Nat.le_of_succ_le_succ hfuel) ?_, hvw.ne_eq⟩
      rw [List.forall_mem_cons]
      refine ⟨fun o hxy => hless ⟨o, ?_⟩, hclear⟩
      rwa [hx, hy] at hxy

lemma order_eq (hp : h.PartsWithin n a b o) : h.order a b = o := by
  have hfuel : h.size * h.size < max n (h.size * h.size + 1) := Nat.lt_of_succ_le (le_max_right _ _)
  rw [← orderWithin_nil_of_lt hfuel]
  exact hp.orderWithin_eq (le_max_left _ _) (by simp)

end PartsWithin

/-- Read from the left, the unfoldings of `a` and `b` are the same for ever, or they have a first
difference, and that puts them in the order `o`. -/
inductive Ranks (h : Heap) (a b : Value) : Ordering → Prop
  | alike : h.Bisimilar a b → Ranks h a b .eq
  | parts {n : Nat} {o : Ordering} : h.PartsWithin n a b o → Ranks h a b o

def Settled (h : Heap) (a b : Value) : Prop := ∃ o, h.Ranks a b o

lemma Ranks.order_eq (hr : h.Ranks a b o) : h.order a b = o := by
  cases hr with
  | alike hab => exact order_eq_iff_bisimilar.mpr hab
  | parts hp => exact hp.order_eq

lemma Settled.ranks (hs : h.Settled a b) : h.Ranks a b (h.order a b) := by
  obtain ⟨o, hr⟩ := hs
  rwa [hr.order_eq]

lemma Ranks.swap (hr : h.Ranks a b o) : h.Ranks b a o.swap := by
  cases hr with
  | alike hab => exact .alike hab.symm
  | parts hp => exact .parts hp.swap

lemma Settled.swap (hs : h.Settled a b) : h.Settled b a := ⟨_, hs.ranks.swap⟩

lemma Ranks.trans (hab : h.Ranks a b o) (ho : o.isLE) (hbc : h.Ranks b c o') (ho' : o'.isLE) :
    h.Ranks a c (o.then o') := by
  cases hab with
  | alike hab =>
    cases hbc with
    | alike hbc => exact .alike (hab.trans hbc)
    | parts hbc => exact .parts (.congr_left hab hbc)
  | @parts n _ hab =>
    have hlt : o = .lt := (Ordering.isLE_iff_eq_lt_or_eq_eq.mp ho).resolve_right hab.ne_eq
    subst hlt
    cases hbc with
    | alike hbc => exact .parts (hab.congr_right hbc)
    | @parts m _ hbc =>
      have hlt : o' = .lt := (Ordering.isLE_iff_eq_lt_or_eq_eq.mp ho').resolve_right hbc.ne_eq
      subst hlt
      exact .parts (.lt_trans (hab.mono (le_max_left n m)) (hbc.mono (le_max_right n m)))

lemma order_isLE_trans
    (hs : h.Settled a b ∧ h.Settled b c ∨ h.Settled a b ∧ h.Settled a c ∨ h.Settled b c ∧ h.Settled a c)
    (hle : (h.order a b).isLE) (hle' : (h.order b c).isLE) : (h.order a c).isLE := by
  rcases hs with ⟨hab, hbc⟩ | hs
  · rw [(hab.ranks.trans hle hbc.ranks hle').order_eq, Ordering.isLE_then_iff_and]
    exact ⟨hle, .inr hle'⟩
  by_contra hgt
  rw [Bool.not_eq_true, Ordering.isLE_eq_false] at hgt
  have hac : h.Settled a c := hs.elim And.right And.right
  have hca : h.Ranks c a .lt := by simpa [hgt] using hac.ranks.swap
  rcases hs with ⟨hab, -⟩ | ⟨hbc, -⟩
  · have hcb : h.order c b = .lt := (hca.trans rfl hab.ranks hle).order_eq
    rw [order_swap c b, hcb] at hle'
    cases hle'
  · have hba : h.order b a = .lt := by
      rw [(hbc.ranks.trans hle' hca rfl).order_eq]
      rcases Ordering.isLE_iff_eq_lt_or_eq_eq.mp hle' with ho | ho <;> rw [ho] <;> rfl
    rw [order_swap b a, hba] at hle
    cases hle

lemma bisimilar_of_forall₂ (hk : a.kind = b.kind) (ha : a.container? = some x)
    (hall : List.Forall₂ h.Bisimilar (h.inside a) (h.inside b)) : h.Bisimilar a b := by
  refine bisimilar_of_matches (R := fun v w => h.Bisimilar v w ∨ v = a ∧ w = b) ?_ (.inr ⟨rfl, rfl⟩)
  rintro v w (hvw | ⟨rfl, rfl⟩)
  · exact hvw.matches.mono fun _ _ => .inl
  · exact ⟨face_of_length hk ha hall.length_eq, hall.imp fun _ _ => .inl⟩

lemma forall₂_or_firstOf {as : List Value} (hall : ∀ v ∈ as, ∀ w, h.Settled v w) (bs : List Value) :
    List.Forall₂ h.Bisimilar as bs ∨ ∃ n o, FirstOf h.Bisimilar (h.PartsWithin n) as bs o := by
  induction as generalizing bs with
  | nil =>
    cases bs with
    | nil => exact .inl .nil
    | cons => exact .inr ⟨0, _, .shorter⟩
  | cons a as ih =>
    cases bs with
    | nil => exact .inr ⟨0, _, .longer⟩
    | cons b bs =>
      rw [List.forall_mem_cons] at hall
      obtain ⟨o, hab⟩ := hall.1 b
      cases hab with
      | parts hp => exact .inr ⟨_, _, .here hp⟩
      | alike hab =>
        rcases ih hall.2 bs with hrest | ⟨n, o, hrest⟩
        · exact .inl (.cons hab hrest)
        · exact .inr ⟨n, o, .later hab hrest⟩

lemma Glance.settled (hg : Glance [] a b o) : h.Settled a b := by
  by_cases ho : o = .eq
  · subst ho
    obtain ⟨R, hab, hR⟩ := hg.exists_matchesBut (h := h)
    exact ⟨_, .alike (bisimilar_of_matches (fun v w hvw => by simpa using hR v w hvw) hab)⟩
  · exact ⟨o, .parts (n := 1) (.inl ⟨hg, ho⟩)⟩

lemma Acyclic.settled (ha : h.Acyclic a) (b : Value) : h.Settled a b := by
  -- Induction on the number of containers that can still be met.
  induction hn : (h.met a).card using Nat.strong_induction_on generalizing a b with
  | _ n ih =>
    rcases glance_or_opens [] a b with ⟨o, hg⟩ | ⟨x, y, hopen⟩
    · exact hg.settled
    have hall (v : Value) (hv : v ∈ h.inside a) (w : Value) : h.Settled v w := by
      rw [inside_of_container? hopen.left] at hv
      have hholds : h.Holds a v := ⟨x, hopen.left, hv⟩
      exact ih _ (hn ▸ card_met_lt (ha a .refl) hholds) (ha.of_holds hholds) w rfl
    rcases forall₂_or_firstOf hall (h.inside b) with hinside | ⟨n, o, hf⟩
    · exact ⟨_, .alike (bisimilar_of_forall₂ hopen.kind hopen.left hinside)⟩
    · exact ⟨o, .parts (n := n + 1) (.inr ⟨hopen.kind, hf⟩)⟩

/-- Where two values have a first difference it decides their order. If two of three values' pairs are
so settled, the order is transitive on the three; in particular if one of them does not contain
itself. -/
theorem order_transitive_where_settled (h : Heap) :
    (∀ a b o, h.Ranks a b o → h.order a b = o) ∧
    (∀ a b c,
      h.Settled a b ∧ h.Settled b c ∨ h.Settled a b ∧ h.Settled a c ∨ h.Settled b c ∧ h.Settled a c →
      (h.order a b).isLE → (h.order b c).isLE → (h.order a c).isLE) ∧
    ∀ a b c, h.Acyclic a ∨ h.Acyclic b ∨ h.Acyclic c →
      (h.order a b).isLE → (h.order b c).isLE → (h.order a c).isLE := by
  refine ⟨fun a b o hr => hr.order_eq, fun a b c => order_isLE_trans, fun a b c hacyclic => ?_⟩
  apply order_isLE_trans
  rcases hacyclic with ha | hb | hc
  · exact .inr (.inl ⟨ha.settled b, ha.settled c⟩)
  · exact .inl ⟨(hb.settled a).swap, hb.settled c⟩
  · exact .inr (.inr ⟨(hc.settled b).swap, (hc.settled a).swap⟩)

def tangled : Heap :=
  ⟨#[[.list ⟨1⟩, .number 0], [.list ⟨0⟩, .number 2], [.list ⟨2⟩, .number 1], [.list ⟨2⟩, .number 1],
    [.list ⟨2⟩, .number 4], [.list ⟨3⟩, .number 5], [.list ⟨2⟩, .number 6], [.number 7]], #[]⟩

theorem alike_cycles_before_first_difference :
    (tangled.Ranks (.list ⟨4⟩) (.list ⟨5⟩) .lt ∧ tangled.order (.list ⟨4⟩) (.list ⟨5⟩) = .lt) ∧
    (tangled.order (.list ⟨4⟩) (.list ⟨6⟩)).isLE ∧ (tangled.order (.list ⟨7⟩) (.list ⟨1⟩)).isLE := by
  have hcycle : tangled.Bisimilar (.list ⟨2⟩) (.list ⟨3⟩) := order_eq_iff_bisimilar.mp (by decide)
  have hnumbers (m n : Int64) (hlt : (Scalar.number m).order (.number n) = .lt) :
      tangled.PartsWithin 1 (.number m) (.number n) .lt := .inl ⟨hlt ▸ .scalars _ _, by simp⟩
  have hfirst : tangled.Ranks (.list ⟨4⟩) (.list ⟨5⟩) .lt :=
    .parts (n := 2) (.inr ⟨rfl, .later hcycle (.here (hnumbers 4 5 (by decide)))⟩)
  have hsecond : tangled.Ranks (.list ⟨5⟩) (.list ⟨6⟩) .lt :=
    .parts (n := 2) (.inr ⟨rfl, .later hcycle.symm (.here (hnumbers 5 6 (by decide)))⟩)
  have hflat : tangled.Acyclic (.list ⟨7⟩) :=
    (Unfolds.list ⟨7⟩ [.number 7] rfl (by simpa [tangled, items] using .scalar (.number 7))).plain.acyclic
  obtain ⟨hranks, htrans, hacyclic⟩ := order_transitive_where_settled tangled
  refine ⟨⟨hfirst, hranks _ _ _ hfirst⟩, ?_, ?_⟩
  · exact htrans _ (.list ⟨5⟩) _ (.inl ⟨⟨_, hfirst⟩, ⟨_, hsecond⟩⟩) (by decide) (by decide)
  · exact hacyclic _ (.list ⟨3⟩) _ (.inl hflat) (by decide) (by decide)

theorem self_containing_lists_go_round :
    (tangled.order (.list ⟨0⟩) (.list ⟨3⟩)).isLE ∧ (tangled.order (.list ⟨3⟩) (.list ⟨1⟩)).isLE ∧
      ¬ (tangled.order (.list ⟨0⟩) (.list ⟨1⟩)).isLE := by
  decide

end DiceLang.Heap

import DiceLang.Proofs.Expr.RoundTrip
import DiceLang.Proofs.Label.Placement

/-! Labels are read back. A label is the text of an expression with scalars in place of names, and it is read
to the filled tree, with a few exceptions. -/

namespace DiceLang

namespace Expr

variable {look : Lookup}

lemma Alike.forall_within {P : Expr → Prop} (hs : ∀ loc v, P (.scalar loc v))
    (hb : ∀ e, P e.bare ↔ P e) {a b : Expr} (h : a.Alike b) :
    (∀ n, Within n a → P n) ↔ ∀ n, Within n b → P n := by
  rw [← forall_within_bare hs hb a, h, forall_within_bare hs hb b]

lemma collectsBound_bare (e : Expr) : e.bare.collectsBound look = e.collectsBound look := by
  cases e with
  | forEach loc index item out container condition =>
    rw [bare_forEach, collectsBound, collectsBound, (sameForm_bare out).isVar]
  | _ => simp [collectsBound]

lemma collectsBound_mapChildren_reread (e : Expr) :
    (e.mapChildren reread).collectsBound look = e.collectsBound look := by
  cases e with
  | forEach loc index item out container condition =>
    rw [mapChildren, collectsBound, collectsBound, (sameForm_reread out).isVar]
  | _ => rfl

lemma not_collectsBound_constant (loc : Location) (v : Scalar) :
    ∀ n, Within n (constant loc v) → n.collectsBound look = false := by
  have hscalar (w : Scalar) : ∀ n, Within n (scalar loc w) → n.collectsBound look = false :=
    forall_within_leaf rfl rfl
  cases v with
  | number n =>
    rw [constant, writeSign]
    split
    · rw [forall_within]
      exact ⟨rfl, by simpa [children] using hscalar _⟩
    · exact hscalar _
  | _ => exact hscalar _

lemma not_collectsBound_fill (e : Expr) :
    ∀ n, Within n (e.fill look) → n.collectsBound look = false := by
  induction e using children_induction with
  | step e ih =>
    cases e with
    | var loc name =>
      rw [fill_var, fillNode]
      cases look name with
      | none => exact forall_within_leaf rfl rfl
      | some v => exact not_collectsBound_constant loc v
    | forEach loc index item out container condition =>
      rw [fill_of_ne_var look (by simp), forall_within, children_mapChildren]
      refine ⟨?_, List.forall_mem_map.mpr ih⟩
      rw [mapChildren, collectsBound]
      by_cases hv : Printer.isVar item (out.fill look) = true
      · obtain ⟨loc', hout⟩ := Printer.eq_var_of_isVar hv
        rw [(fill_eq_var hout).2]
        simp
      · simp [hv]
    | _ =>
      rw [fill_of_ne_var look (by simp), forall_within, children_mapChildren]
      exact ⟨rfl, List.forall_mem_map.mpr ih⟩

lemma not_collectsBound_of_kept {e : Expr}
    (h : ∀ n, Within n (e.kept look) → n.collectsBound look = false) :
    ∀ n, Within n e → n.collectsBound look = false := by
  induction e using children_induction with
  | step e ih =>
    cases e with
    | var loc name => exact forall_within_leaf rfl rfl
    | forEach loc index item out container condition =>
      rw [kept_forEach, forall_within] at h
      rw [forall_within]
      simp only [children, List.mem_cons, forall_eq_or_imp, Option.mem_toList] at h ih ⊢
      obtain ⟨hroot, hout, hcontainer, hcondition⟩ := h
      refine ⟨?_, ?_, ih.2.1 hcontainer, fun c hc => ih.2.2 c hc (hcondition _ (by rw [hc]; rfl))⟩
      · by_cases hv : Printer.isVar item out = true
        · rwa [if_pos hv] at hroot
        · simp [collectsBound, hv]
      · by_cases hv : Printer.isVar item out = true
        · rwa [if_pos hv] at hout
        · rw [if_neg hv] at hout
          exact ih.1 hout
    | _ =>
      rw [kept_of_ne look (by simp) (by simp), forall_within, children_mapChildren] at h
      rw [forall_within]
      exact ⟨rfl, fun c hc => ih c hc (h.2 _ (List.mem_map_of_mem hc))⟩

lemma forall_within_of_nameImport {P : Expr → Prop}
    (himport : ∀ loc space address, P (.importing loc space address))
    (hassign : ∀ loc left right, P (.binary loc .assign left right))
    (hvar : ∀ loc name, P (.var loc name)) {e : Expr} (h : ∀ n, Within n (nameImport e) → P n) :
    ∀ n, Within n e → P n := by
  by_cases hm : e.isMisread = true
  · match e, hm with
    | .importing loc none (.binary loc₁ .assign (.var loc₂ name) right), _ =>
      have hright : ∀ n, Within n right → P n :=
        fun n hn => h n (.inside (by simp [nameImport, children]) hn)
      have hname : ∀ n, Within n (var loc₂ name) → P n := forall_within_leaf rfl (hvar _ _)
      have haddress : ∀ n, Within n (binary loc₁ .assign (.var loc₂ name) right) → P n := by
        rw [forall_within]
        exact ⟨hassign _ _ _, by simpa [children] using ⟨hname, hright⟩⟩
      rw [forall_within]
      exact ⟨himport _ _ _, by simpa [children] using haddress⟩
  · rwa [nameImport_of_not_isMisread (by simpa using hm)] at h

lemma not_collectsBound_of_reread {e : Expr}
    (h : ∀ n, Within n e.reread → n.collectsBound look = false) :
    ∀ n, Within n e → n.collectsBound look = false := by
  induction e using children_induction with
  | step e ih =>
    rw [reread_eq] at h
    replace h := forall_within_of_nameImport (fun _ _ _ => rfl) (fun _ _ _ => rfl) (fun _ _ => rfl) h
    rw [forall_within, collectsBound_mapChildren_reread, children_mapChildren] at h
    rw [forall_within]
    exact ⟨h.1, fun c hc => ih c hc (h.2 _ (List.mem_map_of_mem hc))⟩

def doublesSign : Expr → Bool
  | .unary _ .minus (.scalar _ (.number n)) => decide (n < 0)
  | _ => false

lemma doublesSign_bare (e : Expr) : e.bare.doublesSign = e.doublesSign := by
  cases e with
  | unary loc op operand =>
    rw [bare_unary]
    cases operand with
    | scalar loc v => cases v <;> cases op <;> rfl
    | _ => cases op <;> simp [doublesSign]
  | _ => simp [doublesSign]

lemma WellFormed.not_doublesSign {e : Expr} (h : e.WellFormed) :
    ∀ n, Within n e → n.doublesSign = false := by
  intro n hn
  by_contra hd
  match n, hn, hd with
  | .unary loc .minus (.scalar loc' (.number k)), hn, hd =>
    have hk : 0 ≤ k := h (.scalar loc' (.number k)) (.trans (.inside (by simp [children]) .self) hn)
    simp [doublesSign, Int64.not_lt.mpr hk] at hd

lemma not_isLeast_of_fill {e : Expr} (h : ∀ n, Within n (e.fill look) → n.doublesSign = false) :
    ∀ n, Within n e → n.isLeast look = false := by
  induction e using children_induction with
  | step e ih =>
    cases e with
    | var loc name =>
      refine forall_within_leaf rfl ?_
      by_contra hl
      have hlook : look name = some (.number Int64.minValue) := by simpa [isLeast] using hl
      have hfill : (var loc name).fill look =
          .unary loc .minus (.scalar loc (.number (-Int64.minValue))) := by
        simp only [fill_var, fillNode, hlook, constant, writeSign]
        rw [if_pos (by decide)]
      rw [hfill] at h
      have hd : decide (-Int64.minValue < 0) = false := h _ .self
      exact absurd hd (by decide)
    | _ =>
      rw [fill_of_ne_var look (by simp), forall_within, children_mapChildren] at h
      rw [forall_within]
      exact ⟨rfl, fun c hc => ih c hc (h.2 _ (List.mem_map_of_mem hc))⟩

end Expr

def Lookup.only (name : String) (n : Int64) : Lookup :=
  fun s => if s = name then some (.number n) else none

def Expr.isThrow : Expr → Bool
  | .binary _ .dice _ _ => true
  | _ => false

lemma Expr.isThrow_bare (e : Expr) : e.bare.isThrow = e.isThrow := by
  cases e with
  | binary loc op => cases op <;> simp [isThrow]
  | _ => simp [isThrow]

lemma Expr.isThrow_fill (look : Lookup) (e : Expr) : (e.fill look).isThrow = e.isThrow := by
  cases e with
  | var loc name =>
    rw [fill_var, fillNode]
    cases look name with
    | none => rfl
    | some v =>
      cases v with
      | number n =>
        simp only [constant, writeSign]
        split <;> rfl
      | _ => rfl
  | binary loc op =>
    rw [fill_of_ne_var look (by simp)]
    cases op <;> rfl
  | _ =>
    rw [fill_of_ne_var look (by simp)]
    rfl

lemma legible_of_parse {look : Lookup} {n n' : Expr} (h : n.WellFormed)
    (hmin : ∀ k, Expr.Within k n → k.isLeast look = false) (hg : (n.fill look).isGlued = false)
    {name : String} (hp : parse name (n.label look .sequence) = .ok [n'])
    (ha : n'.Alike (n.fill look)) : Parser.Legible look n := by
  obtain ⟨ts, ht, hw⟩ := lex_label h hmin hg
  rw [parse, ht] at hp
  obtain ⟨s, rest, hs, hm⟩ := Parser.meets_program hp
  rw [List.flatMap_singleton, ← n'.needs_bare, ha, Expr.needs_bare] at hm
  exact Parser.legible_of_meets h (hw.symm.trans hs) hm

/-- A label of whatever stands anywhere in a program is read as one expression with the filled tree
exactly if no name of a negative number stands where a sign needs parentheses, no name stands for the
least number, no loop collects a name that stands for a scalar, and the text of the filled tree is read
back. -/
theorem parse_label_alike {source text : String} {es : List Expr}
    (h : parse source text = .ok es) {e : Expr} (he : e ∈ es) {n : Expr} (hn : n.Within e)
    (look : Lookup) (name : String) :
    (∃ n', parse name (n.label look .sequence) = .ok [n'] ∧ n'.Alike (n.fill look)) ↔
      (∀ k, Expr.Within k n → k.isMisplaced look = false ∧ k.isLeast look = false ∧
        k.collectsBound look = false) ∧
      (∀ k, Expr.Within k (n.fill look) → k.isMisread = false) ∧ (n.fill look).isGlued = false := by
  have hwf : n.WellFormed := (fits_parse h he).wellFormed.within hn
  constructor
  · rintro ⟨n', hp, ha⟩
    have hf := fits_parse hp (List.mem_singleton_self n')
    have hg : (n.fill look).isGlued = false := by
      rw [← Expr.isGlued_bare, ← ha, n'.isGlued_bare]
      exact hf.not_glued rfl
    have hleast : ∀ k, Expr.Within k n → k.isLeast look = false :=
      Expr.not_isLeast_of_fill ((ha.forall_within (fun _ _ => rfl)
        fun e => by rw [e.doublesSign_bare]).mp hf.wellFormed.not_doublesSign)
    have hlegible := legible_of_parse hwf hleast hg hp ha
    obtain ⟨n'', hp', ha'⟩ := parse_label hwf hleast hlegible hg name
    obtain rfl : n' = n'' := by
      rw [hp] at hp'
      simpa using hp'
    have hcollect : ∀ k, Expr.Within k n → k.collectsBound look = false := by
      have hbare (e : Expr) : e.bare.collectsBound look = false ↔ e.collectsBound look = false := by
        rw [e.collectsBound_bare]
      have hshown : (n.fill look).Alike (n.shown look) := ha.symm.trans ha'
      exact Expr.not_collectsBound_of_kept (Expr.not_collectsBound_of_reread
        ((hshown.forall_within (fun _ _ => rfl) hbare).mp n.not_collectsBound_fill))
    rw [Expr.shown, Expr.kept_eq_fill hcollect] at ha'
    exact ⟨fun k hk => ⟨hlegible k hk, hleast k hk, hcollect k hk⟩,
      Expr.alike_reread_iff.mp (ha'.symm.trans ha), hg⟩
  · rintro ⟨hk, hmis, hg⟩
    obtain ⟨n', hp, ha⟩ :=
      parse_label hwf (fun k hn => (hk k hn).2.1) (fun k hn => (hk k hn).1) hg name
    rw [Expr.shown, Expr.kept_eq_fill fun k hn => (hk k hn).2.2] at ha
    exact ⟨n', hp, ha.trans (Expr.alike_reread_iff.mpr hmis)⟩

def Expr.isSum (x y : String) : Expr → Bool
  | .binary _ (.arithmetic .add) (.var _ name) (.var _ name') => name == x && name' == y
  | _ => false

theorem negative_bonus_and_negative_count :
    (∃ e, parse "main" "x + y" = .ok [e] ∧
      ∃ e', parse "main" (e.label (Lookup.only "x" (-2)) .sequence) = .ok [e'] ∧
        e'.Alike (e.fill (Lookup.only "x" (-2)))) ∧
    ∃ e, parse "main" "d x" = .ok [e] ∧
      ¬ ∃ e', parse "main" (e.label (Lookup.only "x" (-2)) .sequence) = .ok [e'] ∧
        e'.Alike (e.fill (Lookup.only "x" (-2))) := by
  constructor
  · obtain ⟨e, hp, ht⟩ := exists_of_readsOne "x + y" (Expr.isSum "x" "y") (by decide +kernel)
    unfold Expr.isSum at ht
    split at ht
    next loc loc₁ name loc₂ name' =>
      rw [Bool.and_eq_true, beq_iff_eq, beq_iff_eq] at ht
      obtain ⟨rfl, rfl⟩ := ht
      have hfill : (Expr.binary loc (.arithmetic .add) (.var loc₁ "x") (.var loc₂ "y")).fill
          (Lookup.only "x" (-2)) = .binary loc (.arithmetic .add)
            (.unary loc₁ .minus (.scalar loc₁ (.number 2))) (.var loc₂ "y") := by
        rw [Expr.fill_of_ne_var _ (by simp), Expr.mapChildren, Expr.fill_var, Expr.fill_var]
        rfl
      have hsum {P : Expr → Prop} {a b : Expr} (ha : ∀ k, Expr.Within k a → P k)
          (hb : ∀ k, Expr.Within k b → P k) (h : P (.binary loc (.arithmetic .add) a b)) :
          ∀ k, Expr.Within k (.binary loc (.arithmetic .add) a b) → P k := by
        rw [Expr.forall_within]
        exact ⟨h, by simpa [Expr.children] using ⟨ha, hb⟩⟩
      refine ⟨_, hp, (parse_label_alike hp (List.mem_singleton_self _) .self _ "main").mpr
        ⟨?_, ?_, by rw [hfill]; rfl⟩⟩
      · exact hsum (Expr.forall_within_leaf rfl ⟨rfl, rfl, rfl⟩)
          (Expr.forall_within_leaf rfl ⟨rfl, rfl, rfl⟩) ⟨rfl, rfl, rfl⟩
      · rw [hfill]
        refine hsum ?_ (Expr.forall_within_leaf rfl rfl) rfl
        rw [Expr.forall_within]
        exact ⟨rfl, List.forall_mem_singleton.mpr (Expr.forall_within_leaf rfl rfl)⟩
    · cases ht
  · obtain ⟨e, hp, hm⟩ := exists_of_readsOne "d x" (Expr.isMisplaced (Lookup.only "x" (-2)))
      (by decide +kernel)
    refine ⟨e, hp, fun h => ?_⟩
    have hall := (parse_label_alike hp (List.mem_singleton_self e) .self _ "main").mp h
    rw [(hall.1 e .self).1] at hm
    cases hm

theorem negative_count_is_read_as_sign :
    ∃ e e', parse "main" "x d 6" = .ok [e] ∧
      e.label (Lookup.only "x" (-2)) .sequence = "-2 d6" ∧
      parse "main" (e.label (Lookup.only "x" (-2)) .sequence) = .ok [e'] ∧
      ¬ e'.Alike (e.fill (Lookup.only "x" (-2))) := by
  obtain ⟨e, hp, ht⟩ := exists_of_readsOne "x d 6"
    (fun e => e.label (Lookup.only "x" (-2)) .sequence == "-2 d6" && e.isThrow &&
      readsOne (e.label (Lookup.only "x" (-2)) .sequence) fun e' => !e'.isThrow) (by decide +kernel)
  rw [Bool.and_eq_true, Bool.and_eq_true, beq_iff_eq] at ht
  obtain ⟨⟨hlabel, hthrow⟩, hread⟩ := ht
  obtain ⟨e', hp', hsign⟩ := exists_of_readsOne _ _ hread
  refine ⟨e, e', hp, hlabel, hp', fun ha => ?_⟩
  rw [← e'.isThrow_bare, ha, Expr.isThrow_bare, Expr.isThrow_fill, hthrow] at hsign
  cases hsign

end DiceLang

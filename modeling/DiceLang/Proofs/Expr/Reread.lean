import DiceLang.Proofs.Expr.Bare

/-! What becomes of a tree when its text is read again. An import whose address is an assignment to a name
is written like an import into that name, and that is how it is read. -/

namespace DiceLang.Expr

def isMisread : Expr → Bool
  | .importing _ none (.binary _ .assign (.var ..) _) => true
  | _ => false

def nameImport : Expr → Expr
  | .importing loc none (.binary _ .assign (.var _ name) address) =>
    .importing loc (some name) address
  | e => e

def reread : Expr → Expr := rewrite nameImport

lemma reread_eq (e : Expr) : e.reread = nameImport (e.mapChildren reread) := rewrite_eq _ e

lemma nameImport_of_not_isMisread {e : Expr} (h : e.isMisread = false) : nameImport e = e := by
  unfold nameImport
  split
  · simp [isMisread] at h
  · rfl

@[simp] lemma reread_scalar (loc : Location) (v : Scalar) :
    (scalar loc v).reread = .scalar loc v := rfl

@[simp] lemma reread_interpolation (loc : Location) (fs : List Fragment) :
    (interpolation loc fs).reread = .interpolation loc fs := rfl

@[simp] lemma reread_list (loc : Location) (items : List Expr) :
    (list loc items).reread = .list loc (items.map reread) := reread_eq _

@[simp] lemma reread_map (loc : Location) (entries : List (String × Expr)) :
    (map loc entries).reread = .map loc (entries.map fun x => (x.1, x.2.reread)) := reread_eq _

@[simp] lemma reread_lambda (loc : Location) (params : List (String × Option Expr)) (body : Expr) :
    (lambda loc params body).reread =
      .lambda loc (params.map fun x => (x.1, x.2.map reread)) body.reread := reread_eq _

@[simp] lemma reread_unary (loc : Location) (op : UnaryOp) (operand : Expr) :
    (unary loc op operand).reread = .unary loc op operand.reread := rfl

@[simp] lemma reread_binary (loc : Location) (op : BinaryOp) (left right : Expr) :
    (binary loc op left right).reread = .binary loc op left.reread right.reread := rfl

@[simp] lemma reread_forEach (loc : Location) (index : Option String) (item : String)
    (out container : Expr) (condition : Option Expr) :
    (forEach loc index item out container condition).reread =
      .forEach loc index item out.reread container.reread (condition.map reread) := reread_eq _

@[simp] lemma reread_repeating (loc : Location) (form : RepeatForm) (body condition : Expr)
    (limit : Option Expr) :
    (repeating loc form body condition limit).reread =
      .repeating loc form body.reread condition.reread (limit.map reread) := reread_eq _

@[simp] lemma reread_conditional (loc : Location) (condition whenTrue whenFalse : Expr) :
    (conditional loc condition whenTrue whenFalse).reread =
      .conditional loc condition.reread whenTrue.reread whenFalse.reread := rfl

@[simp] lemma reread_call (loc : Location) (callee : Expr) (positional : List Expr)
    (named : List (String × Expr)) :
    (call loc callee positional named).reread =
      .call loc callee.reread (positional.map reread) (named.map fun x => (x.1, x.2.reread)) :=
  reread_eq _

@[simp] lemma reread_scopeVariables (loc : Location) (which : ScopeSelector) :
    (scopeVariables loc which).reread = .scopeVariables loc which := rfl

@[simp] lemma reread_output (loc : Location) (mode : OutputMode) (expression : Expr)
    (type : Option OutputType) (name : Option Expr) :
    (output loc mode expression type name).reread =
      .output loc mode expression.reread type (name.map reread) := reread_eq _

lemma reread_importing (loc : Location) (space : Option String) (address : Expr) :
    (importing loc space address).reread = nameImport (.importing loc space address.reread) := rfl

@[simp] lemma reread_var (loc : Location) (name : String) : (var loc name).reread = .var loc name :=
  rfl

lemma isMisread_iff {loc : Location} {address : Expr} :
    (importing loc none address).isMisread = true ↔
      ∃ loc₁ loc₂ name right, address = .binary loc₁ .assign (.var loc₂ name) right := by
  constructor
  · intro h
    match address, h with
    | .binary loc₁ .assign (.var loc₂ name) right, _ => exact ⟨loc₁, loc₂, name, right, rfl⟩
  · rintro ⟨loc₁, loc₂, name, right, rfl⟩
    rfl

lemma nameImport_importing (loc : Location) (space : Option String) (address : Expr) :
    ∃ space' address', nameImport (.importing loc space address) = .importing loc space' address' := by
  by_cases h : (importing loc space address).isMisread = true
  · match space, address, h with
    | none, .binary _ .assign (.var _ name) right, _ => exact ⟨some name, right, rfl⟩
  · exact ⟨space, address, nameImport_of_not_isMisread (by simpa using h)⟩

lemma isMisread_reread (loc : Location) (space : Option String) (address : Expr) :
    (importing loc space address.reread).isMisread = (importing loc space address).isMisread := by
  cases space with
  | some s => rfl
  | none =>
    cases address with
    | binary loc' op left right =>
      cases op with
      | assign =>
        cases left with
        | importing loc'' space' address' =>
          obtain ⟨s, a, h⟩ := nameImport_importing loc'' space' address'.reread
          simp only [reread_binary, reread_importing, h, isMisread]
        | _ => simp [isMisread]
      | _ => rfl
    | importing loc' space' address' =>
      obtain ⟨s, a, h⟩ := nameImport_importing loc' space' address'.reread
      simp only [reread_importing, h, isMisread]
    | _ => simp [isMisread]

lemma sameForm_nameImport (e : Expr) : SameForm (nameImport e) e := by
  by_cases h : e.isMisread = true
  · match e, h with
    | .importing _ none (.binary _ .assign (.var ..) _), _ =>
      exact ⟨rfl, rfl, fun _ => rfl, rfl, rfl⟩
  · rw [nameImport_of_not_isMisread (by simpa using h)]
    exact .refl e

lemma sameForm_reread (e : Expr) : SameForm e.reread e := by
  rw [reread_eq]
  exact (sameForm_nameImport _).trans (sameForm_mapChildren _ _)

lemma isMisread_nameImport (e : Expr) : (nameImport e).isMisread = false := by
  by_cases h : e.isMisread = true
  · match e, h with
    | .importing _ none (.binary _ .assign (.var ..) _), _ => rfl
  · rw [nameImport_of_not_isMisread (by simpa using h)]
    simpa using h

lemma within_nameImport {c e : Expr} (h : c ∈ (nameImport e).children) :
    ∃ d ∈ e.children, Within c d := by
  by_cases hm : e.isMisread = true
  · match e, hm with
    | .importing _ none (.binary loc .assign (.var loc' name) right), _ =>
      obtain rfl : c = right := by simpa [nameImport, children] using h
      exact ⟨.binary loc .assign (.var loc' name) c, by simp [children],
        .inside (by simp [children]) .self⟩
  · rw [nameImport_of_not_isMisread (by simpa using hm)] at h
    exact ⟨c, h, .self⟩

lemma not_isMisread_reread (e : Expr) : ∀ n, Within n e.reread → n.isMisread = false := by
  induction e using children_induction with
  | step e ih =>
    rw [reread_eq, forall_within]
    refine ⟨isMisread_nameImport _, ?_⟩
    intro c hc n hn
    obtain ⟨d, hd, hcd⟩ := within_nameImport hc
    rw [children_mapChildren] at hd
    obtain ⟨d, hmem, rfl⟩ := List.mem_map.mp hd
    exact ih d hmem n (hn.trans hcd)

lemma reread_eq_self {e : Expr} (h : ∀ n, Within n e → n.isMisread = false) : e.reread = e := by
  induction e using children_induction with
  | step e ih =>
    rw [forall_within] at h
    rw [reread_eq, mapChildren_eq_self fun c hc => ih c hc (h.2 c hc), nameImport_of_not_isMisread h.1]

lemma isMisread_bare (e : Expr) : e.bare.isMisread = e.isMisread := by
  cases e with
  | importing loc space address =>
    cases space with
    | some s => rfl
    | none =>
      cases address with
      | binary loc' op left right =>
        cases op with
        | assign => cases left <;> simp [isMisread]
        | _ => rfl
      | _ => simp [isMisread]
  | _ => simp [isMisread]

lemma alike_reread_iff {e : Expr} :
    e.reread.Alike e ↔ ∀ n, Within n e → n.isMisread = false := by
  constructor
  · intro h
    have hb := fun e => forall_within_bare (P := fun n => n.isMisread = false) (fun _ _ => rfl)
      (fun e => by rw [isMisread_bare]) e
    rw [← hb e, ← h, hb e.reread]
    exact not_isMisread_reread e
  · intro h
    rw [reread_eq_self h]
    rfl

end DiceLang.Expr

import DiceLang.Proofs.Token.Lexemes

/-! Well-formed expressions from well-formed parts. A place right behind a `d` takes more than others. -/

namespace DiceLang

structure Expr.Fits (behindDie : Bool) (e : Expr) : Prop where
  wellFormed : e.WellFormed
  not_glued : behindDie = false → e.isGlued = false

namespace Expr

lemma Fits.plain {e : Expr} (h : e.Fits false) : e.isGlued = false := h.not_glued rfl

lemma fits_of {e : Expr} {b : Bool} (hr : e.Regular) (hc : ∀ c ∈ e.children, c.WellFormed)
    (hg : e.isGlued = false) : e.Fits b :=
  ⟨wellFormed_iff.mpr ⟨hr, hc⟩, fun _ => hg⟩

lemma Fits.mono {e : Expr} (h : e.Fits false) (b : Bool) : e.Fits b := ⟨h.wellFormed, fun _ => h.plain⟩

lemma fits_scalar {b : Bool} (loc : Location) {v : Scalar} (h : (scalar loc v).Regular) :
    (scalar loc v).Fits b :=
  fits_of h (by simp [children]) rfl

lemma fits_list {loc : Location} {items : List Expr} (h : ∀ e ∈ items, e.Fits false) :
    (list loc items).Fits false :=
  fits_of (fun e he => (h e he).plain) (fun e he => (h e he).wellFormed) rfl

lemma fits_map {loc : Location} {entries : List (String × Expr)}
    (h : ∀ x ∈ entries, x.2.Fits false) : (map loc entries).Fits false := by
  refine fits_of (fun x hx => (h x hx).plain) ?_ rfl
  intro c hc
  obtain ⟨x, hx, rfl⟩ := List.mem_map.mp hc
  exact (h x hx).wellFormed

lemma fits_lambda {loc : Location} {params : List (String × Option Expr)} {body : Expr}
    (hp : ∀ x ∈ params, Printer.isPlainName x.1 = true ∧ ∀ e ∈ x.2, e.Fits false)
    (hb : body.Fits false) : (lambda loc params body).Fits false := by
  refine fits_of ⟨fun x hx => ⟨(hp x hx).1, fun e he => ((hp x hx).2 e he).plain⟩, hb.plain⟩ ?_ rfl
  simp only [children, List.mem_cons, forall_eq_or_imp, List.mem_filterMap]
  refine ⟨hb.wellFormed, ?_⟩
  rintro c ⟨x, hx, hc⟩
  exact ((hp x hx).2 c hc).wellFormed

lemma fits_unary {b : Bool} {loc : Location} {op : UnaryOp} {operand : Expr} (hw : op.isWritten = true)
    (h : operand.Fits b) (hb : b = true → op = .die) : (unary loc op operand).Fits false := by
  refine fits_of ⟨hw, fun hop => h.not_glued ?_⟩ (by simpa [children] using h.wellFormed) rfl
  cases b with
  | false => rfl
  | true => exact absurd (hb rfl) hop

lemma fits_binary {b : Bool} {loc : Location} {op : BinaryOp} {left right : Expr}
    (hl : left.Fits false) (hr : right.Fits b) (hb : b = true → op = .dice) :
    (binary loc op left right).Fits false := by
  refine fits_of ⟨fun _ => hl.plain, fun hop => hr.not_glued ?_⟩ ?_ ?_
  · cases b with
    | false => rfl
    | true => exact absurd (hb rfl) hop
  · simpa [children] using ⟨hl.wellFormed, hr.wellFormed⟩
  · cases op with
    | subscript => exact hl.plain
    | _ => rfl

lemma fits_subscript {b : Bool} {loc : Location} {left right : Expr} (hl : left.Fits b)
    (hr : right.Fits false) : (binary loc .subscript left right).Fits b :=
  ⟨wellFormed_iff.mpr ⟨⟨fun h => absurd rfl h, fun _ => hr.plain⟩,
    by simpa [children] using ⟨hl.wellFormed, hr.wellFormed⟩⟩, hl.not_glued⟩

lemma fits_call {b : Bool} {loc : Location} {callee : Expr} {positional : List Expr}
    {named : List (String × Expr)} (hc : callee.Fits b) (hp : ∀ e ∈ positional, e.Fits false)
    (hn : ∀ x ∈ named, Printer.isPlainName x.1 = true ∧ x.2.Fits false) :
    (call loc callee positional named).Fits b := by
  refine ⟨wellFormed_iff.mpr ⟨⟨fun e he => (hp e he).plain,
    fun x hx => ⟨(hn x hx).1, (hn x hx).2.plain⟩⟩, ?_⟩, hc.not_glued⟩
  simp only [children, List.mem_cons, List.mem_append, List.mem_map]
  rintro c (rfl | hm | ⟨x, hx, rfl⟩)
  · exact hc.wellFormed
  · exact (hp c hm).wellFormed
  · exact (hn x hx).2.wellFormed

lemma fits_forEach {loc : Location} {index : Option String} {item : String} {out container : Expr}
    {condition : Option Expr} (hi : ∀ i ∈ index, Printer.isPlainName i = true)
    (hx : Printer.isPlainName item = true) (ho : out.Fits false) (hc : container.Fits false)
    (hd : ∀ e ∈ condition, e.Fits false) :
    (forEach loc index item out container condition).Fits false := by
  refine fits_of ⟨hi, hx, ho.plain, hc.plain, fun e he => (hd e he).plain⟩ ?_ rfl
  simp only [children, List.mem_cons, forall_eq_or_imp, Option.mem_toList]
  exact ⟨ho.wellFormed, hc.wellFormed, fun e he => (hd e he).wellFormed⟩

lemma fits_repeating {loc : Location} {form : RepeatForm} {body condition : Expr}
    {limit : Option Expr} (hb : body.Fits false) (hc : condition.Fits false)
    (hl : ∀ e ∈ limit, e.Fits false)
    (hf : form = .once → ∃ loc, limit = some (.scalar loc (.number 1))) :
    (repeating loc form body condition limit).Fits false := by
  refine fits_of ⟨hb.plain, hc.plain, fun e he => (hl e he).plain, hf⟩ ?_ rfl
  simp only [children, List.mem_cons, forall_eq_or_imp, Option.mem_toList]
  exact ⟨hb.wellFormed, hc.wellFormed, fun e he => (hl e he).wellFormed⟩

lemma fits_conditional {loc : Location} {condition whenTrue whenFalse : Expr}
    (hc : condition.Fits false) (ht : whenTrue.Fits false) (hf : whenFalse.Fits false) :
    (conditional loc condition whenTrue whenFalse).Fits false :=
  fits_of ⟨hc.plain, ht.plain, hf.plain⟩
    (by simpa [children] using ⟨hc.wellFormed, ht.wellFormed, hf.wellFormed⟩) rfl

lemma fits_output {loc : Location} {mode : OutputMode} {e : Expr} {type : Option OutputType}
    {name : Option Expr} (he : e.Fits false)
    (hn : ∀ s ∈ name, s.Fits false ∧ s.isLiteral = true) :
    (output loc mode e type name).Fits false := by
  refine fits_of ⟨he.plain, fun s hs => (hn s hs).2⟩ ?_ rfl
  simp only [children, List.mem_cons, forall_eq_or_imp, Option.mem_toList]
  exact ⟨he.wellFormed, fun s hs => (hn s hs).1.wellFormed⟩

lemma fits_importing {loc : Location} {space : Option String} {address : Expr}
    (hs : ∀ s ∈ space, Printer.isPlainName s = true) (ha : address.Fits false) :
    (importing loc space address).Fits false :=
  fits_of ⟨hs, ha.plain⟩ (by simpa [children] using ha.wellFormed) rfl

lemma fits_var {b : Bool} {loc : Location} {name : String}
    (h : Lexer.fits b (.name name) = true) : (var loc name).Fits b := by
  simp only [Lexer.fits, Bool.or_eq_true, Bool.and_eq_true] at h
  refine ⟨wellFormed_iff.mpr ⟨h.imp_right And.right, by simp [children]⟩, ?_⟩
  rintro rfl
  have hn : Printer.isPlainName name = true := by simpa using h
  simp only [Printer.isPlainName, Bool.and_eq_true, Bool.not_eq_true'] at hn
  exact hn.2

end Expr

end DiceLang

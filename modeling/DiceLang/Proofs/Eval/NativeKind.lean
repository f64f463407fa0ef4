import DiceLang.Proofs.Eval.Typed

/-! The kind that an expression shows by its form alone is the kind of its value, but for dice that are
thrown with a function of the number of dice. -/

namespace DiceLang

namespace Eval

variable {scope : ScopeId}

lemma kind_newList (items : List Value) : Gives (newList items) fun v => v.kind = .list :=
  gives_modifyGet fun _ => rfl

lemma kind_unary {op : UnaryOp} {k : Kind} (hk : op.nativeKind = some k) (site operand : Expr) :
    Gives (unary evaluate site scope op operand) fun v => v.kind = k := by
  cases op with
  | plus | minus | not =>
    cases hk
    exact gives_then fun _ => gives_pure rfl
  | count =>
    cases hk
    refine gives_then fun v => gives_read fun m => ?_
    split
    · exact gives_pure rfl
    · exact gives_fail _ _
  | convert k =>
    cases hk
    exact fun _ _ _ => kind_of_evaluate
  | reorder order =>
    cases hk
    exact gives_then fun r m v n h => ((Logic.reorder serves_evaluate order r).2 m v n h).2
  | best | draw | die => cases hk

lemma kind_binary {op : BinaryOp} {k : Kind} (hk : op.nativeKind = some k) (hdice : op ≠ .dice)
    (site left right : Expr) :
    Gives (binary evaluate site scope none op left right) fun v => v.kind = k := by
  cases op with
  | arithmetic op =>
    cases hk
    refine gives_then fun x => ?_
    dsimp only
    split
    · exact gives_pure rfl
    · exact gives_fail _ _
  | compare op =>
    cases hk
    exact gives_then fun _ => gives_pure rfl
  | same | notSame =>
    cases hk
    exact gives_then fun _ => gives_then fun _ => gives_pure rfl
  | and =>
    cases hk
    refine gives_then fun b => ?_
    cases b with
    | true => exact gives_then fun _ => gives_pure rfl
    | false => exact gives_pure rfl
  | or =>
    cases hk
    refine gives_then fun b => ?_
    cases b with
    | true => exact gives_pure rfl
    | false => exact gives_then fun _ => gives_pure rfl
  | range =>
    cases hk
    exact gives_then fun _ => gives_then fun _ => kind_newList _
  | bestOf selector =>
    cases hk
    exact gives_then fun _ => gives_then fun _ => gives_then fun _ => gives_read fun _ => kind_newList _
  | drawMany =>
    cases hk
    refine gives_then fun n => gives_then fun r => ?_
    exact fun m v n' h => (((trait_recording.logic evaluate).drawMany n r).2 m v n' h).2
  | dice => exact absurd rfl hdice
  | append | indexOf | assign | subscript | sequence => cases hk

lemma kind_native {e : Expr} {k : Kind} (hk : e.nativeKind = some k)
    (hsequence : ∀ loc left right, e ≠ .binary loc .sequence left right)
    (hdice : ∀ loc left right, e ≠ .binary loc .dice left right) :
    Gives (native evaluate e scope none) fun v => v.kind = k := by
  cases e with
  | scalar _ v =>
    cases hk
    exact gives_pure rfl
  | interpolation _ fs =>
    cases hk
    exact gives_then fun _ => gives_pure rfl
  | list _ es =>
    cases hk
    exact gives_then fun _ => kind_newList _
  | map _ es =>
    cases hk
    exact gives_then fun _ => gives_modifyGet fun _ => rfl
  | lambda _ params body =>
    cases hk
    exact gives_modifyGet fun _ => rfl
  | unary _ op operand => exact kind_unary hk _ operand
  | binary loc op left right =>
    have hop : op ≠ .sequence := fun h => hsequence loc left right (h ▸ rfl)
    refine kind_binary ?_ (fun h => hdice loc left right (h ▸ rfl)) _ left right
    cases op <;> first | exact absurd rfl hop | exact hk
  | repeating _ form body condition limit =>
    cases hk
    have hrepeat : (trait_recording.logic evaluate).Holds
        (fun again => repeating again scope form body condition limit)
        fun v => v.Made (fun _ => True) ∧ v.kind = .list :=
      Logic.repeating asks_evaluate scope form trivial trivial (fun _ _ => trivial)
        (.inl fun _ => (trait_recording.tolerates evaluate).unfinished _)
    exact fun m v n h => (hrepeat.2 m v n h).2
  | scopeVariables _ which =>
    cases hk
    exact fun m v n h => (((trait_recording.logic evaluate).scopeVariables scope which).2 m v n h).2
  | output _ mode expression type name =>
    cases hk
    exact gives_then fun _ => gives_pure rfl
  | importing _ space address =>
    cases hk
    exact gives_then fun _ => gives_pure rfl
  | forEach | conditional | call | var => cases hk

end Eval

open Eval

/-- The evaluation of an expression ends with the call of a die that is a function with parameters. It
is called once, with the number of dice, and gives `v`. -/
inductive CallsDie (scope : ScopeId) : Expr → Machine → Value → Prop
  | dice {loc : Location} {left right : Expr} {m m₁ m₂ m₃ : Machine} {n : Int64} {i : Nat}
      {held : ScopeId} {f : Lambda} {owner v : Value} (hd : m.depth.val < maxDepth) :
      number evaluate scope left (m.deeper hd) = .ok n m₁ →
      evaluate right scope none m₁ = .ok (.function i held f owner) m₂ →
      f.params ≠ [] →
      call evaluate (.binary loc .dice left right) held f owner [.number n] [] none m₂ = .ok v m₃ →
      CallsDie scope (.binary loc .dice left right) m v
  | sequence {loc : Location} {left right : Expr} {m m₁ : Machine} {u v : Value}
      (hd : m.depth.val < maxDepth) :
      evaluate left scope none (m.deeper hd) = .ok u m₁ →
      CallsDie scope right m₁ v →
      CallsDie scope (.binary loc .sequence left right) m v

lemma kind_or_callsDie_of_dice {loc : Location} {left right : Expr} {scope : ScopeId} {m n : Machine}
    {v : Value} (hd : m.depth.val < maxDepth)
    (h : native evaluate (.binary loc .dice left right) scope none (m.deeper hd) = .ok v n) :
    v.kind = .list ∨ CallsDie scope (.binary loc .dice left right) m v := by
  obtain ⟨count, m₁, hcount, h⟩ := ok_of_bind h
  obtain ⟨die, m₂, hdie, h⟩ := ok_of_bind h
  have hthrow (die : Value) (h : throwDice.throwNumber evaluate (.binary loc .dice left right) count die m₂ =
      .ok v n) : v.kind = .list :=
    ((Logic.throwNumber serves_evaluate trivial count die.made_true).2 m₂ v n h).2
  rw [throwDice.eq_def] at h
  split at h
  next i held f owner =>
    split_ifs at h with hparams
    · exact .inl (hthrow _ h)
    · exact .inr (.dice hd hcount hdie (by simpa using hparams) h)
  · exact .inl (hthrow _ h)

theorem native_kind_sound {e : Expr} {k : Kind} (hk : e.nativeKind = some k) {scope : ScopeId}
    {m m' : Machine} {v : Value} (h : evaluate e scope none m = .ok v m') :
    v.kind = k ∨ CallsDie scope e m v := by
  induction e using Expr.children_induction generalizing m m' with
  | step e ih =>
    obtain ⟨hd, w, n, n', hnative, ⟨⟩, rfl⟩ := ok_of_evaluate h
    by_cases hsequence : ∃ loc left right, e = .binary loc .sequence left right
    · obtain ⟨loc, left, right, rfl⟩ := hsequence
      obtain ⟨u, m₁, hleft, hright⟩ := ok_of_bind hnative
      refine (ih right (by simp [Expr.children]) hk hright).imp_right fun hcalls => ?_
      exact .sequence hd hleft hcalls
    · by_cases hdice : ∃ loc left right, e = .binary loc .dice left right
      · obtain ⟨loc, left, right, rfl⟩ := hdice
        cases hk
        exact kind_or_callsDie_of_dice hd hnative
      · left
        refine kind_native hk (fun loc left right he => ?_) (fun loc left right he => ?_) _ _ _ hnative
        · exact hsequence ⟨loc, left, right, he⟩
        · exact hdice ⟨loc, left, right, he⟩

theorem kind_of_dice_behind_assignment :
    let m := Machine.initial 0 ⟨1, .kind .number, .ofTable [], 100⟩
    let number (n : Int64) : Expr := .scalar .builtin (.number n)
    let x : Expr := .var .builtin "x"
    let e : Expr := .binary .builtin .sequence (.binary .builtin .assign x (number 6))
      (.binary .builtin .dice (number 3) x)
    ∃ v m', e.nativeKind = some .list ∧ evaluate e Environment.global none m = .ok v m' ∧
      (v.kind = .list ∨ CallsDie Environment.global e m v) := by
  intro m number x e
  obtain ⟨v, hv⟩ := Option.isSome_iff_exists.mp
    (by decide +kernel : (result? (evaluate e Environment.global none m)).isSome = true)
  obtain ⟨m', h⟩ := exists_of_result? hv
  exact ⟨v, m', rfl, h, native_kind_sound rfl h⟩

theorem dice_of_function_give_number :
    let m := Machine.initial 0 ⟨1, .kind .number, .ofTable [], 100⟩
    let number (n : Int64) : Expr := .scalar .builtin (.number n)
    let tenfold : Expr := .binary .builtin (.arithmetic .mul) (.var .builtin "n") (number 10)
    let e : Expr := .binary .builtin .dice (number 3) (.lambda .builtin [("n", none)] tenfold)
    e.nativeKind = some .list ∧
      ∃ v m', evaluate e Environment.global none m = .ok v m' ∧ v.scalar? = some (.number 30) := by
  intro m number tenfold e
  obtain ⟨v, hv, hscalar⟩ := Option.bind_eq_some_iff.mp
    (by decide +kernel : (result? (evaluate e Environment.global none m)).bind Value.scalar? =
      some (.number 30))
  obtain ⟨m', h⟩ := exists_of_result? hv
  exact ⟨rfl, v, m', h, hscalar⟩

end DiceLang

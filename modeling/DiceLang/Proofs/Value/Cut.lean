import DiceLang.Eval.Convert
import DiceLang.Proofs.Eval.Logic
import DiceLang.Proofs.Value.Source

/-! Values that contain themselves, cut off to trees. Writing a value and converting it to a text or to a
number go through the same tree. -/

namespace DiceLang

open Relation (ReflTransGen)

namespace DataTree

mutual

def leaves : DataTree → List Scalar
  | .undefined => [.undefined]
  | .string s => [.string s]
  | .boolean b => [.boolean b]
  | .number n => [.number n]
  | .list items => leavesAll items
  | .map entries => leavesIn entries

def leavesAll : List DataTree → List Scalar
  | [] => []
  | t :: ts => leaves t ++ leavesAll ts

def leavesIn : List (String × DataTree) → List Scalar
  | [] => []
  | (_, t) :: ts => leaves t ++ leavesIn ts

end

@[simp] lemma leaves_ofScalar (v : Scalar) : (ofScalar v).leaves = [v] := by
  cases v <;> rfl

@[simp] lemma leaves_list (items : List DataTree) : (list items).leaves = items.flatMap leaves := by
  have hall : leavesAll items = items.flatMap leaves := by
    induction items with
    | nil => rfl
    | cons t ts ih => rw [leavesAll, ih, List.flatMap_cons]
  rw [leaves, hall]

@[simp] lemma leaves_map (entries : List (String × DataTree)) :
    (map entries).leaves = entries.flatMap fun x => x.2.leaves := by
  have hall : leavesIn entries = entries.flatMap fun x => x.2.leaves := by
    induction entries with
    | nil => rfl
    | cons x entries ih => rw [leavesIn, ih, List.flatMap_cons]
  rw [leaves, hall]

end DataTree

namespace Heap

variable {h : Heap} {v w : Value} {c : Container} {path : List Container}

/-- The tree of a value inside the containers of `path`. A container met again inside itself is cut off,
and undefined takes its place. -/
def cutWithin (h : Heap) (path : List Container) (v : Value) : DataTree :=
  match v with
  | .scalar s => .ofScalar s
  | .function .. => .undefined
  | .list r =>
    if .list r ∈ path then .undefined
    else .list ((h.items r).attach.map fun w => h.cutWithin (.list r :: path) w.1)
  | .map r =>
    if .map r ∈ path then .undefined
    else .map ((h.entries r).attach.map fun e => (e.1.1, h.cutWithin (.map r :: path) e.1.2))
termination_by (h.unmet path).card
decreasing_by
  · exact card_unmet_lt ‹_› (show w.1 ∈ h.contents (.list r) from w.2)
  · exact card_unmet_lt ‹_› (show e.1.2 ∈ h.contents (.map r) from List.mem_map_of_mem e.2)

def cut (h : Heap) (v : Value) : DataTree := h.cutWithin [] v

@[simp] lemma cutWithin_scalar (path : List Container) (s : Scalar) :
    h.cutWithin path (.scalar s) = .ofScalar s := by
  rw [cutWithin]

lemma cutWithin_list (path : List Container) (r : ListRef) :
    h.cutWithin path (.list r) = if .list r ∈ path then .undefined
      else .list ((h.items r).map (h.cutWithin (.list r :: path))) := by
  rw [cutWithin, List.map_attach_eq_pmap, List.pmap_eq_map]

lemma cutWithin_map (path : List Container) (r : MapRef) :
    h.cutWithin path (.map r) = if .map r ∈ path then .undefined
      else .map ((h.entries r).map fun e => (e.1, h.cutWithin (.map r :: path) e.2)) := by
  rw [cutWithin, List.map_attach_eq_pmap]
  simp only [List.pmap_eq_map]

lemma cutWithin_of_mem (hv : v.container? = some c) (hc : c ∈ path) :
    h.cutWithin path v = .undefined := by
  cases v with
  | scalar | function => cases hv
  | list r =>
    obtain rfl := Option.some.inj hv
    rw [cutWithin_list, if_pos hc]
  | map r =>
    obtain rfl := Option.some.inj hv
    rw [cutWithin_map, if_pos hc]

lemma leaves_cutWithin (hv : v.container? = some c) (hc : c ∉ path) :
    (h.cutWithin path v).leaves =
      (h.contents c).flatMap fun w => (h.cutWithin (c :: path) w).leaves := by
  cases v with
  | scalar | function => cases hv
  | list r =>
    obtain rfl := Option.some.inj hv
    rw [cutWithin_list, if_neg hc, DataTree.leaves_list, List.flatMap_map, contents]
  | map r =>
    obtain rfl := Option.some.inj hv
    rw [cutWithin_map, if_neg hc, DataTree.leaves_map, List.flatMap_map, contents, Entries.values,
      List.flatMap_map]

lemma textWithin_eq_cut {fuel : Nat} (hfree : ∀ w, ReflTransGen h.Holds v w → w.kind ≠ .function)
    (hfuel : (h.unmet path).card < fuel) :
    h.textWithin fuel path v = Printer.node (fun _ => none) (h.cutWithin path v).expr := by
  -- each container that is entered is one less to enter
  induction fuel generalizing path v with
  | zero => omega
  | succ fuel ih =>
    have hbelow {c : Container} (hv : v.container? = some c) (hc : c ∉ path) {w : Value}
        (hw : w ∈ h.contents c) : h.textWithin fuel (c :: path) w =
          Printer.node (fun _ => none) (h.cutWithin (c :: path) w).expr := by
      have hlt := card_unmet_lt hc hw
      apply ih
      · exact fun x hx => hfree x (.head ⟨c, hv, hw⟩ hx)
      · omega
    cases v with
    | scalar s => simp [textWithin, Printer.node]
    | function => exact absurd rfl (hfree _ .refl)
    | list r =>
      rw [textWithin, cutWithin_list]
      split
      · simp [DataTree.expr, Printer.node, Printer.scalar]
      · have hall := List.map_congr_left (l := h.items r) fun w hw => hbelow rfl ‹_› hw
        rw [hall]
        simp [Printer.node, Printer.nodes_eq, Function.comp_def]
    | map r =>
      rw [textWithin, cutWithin_map]
      split
      · simp [DataTree.expr, Printer.node, Printer.scalar]
      · have hall := List.map_congr_left (l := h.entries r)
          (f := fun e => Printer.key e.1 ++ ": " ++ h.textWithin fuel (.map r :: path) e.2)
          (g := fun e => Printer.key e.1 ++ ": " ++
            Printer.node (fun _ => none) (h.cutWithin (.map r :: path) e.2).expr) fun e he => by
              rw [hbelow rfl ‹_› (show e.2 ∈ h.contents (.map r) from List.mem_map_of_mem he)]
        dsimp only
        rw [hall]
        simp [Printer.node, Printer.entryNodes_eq, Function.comp_def]

end Heap

namespace Folding

section Totals

variable {M : Type → Type} {α : Type} {f : Folding M α} {g : Scalar → α}

structure Lawful (f : Folding M α) (g : Scalar → α) : Prop where
  zero_add : ∀ a, f.add f.zero a = a
  add_zero : ∀ a, f.add a f.zero = a
  add_assoc : ∀ a b c, f.add (f.add a b) c = f.add a (f.add b c)
  undefined : g .undefined = f.zero

def total (f : Folding M α) (g : Scalar → α) (leaves : List Scalar) : α :=
  (leaves.map g).foldl f.add f.zero

lemma lawful_of_sum {f : Folding M Int64} (hzero : f.zero = 0) (hadd : f.add = (· + ·)) :
    f.Lawful Scalar.toNumber := by
  refine ⟨?_, ?_, ?_, hzero.symm⟩ <;> rw [hadd]
  · rw [hzero]
    exact Int64.zero_add
  · rw [hzero]
    exact Int64.add_zero
  · exact Int64.add_assoc

lemma Lawful.total_append (hf : f.Lawful g) (as bs : List Scalar) :
    f.total g (as ++ bs) = f.add (f.total g as) (f.total g bs) := by
  have hstart (a : α) (xs : List α) : xs.foldl f.add a = f.add a (xs.foldl f.add f.zero) := by
    induction xs generalizing a with
    | nil => exact (hf.add_zero a).symm
    | cons x xs ih => rw [List.foldl_cons, List.foldl_cons, ih, hf.zero_add, ih x, hf.add_assoc]
  rw [total, List.map_append, List.foldl_append, hstart]
  rfl

lemma Lawful.foldl_total (hf : f.Lawful g) {β : Type} (leaves : β → List Scalar) (xs : List β) (a : α) :
    xs.foldl (fun acc x => f.add acc (f.total g (leaves x))) a =
      f.add a (f.total g (xs.flatMap leaves)) := by
  induction xs generalizing a with
  | nil => exact (hf.add_zero a).symm
  | cons x xs ih => rw [List.foldl_cons, ih, List.flatMap_cons, hf.total_append, hf.add_assoc]

lemma Lawful.total_singleton (hf : f.Lawful g) (s : Scalar) : f.total g [s] = g s := hf.zero_add (g s)

end Totals

structure Answers {M : Type → Type} [Monad M] (R : ∀ β : Type, M β → β → Prop) : Prop where
  pure : ∀ {β : Type} (b : β), R β (pure b) b
  bind : ∀ {β γ : Type} {x : M β} {b : β} {k : β → M γ} {c : γ},
    R β x b → R γ (k b) c → R γ (x >>= k) c

variable {M : Type → Type} [Monad M] {R : ∀ β : Type, M β → β → Prop} {α : Type}

lemma Answers.foldlM (hR : Answers R) {β : Type} (add : α → α → α) {k : β → M α} {answer : β → α}
    {xs : List β} (hk : ∀ x ∈ xs, R α (k x) (answer x)) (a : α) :
    R α (xs.foldlM (fun acc x => do return add acc (← k x)) a)
      (xs.foldl (fun acc x => add acc (answer x)) a) := by
  induction xs generalizing a with
  | nil => exact hR.pure a
  | cons x xs ih =>
    rw [List.forall_mem_cons] at hk
    have hstep : R α (do return add a (← k x)) (add a (answer x)) := hR.bind hk.1 (hR.pure _)
    rw [List.foldlM_cons, List.foldl_cons]
    exact hR.bind hstep (ih hk.2 _)

lemma within_answers {f : Folding M α} {g : Scalar → α} (hR : Answers R) (hf : f.Lawful g) {h : Heap}
    (hcontents : ∀ c, R _ (f.contents c) (h.contents c)) (hleaf : ∀ s, R _ (f.leaf (.scalar s)) (g s))
    {depth : Nat} {path : List Container} {v : Value}
    (hfree : ∀ w, ReflTransGen h.Holds v w → w.kind ≠ .function)
    (hdepth : (h.unmet path).card < depth) :
    R _ (f.within depth path v) (f.total g (h.cutWithin path v).leaves) := by
  induction depth generalizing path v with
  | zero => omega
  | succ depth ih =>
    rw [within]
    cases hv : v.container? with
    | none =>
      cases v with
      | scalar s =>
        rw [Heap.cutWithin_scalar, DataTree.leaves_ofScalar, hf.total_singleton]
        exact hleaf s
      | function => exact absurd rfl (hfree _ .refl)
      | list | map => cases hv
    | some c =>
      dsimp only
      by_cases hc : c ∈ path
      · have hleaves : DataTree.undefined.leaves = [.undefined] := rfl
        rw [if_pos hc, Heap.cutWithin_of_mem hv hc, hleaves, hf.total_singleton, hf.undefined]
        exact hR.pure _
      · have hbelow (w : Value) (hw : w ∈ h.contents c) : R _ (f.within depth (c :: path) w)
            (f.total g (h.cutWithin (c :: path) w).leaves) := by
          have hlt := Heap.card_unmet_lt hc hw
          apply ih
          · exact fun x hx => hfree x (.head ⟨c, hv, hw⟩ hx)
          · omega
        have hall := hR.foldlM f.add hbelow f.zero
        rw [hf.foldl_total, hf.zero_add, ← Heap.leaves_cutWithin hv hc] at hall
        rw [if_neg hc]
        exact hR.bind (hcontents c) hall

end Folding

namespace Eval

lemma lawful_textFolding (again : Again) : (textFolding again).Lawful Scalar.toText where
  zero_add _ := String.empty_append
  add_zero _ := String.append_empty
  add_assoc _ _ _ := String.append_assoc
  undefined := rfl

lemma answers_run (m : Machine) :
    Folding.Answers (M := Eval) fun _ x b => x m = .ok b m where
  pure _ := rfl
  bind hx hk := (bind_run hx).trans hk

lemma within_run {α : Type} {f : Folding Eval α} {g : Scalar → α} (hf : f.Lawful g)
    (hcontents : f.contents = contents) (hleaf : ∀ s, f.leaf (.scalar s) = pure (g s)) {m : Machine}
    {v : Value} (hfree : ∀ w, ReflTransGen m.env.heap.Holds v w → w.kind ≠ .function)
    (hbudget : m.env.heap.size < m.settings.budget) :
    f.within m.settings.budget [] v m = .ok (f.total g (m.env.heap.cut v).leaves) m := by
  apply Folding.within_answers (answers_run m) hf
  · intro c
    rw [hcontents]
    rfl
  · intro s
    rw [hleaf]
    rfl
  · exact hfree
  · exact (Heap.card_unmet_le _ _).trans_lt hbudget

lemma leaf_of_within {α : Type} {f : Folding Eval α} {depth : Nat} {s : Scalar} {m : Machine} {a b : α}
    (hrun : f.within depth [] (.scalar s) m = .ok a m) (hleaf : f.leaf (.scalar s) m = .ok b m)
    (hdeep : f.tooDeep = unfinished .convert) : a = b := by
  cases depth with
  | zero =>
    rw [Folding.within, hdeep] at hrun
    cases hrun
  | succ depth => exact (EStateM.Result.ok.inj (hrun.symm.trans hleaf)).1

lemma convertTo_string_run (again : Again) (scope : ScopeId) {v : Value} {m : Machine} {s : String}
    (hv : v.kind ≠ .function) (hrun : (textFolding again).within m.settings.budget [] v m = .ok s m) :
    convertTo again scope .string v m = .ok (.string s) m := by
  cases v with
  | scalar leaf =>
    cases leaf with
    | string t =>
      obtain rfl := leaf_of_within hrun rfl rfl
      rfl
    | _ => exact bind_run hrun
  | list | map => exact bind_run hrun
  | function => exact absurd rfl hv

lemma convertTo_number_run (again : Again) (scope : ScopeId) {v : Value} {m : Machine} {n : Int64}
    (hv : v.kind ≠ .function) (hrun : (numberFolding again).within m.settings.budget [] v m = .ok n m) :
    convertTo again scope .number v m = .ok (.number n) m := by
  cases v with
  | scalar leaf =>
    cases leaf with
    | number k =>
      obtain rfl := leaf_of_within hrun rfl rfl
      rfl
    | _ => exact bind_run hrun
  | list | map => exact bind_run hrun
  | function => exact absurd rfl hv

end Eval

lemma Heap.numberView_eq_total {h : Heap} {v : Value}
    (hfree : ∀ w, ReflTransGen h.Holds v w → w.kind ≠ .function) :
    h.numberView v = h.numberFolding.total Scalar.toNumber (h.cut v).leaves := by
  have hid : Folding.Answers (M := Id) fun _ x b => x = b :=
    ⟨fun _ => rfl, fun hx hk => by subst hx hk; rfl⟩
  exact Folding.within_answers hid (Folding.lawful_of_sum rfl rfl) (fun _ => rfl) (fun _ => rfl) hfree
    (Nat.lt_succ_of_le (h.card_unmet_le []))

lemma sum_toNumber (leaves : List Scalar) (n : Int64) :
    (leaves.map Scalar.toNumber).foldl (· + ·) n =
      n + Int64.ofInt (leaves.map fun s => s.toNumber.toInt).sum := by
  induction leaves generalizing n with
  | nil => simp
  | cons s leaves ih =>
    rw [List.map_cons, List.foldl_cons, ih, List.map_cons, List.sum_cons, Int64.ofInt_add,
      Int64.ofInt_toInt, Int64.add_assoc]

/-- The text of a value is the source text of its cut tree. Converted to a text it is the texts of the
leaves of that tree, and converted to a number it is their sum. The nesting that a conversion asks for is
bounded by the containers that there are. -/
theorem cyclic_values_cut_alike {h : Heap} {v : Value}
    (hfree : ∀ w, ReflTransGen h.Holds v w → w.kind ≠ .function) :
    let text := String.join ((h.cut v).leaves.map Scalar.toText)
    let sum := Int64.ofInt ((h.cut v).leaves.map fun s => s.toNumber.toInt).sum
    h.text v = (h.cut v).expr.source ∧ h.numberView v = sum ∧
    ∀ (again : Again) (scope : ScopeId) (m : Machine), m.env.heap = h → h.size < m.settings.budget →
      Eval.convertTo again scope .string v m = .ok (.string text) m ∧
      Eval.convertTo again scope .number v m = .ok (.number sum) m := by
  intro text sum
  have hsum : ((h.cut v).leaves.map Scalar.toNumber).foldl (· + ·) 0 = sum := by
    rw [sum_toNumber, Int64.zero_add]
  refine ⟨?_, (Heap.numberView_eq_total hfree).trans hsum, ?_⟩
  · rw [← String.toList_inj, Expr.toList_source, Heap.text,
      Heap.textWithin_eq_cut hfree (Nat.lt_succ_of_le (h.card_unmet_le []))]
    rfl
  · rintro again scope m rfl hbudget
    have hkind := hfree v .refl
    constructor
    · apply Eval.convertTo_string_run again scope hkind
      exact Eval.within_run (Eval.lawful_textFolding again) rfl (fun _ => rfl) hfree hbudget
    · apply Eval.convertTo_number_run again scope hkind
      rw [← hsum]
      exact Eval.within_run (Folding.lawful_of_sum rfl rfl) rfl (fun _ => rfl) hfree hbudget

def Heap.knotted : Heap :=
  ⟨#[[.number Int64.maxValue, .list ⟨0⟩, .list ⟨1⟩, .map ⟨0⟩, .list ⟨1⟩], [.number 2]],
    #[[("a", .list ⟨0⟩), ("b", .string " 3 ")]]⟩

lemma Heap.functionFree_of_contents {h : Heap}
    (hall : ∀ c, ∀ w ∈ h.contents c, w.kind ≠ .function) {v : Value} (hv : v.kind ≠ .function)
    (w : Value) (hw : ReflTransGen h.Holds v w) : w.kind ≠ .function := by
  induction hw with
  | refl => exact hv
  | tail _ hstep _ =>
    obtain ⟨c, -, hmem⟩ := hstep
    exact hall c _ hmem

lemma Heap.functionFree_knotted (c : Container) :
    ∀ w ∈ Heap.knotted.contents c, w.kind ≠ .function := by
  match c with
  | .list ⟨0⟩ | .list ⟨1⟩ | .map ⟨0⟩ => decide
  | .list ⟨_ + 2⟩ | .map ⟨_ + 1⟩ => nofun

lemma Heap.cut_knotted : Heap.knotted.cut (.list ⟨0⟩) = .list [.number Int64.maxValue, .undefined,
    .list [.number 2], .map [("a", .undefined), ("b", .string " 3 ")], .list [.number 2]] := by
  simp [cut, cutWithin_list, cutWithin_map, knotted, items, entries, DataTree.ofScalar]

theorem knotted_list_cut_alike :
    let m : Machine := { Machine.initial 0 ⟨1, .kind .number, .ofTable [], 4⟩ with
      env := ⟨Heap.knotted, Environment.initial.arena⟩ }
    Heap.knotted.text (.list ⟨0⟩) =
      "[9223372036854775807, undef, [2], \x7ba: undef, b: \" 3 \"\x7d, [2]]" ∧
    Eval.convertTo (fun _ _ _ => Eval.unfinished .convert) ⟨0⟩ .string (.list ⟨0⟩) m =
      .ok (.string "92233720368547758072 3 2") m ∧
    Eval.convertTo (fun _ _ _ => Eval.unfinished .convert) ⟨0⟩ .number (.list ⟨0⟩) m =
      .ok (.number (-9223372036854775802)) m := by
  intro m
  obtain ⟨htext, -, hconvert⟩ := cyclic_values_cut_alike (v := .list ⟨0⟩)
    (Heap.functionFree_of_contents Heap.functionFree_knotted (by decide))
  have hm := hconvert (fun _ _ _ => Eval.unfinished .convert) ⟨0⟩ m rfl (by decide)
  rw [Heap.cut_knotted] at htext hm
  refine ⟨htext.trans (by decide +kernel), hm.1.trans ?_, hm.2.trans ?_⟩
  · rw [EStateM.Result.ok.injEq, Value.scalar.injEq, Scalar.string.injEq]
    exact ⟨by decide +kernel, rfl⟩
  · rw [EStateM.Result.ok.injEq, Value.scalar.injEq, Scalar.number.injEq]
    exact ⟨by decide +kernel, rfl⟩

end DiceLang

import DiceLang.Proofs.Distribution.Counting
import DiceLang.Proofs.Eval.Copy
import DiceLang.Proofs.Value.Cut

/-! Conversions that lose nothing: a list becomes a map and a list again, a number a text and a number
again. -/

namespace DiceLang

lemma Decimal.trim_ofInt64 (n : Int64) : Text.trim (ofInt64 n).toList = (ofInt64 n).toList := by
  have hdigits (k : Nat) : ∀ c ∈ Nat.toDigits 10 k, Text.isBlank c = false := by
    intro c hc
    have hd := List.all_eq_true.mp (Lexer.all_isDigit_toDigits k) c hc
    exact Lexer.isWordChar_not_isBlank (Lexer.isDigit_isWordChar hd)
  apply Lexer.trim_eq_self
  obtain ⟨k, ⟨-, htext⟩ | ⟨-, htext⟩⟩ := Lexer.toList_ofInt64 n
  · rw [htext]
    exact hdigits k
  · rw [htext, List.forall_mem_cons]
    exact ⟨by decide, hdigits (k + 1)⟩

lemma Scalar.toNumber_ofInt64 (n : Int64) : (Scalar.string (Decimal.ofInt64 n)).toNumber = n := by
  rw [toNumber, Decimal.trim_ofInt64, Lexer.int64?_ofInt64]
  rfl

namespace Heap

lemma nodup_numbered (xs : List Value) : ((numbered xs).map Prod.fst).Nodup := by
  have hnames : (numbered xs).map Prod.fst = (xs.zipIdx.map Prod.snd).map fun i => "_" ++ toString i := by
    rw [numbered, List.map_map, List.map_map]
    rfl
  have hinj : Function.Injective fun i : Nat => "_" ++ toString i := by
    intro i j h
    simpa [Nat.toString_eq_ofList_toDigits] using h
  rw [hnames, List.zipIdx_map_snd]
  exact (List.nodup_range' ..).map hinj

lemma values_numbered (xs : List Value) : Entries.values (numbered xs) = xs := by
  rw [Entries.values, numbered, List.map_map]
  exact List.zipIdx_map_fst 0 xs

lemma bisimilar_of_items {h : Heap} {r s : ListRef} (hi : h.items r = h.items s) :
    h.Bisimilar (.list r) (.list s) := by
  intro place
  cases place with
  | nil => exact congrArg (fun xs => some (Face.list xs.length)) hi
  | cons i place => exact congrArg (fun xs => xs[i]?.bind fun w => h.faceAt w place) hi

end Heap

namespace Eval

variable (again : Again) (scope : ScopeId) (m : Machine)

lemma convertTo_map_list (r : ListRef) :
    let made := m.env.heap.newMap (Heap.numbered (m.env.heap.items r))
    convertTo again scope .map (.list r) m = .ok (.map made.1) (m.withHeap made.2) := by
  intro made
  have hnew : m.env.heap.toMap (.list r) = made := by
    rw [Heap.toMap, Entries.ofList_of_nodup (Heap.nodup_numbered _)]
  rw [← hnew]
  rfl

/-- A list becomes a map under names that all differ, and that map a list with the same elements in the same
order, which is equal to the first. Nothing else changes. A number becomes its decimal text, and that text
the number, with any budget at all. -/
theorem conversions_lossless :
    (∀ r : ListRef, ∃ q h₁ back h₂,
      convertTo again scope .map (.list r) m = .ok (.map q) (m.withHeap h₁) ∧
      h₁.entries q = Heap.numbered (m.env.heap.items r) ∧ ((h₁.entries q).map Prod.fst).Nodup ∧
      convertTo again scope .list (.map q) (m.withHeap h₁) = .ok (.list back) (m.withHeap h₂) ∧
      h₂.items back = m.env.heap.items r ∧ m.env.heap.Extends h₂ ∧
      (.list r ∈ m.env.heap.containers → h₂.same (.list back) (.list r) = true)) ∧
    (0 < m.settings.budget → ∀ n : Int64,
      convertTo again scope .string (.number n) m = .ok (.string (toString n.toInt)) m ∧
      convertTo again scope .number (.string (toString n.toInt)) m = .ok (.number n) m) := by
  constructor
  · intro r
    let made := m.env.heap.newMap (Heap.numbered (m.env.heap.items r))
    let back := made.2.newList (Entries.values (made.2.entries made.1))
    have hentries : made.2.entries made.1 = Heap.numbered (m.env.heap.items r) := Heap.entries_newMap _ _
    have hitems : back.2.items back.1 = m.env.heap.items r := by
      rw [Heap.items_newList, hentries, Heap.values_numbered]
    have hextends : m.env.heap.Extends back.2 :=
      (m.env.heap.extends_newMap _).trans (made.2.extends_newList _)
    refine ⟨made.1, made.2, back.1, back.2, convertTo_map_list again scope m r, hentries, ?_, rfl, hitems,
      hextends, fun hr => ?_⟩
    · rw [hentries]
      exact Heap.nodup_numbered _
    · have hr : back.2.items r = m.env.heap.items r := hextends.same (.list r) hr
      exact Heap.same_iff_bisimilar.mpr (Heap.bisimilar_of_items (hitems.trans hr.symm))
  · intro hbudget n
    obtain ⟨depth, hdepth⟩ := Nat.exists_eq_add_of_lt hbudget
    constructor
    · apply convertTo_string_run again scope (by simp [Value.kind, Scalar.kind])
      rw [hdepth]
      rfl
    · apply convertTo_number_run again scope (by simp [Value.kind, Scalar.kind])
      rw [hdepth]
      exact congrArg (EStateM.Result.ok · m) (Scalar.toNumber_ofInt64 n)

theorem knotted_list_and_least_number_kept :
    let m := (Machine.initial 0 ⟨1, .kind .number, .ofTable [], 1⟩).withHeap Heap.knotted
    .list ⟨0⟩ ∈ m.env.heap.containers ∧ 0 < m.settings.budget ∧
      (∃ q h₁ back h₂,
        convertTo evaluate Environment.global .map (.list ⟨0⟩) m = .ok (.map q) (m.withHeap h₁) ∧
        (h₁.entries q).map Prod.fst = ["_0", "_1", "_2", "_3", "_4"] ∧
        convertTo evaluate Environment.global .list (.map q) (m.withHeap h₁) =
          .ok (.list back) (m.withHeap h₂) ∧
        h₂.items back = Heap.knotted.items ⟨0⟩ ∧ h₂.same (.list back) (.list ⟨0⟩) = true) ∧
      convertTo evaluate Environment.global .number (.string "-9223372036854775808") m =
        .ok (.number Int64.minValue) m := by
  intro m
  have hmem : .list ⟨0⟩ ∈ m.env.heap.containers := by decide
  have hbudget : 0 < m.settings.budget := by decide
  obtain ⟨hlist, hnumber⟩ := conversions_lossless evaluate Environment.global m
  obtain ⟨q, h₁, back, h₂, hmap, hentries, -, hback, hitems, -, hsame⟩ := hlist ⟨0⟩
  refine ⟨hmem, hbudget, ⟨q, h₁, back, h₂, hmap, ?_, hback, hitems, hsame hmem⟩,
    (hnumber hbudget Int64.minValue).2⟩
  rw [hentries]
  decide +kernel

end Eval

end DiceLang

import DiceLang.Dice
import Mathlib.Tactic.Lemma

/-! Draws that are not accepted. A throw or a shuffle comes to nothing only if so many attempts at one of
its draws fail. -/

namespace DiceLang

namespace Generator

variable {g : Generator} {attempts : Nat}

/-- So many attempts at a draw all fail, perhaps behind draws that are accepted. -/
inductive Rejects (attempts : Nat) : Generator → Prop
  | now32 {g : Generator} (n : Nat) : below32 n attempts g = none → Rejects attempts g
  | now64 {g : Generator} (n : Nat) : below64 n attempts g = none → Rejects attempts g
  | later {g g' : Generator} {n x : Nat} : below32 n attempts g = some (x, g') → Rejects attempts g' →
    Rejects attempts g

lemma rejects_of_shuffleFrom {α : Type} {i : Nat} {items : Array α}
    (h : shuffleFrom attempts i items g = none) : g.Rejects attempts := by
  induction i generalizing items g with
  | zero => cases h
  | succ i ih =>
    rw [shuffleFrom] at h
    split at h
    · exact .now32 _ ‹_›
    · exact .later ‹_› (ih h)

lemma rejects_of_shuffle {α : Type} {items : List α} (h : g.shuffle attempts items = none) :
    g.Rejects attempts := rejects_of_shuffleFrom (Option.map_eq_none_iff.mp h)

end Generator

lemma Dice.settled_or_rejects (attempts : Nat) {die : Value} (hd : die.kind ≠ .function) (h : Heap)
    (g : Generator) : (∃ v, (throw attempts die h g).1 = .face v) ∨
      (∃ k, (throw attempts die h g).1 = .unrollable k) ∨
      ((throw attempts die h g).1 = .unsettled ∧ (throw attempts die h g).2.2 = g ∧
        g.Rejects attempts) := by
  rw [throw.eq_def]
  split
  · split
    · exact .inl ⟨_, rfl⟩
    · split
      · exact .inl ⟨_, rfl⟩
      · exact .inr (.inr ⟨rfl, rfl, .now64 _ ‹_›⟩)
  · dsimp only
    split
    · exact .inl ⟨_, rfl⟩
    · split
      · exact .inl ⟨_, rfl⟩
      · exact .inr (.inr ⟨rfl, rfl, .now64 _ ‹_›⟩)
  · dsimp only
    split
    · exact .inl ⟨_, rfl⟩
    · split
      · exact .inl ⟨_, rfl⟩
      · exact .inr (.inr ⟨rfl, rfl, .now64 _ ‹_›⟩)
  · exact absurd rfl hd
  · exact .inr (.inl ⟨_, rfl⟩)

end DiceLang

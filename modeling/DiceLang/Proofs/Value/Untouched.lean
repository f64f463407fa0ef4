import DiceLang.Proofs.Value.Bisimulation
import DiceLang.Value.Printer

/-! What later changes of the heap mean for a value: nothing, as long as no container that lies in it is
changed. -/

namespace DiceLang.Heap

open Relation (ReflTransGen)

variable {h h' : Heap} {v w : Value} {c : Container} {path : List Container}

def HoldsSame (h h' : Heap) : Container → Prop
  | .list r => h'.items r = h.items r
  | .map r => h'.entries r = h.entries r

def Untouched (h h' : Heap) (v : Value) : Prop :=
  ∀ w c, ReflTransGen h.Holds v w → w.container? = some c → h.HoldsSame h' c

lemma HoldsSame.contents (hc : h.HoldsSame h' c) : h'.contents c = h.contents c := by
  cases c with
  | list r => exact hc
  | map r => exact congrArg Entries.values hc

lemma Untouched.of_holds (hu : h.Untouched h' v) (hw : h.Holds v w) : h.Untouched h' w :=
  fun x c hx => hu x c (.head hw hx)

lemma Untouched.holdsSame (hu : h.Untouched h' v) (hc : v.container? = some c) : h.HoldsSame h' c :=
  hu v c .refl hc

lemma Untouched.inside (hu : h.Untouched h' v) : h'.inside v = h.inside v := by
  cases hc : v.container? with
  | none => rw [inside_eq_nil hc, inside_eq_nil hc]
  | some c => rw [inside_of_container? hc, inside_of_container? hc, (hu.holdsSame hc).contents]

lemma Untouched.face (hu : h.Untouched h' v) : h'.face v = h.face v := by
  cases v with
  | scalar | function => rfl
  | list r =>
    have hr : h'.items r = h.items r := hu.holdsSame (c := .list r) rfl
    rw [Heap.face, hr, Heap.face]
  | map r =>
    have hr : h'.entries r = h.entries r := hu.holdsSame (c := .map r) rfl
    rw [Heap.face, hr, Heap.face]

def LooksLike (h : Heap) (v : Value) (h' : Heap) (w : Value) : Prop :=
  ∀ place, h.faceAt v place = h'.faceAt w place

lemma holds_of_mem_inside (hw : w ∈ h.inside v) : h.Holds v w := by
  cases hc : v.container? with
  | none => simp [inside_eq_nil hc] at hw
  | some c => exact ⟨c, hc, inside_of_container? (h := h) hc ▸ hw⟩

lemma Untouched.looksLike (hu : h.Untouched h' v) : h.LooksLike v h' v := by
  intro place
  induction place generalizing v with
  | nil => exact congrArg some hu.face.symm
  | cons i place ih =>
    rw [faceAt, faceAt, hu.inside]
    cases hi : (h.inside v)[i]? with
    | none => rfl
    | some w => exact ih (hu.of_holds (holds_of_mem_inside (List.mem_of_getElem? hi)))

lemma Untouched.textWithin_eq (hu : h.Untouched h' v) (fuel : Nat) :
    h'.textWithin fuel path v = h.textWithin fuel path v := by
  induction fuel generalizing v path with
  | zero => rfl
  | succ fuel ih =>
    cases v with
    | scalar | function => rfl
    | list r =>
      have hr : h'.items r = h.items r := hu.holdsSame (c := .list r) rfl
      have hall : (h.items r).map (h'.textWithin fuel (.list r :: path)) =
          (h.items r).map (h.textWithin fuel (.list r :: path)) :=
        List.map_congr_left fun w hw => ih (hu.of_holds ⟨.list r, rfl, hw⟩)
      rw [textWithin, textWithin, hr, hall]
    | map r =>
      have hr : h'.entries r = h.entries r := hu.holdsSame (c := .map r) rfl
      have hall : (h.entries r).map (fun e =>
            Printer.key e.1 ++ ": " ++ h'.textWithin fuel (.map r :: path) e.2) =
          (h.entries r).map fun e =>
            Printer.key e.1 ++ ": " ++ h.textWithin fuel (.map r :: path) e.2 := by
        refine List.map_congr_left fun e he => ?_
        rw [ih (hu.of_holds ⟨.map r, rfl, List.mem_map_of_mem he⟩)]
      rw [textWithin, textWithin, hr]
      dsimp only
      rw [hall]

lemma textWithin_succ {fuel : Nat} (hfuel : (h.unmet path).card < fuel) :
    h.textWithin (fuel + 1) path v = h.textWithin fuel path v := by
  induction fuel generalizing v path with
  | zero => omega
  | succ fuel ih =>
    have hbelow {c : Container} (hc : c ∉ path) {w : Value} (hw : w ∈ h.contents c) :
        h.textWithin (fuel + 1) (c :: path) w = h.textWithin fuel (c :: path) w := by
      have hlt := card_unmet_lt hc hw
      exact ih (by omega)
    cases v with
    | scalar | function => rfl
    | list r =>
      rw [textWithin, textWithin]
      split_ifs with hr
      · rfl
      · have hall := List.map_congr_left fun w (hw : w ∈ h.items r) => hbelow hr hw
        exact congrArg (fun texts => "[" ++ ", ".intercalate texts ++ "]") hall
    | map r =>
      rw [textWithin, textWithin]
      split_ifs with hr
      · rfl
      · have hall := List.map_congr_left fun e (he : e ∈ h.entries r) =>
          congrArg (Printer.key e.1 ++ ": " ++ ·) (hbelow hr (List.mem_map_of_mem he))
        exact congrArg (fun texts => "\x7b" ++ ", ".intercalate texts ++ "\x7d") hall

lemma text_eq_textWithin (v : Value) (fuel : Nat) (hfuel : h.size < fuel) :
    h.text v = h.textWithin fuel [] v := by
  have hcard := h.card_unmet_le []
  induction fuel, hfuel using Nat.le_induction with
  | base => rfl
  | succ fuel hfuel ih => rw [ih, textWithin_succ (hcard.trans_lt hfuel)]

lemma Untouched.text_eq (hu : h.Untouched h' v) : h'.text v = h.text v := by
  rw [text_eq_textWithin v (h.size + h'.size + 1) (by omega), hu.textWithin_eq,
    text_eq_textWithin v (h.size + h'.size + 1) (by omega)]

end DiceLang.Heap

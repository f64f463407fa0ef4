/-! Entries by name, in the order in which the names first came. -/

namespace DiceLang.Entries

variable {α : Type}

def get? : List (String × α) → String → Option α
  | [], _ => none
  | (k, v) :: es, name => if k = name then some v else get? es name

/-- A name that is there keeps its place, a new one comes last. -/
def put : List (String × α) → String → α → List (String × α)
  | [], name, v => [(name, v)]
  | (k, w) :: es, name, v => if k = name then (k, v) :: es else (k, w) :: put es name v

def putAll (es more : List (String × α)) : List (String × α) :=
  more.foldl (fun es e => put es e.1 e.2) es

def ofList (es : List (String × α)) : List (String × α) := putAll [] es

def values (es : List (String × α)) : List α := es.map Prod.snd

theorem get?_put_self (es : List (String × α)) (name : String) (v : α) :
    get? (put es name v) name = some v := by
  induction es with
  | nil => simp [put, get?]
  | cons e es ih =>
    by_cases h : e.1 = name <;> simp [put, get?, h, ih]

theorem get?_put_ne (es : List (String × α)) {name other : String} (v : α) (h : other ≠ name) :
    get? (put es name v) other = get? es other := by
  induction es with
  | nil => simp [put, get?, Ne.symm h]
  | cons e es ih =>
    by_cases hk : e.1 = name
    · simp [put, get?, hk, Ne.symm h]
    · simp only [put, get?, if_neg hk, ih]

theorem get?_concat (es : List (String × α)) (name other : String) (v : α) :
    get? (es ++ [(name, v)]) other = (get? es other <|> if name = other then some v else none) := by
  induction es with
  | nil => simp [get?]
  | cons e es ih =>
    rw [List.cons_append, get?, get?, ih]
    split <;> rfl

theorem get?_eq_none_iff {es : List (String × α)} {name : String} :
    get? es name = none ↔ name ∉ es.map Prod.fst := by
  induction es with
  | nil => simp [get?]
  | cons e es ih =>
    rw [get?, List.map_cons, List.mem_cons, not_or, ← ih, eq_comm (a := name)]
    by_cases hname : e.1 = name <;> simp [hname]

end DiceLang.Entries

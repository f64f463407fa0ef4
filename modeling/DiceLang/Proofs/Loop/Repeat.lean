import DiceLang.Proofs.Eval.Typed
import DiceLang.Proofs.Parser.Grammatical
import DiceLang.Proofs.Value.Copy

/-! Loops with a condition and a limit. Such a loop takes turns: tests of its condition and rounds of its
body. The rounds that it has been through say which turns it has taken. -/

namespace DiceLang

inductive Turn where
  | test (holds : Bool)
  | round (result : Value)

namespace RepeatForm

/-- The most rounds of a loop with this limit. A test behind the rounds allows one more, up to the
greatest number `Int64.maxValue`, at which the bound is capped. -/
def most (form : RepeatForm) (limit : Int64) : Nat :=
  match form with
  | .before => limit.toInt.toNat
  | .after | .once => min (limit.toInt.toNat + 1) Int64.maxValue.toInt.toNat

/-- The turns of a loop with these results: each round follows a test that holds, except for the first one
if the test is behind it, and a test that does not hold comes last unless the most rounds are reached. -/
def turns (form : RepeatForm) (limit : Int64) (results : List Value) : List Turn :=
  let rounds := results.flatMap fun v => [.test true, .round v]
  (if form = .before then rounds else rounds.tail) ++
    if results.length < form.most limit then [.test false] else []

lemma most_before (limit : Int64) : (most .before limit : Int) = max limit.toInt 0 := by
  rw [most, Int.toNat_eq_max]

lemma most_behind {form : RepeatForm} (hform : form ≠ .before) (limit : Int64) :
    (form.most limit : Int) = min (max limit.toInt 0 + 1) Int64.maxValue.toInt := by
  have hmax : 1 ≤ Int64.maxValue.toInt := by decide
  cases form with
  | before => exact absurd rfl hform
  | after | once =>
    rw [most]
    omega

lemma getLast?_turns_of_lt {form : RepeatForm} {limit : Int64} {results : List Value}
    (h : results.length < form.most limit) : (form.turns limit results).getLast? = some (.test false) := by
  rw [turns, if_pos h, List.getLast?_concat]

lemma test_false_notMem_turns {form : RepeatForm} {limit : Int64} {results : List Value}
    (h : form.most limit ≤ results.length) : .test false ∉ form.turns limit results := by
  have hrounds : Turn.test false ∉ results.flatMap fun v => [.test true, .round v] := by simp
  rw [turns, if_neg (Nat.not_lt.mpr h), List.append_nil]
  split
  · exact hrounds
  · exact fun hmem => hrounds (List.mem_of_mem_tail hmem)

lemma getLast?_turns_of_le {form : RepeatForm} {limit : Int64} {results : List Value}
    (h : form.most limit ≤ results.length) :
    (form.turns limit results).getLast? = results.getLast?.map .round := by
  rw [turns, if_neg (Nat.not_lt.mpr h), List.append_nil]
  induction results using List.reverseRecOn with
  | nil => simp
  | append_singleton vs v _ =>
    let before := vs.flatMap fun v => [Turn.test true, .round v]
    have hrounds : ((vs ++ [v]).flatMap fun v => [Turn.test true, .round v]) =
        (before ++ [.test true]) ++ [.round v] := by simp [before]
    rw [hrounds, List.tail_append_of_ne_nil (by simp), List.getLast?_concat]
    split <;> exact List.getLast?_concat

end RepeatForm

namespace Eval

variable {again : Again} {scope : ScopeId} {body condition : Expr} {limit : Int64} {fuel : Nat}
  {results all : Array Value} {m n : Machine}

inductive Takes (again : Again) (scope : ScopeId) (body condition : Expr) :
    Machine → List Turn → Machine → Prop
  | done (m : Machine) : Takes again scope body condition m [] m
  | test {m m₁ n : Machine} {b : Bool} {ts : List Turn} : boolean again scope condition m = .ok b m₁ →
      Takes again scope body condition m₁ ts n → Takes again scope body condition m (.test b :: ts) n
  | round {m m₁ n : Machine} {v : Value} {ts : List Turn} : again body scope none m = .ok v m₁ →
      Takes again scope body condition m₁ ts n → Takes again scope body condition m (.round v :: ts) n

lemma reached_iff (form : RepeatForm) (limit : Int64) {rounds : Nat}
    (hrounds : 0 < rounds ∨ form = .before) :
    reached form (some limit) rounds = true ↔ form.most limit ≤ rounds := by
  cases form with
  | before =>
    simp only [reached, RepeatForm.most, Option.any_some, decide_eq_true_eq]
    omega
  | after | once =>
    have hpos : 0 < rounds := hrounds.resolve_right (by decide)
    have hmax : 1 ≤ Int64.maxValue.toInt := by decide
    simp only [reached, RepeatForm.most, Option.any_some, decide_eq_true_eq]
    omega

lemma ok_of_gate {form : RepeatForm} {next : Eval (Array Value)}
    (hsize : 0 < results.size ∨ form = .before)
    (h : (do
      if reached form (some limit) results.size then return results
      if ← boolean again scope condition then next else return results) m = .ok all n) :
    (form.most limit ≤ results.size ∧ all = results ∧ n = m) ∨
    results.size < form.most limit ∧ ((all = results ∧ boolean again scope condition m = .ok false n) ∨
      ∃ m₁, boolean again scope condition m = .ok true m₁ ∧ next m₁ = .ok all n) := by
  split_ifs at h with hreached
  · cases h
    exact .inl ⟨(reached_iff form limit hsize).mp hreached, rfl, rfl⟩
  · rw [reached_iff form limit hsize, not_le] at hreached
    obtain ⟨b, m₁, htest, h⟩ := ok_of_bind h
    cases b with
    | false =>
      cases h
      exact .inr ⟨hreached, .inl ⟨rfl, htest⟩⟩
    | true => exact .inr ⟨hreached, .inr ⟨m₁, htest, h⟩⟩

def further (most rounds : Nat) (results : List Value) : List Turn :=
  results.flatMap (fun v => [.test true, .round v]) ++
    if rounds + results.length < most then [.test false] else []

lemma further_nil_of_le {most rounds : Nat} (h : most ≤ rounds) : further most rounds [] = [] :=
  if_neg (Nat.not_lt.mpr h)

lemma further_nil_of_lt {most rounds : Nat} (h : rounds < most) :
    further most rounds [] = [.test false] := if_pos h

lemma further_cons (most rounds : Nat) (v : Value) (results : List Value) :
    further most rounds (v :: results) = .test true :: .round v :: further most (rounds + 1) results := by
  rw [further, further, List.length_cons, Nat.add_right_comm, Nat.add_assoc]
  rfl

lemma takes_of_rounds_before (hsize : results.size ≤ RepeatForm.most .before limit)
    (h : rounds again .before body condition (some limit) scope fuel results m = .ok all n) :
    ∃ vs : List Value, all.toList = results.toList ++ vs ∧
      results.size + vs.length ≤ RepeatForm.most .before limit ∧
      Takes again scope body condition m (further (RepeatForm.most .before limit) results.size vs) n := by
  -- the results so far count the rounds, so the induction is about a loop from any round on
  induction fuel generalizing results m with
  | zero => cases h
  | succ fuel ih =>
    rw [rounds] at h
    rcases ok_of_gate (.inr rfl) h with ⟨hle, rfl, rfl⟩ | ⟨hlt, ⟨rfl, htest⟩ | ⟨m₁, htest, h⟩⟩
    · refine ⟨[], (List.append_nil _).symm, hsize, ?_⟩
      rw [further_nil_of_le hle]
      exact .done n
    · refine ⟨[], (List.append_nil _).symm, hsize, ?_⟩
      rw [further_nil_of_lt hlt]
      exact .test htest (.done n)
    · obtain ⟨v, m₂, hround, h⟩ := ok_of_bind h
      obtain ⟨vs, hall, hlength, htakes⟩ := ih (by rwa [Array.size_push]) h
      rw [Array.size_push] at hlength htakes
      refine ⟨v :: vs, ?_, ?_, ?_⟩
      · rw [hall, Array.toList_push, List.append_assoc, List.singleton_append]
      · rw [List.length_cons]
        omega
      · rw [further_cons]
        exact .test htest (.round hround htakes)

lemma takes_of_rounds_behind {form : RepeatForm} (hform : form ≠ .before)
    (hsize : results.size < form.most limit)
    (h : rounds again form body condition (some limit) scope fuel results m = .ok all n) :
    ∃ (v : Value) (vs : List Value), all.toList = results.toList ++ v :: vs ∧
      results.size + 1 + vs.length ≤ form.most limit ∧
      Takes again scope body condition m
        (.round v :: further (form.most limit) (results.size + 1) vs) n := by
  induction fuel generalizing results m with
  | zero => cases h
  | succ fuel ih =>
    obtain ⟨v, m₁, hround, h⟩ : ∃ v m₁, again body scope none m = .ok v m₁ ∧ (do
        if reached form (some limit) (results.push v).size then return results.push v
        if ← boolean again scope condition then
          rounds again form body condition (some limit) scope fuel (results.push v)
        else return results.push v) m₁ = .ok all n := by
      cases form with
      | before => exact absurd rfl hform
      | after | once => exact ok_of_bind h
    have hpush (vs : List Value) : (results.push v).toList ++ vs = results.toList ++ v :: vs := by
      rw [Array.toList_push, List.append_assoc, List.singleton_append]
    have hpos : 0 < (results.push v).size := by
      rw [Array.size_push]
      exact Nat.succ_pos _
    rcases ok_of_gate (.inl hpos) h with ⟨hle, rfl, rfl⟩ | ⟨hlt, ⟨rfl, htest⟩ | ⟨m₂, htest, h⟩⟩
    · rw [Array.size_push] at hle
      refine ⟨v, [], by rw [← hpush, List.append_nil], hsize, ?_⟩
      rw [further_nil_of_le hle]
      exact .round hround (.done n)
    · rw [Array.size_push] at hlt
      refine ⟨v, [], by rw [← hpush, List.append_nil], hsize, ?_⟩
      rw [further_nil_of_lt hlt]
      exact .round hround (.test htest (.done n))
    · obtain ⟨w, vs, hall, hlength, htakes⟩ := ih hlt h
      rw [Array.size_push] at hlength htakes
      refine ⟨v, w :: vs, ?_, ?_, ?_⟩
      · rw [hall, hpush]
      · rw [List.length_cons]
        omega
      · rw [further_cons]
        exact .round hround (.test htest htakes)

lemma takes_of_rounds {form : RepeatForm}
    (h : rounds again form body condition (some limit) scope fuel #[] m = .ok all n) :
    Takes again scope body condition m (form.turns limit all.toList) n ∧
      all.size ≤ form.most limit ∧ (form ≠ .before → 0 < all.size) := by
  by_cases hform : form = .before
  · subst hform
    obtain ⟨vs, hall, hlength, htakes⟩ := takes_of_rounds_before (Nat.zero_le _) h
    obtain rfl : all.toList = vs := hall
    rw [Array.size_empty, Nat.zero_add, Array.length_toList] at hlength
    rw [Array.size_empty, further, Nat.zero_add] at htakes
    exact ⟨htakes, hlength, fun hne => absurd rfl hne⟩
  · have hpos : 0 < form.most limit := by
      have hmax : 1 ≤ Int64.maxValue.toInt := by decide
      cases form with
      | before => exact absurd rfl hform
      | after | once =>
        rw [RepeatForm.most]
        omega
    obtain ⟨v, vs, hall, hlength, htakes⟩ := takes_of_rounds_behind hform (by exact hpos) h
    have hsize : all.size = 1 + vs.length := by
      rw [← Array.length_toList, hall]
      exact Nat.add_comm _ _
    rw [Array.size_empty, Nat.zero_add, ← hsize] at hlength
    refine ⟨?_, hlength, fun _ => by omega⟩
    rw [RepeatForm.turns, if_neg hform, Array.length_toList, hsize, hall]
    rw [Array.size_empty, Nat.zero_add, further] at htakes
    exact htakes

lemma ok_of_repeating {form : RepeatForm} {limit : Expr} {v : Value}
    (h : repeating again scope form body condition (some limit) m = .ok v n) :
    ∃ L m₁ results m₂, number again scope limit m = .ok L m₁ ∧
      Takes again (m₁.env.enter scope).1.1 body condition { m₁ with env := (m₁.env.enter scope).2 }
        (form.turns L results) m₂ ∧
      results.length ≤ form.most L ∧ (form ≠ .before → 0 < results.length) ∧
      newList results (release (m₁.env.enter scope).1.2 m₂) = .ok v n := by
  obtain ⟨L, m₁, hlimit, h⟩ := ok_of_bind (p := number again scope limit) h
  obtain ⟨_, _, ⟨⟩, h⟩ := ok_of_bind h
  obtain ⟨_, _, ⟨⟩, h⟩ := ok_of_bind h
  obtain ⟨all, m₂, hloop, h⟩ := ok_of_bind h
  rw [inScope_run] at hloop
  obtain ⟨m₂, hrounds, rfl⟩ := ok_of_onExit hloop
  obtain ⟨htakes, hmost, hleast⟩ := takes_of_rounds hrounds
  rw [← Array.length_toList] at hmost hleast
  exact ⟨L, m₁, all.toList, m₂, hlimit, htakes, hmost, hleast, h⟩

structure LimitedRun (again : Again) (scope : ScopeId) (form : RepeatForm) (body condition : Expr)
    (L : Int64) (m : Machine) (results : List Value) (n : Machine) : Prop where
  takes : Takes again scope body condition m (form.turns L results) n
  before : form = .before → (results.length : Int) ≤ max L.toInt 0
  behind : form ≠ .before → 1 ≤ results.length ∧ (results.length : Int) ≤ max L.toInt 0 + 1
  short : results.length < form.most L → (form.turns L results).getLast? = some (.test false)
  full : form.most L ≤ results.length → .test false ∉ form.turns L results ∧
    ∀ b, (form.turns L results).getLast? ≠ some (.test b)

lemma limitedRun_of_takes {form : RepeatForm} {L : Int64} {results : List Value}
    (htakes : Takes again scope body condition m (form.turns L results) n)
    (hmost : results.length ≤ form.most L) (hleast : form ≠ .before → 0 < results.length) :
    LimitedRun again scope form body condition L m results n where
  takes := htakes
  before := by
    rintro rfl
    rw [← RepeatForm.most_before]
    exact Int.ofNat_le.mpr hmost
  behind hform := by
    have hbound := RepeatForm.most_behind hform L
    exact ⟨hleast hform, by omega⟩
  short := RepeatForm.getLast?_turns_of_lt
  full h := by
    refine ⟨RepeatForm.test_false_notMem_turns h, fun b hlast => ?_⟩
    rw [RepeatForm.getLast?_turns_of_le h] at hlast
    cases hv : results.getLast? <;> rw [hv] at hlast <;> cases hlast

lemma limitedRun_of_evaluateOnce {loc : Location} {form : RepeatForm} {limit : Expr} {v : Value}
    (h : evaluateOnce again (.repeating loc form body condition (some limit)) scope none m = .ok v n) :
    ∃ hd L m₁ results m₂ r, number again scope limit (m.deeper hd) = .ok L m₁ ∧
      LimitedRun again (m₁.env.enter scope).1.1 form body condition L
        { m₁ with env := (m₁.env.enter scope).2 } results m₂ ∧
      v = .list r ∧ .list r ∉ m₂.env.heap.containers ∧ n.env.heap.items r = results := by
  obtain ⟨hd, w, n', _, hw, ⟨⟩, rfl⟩ := ok_of_evaluateOnce h
  obtain ⟨L, m₁, results, m₂, hlimit, htakes, hmost, hleast, ⟨⟩⟩ := ok_of_repeating hw
  refine ⟨hd, L, m₁, results, m₂, _, hlimit, limitedRun_of_takes htakes hmost hleast, rfl, ?_, ?_⟩
  · exact (m₂.env.heap.list_newList_mem results).2
  · exact m₂.env.heap.items_newList results

lemma eq_of_number_literal {loc : Location} {k L : Int64}
    (h : number evaluate scope (.scalar loc (.number k)) m = .ok L n) : L = k := by
  obtain ⟨-, w, n₁, n₂, ⟨⟩, ⟨⟩, -⟩ := ok_of_evaluate (number_iff.mp h)
  rfl

/-- Whatever it means to evaluate the parts of a loop, the limit is evaluated before all else and only once,
outside of the loop's scope. Then only the condition and the body are, in turns, and the results of the body
are the elements of a new list. In programs a loop with `if` has the limit one, and one or two results. -/
theorem limited_loop_takes_turns :
    (∀ e scope target, evaluate e scope target = evaluateOnce evaluate e scope target) ∧
    (∀ (again : Again) (loc : Location) (form : RepeatForm) (body condition limit : Expr)
      (scope : ScopeId) (m m' : Machine) (v : Value),
      evaluateOnce again (.repeating loc form body condition (some limit)) scope none m = .ok v m' →
      ∃ hd L m₁ results m₂ r, number again scope limit (m.deeper hd) = .ok L m₁ ∧
        LimitedRun again (m₁.env.enter scope).1.1 form body condition L
          { m₁ with env := (m₁.env.enter scope).2 } results m₂ ∧
        v = .list r ∧ .list r ∉ m₂.env.heap.containers ∧ m'.env.heap.items r = results) ∧
    (∀ (loc loc' : Location) (body condition : Expr) (scope : ScopeId) (m m' : Machine) (v : Value),
      evaluate (.repeating loc .once body condition (some (.scalar loc' (.number 1)))) scope none m =
        .ok v m' →
      ∃ r, v = .list r ∧ ((m'.env.heap.items r).length = 1 ∨ (m'.env.heap.items r).length = 2)) ∧
    ∀ source text es, parse source text = .ok es → ∀ e ∈ es, ∀ loc body condition limit,
      Expr.Within (.repeating loc .once body condition limit) e →
        ∃ loc', limit = some (.scalar loc' (.number 1)) := by
  refine ⟨evaluate_eq, fun _ _ _ _ _ _ _ _ _ _ => limitedRun_of_evaluateOnce, ?_, ?_⟩
  · intro loc loc' body condition scope m m' v h
    rw [evaluate_eq] at h
    obtain ⟨hd, L, m₁, results, m₂, r, hlimit, hloop, rfl, -, hitems⟩ := limitedRun_of_evaluateOnce h
    obtain rfl := eq_of_number_literal hlimit
    have hbounds : 1 ≤ results.length ∧ (results.length : Int) ≤ 2 := hloop.behind (by decide)
    refine ⟨r, rfl, ?_⟩
    rw [hitems]
    omega
  · intro source text es hparse e he loc body condition limit hwithin
    exact ((fits_parse hparse he).wellFormed _ hwithin).2.2.2 rfl

theorem limit_changed_by_body :
    let number (k : Int64) : Expr := .scalar .builtin (.number k)
    let n : Expr := .var .builtin "n"
    let body : Expr := .binary .builtin .assign n (.binary .builtin (.arithmetic .add) n (number 5))
    let always : Expr := .scalar .builtin (.boolean true)
    let global := Environment.global
    let m := after (evaluate (.binary .builtin .assign n (number 2)) global none
      (Machine.initial 0 ⟨1, .kind .number, .ofTable [], 100⟩))
    ∃ r m', evaluate (.repeating .builtin .after body always (some n)) global none m = .ok (.list r) m' ∧
      (m'.env.heap.items r).map Value.scalar? =
        [some (.number 7), some (.number 12), some (.number 17)] ∧
      ∃ hd L m₁ scope entered m₂, Eval.number evaluate global n (m.deeper hd) = .ok L m₁ ∧
        LimitedRun evaluate scope .after body always L entered (m'.env.heap.items r) m₂ := by
  intro number n body always global m
  have hscalars : scalars? (evaluate (.repeating .builtin .after body always (some n)) global none m) =
      some [some (.number 7), some (.number 12), some (.number 17)] := by decide +kernel
  obtain ⟨r, m', hrun, hitems⟩ := exists_of_scalars? hscalars
  obtain ⟨hd, L, m₁, results, m₂, q, hlimit, hloop, ⟨⟩, -, rfl⟩ :=
    limited_loop_takes_turns.2.1 evaluate _ _ _ _ _ _ _ _ _ ((evaluate_eq _ _ _).symm ▸ hrun)
  exact ⟨r, m', hrun, hitems, hd, L, m₁, _, _, m₂, hlimit, hloop⟩

end Eval

end DiceLang

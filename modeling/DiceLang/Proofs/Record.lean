import DiceLang.Proofs.Eval.Logic

/-! Where the dice of a record come from: the throws of the output in flight are the end of all throws. -/

namespace DiceLang.RecordLog

inductive Op where
  | clear
  | start (mode : OutputMode)
  | throw (record : DiceRecord)
  | finish (name : String) (expression : Expr) (kind : Option Kind) (outcome : Outcome)
  | abandon

def apply (log : RecordLog) : Op → RecordLog
  | .clear => .empty
  | .start mode => (log.start? mode).getD log
  | .throw record => log.throw record
  | .finish name expression kind outcome => log.finish name expression kind outcome
  | .abandon => log.abandon

def applyAll (log : RecordLog) (ops : List Op) : RecordLog := ops.foldl apply log

@[simp] lemma applyAll_concat (log : RecordLog) (ops : List Op) (op : Op) :
    log.applyAll (ops ++ [op]) = (log.applyAll ops).apply op := by
  rw [applyAll, List.foldl_append]
  rfl

namespace Op

def isClear : Op → Bool
  | .clear => true
  | _ => false

def isInner : Op → Bool
  | .start _ | .throw _ => true
  | _ => false

def next (flight : Option OutputMode) : Op → Option OutputMode
  | .start mode => flight.or (some mode)
  | .throw _ => flight
  | .clear | .finish .. | .abandon => none

def kept (flight : Option OutputMode) : Op → List DiceRecord
  | .throw record => if flight = some .sample then [] else [record]
  | _ => []

end Op

def sinceClear (ops : List Op) : List Op := ops.rtakeWhile fun op => !op.isClear

def flight (ops : List Op) : Option OutputMode := ops.foldl Op.next none

def keptFrom (flight : Option OutputMode) : List Op → List DiceRecord
  | [] => []
  | op :: ops => op.kept flight ++ keptFrom (op.next flight) ops

def kept (ops : List Op) : List DiceRecord := keptFrom none ops

lemma keptFrom_append (f : Option OutputMode) (ops ops' : List Op) :
    keptFrom f (ops ++ ops') = keptFrom f ops ++ keptFrom (ops.foldl Op.next f) ops' := by
  induction ops generalizing f with
  | nil => rfl
  | cons op ops ih => rw [List.cons_append, keptFrom, keptFrom, ih, List.append_assoc, List.foldl_cons]

lemma kept_append (ops ops' : List Op) : kept (ops ++ ops') = kept ops ++ keptFrom (flight ops) ops' :=
  keptFrom_append none ops ops'

@[simp] lemma kept_concat (ops : List Op) (op : Op) :
    kept (ops ++ [op]) = kept ops ++ op.kept (flight ops) := by
  rw [kept_append, keptFrom, keptFrom, List.append_nil]

@[simp] lemma flight_concat (ops : List Op) (op : Op) : flight (ops ++ [op]) = op.next (flight ops) := by
  rw [flight, List.foldl_append]
  rfl

structure Span where
  before : List Op
  mode : OutputMode
  during : List Op
  name : String
  expression : Expr
  kind : Option Kind
  outcome : Outcome

namespace Span

variable {s t : Span} {ops : List Op} {op : Op}

def opening (s : Span) : List Op := s.before ++ .start s.mode :: s.during

def whole (s : Span) : List Op := s.opening ++ [.finish s.name s.expression s.kind s.outcome]

structure In (s : Span) (ops : List Op) : Prop where
  whole : s.whole <+: ops
  idle : flight s.before = none
  stays : ∀ op ∈ s.during, op.isInner = true

def first (s : Span) : Nat := (kept s.before).length

def last (s : Span) : Nat := (kept s.opening).length

def dice (s : Span) : List DiceRecord := keptFrom (some s.mode) s.during

def record (s : Span) (dice : List DiceRecord) : OutputRecord :=
  ⟨s.mode, s.name, s.expression, s.kind, s.outcome, dice⟩

lemma foldl_next_inner {mode : OutputMode} {ops : List Op} (h : ∀ op ∈ ops, op.isInner = true) :
    ops.foldl Op.next (some mode) = some mode := by
  induction ops with
  | nil => rfl
  | cons op ops ih =>
    rw [List.forall_mem_cons] at h
    rw [List.foldl_cons]
    cases op with
    | start | throw => exact ih h.2
    | clear | finish | abandon => cases h.1

lemma flight_opening (hidle : flight s.before = none) (hstays : ∀ op ∈ s.during, op.isInner = true) :
    flight s.opening = some s.mode := by
  rw [opening, flight, List.foldl_append, List.foldl_cons]
  change s.during.foldl Op.next (Op.next (flight s.before) (.start s.mode)) = _
  rw [hidle]
  exact foldl_next_inner hstays

lemma kept_opening (hidle : flight s.before = none) : kept s.opening = kept s.before ++ s.dice := by
  rw [opening, kept_append, hidle]
  rfl

lemma In.kept_eq (hs : s.In ops) : ∃ rest, kept ops = kept s.before ++ s.dice ++ rest := by
  obtain ⟨rest, rfl⟩ := hs.whole
  rw [Span.whole, List.append_assoc, kept_append, kept_opening hs.idle]
  exact ⟨_, rfl⟩

lemma In.dice_eq (hs : s.In ops) : s.dice = ((kept ops).take s.last).drop s.first := by
  obtain ⟨rest, hrest⟩ := hs.kept_eq
  rw [hrest, last, kept_opening hs.idle, first, List.take_left, List.drop_left]

lemma In.last_le (hs : s.In ops) : s.last ≤ (kept ops).length := by
  obtain ⟨rest, hrest⟩ := hs.kept_eq
  rw [hrest, last, kept_opening hs.idle]
  exact (List.prefix_append _ rest).length_le

lemma first_le_last (hidle : flight s.before = none) : s.first ≤ s.last := by
  rw [first, last, kept_opening hidle]
  exact (List.prefix_append _ _).length_le

lemma dice_of_sample {ops : List Op} (h : ∀ op ∈ ops, op.isInner = true) :
    keptFrom (some .sample) ops = [] := by
  induction ops with
  | nil => rfl
  | cons op ops ih =>
    rw [List.forall_mem_cons] at h
    rw [keptFrom]
    cases op with
    | start | throw => exact ih h.2
    | clear | finish | abandon => cases h.1

lemma In.of_whole {ops' : List Op} (hs : s.In ops) (h : s.whole <+: ops') : s.In ops' :=
  ⟨h, hs.idle, hs.stays⟩

lemma In.of_prefix {ops' : List Op} (hs : s.In ops) (h : ops <+: ops') : s.In ops' :=
  hs.of_whole (hs.whole.trans h)

lemma In.whole_before (hs : s.In t.opening) (hstays : ∀ op ∈ t.during, op.isInner = true) :
    s.whole <+: t.before := by
  rcases List.prefix_or_prefix_of_prefix hs.whole (List.prefix_append t.before _) with h | ⟨rest, hrest⟩
  · exact h
  · -- A finish would stand behind the start of the other, where only inner operations are.
    have hwhole := hs.whole
    rw [← hrest, opening, List.prefix_append_right_inj] at hwhole
    rcases List.eq_nil_or_concat' rest with rfl | ⟨init, op, rfl⟩
    · rw [List.append_nil] at hrest
      rw [← hrest]
    · rw [← List.append_assoc, Span.whole] at hrest
      obtain ⟨-, hop⟩ := List.append_inj' hrest rfl
      obtain rfl := List.head_eq_of_cons_eq hop
      have hmem : Op.finish s.name s.expression s.kind s.outcome ∈ .start t.mode :: t.during :=
        hwhole.subset (List.mem_append_right _ (List.mem_singleton_self _))
      rcases List.mem_cons.mp hmem with h | h
      · cases h
      · cases hstays _ h

lemma before_inj {before before' during during' : List Op} {mode mode' : OutputMode}
    (heq : before ++ .start mode :: during = before' ++ .start mode' :: during')
    (hidle : flight before = none) (hidle' : flight before' = none)
    (hstays : ∀ op ∈ during, op.isInner = true) (hstays' : ∀ op ∈ during', op.isInner = true) :
    before = before' := by
  have hshorter {before before' during during' : List Op} {mode mode' : OutputMode}
      (heq : before ++ .start mode :: during = before' ++ .start mode' :: during')
      (hidle : flight before = none) (hidle' : flight before' = none)
      (hstays : ∀ op ∈ during, op.isInner = true) (h : before <+: before') : before = before' := by
    obtain ⟨rest, rfl⟩ := h
    cases rest with
    | nil => rw [List.append_nil]
    | cons op rest =>
      -- The first output would still be in flight where the second starts.
      rw [List.append_assoc, List.append_cancel_left_eq, List.cons_append, List.cons.injEq] at heq
      obtain ⟨rfl, rfl⟩ := heq
      rw [flight, List.foldl_append] at hidle'
      change rest.foldl Op.next (Op.next (flight before) (.start mode)) = none at hidle'
      rw [hidle] at hidle'
      have hstays (op : Op) (hop : op ∈ rest) := hstays op (List.mem_append_left _ hop)
      rw [show Op.next none (.start mode) = some mode from rfl, foldl_next_inner hstays] at hidle'
      cases hidle'
  have hbegins : before <+: before' ++ .start mode' :: during' := ⟨_, heq⟩
  rcases List.prefix_or_prefix_of_prefix hbegins (List.prefix_append before' _) with h | h
  · exact hshorter heq hidle hidle' hstays h
  · exact (hshorter heq.symm hidle' hidle hstays' h).symm

end Span

structure Accounts (ops : List Op) (log : RecordLog) (spans : List Span) : Prop where
  dice : log.dice.toList = kept ops
  inFlight : log.current.map InFlight.mode = flight ops
  current : ∀ c ∈ log.current, ∃ before during, ops = before ++ .start c.mode :: during ∧
    flight before = none ∧ (∀ op ∈ during, op.isInner = true) ∧
    c.dice.toList = keptFrom (some c.mode) during
  records : log.records.toList = spans.map fun s => s.record s.dice
  finished : ∀ s, s ∈ spans ↔ s.In ops
  inOrder : spans.Pairwise fun s t => s.whole <+: t.before

variable {ops : List Op} {log : RecordLog} {spans : List Span} {op : Op}

lemma accounts_empty : Accounts [] .empty [] := by
  refine ⟨rfl, rfl, nofun, rfl, fun s => ⟨nofun, fun hs => ?_⟩, .nil⟩
  have hnil := List.prefix_nil.mp hs.whole
  simp [Span.whole] at hnil

lemma in_concat_iff (h : ∀ name e kind outcome, op = .finish name e kind outcome → flight ops = none)
    (s : Span) : s.In (ops ++ [op]) ↔ s.In ops := by
  refine ⟨fun hs => ⟨?_, hs.idle, hs.stays⟩, fun hs => hs.of_prefix (List.prefix_append _ _)⟩
  rcases List.prefix_concat_iff.mp hs.whole with heq | hshorter
  · obtain ⟨hopening, hop⟩ := List.append_inj' heq rfl
    have hflight := h _ _ _ _ (List.head_eq_of_cons_eq hop).symm
    rw [← hopening, Span.flight_opening hs.idle hs.stays] at hflight
    cases hflight
  · exact hshorter

lemma Accounts.start (h : Accounts ops log spans) (mode : OutputMode) :
    Accounts (ops ++ [.start mode]) (log.apply (.start mode)) spans := by
  have hspans (s : Span) : s.In (ops ++ [.start mode]) ↔ s.In ops := in_concat_iff (by nofun) s
  cases hc : log.current with
  | some c =>
    have hkept : log.apply (.start mode) = log := by simp [apply, start?, hc]
    have hflight : flight ops = some c.mode := by
      rw [← h.inFlight, hc]
      rfl
    rw [hkept]
    refine ⟨?_, ?_, ?_, h.records, fun s => (h.finished s).trans (hspans s).symm, h.inOrder⟩
    · rw [kept_concat, h.dice]
      exact (List.append_nil _).symm
    · rw [flight_concat, h.inFlight, hflight]
      rfl
    · intro c' hc'
      obtain ⟨before, during, rfl, hidle, hstays, hdice⟩ := h.current c' hc'
      refine ⟨before, during ++ [.start mode], by simp, hidle, ?_, ?_⟩
      · exact List.forall_mem_append.mpr ⟨hstays, List.forall_mem_singleton.mpr rfl⟩
      · rw [hdice, keptFrom_append]
        exact (List.append_nil _).symm
  | none =>
    have hstart : log.apply (.start mode) = { log with current := some ⟨mode, #[]⟩ } := by
      simp [apply, start?, hc]
    have hflight : flight ops = none := by
      rw [← h.inFlight, hc]
      rfl
    rw [hstart]
    refine ⟨?_, ?_, ?_, h.records, fun s => (h.finished s).trans (hspans s).symm, h.inOrder⟩
    · rw [kept_concat]
      exact h.dice.trans (List.append_nil _).symm
    · rw [flight_concat, hflight]
      rfl
    · rintro _ ⟨⟩
      exact ⟨ops, [], rfl, hflight, List.forall_mem_nil _, rfl⟩

lemma isSampling_eq (log : RecordLog) :
    log.isSampling = true ↔ log.current.map InFlight.mode = some .sample := by
  rw [isSampling]
  cases log.current with
  | none => simp
  | some c => cases c with | mk mode dice => cases mode <;> simp

lemma Accounts.throw (h : Accounts ops log spans) (record : DiceRecord) :
    Accounts (ops ++ [.throw record]) (log.apply (.throw record)) spans := by
  have hspans (s : Span) : s.In (ops ++ [.throw record]) ↔ s.In ops := in_concat_iff (by nofun) s
  have hcurrent (c : InFlight) (hc : c ∈ log.current) : ∃ before during,
      ops ++ [.throw record] = before ++ .start c.mode :: during ∧ flight before = none ∧
      (∀ op ∈ during, op.isInner = true) ∧
      c.dice.toList ++ Op.kept (some c.mode) (.throw record) = keptFrom (some c.mode) during := by
    obtain ⟨before, during, rfl, hidle, hstays, hdice⟩ := h.current c hc
    refine ⟨before, during ++ [.throw record], by simp, hidle, ?_, ?_⟩
    · exact List.forall_mem_append.mpr ⟨hstays, List.forall_mem_singleton.mpr rfl⟩
    · rw [hdice, keptFrom_append, Span.foldl_next_inner hstays, keptFrom, keptFrom, List.append_nil]
  by_cases hsampling : log.isSampling = true
  · have hkept : log.apply (.throw record) = log := if_pos hsampling
    have hflight : flight ops = some .sample := h.inFlight ▸ (isSampling_eq log).mp hsampling
    rw [hkept]
    refine ⟨?_, ?_, fun c hc => ?_, h.records, fun s => (h.finished s).trans (hspans s).symm, h.inOrder⟩
    · rw [kept_concat, hflight, h.dice]
      exact (List.append_nil _).symm
    · rw [flight_concat]
      exact h.inFlight
    · have hmode : c.mode = .sample := by
        have hmap := h.inFlight
        rw [hflight, Option.mem_def.mp hc] at hmap
        exact Option.some.inj hmap
      have hmore := hcurrent c hc
      rw [hmode, show Op.kept (some .sample) (.throw record) = [] from rfl, List.append_nil] at hmore
      rw [hmode]
      exact hmore
  · have hthrow : log.apply (.throw record) = ⟨log.records, log.dice.push record,
        log.current.map fun c => { c with dice := c.dice.push record }⟩ := if_neg hsampling
    have hflight : flight ops ≠ some .sample := by
      rw [← h.inFlight]
      exact fun hs => hsampling ((isSampling_eq log).mpr hs)
    rw [hthrow]
    refine ⟨?_, ?_, ?_, h.records, fun s => (h.finished s).trans (hspans s).symm, h.inOrder⟩
    · rw [kept_concat, Op.kept, if_neg hflight, Array.toList_push, h.dice]
    · rw [flight_concat]
      refine Eq.trans ?_ h.inFlight
      rw [Option.map_map]
      rfl
    · intro c' hc'
      obtain ⟨c, hc, rfl⟩ := Option.map_eq_some_iff.mp hc'
      have hmode : some c.mode ≠ some .sample := by
        rw [← h.inFlight, hc] at hflight
        exact hflight
      have hmore := hcurrent c hc
      rw [Op.kept, if_neg hmode] at hmore
      rwa [Array.toList_push]

lemma Accounts.stop (h : Accounts ops log spans) {log' : RecordLog} (hop : op.next (flight ops) = none)
    (hkept : op.kept (flight ops) = []) (hrecords : log'.records = log.records)
    (hdice : log'.dice = log.dice) (hcurrent : log'.current = none)
    (hfinish : ∀ name e kind outcome, op = .finish name e kind outcome → flight ops = none) :
    Accounts (ops ++ [op]) log' spans := by
  refine ⟨?_, ?_, ?_, ?_, fun s => (h.finished s).trans (in_concat_iff hfinish s).symm, h.inOrder⟩
  · rw [kept_concat, hkept, hdice, h.dice, List.append_nil]
  · rw [flight_concat, hop, hcurrent]
    rfl
  · rw [hcurrent]
    nofun
  · rw [hrecords]
    exact h.records

lemma Accounts.finish (h : Accounts ops log spans) (name : String) (e : Expr) (kind : Option Kind)
    (outcome : Outcome) : ∃ spans,
      Accounts (ops ++ [.finish name e kind outcome]) (log.apply (.finish name e kind outcome)) spans := by
  cases hc : log.current with
  | none =>
    have hflight : flight ops = none := by
      rw [← h.inFlight, hc]
      rfl
    have hkept : log.apply (.finish name e kind outcome) = log := by simp [apply, RecordLog.finish, hc]
    refine ⟨spans, h.stop rfl rfl ?_ ?_ ?_ fun _ _ _ _ _ => hflight⟩
    · rw [hkept]
    · rw [hkept]
    · rw [hkept, hc]
  | some c =>
    obtain ⟨before, during, rfl, hidle, hstays, hdice⟩ := h.current c hc
    let s : Span := ⟨before, c.mode, during, name, e, kind, outcome⟩
    have hs : s.In (s.opening ++ [.finish name e kind outcome]) :=
      ⟨List.prefix_refl _, hidle, hstays⟩
    have hfinish : log.apply (.finish name e kind outcome) =
        ⟨log.records.push (s.record c.dice.toList), log.dice, none⟩ := by
      simp [apply, RecordLog.finish, hc, s, Span.record]
    rw [hfinish]
    refine ⟨spans ++ [s], ?_, ?_, nofun, ?_, fun t => ?_, ?_⟩
    · rw [kept_concat]
      exact h.dice.trans (List.append_nil _).symm
    · rw [flight_concat]
      rfl
    · rw [Array.toList_push, h.records, List.map_append, hdice]
      rfl
    · rw [List.mem_append, h.finished, List.mem_singleton]
      constructor
      · rintro (ht | rfl)
        · exact ht.of_prefix (List.prefix_append _ _)
        · exact hs
      · intro ht
        rcases List.prefix_concat_iff.mp ht.whole with heq | hshorter
        · obtain ⟨hopening, hop⟩ := List.append_inj' heq rfl
          obtain rfl := Span.before_inj hopening ht.idle hidle ht.stays hstays
          rw [Span.opening, List.append_cancel_left_eq, List.cons.injEq] at hopening
          cases t
          cases hop
          obtain ⟨hmode, rfl⟩ := hopening
          cases hmode
          exact .inr rfl
        · exact .inl ⟨hshorter, ht.idle, ht.stays⟩
    · apply List.pairwise_append.mpr
      refine ⟨h.inOrder, List.pairwise_singleton _ _, fun t ht u hu => ?_⟩
      obtain rfl := List.mem_singleton.mp hu
      exact ((h.finished t).mp ht).whole_before hstays

lemma exists_accounts (hops : ∀ op ∈ ops, op.isClear = false) :
    ∃ spans, Accounts ops (applyAll .empty ops) spans := by
  induction ops using List.reverseRecOn with
  | nil => exact ⟨[], accounts_empty⟩
  | append_singleton ops op ih =>
    rw [List.forall_mem_append, List.forall_mem_singleton] at hops
    obtain ⟨spans, h⟩ := ih hops.1
    rw [applyAll_concat]
    cases op with
    | clear => cases hops.2
    | start mode => exact ⟨spans, h.start mode⟩
    | throw record => exact ⟨spans, h.throw record⟩
    | finish name e kind outcome => exact h.finish name e kind outcome
    | abandon => exact ⟨spans, h.stop rfl rfl rfl rfl rfl nofun⟩

lemma applyAll_sinceClear (ops : List Op) : applyAll .empty (sinceClear ops) = applyAll .empty ops := by
  induction ops using List.reverseRecOn with
  | nil => rfl
  | append_singleton ops op ih =>
    rw [sinceClear, List.rtakeWhile_concat]
    split_ifs with hop
    · rw [applyAll_concat, applyAll_concat, ← ih]
      rfl
    · cases op with
      | clear => rw [applyAll_concat]; rfl
      | _ => exact absurd rfl hop

lemma Accounts.start_run (h : Accounts ops log spans) (site : Expr) (mode : OutputMode) (m : Machine) :
    Eval.start site mode { m with log := log } =
      if (flight ops).isSome then .error (.failed (site.error .nestedOutput)) { m with log := log }
      else .ok () { m with log := log.apply (.start mode) } := by
  rw [Eval.start_run, ← h.inFlight, Option.isSome_map]
  dsimp only
  split_ifs with hc
  · rfl
  · rw [apply, start?, if_neg hc]
    rfl

/-- Since a log was cleared, it has kept the throws that were made while no sample was in flight. Its
records are the outputs that were started while none was in flight and then finished, one after another,
and the dice of a record are the throws kept between its start and its finish, which for a sample are none.
A start fails if and only if an output is in flight, and then changes nothing. -/
theorem dice_log_accounts (ops : List Op) :
    let log := applyAll .empty ops
    let recent := sinceClear ops
    log.dice.toList = kept recent ∧
    (∃ spans : List Span,
      (∀ s, s ∈ spans ↔ s.In recent) ∧
      log.records.toList = spans.map (fun s => s.record ((log.dice.toList.take s.last).drop s.first)) ∧
      (∀ s ∈ spans, s.first ≤ s.last ∧ s.last ≤ log.dice.size) ∧
      spans.Pairwise fun s t => s.whole <+: t.before ∧ s.last ≤ t.first) ∧
    (∀ r ∈ log.records, r.mode = .sample → r.dice = []) ∧
    ∀ (site : Expr) (mode : OutputMode) (m : Machine),
      Eval.start site mode { m with log := log } =
        if (flight recent).isSome then .error (.failed (site.error .nestedOutput)) { m with log := log }
        else .ok () { m with log := log.apply (.start mode) } := by
  intro log recent
  have hclear : ∀ op ∈ recent, op.isClear = false := by
    intro op hop
    simpa using List.mem_rtakeWhile_imp hop
  obtain ⟨spans, h⟩ := exists_accounts hclear
  rw [applyAll_sinceClear] at h
  refine ⟨h.dice, ⟨spans, h.finished, ?_, ?_, ?_⟩, ?_, h.start_run⟩
  · rw [h.records, h.dice]
    apply List.map_congr_left
    intro s hs
    rw [← ((h.finished s).mp hs).dice_eq]
  · intro s hs
    have hin := (h.finished s).mp hs
    refine ⟨Span.first_le_last hin.idle, ?_⟩
    rw [← Array.length_toList, h.dice]
    exact hin.last_le
  · apply h.inOrder.imp_of_mem
    intro s t hs _ hst
    exact ⟨hst, ((h.finished s).mp hs |>.of_whole hst).last_le⟩
  · intro r hr hmode
    rw [← Array.mem_toList_iff, h.records] at hr
    obtain ⟨s, hs, rfl⟩ := List.mem_map.mp hr
    change s.mode = .sample at hmode
    change keptFrom (some s.mode) s.during = []
    rw [hmode]
    exact Span.dice_of_sample ((h.finished s).mp hs).stays

theorem abandoned_throw_in_no_record :
    let thrown (n : Int64) : DiceRecord := ⟨.number 6, [.number n]⟩
    let e := Expr.var .builtin "x"
    let ops : List Op := [.start .sample, .clear, .throw (thrown 1), .start .roll, .throw (thrown 2),
      .abandon, .start .roll, .start .sample, .throw (thrown 3), .finish "x" e none (.value (.number 3)),
      .start .sample, .throw (thrown 4), .finish "y" e none (.value (.number 4)), .throw (thrown 5)]
    let log := applyAll .empty ops
    log.dice.toList = [thrown 1, thrown 2, thrown 3, thrown 5] ∧
      log.records.toList.map OutputRecord.dice = [[thrown 3], []] ∧
      (∃ spans : List Span, (∀ s, s ∈ spans ↔ s.In (sinceClear ops)) ∧ spans.length = 2) ∧
      ∀ r ∈ log.records, r.mode = .sample → r.dice = [] := by
  intro thrown e ops log
  obtain ⟨hdice, ⟨spans, hspans, hrecords, -⟩, hsample, -⟩ := dice_log_accounts ops
  refine ⟨hdice, rfl, ⟨spans, hspans, ?_⟩, hsample⟩
  have hlength := congrArg List.length hrecords
  rw [List.length_map] at hlength
  exact hlength.symm

end DiceLang.RecordLog

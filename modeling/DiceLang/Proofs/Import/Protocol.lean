import DiceLang.Proofs.Import.Course

/-! The protocol of imports. At every moment of a session the addresses in progress are those of the
resolutions under way, and what is resolved stays so and is not fetched again. -/

namespace DiceLang

namespace Eval

variable {α : Type} {p : Eval α} {m n : Machine} {t t' : List Moment} {address : String}

namespace Moment

variable {x y z : Moment}

lemma before_of_grows (h : x.cache.Grows y.cache) (hy : ∀ address, y.event ≠ some (.fetches address)) :
    x.Before y := fun address r hr => ⟨h address r hr, hy address⟩

lemma Before.grows (h : x.Before y) : x.cache.Grows y.cache := fun address r hr => (h address r hr).1

lemma Before.of_grows (h : x.cache.Grows y.cache) (h' : y.Before z) : x.Before z :=
  fun address r hr => h' address r (h address r hr)

def whole (m : Machine) (t : List Moment) (n : Machine) : List Moment := quiet m :: (t ++ [quiet n])

structure Proper (m : Machine) (t : List Moment) (n : Machine) : Prop where
  stack : ∀ x ∈ whole m t n, x.cache.inProgress = x.stack ++ m.imports.inProgress
  sound : ∀ x ∈ whole m t n, x.cache.Sound
  order : (whole m t n).Pairwise Before

lemma mem_whole_last (m : Machine) (t : List Moment) (n : Machine) : quiet n ∈ whole m t n := by
  simp [whole]

lemma mem_whole_of_mem (m n : Machine) (hx : x ∈ t) : x ∈ whole m t n := by
  simp [whole, hx]

lemma Proper.inProgress (h : Proper m t n) : n.imports.inProgress = m.imports.inProgress :=
  h.stack _ (mem_whole_last m t n)

lemma Proper.sound_last (h : Proper m t n) : n.imports.Sound := h.sound _ (mem_whole_last m t n)

lemma Proper.before_last (h : Proper m t n) : ∀ x ∈ quiet m :: t, x.Before (quiet n) := by
  have horder := h.order
  rw [whole, ← List.cons_append, List.pairwise_append] at horder
  exact fun x hx => horder.2.2 x hx _ (List.mem_singleton_self _)

lemma Proper.append {m' : Machine} (h : Proper m t m') (h' : Proper m' t' n) : Proper m (t ++ t') n := by
  have hsplit : ∀ x ∈ whole m (t ++ t') n, x ∈ whole m t m' ∨ x ∈ whole m' t' n := by
    simp only [whole, List.mem_cons, List.mem_append]
    tauto
  refine ⟨fun x hx => ?_, fun x hx => ?_, ?_⟩
  · rcases hsplit x hx with hx | hx
    · exact h.stack x hx
    · rw [h'.stack x hx, h.inProgress]
  · rcases hsplit x hx with hx | hx
    · exact h.sound x hx
    · exact h'.sound x hx
  · have horder := h.order
    have horder' := h'.order
    rw [whole, ← List.cons_append, List.pairwise_append] at horder
    rw [whole, List.pairwise_cons] at horder'
    rw [whole, List.append_assoc, ← List.cons_append, List.pairwise_append]
    -- Whatever is resolved before the second step starts is resolved when it starts.
    refine ⟨horder.1, horder'.2, fun x hx y hy => ?_⟩
    exact Before.of_grows (h.before_last x hx).grows (horder'.1 y hy)

lemma proper_of_still (hm : m.imports.Sound) (hn : n.imports = m.imports)
    (ht : ∀ x ∈ t, x.stack = [] ∧ x.cache = m.imports ∧ ∀ address, x.event ≠ some (.fetches address)) :
    Proper m t n := by
  have hquiet {k : Machine} (hk : k.imports = m.imports) : (quiet k).stack = [] ∧
      (quiet k).cache = m.imports ∧ ∀ address, (quiet k).event ≠ some (.fetches address) :=
    ⟨rfl, hk, by rintro _ ⟨⟩⟩
  have hall : ∀ x ∈ whole m t n, x.stack = [] ∧ x.cache = m.imports ∧
      ∀ address, x.event ≠ some (.fetches address) := by
    intro x hx
    rcases List.mem_cons.mp hx with rfl | hx
    · exact hquiet rfl
    · rcases List.mem_append.mp hx with hx | hx
      · exact ht x hx
      · rw [List.mem_singleton.mp hx]
        exact hquiet hn
  refine ⟨fun x hx => ?_, fun x hx => ?_, List.pairwise_of_forall_mem_list fun x hx y hy => ?_⟩
  · rw [(hall x hx).1, (hall x hx).2.1, List.nil_append]
  · rw [(hall x hx).2.1]
    exact hm
  · apply before_of_grows _ (hall y hy).2.2
    rw [(hall x hx).2.1, (hall y hy).2.1]
    exact fun _ _ h => h

lemma proper_single {event : Option ImportEvent} (hm : m.imports.Sound) (hn : n.imports = m.imports)
    (hevent : ∀ address, event ≠ some (.fetches address)) :
    Proper m [⟨[], m.imports, event⟩] n := by
  apply proper_of_still hm hn
  rintro x hx
  rw [List.mem_singleton.mp hx]
  exact ⟨rfl, rfl, hevent⟩

lemma Proper.congr {m' n' : Machine} (h : Proper m t n) (hm : m'.imports = m.imports)
    (hn : n'.imports = n.imports) : Proper m' t n' := by
  have hwhole : whole m' t n' = whole m t n := by rw [whole, whole, quiet, quiet, hm, hn]; rfl
  refine ⟨?_, hwhole ▸ h.sound, hwhole ▸ h.order⟩
  rw [hwhole, hm]
  exact h.stack

structure Settles (m k n : Machine) : Prop where
  inProgress : n.imports.inProgress = m.imports.inProgress
  sound : n.imports.Sound
  grows : k.imports.Grows n.imports

lemma Proper.settles {imports : ImportCache} {k : Machine} (hm : m.imports.Sound)
    (hbegin : m.imports.begin? address = some imports)
    (h : Proper { m with imports := imports } t k)
    (hn : n.imports.inProgress = (k.imports.abort address).inProgress)
    (hkept : ∀ other, other ≠ address → n.imports.get? other = k.imports.get? other) :
    Settles m k n := by
  obtain ⟨hnew, rfl⟩ := ImportCache.begin?_eq_some.mp hbegin
  have hk : k.imports.inProgress = address :: m.imports.inProgress := h.inProgress
  have hin : n.imports.inProgress = m.imports.inProgress :=
    hn.trans (ImportCache.inProgress_abort hk hnew)
  have hunresolved := h.sound_last.unresolved
  rw [hk, List.forall_mem_cons] at hunresolved
  refine ⟨hin, ⟨hin ▸ hm.nodup, fun other ho => ?_⟩, fun other r hr => ?_⟩
  · rw [hin] at ho
    rw [hkept other fun h => hnew (h ▸ ho)]
    exact hunresolved.2 other ho
  · rw [hkept other, hr]
    rintro rfl
    rw [hunresolved.1] at hr
    cases hr

lemma Proper.order_inside {k : Machine} {z : Moment} (h : Proper m t k)
    (hgrows : k.imports.Grows n.imports) (hcache : z.cache = n.imports)
    (hevent : ∀ other, z.event ≠ some (.fetches other)) (address : String) :
    (t.map (under address) ++ [z, quiet n]).Pairwise Before ∧
      ∀ x : Moment, x.cache.resolved = m.imports.resolved →
        ∀ y ∈ t.map (under address) ++ [z, quiet n], x.Before y := by
  have hlast {x : Moment} (hx : x ∈ quiet m :: t) : x.cache.Grows n.imports :=
    fun other r hr => hgrows other r ((h.before_last x hx).grows other r hr)
  have hclosing {x y : Moment} (hx : x.cache.Grows n.imports) (hy : y ∈ [z, quiet n]) : x.Before y := by
    rcases List.mem_pair.mp hy with rfl | rfl
    · exact before_of_grows (hcache ▸ hx) hevent
    · exact before_of_grows hx (by rintro _ ⟨⟩)
  have horder := h.order
  rw [whole, List.pairwise_cons, List.pairwise_append] at horder
  constructor
  · refine List.pairwise_append.mpr ⟨List.pairwise_map.mpr horder.2.1, ?_, fun x hx y hy => ?_⟩
    · refine List.pairwise_pair.mpr (hclosing ?_ (by simp))
      rw [hcache]
      exact fun _ _ hr => hr
    · obtain ⟨x', hx', rfl⟩ := List.mem_map.mp hx
      have hx : x'.cache.Grows n.imports := hlast (List.mem_cons_of_mem _ hx')
      exact hclosing hx hy
  · intro x hx y hy
    have hsame : x.cache.Grows m.imports := fun other r hr => by rwa [ImportCache.get?, hx] at hr
    rcases List.mem_append.mp hy with hy | hy
    · obtain ⟨y', hy', rfl⟩ := List.mem_map.mp hy
      exact Before.of_grows hsame (horder.1 y' (List.mem_append_left _ hy'))
    · exact hclosing (fun other r hr => hlast (List.mem_cons_self ..) other r (hsame other r hr)) hy

lemma Proper.stack_inside {imports : ImportCache} {k : Machine} {z : Moment}
    (hbegin : m.imports.begin? address = some imports) (h : Proper { m with imports := imports } t k)
    (hsettles : Settles m k n) (hstack : z.stack = []) (hcache : z.cache = n.imports) :
    ∀ x ∈ t.map (under address) ++ [z, quiet n],
      x.cache.inProgress = x.stack ++ m.imports.inProgress ∧ x.cache.Sound := by
  obtain ⟨-, rfl⟩ := ImportCache.begin?_eq_some.mp hbegin
  intro x hx
  rcases List.mem_append.mp hx with hx | hx
  · obtain ⟨x', hx', rfl⟩ := List.mem_map.mp hx
    refine ⟨?_, h.sound x' (mem_whole_of_mem _ _ hx')⟩
    calc x'.cache.inProgress = x'.stack ++ address :: m.imports.inProgress :=
          h.stack x' (mem_whole_of_mem _ _ hx')
      _ = x'.stack ++ [address] ++ m.imports.inProgress := by simp
  · rcases List.mem_pair.mp hx with rfl | rfl
    · rw [hstack, hcache]
      exact ⟨hsettles.inProgress, hsettles.sound⟩
    · exact ⟨hsettles.inProgress, hsettles.sound⟩

lemma Proper.resolution {imports : ImportCache} {k : Machine} {z : Moment} (hm : m.imports.Sound)
    (hget : m.imports.get? address = none) (hbegin : m.imports.begin? address = some imports)
    (h : Proper { m with imports := imports } t k) (hsettles : Settles m k n) (hstack : z.stack = [])
    (hcache : z.cache = n.imports) (hevent : ∀ other, z.event ≠ some (.fetches other)) :
    Proper m (⟨[address], imports, some (.fetches address)⟩ :: (t.map (under address) ++ [z])) n := by
  have hinside := h.stack_inside hbegin hsettles hstack hcache
  obtain ⟨horder, hstart⟩ := h.order_inside hsettles.grows hcache hevent address
  have hbegun := hm.begun hget hbegin
  obtain ⟨-, rfl⟩ := ImportCache.begin?_eq_some.mp hbegin
  have hwhole (x : Moment) : whole m (x :: (t.map (under address) ++ [z])) n =
      quiet m :: x :: (t.map (under address) ++ [z, quiet n]) := by simp [whole]
  refine ⟨?_, ?_, ?_⟩
  · rw [hwhole, List.forall_mem_cons, List.forall_mem_cons]
    exact ⟨rfl, rfl, fun x hx => (hinside x hx).1⟩
  · rw [hwhole, List.forall_mem_cons, List.forall_mem_cons]
    exact ⟨hm, hbegun, fun x hx => (hinside x hx).2⟩
  · rw [hwhole, List.pairwise_cons, List.pairwise_cons, List.forall_mem_cons]
    refine ⟨⟨fun other r hr => ⟨hr, ?_⟩, hstart _ rfl⟩, hstart _ rfl, horder⟩
    rintro ⟨⟩
    exact absurd (hget.symm.trans hr) nofun

end Moment

open Moment

lemma Plain.imports (h : Plain p) (m : Machine) : (after (p m)).imports = m.imports := by
  cases h with
  | ret | fail | unfinished | onEnv | newFunction | throwDie | recordThrow => rfl
  | shuffle vs =>
    rw [shuffle_run]
    split <;> rfl

lemma imports_onExit {r : EStateM.Result Interrupt Machine α} {f : α → Machine → Machine}
    {g : Machine → Machine} (hf : ∀ a n, (f a n).imports = n.imports)
    (hg : ∀ n, (g n).imports = n.imports) : (after (onExit f g r)).imports = (after r).imports := by
  cases r with
  | ok a n => exact hf a n
  | error e n => exact hg n

lemma imports_nested {body : Eval α} (site : Expr) (hd : m.depth.val < maxDepth) :
    (after (nested site body m)).imports = (after (body (m.deeper hd))).imports := by
  rw [nested_run, dif_pos hd]
  exact imports_onExit (fun _ _ => rfl) fun _ => rfl

lemma imports_inScope {body : ScopeId → Eval α} (parent : ScopeId) :
    (after (inScope parent body m)).imports = (after (body (m.env.enter parent).1.1
      { m with env := (m.env.enter parent).2 })).imports := by
  have hrelease (mark : Nat) (k : Machine) : (release mark k).imports = k.imports := rfl
  rw [inScope_run]
  exact imports_onExit (fun _ => hrelease _) (hrelease _)

lemma imports_reporting {body : Eval Outcome} {site e : Expr} {mode : OutputMode} {name : String}
    {kind : Option Kind} (hstart : start site mode m = .ok () n) :
    (after (reporting site mode name e kind body m)).imports = (after (body n)).imports := by
  rw [reporting, bind_run hstart]
  cases hbody : body n with
  | ok outcome k =>
    have habandon : orAbandon body n = .ok outcome k := by rw [orAbandon_run, hbody]; rfl
    rw [bind_run habandon]
    rfl
  | error e k =>
    have habandon : orAbandon body n = .error e (k.onLog RecordLog.abandon) := by
      rw [orAbandon_run, hbody]; rfl
    rw [bind_run_error habandon]
    rfl

lemma imports_of_start {site : Expr} {mode : OutputMode} (h : start site mode m = .ok () n) :
    n.imports = m.imports := by
  rw [start_run] at h
  split at h
  · cases h
  · cases h
    rfl

lemma reporting_of_flight {body : Eval Outcome} {site e : Expr} {mode : OutputMode} {name : String}
    {kind : Option Kind} (hflight : m.log.current.isSome = true) :
    reporting site mode name e kind body m = .error (.failed (site.error .nestedOutput)) m := by
  apply bind_run_error
  rw [start_run, if_pos hflight]

lemma resolvedBy_circular {site : Expr} {answered : Except FetchError String → Eval MapRef}
    (hget : m.imports.get? address = none) (hbegin : m.imports.begin? address = none) :
    resolvedBy site address answered m = .error (.failed (site.error (.circularImport address))) m := by
  rw [resolvedBy_run, hget]
  dsimp only
  rw [hbegin]

lemma resolvedBy_loads {site : Expr} {answered : Except FetchError String → Eval MapRef}
    {imports : ImportCache} (hget : m.imports.get? address = none)
    (hbegin : m.imports.begin? address = some imports) :
    resolvedBy site address answered m =
      onExit (fun r n => { n with imports := n.imports.complete address r })
        (fun n => { n with imports := n.imports.abort address })
        (answered (m.settings.fetch address) { m with imports := imports }) := by
  rw [resolvedBy_run, hget]
  dsimp only
  rw [hbegin]

lemma Moment.Proper.loads {site : Expr} {answered : Except FetchError String → Eval MapRef}
    {imports : ImportCache} (hm : m.imports.Sound) (hget : m.imports.get? address = none)
    (hbegin : m.imports.begin? address = some imports)
    (h : Proper { m with imports := imports } t
      (after (answered (m.settings.fetch address) { m with imports := imports }))) :
    Proper m (⟨[address], imports, some (.fetches address)⟩ ::
        (t.map (under address) ++ [closing address (resolvedBy site address answered m)]))
      (after (resolvedBy site address answered m)) := by
  rw [resolvedBy_loads hget hbegin]
  cases hr : answered (m.settings.fetch address) { m with imports := imports } with
  | ok r k =>
    rw [hr] at h
    apply h.resolution hm hget hbegin _ rfl rfl (by rintro _ ⟨⟩)
    exact h.settles hm hbegin rfl fun other ho => ImportCache.get?_complete_of_ne r ho
  | error e k =>
    rw [hr] at h
    apply h.resolution hm hget hbegin _ rfl rfl (by rintro _ ⟨⟩)
    exact h.settles hm hbegin rfl fun _ _ => rfl

lemma Passes.proper (h : Passes p m t) (hm : m.imports.Sound) : Proper m t (after (p m)) := by
  induction h with
  | plain m hp =>
    apply proper_of_still hm (hp.imports m)
    simp [quiet, hp.imports m]
  | bind hr _ _ ih ih' =>
    have hfirst := ih hm
    rw [hr, after_ok] at hfirst
    rw [bind_run hr]
    exact hfirst.append (ih' hfirst.sound_last)
  | stop f hr _ ih =>
    have hfirst := ih hm
    rw [hr, after_error] at hfirst
    rw [bind_run_error hr]
    exact hfirst
  | read _ ih => exact ih hm
  | nested site hd _ ih => exact (ih hm).congr rfl (imports_nested site hd)
  | tooDeep site body hd =>
    rw [nested_run, dif_neg hd]
    exact proper_single hm rfl (by rintro _ ⟨⟩)
  | inScope parent _ ih => exact (ih hm).congr rfl (imports_inScope parent)
  | reporting name e kind hstart _ ih =>
    have hn := imports_of_start hstart
    exact (ih (hn ▸ hm)).congr hn.symm (imports_reporting hstart)
  | nestedOutput name e kind body hflight =>
    rw [reporting_of_flight hflight]
    exact proper_single hm rfl (by rintro _ ⟨⟩)
  | found site answered hget =>
    rw [resolvedBy_run, hget]
    exact proper_single hm rfl (by rintro _ ⟨⟩)
  | circular site answered hget hbegin =>
    rw [resolvedBy_circular hget hbegin]
    exact proper_single hm rfl (by rintro _ ⟨⟩)
  | @loads m address _ _ site _ hget hbegin _ ih =>
    have hasked : Proper m [⟨[], m.imports, some (.imports address)⟩] m :=
      proper_single hm rfl (by rintro _ ⟨⟩)
    exact hasked.append ((ih (hm.begun hget hbegin)).loads hm hget hbegin)

lemma Passes.completed (h : Passes p m t) {r : MapRef}
    (hr : (after (p m)).imports.get? address = some r) :
    m.imports.get? address = some r ∨ ∃ x ∈ t, x.event = some (.completes address r) := by
  induction h with
  | plain m hp =>
    rw [hp.imports m] at hr
    exact .inl hr
  | bind hp _ _ ih ih' =>
    rw [bind_run hp] at hr
    rcases ih' hr with hr | ⟨x, hx, hevent⟩
    · rcases ih (by rwa [hp]) with hr | ⟨x, hx, hevent⟩
      · exact .inl hr
      · exact .inr ⟨x, List.mem_append_left _ hx, hevent⟩
    · exact .inr ⟨x, List.mem_append_right _ hx, hevent⟩
  | stop f hp _ ih =>
    rw [bind_run_error hp] at hr
    exact ih (by rwa [hp])
  | read _ ih => exact ih hr
  | nested site hd _ ih =>
    rw [imports_nested site hd] at hr
    exact ih hr
  | tooDeep site body hd =>
    rw [nested_run, dif_neg hd] at hr
    exact .inl hr
  | inScope parent _ ih =>
    rw [imports_inScope] at hr
    exact ih hr
  | reporting name e kind hstart _ ih =>
    rw [imports_reporting hstart] at hr
    rw [← imports_of_start hstart]
    exact ih hr
  | nestedOutput name e kind body hflight =>
    rw [reporting_of_flight hflight] at hr
    exact .inl hr
  | found site answered hget =>
    rw [resolvedBy_run, hget] at hr
    exact .inl hr
  | circular site answered hget hbegin =>
    rw [resolvedBy_circular hget hbegin] at hr
    exact .inl hr
  | @loads m other imports t site answered hget hbegin _ ih =>
    have hinside (hk : (after (answered (m.settings.fetch other)
        { m with imports := imports })).imports.get? address = some r) :
        m.imports.get? address = some r ∨ ∃ x ∈ t.map (under other),
          x.event = some (.completes address r) := by
      obtain ⟨-, rfl⟩ := ImportCache.begin?_eq_some.mp hbegin
      rcases ih hk with hr | ⟨x, hx, hevent⟩
      · exact .inl hr
      · exact .inr ⟨x.under other, List.mem_map_of_mem hx, hevent⟩
    rw [resolvedBy_loads hget hbegin] at hr ⊢
    cases hk : answered (m.settings.fetch other) { m with imports := imports } with
    | ok r' k =>
      rw [hk] at hr hinside
      by_cases ho : address = other
      · subst ho
        obtain rfl : r' = r := Option.some.inj ((Entries.get?_put_self _ _ r').symm.trans hr)
        exact .inr ⟨⟨[], k.imports.complete address r', some (.completes address r')⟩,
          by simp [onExit, closing], rfl⟩
      · rcases hinside ((ImportCache.get?_complete_of_ne r' ho).symm.trans hr) with hr | ⟨x, hx, hevent⟩
        · exact .inl hr
        · exact .inr ⟨x, by simp only [List.mem_cons, List.mem_append]; tauto, hevent⟩
    | error e k =>
      rw [hk] at hr hinside
      rcases hinside hr with hr | ⟨x, hx, hevent⟩
      · exact .inl hr
      · exact .inr ⟨x, by simp only [List.mem_cons, List.mem_append]; tauto, hevent⟩

def Circular (address : String) (r : EStateM.Result Interrupt Machine α) : Prop :=
  ∃ e n, r = .error (.failed e) n ∧ e.fault = .circularImport address

def Moment.Recurs (address : String) (x : Moment) : Prop :=
  x.event = some (.imports address) ∧ address ∈ x.cache.inProgress

lemma not_circular_ok (a : α) (n : Machine) : ¬ Circular address (.ok a n) := by
  rintro ⟨_, _, ⟨⟩, _⟩

lemma not_circular_ordinary {site : Expr} {fault : Fault} (h : fault.Ordinary) (n : Machine) :
    ¬ Circular (α := α) address (.error (.failed (site.error fault)) n) := by
  rintro ⟨_, _, ⟨⟩, rfl⟩
  exact h

lemma circular_error {β : Type} {e : Interrupt} {n n' : Machine} :
    Circular (α := α) address (.error e n) ↔ Circular (α := β) address (.error e n') := by
  constructor
  · rintro ⟨e, _, ⟨⟩, he⟩
    exact ⟨e, n', rfl, he⟩
  · rintro ⟨e, _, ⟨⟩, he⟩
    exact ⟨e, n, rfl, he⟩

lemma circular_onExit {r : EStateM.Result Interrupt Machine α} {f : α → Machine → Machine}
    {g : Machine → Machine} : Circular address (onExit f g r) ↔ Circular address r := by
  cases r with
  | ok a n => exact iff_of_false (not_circular_ok _ _) (not_circular_ok _ _)
  | error e n => exact circular_error

lemma Plain.not_circular (h : Plain p) (m : Machine) : ¬ Circular address (p m) := by
  cases h with
  | fail site hfault => exact not_circular_ordinary hfault m
  | unfinished => rintro ⟨_, _, ⟨⟩, _⟩
  | shuffle vs =>
    rw [shuffle_run]
    split
    · exact not_circular_ok _ _
    · rintro ⟨_, _, ⟨⟩, _⟩
  | _ => exact not_circular_ok _ _

lemma circular_reporting {body : Eval Outcome} {site e : Expr} {mode : OutputMode} {name : String}
    {kind : Option Kind} (hstart : start site mode m = .ok () n) :
    Circular address (reporting site mode name e kind body m) ↔ Circular address (body n) := by
  rw [reporting, bind_run hstart, ← circular_onExit (r := body n), ← orAbandon_run]
  cases hbody : orAbandon body n with
  | ok outcome k =>
    rw [bind_run hbody]
    exact iff_of_false (not_circular_ok _ _) (not_circular_ok _ _)
  | error e k =>
    rw [bind_run_error hbody]
    exact circular_error

lemma exists_mem_loads {P : Moment → Prop} {x y z : Moment} (hz : ¬ P z) (hx : ¬ P x) (hy : ¬ P y) :
    (∃ u ∈ x :: y :: (t ++ [z]), P u) ↔ ∃ u ∈ t, P u := by
  simp only [List.mem_cons, List.mem_append, List.not_mem_nil, or_false, hx, hy, or_and_right,
    exists_or, exists_eq_left, hz, false_or]

lemma Passes.circular_iff (h : Passes p m t) (hm : m.imports.Sound) :
    Circular address (p m) ↔ ∃ x ∈ t, x.Recurs address := by
  induction h with
  | plain m hp =>
    refine iff_of_false (hp.not_circular m) ?_
    simp [Recurs, quiet]
  | @bind _ _ p f m n a t t' hr hp _ ih ih' =>
    have hproper := hp.proper hm
    rw [hr, after_ok] at hproper
    have hfirst : ¬ ∃ x ∈ t, x.Recurs address := by
      rw [← ih hm, hr]
      exact not_circular_ok a n
    rw [bind_run hr, ih' hproper.sound_last]
    simp only [List.mem_append, or_and_right, exists_or, hfirst, false_or]
  | stop f hr _ ih =>
    rw [bind_run_error hr, ← ih hm, hr]
    exact circular_error
  | read _ ih => exact ih hm
  | nested site hd _ ih =>
    rw [nested_run, dif_pos hd, circular_onExit]
    exact ih hm
  | tooDeep site body hd =>
    rw [nested_run, dif_neg hd]
    have hlimit : (Fault.recursionLimit maxDepth).Ordinary := trivial
    refine iff_of_false (not_circular_ordinary hlimit _) ?_
    simp [Recurs, quiet]
  | inScope parent _ ih =>
    rw [inScope_run, circular_onExit]
    exact ih hm
  | reporting name e kind hstart _ ih =>
    rw [circular_reporting hstart]
    exact ih (imports_of_start hstart ▸ hm)
  | nestedOutput name e kind body hflight =>
    rw [reporting_of_flight hflight]
    refine iff_of_false ?_ (by simp [Recurs, quiet])
    rintro ⟨_, _, ⟨⟩, ⟨⟩⟩
  | @found m other r site answered hget =>
    rw [resolvedBy_run, hget]
    refine iff_of_false (not_circular_ok _ _) ?_
    rintro ⟨x, hx, hevent, hin⟩
    obtain rfl := List.mem_singleton.mp hx
    cases hevent
    exact absurd ((hm.unresolved _ hin).symm.trans hget) nofun
  | @circular m other site answered hget hbegin =>
    rw [resolvedBy_circular hget hbegin]
    constructor
    · rintro ⟨_, _, ⟨⟩, ⟨⟩⟩
      exact ⟨_, List.mem_singleton_self _, rfl, ImportCache.begin?_eq_none.mp hbegin⟩
    · rintro ⟨x, hx, hevent, hin⟩
      obtain rfl := List.mem_singleton.mp hx
      cases hevent
      exact ⟨_, _, rfl, rfl⟩
  | @loads m other imports t site answered hget hbegin _ ih =>
    have hclosing (r : EStateM.Result Interrupt Machine MapRef) : ¬ (closing other r).Recurs address := by
      cases r with
      | ok | error => rintro ⟨⟨⟩, _⟩
    have hasked : ¬ Recurs address ⟨[], m.imports, some (.imports other)⟩ := by
      rintro ⟨⟨⟩, hin⟩
      exact (ImportCache.begin?_eq_some.mp hbegin).1 hin
    have hunder : (∃ x ∈ t.map (under other), x.Recurs address) ↔ ∃ x ∈ t, x.Recurs address := by
      simp only [List.mem_map, exists_exists_and_eq_and]
      rfl
    have hfetch : ¬ Recurs address ⟨[other], imports, some (.fetches other)⟩ := by rintro ⟨⟨⟩, _⟩
    rw [exists_mem_loads (hclosing _) hasked hfetch, hunder, resolvedBy_loads hget hbegin,
      circular_onExit]
    exact ih (hm.begun hget hbegin)

end Eval

end DiceLang

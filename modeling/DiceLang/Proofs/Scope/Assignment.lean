import DiceLang.Proofs.Scope.Intact
import DiceLang.Proofs.Scope.Sweeping

/-! Assignment through the scopes. An assignment changes one entry of one scope, and it is seen from exactly
those scopes from which the walk outwards comes there first. -/

namespace DiceLang

namespace Environment

variable {env env' : Environment} {s t u p : ScopeId} {x y : String} {v w : Value} {r : MapRef}
  {ids : List ScopeId}

def ownEntries (env : Environment) (id : ScopeId) : List (String × Value) :=
  (env.own id).elim [] env.heap.entries

def binding? (env : Environment) (id : ScopeId) (name : String) : Option Value :=
  Entries.get? (env.ownEntries id) name

inductive Reaches (env : Environment) (x : String) : ScopeId → ScopeId → Prop
  | here {t : ScopeId} : Reaches env x t t
  | up {s p t : ScopeId} : env.binding? s x = none → env.arena.parent s = some p → Reaches env x p t →
      Reaches env x s t

/-- The scope that an assignment of `x` in `s` changes: the innermost one that has the variable, and `s`
itself if none has. -/
def Target (env : Environment) (s : ScopeId) (x : String) (t : ScopeId) : Prop :=
  (env.Reaches x s t ∧ (env.binding? t x).isSome) ∨ (env.lookup s x = none ∧ t = s)

structure Rebinds (env : Environment) (t : ScopeId) (x : String) (v : Value) (env' : Environment) :
    Prop where
  arena : env'.arena = env.arena
  entry : env'.binding? t x = some v
  entries : ∀ y, y ≠ x → env'.binding? t y = env.binding? t y
  names : (env'.ownEntries t).map Prod.fst = if x ∈ (env.ownEntries t).map Prod.fst
    then (env.ownEntries t).map Prod.fst else (env.ownEntries t).map Prod.fst ++ [x]
  elsewhere : ∀ u, u ≠ t → env'.ownEntries u = env.ownEntries u
  others : ∀ u y, y ≠ x → env'.lookup u y = env.lookup u y
  seen : ∀ u, env.Reaches x u t → env'.lookup u x = some v
  unseen : ∀ u, ¬ env.Reaches x u t → env'.lookup u x = env.lookup u x

structure Separate (env : Environment) : Prop where
  stored : ∀ id r, env.own id = some r → .map r ∈ env.heap.containers
  distinct : ∀ i j r, env.own i = some r → env.own j = some r → i = j

lemma own_eq_bindings (env : Environment) (id : ScopeId) :
    env.own id = (env.arena.frame? id).map Frame.bindings := Arena.own_eq_bindings env.arena env.heap id

lemma binding?_of_own (hr : env.own s = some r) : env.binding? s x = Entries.get? (env.heap.entries r) x := by
  rw [binding?, ownEntries, hr]
  rfl

lemma lookup_of_parent (hl : env.arena.Layered) (hp : env.arena.parent s = some p) :
    env.lookup s x = (env.binding? s x).or (env.lookup p x) := by
  obtain ⟨f, hf, hfp⟩ := Arena.exists_frame hp
  have hown : env.own s = some f.bindings := by rw [own_eq_bindings, hf]; rfl
  have hlayers : env.layers s = f.bindings :: env.layers p := Arena.layers_of_parent hl hf hfp
  rw [lookup_eq, lookup_eq, hlayers, List.findSome?_cons, binding?_of_own hown]
  cases Entries.get? (env.heap.entries f.bindings) x <;> rfl

lemma lookup_of_last (hl : env.arena.Layered) (hs : env.arena.frame? s ≠ none)
    (hp : env.arena.parent s = none) : env.lookup s x = env.binding? s x := by
  obtain ⟨f, hf⟩ := Option.ne_none_iff_exists'.mp hs
  have hown : env.own s = some f.bindings := by rw [own_eq_bindings, hf]; rfl
  rw [Arena.parent_of_frame hf] at hp
  have hlayers : env.layers s = [f.bindings] := Arena.layers_of_root hl hf hp
  rw [lookup_eq, hlayers, List.findSome?_singleton, binding?_of_own hown]

lemma lookup_of_vacant (hs : env.arena.frame? s = none) : env.lookup s x = none := by
  have hchain (n : Nat) : env.arena.chainWithin n s = [] := by
    cases n with
    | zero => rfl
    | succ n => rw [Arena.chainWithin, Arena.frame?_eq_none.mp hs]
  rw [lookup, Arena.chain, hchain]
  rfl

lemma lookup_of_binding? (hl : env.arena.Layered) (hw : env.binding? s x = some w) :
    env.lookup s x = some w := by
  have hs : env.arena.frame? s ≠ none := by
    intro hnone
    rw [binding?, ownEntries, own_eq_bindings, hnone] at hw
    cases hw
  cases hp : env.arena.parent s with
  | none => rw [lookup_of_last hl hs hp, hw]
  | some p =>
    rw [lookup_of_parent hl hp, hw]
    rfl

lemma Reaches.cases_ne (h : env.Reaches x s t) (hne : s ≠ t) :
    env.binding? s x = none ∧ ∃ p, env.arena.parent s = some p ∧ env.Reaches x p t := by
  cases h with
  | here => exact absurd rfl hne
  | up hnone hp hup => exact ⟨hnone, _, hp, hup⟩

lemma Target.reaches (h : env.Target s x t) : env.Reaches x s t := by
  rcases h with ⟨hreach, -⟩ | ⟨-, rfl⟩
  · exact hreach
  · exact .here

lemma exists_innermost (hl : env.arena.Layered) (hc : env.arena.Climbs s ids)
    (hfind : (env.layers s).find? (fun r => (Entries.get? (env.heap.entries r) x).isSome) = some r) :
    ∃ t, env.own t = some r ∧ env.Reaches x s t ∧ (env.binding? t x).isSome := by
  induction hc with
  | @last s hocc hp =>
    obtain ⟨f, hf⟩ := Option.ne_none_iff_exists'.mp (Arena.isSome_scope?.mp hocc)
    have hown : env.own s = some f.bindings := by rw [own_eq_bindings, hf]; rfl
    have hlayers : env.layers s = [f.bindings] :=
      Arena.layers_of_root hl hf ((Arena.parent_of_frame hf).symm.trans hp)
    rw [hlayers, List.find?_singleton] at hfind
    obtain ⟨hsome, heq⟩ := Option.ite_none_right_eq_some.mp hfind
    exact ⟨s, hown.trans heq, .here, by rwa [binding?_of_own hown]⟩
  | @next s p ids hp hc ih =>
    obtain ⟨f, hf, hfp⟩ := Arena.exists_frame hp
    have hown : env.own s = some f.bindings := by rw [own_eq_bindings, hf]; rfl
    have hlayers : env.layers s = f.bindings :: env.layers p := Arena.layers_of_parent hl hf hfp
    rw [hlayers, List.find?_cons, ← binding?_of_own hown] at hfind
    cases hb : env.binding? s x with
    | some w =>
      rw [hb] at hfind
      exact ⟨s, hown.trans hfind, .here, by rw [hb]; rfl⟩
    | none =>
      rw [hb] at hfind
      obtain ⟨t, ht, hreach, hsome⟩ := ih hfind
      exact ⟨t, ht, .up hb hp hreach, hsome⟩

lemma lookup_of_find?_none
    (hfind : (env.layers s).find? (fun r => (Entries.get? (env.heap.entries r) x).isSome) = none) :
    env.lookup s x = none := by
  rw [lookup_eq, List.findSome?_eq_none_iff]
  intro r hr
  simpa using List.find?_eq_none.mp hfind r hr

lemma ownEntries_of_put (hsep : env.Separate) (hr : env.own t = some r) (harena : env'.arena = env.arena)
    (hheap : env'.heap = env.heap.setMap r (Entries.put (env.heap.entries r) x v)) (u : ScopeId) :
    env'.ownEntries u = if u = t then Entries.put (env.ownEntries t) x v else env.ownEntries u := by
  have hown : env'.own u = env.own u := by rw [own, own, harena]
  rw [ownEntries, ownEntries, ownEntries, hown]
  cases hu : env.own u with
  | none =>
    rw [if_neg]
    · rfl
    · rintro rfl
      rw [hr] at hu
      cases hu
  | some q =>
    have hiff : q = r ↔ u = t := by
      constructor
      · rintro rfl
        exact hsep.distinct u t q hu hr
      · rintro rfl
        exact Option.some.inj (hu.symm.trans hr)
    rw [Option.elim_some, Option.elim_some, hheap, Heap.entries_setMap (hsep.stored t r hr), hr]
    by_cases hq : q = r
    · rw [if_pos hq, if_pos (hiff.mp hq)]
      rfl
    · rw [if_neg hq, if_neg (mt hiff.mpr hq)]

lemma lookup_of_entry (hl : env.arena.Layered) (harena : env'.arena = env.arena)
    (hentry : env'.binding? t x = some v) (helse : ∀ u, u ≠ t → env'.ownEntries u = env.ownEntries u)
    (ht : env.arena.frame? t ≠ none) (u : ScopeId) :
    (env.Reaches x u t → env'.lookup u x = some v) ∧
      (¬ env.Reaches x u t → env'.lookup u x = env.lookup u x) := by
  have hl' : env'.arena.Layered := harena ▸ hl
  by_cases hu : env.arena.frame? u = none
  · refine ⟨fun hreach => ?_, fun _ => ?_⟩
    · have hne : u ≠ t := by
        rintro rfl
        exact ht hu
      obtain ⟨-, p, hp, -⟩ := hreach.cases_ne hne
      rw [Arena.parent_eq_bind, hu] at hp
      cases hp
    · rw [lookup_of_vacant hu, lookup_of_vacant (harena ▸ hu)]
  obtain ⟨ids, hc⟩ := hl.exists_climbs hu
  induction hc with
  | @last u hocc hp =>
    by_cases hut : u = t
    · subst hut
      exact ⟨fun _ => lookup_of_binding? hl' hentry, fun hnot => absurd .here hnot⟩
    · refine ⟨fun hreach => ?_, fun _ => ?_⟩
      · obtain ⟨-, p, hparent, -⟩ := hreach.cases_ne hut
        rw [hp] at hparent
        cases hparent
      · have hu' : env'.arena.frame? u ≠ none := harena ▸ hu
        have hp' : env'.arena.parent u = none := harena ▸ hp
        rw [lookup_of_last hl hu hp, lookup_of_last hl' hu' hp', binding?, binding?, helse u hut]
  | @next u p ids hp hc ih =>
    by_cases hut : u = t
    · subst hut
      exact ⟨fun _ => lookup_of_binding? hl' hentry, fun hnot => absurd .here hnot⟩
    · have ih := ih (hl.depth_parent hp).1
      have hp' : env'.arena.parent u = some p := harena ▸ hp
      have hsame : env'.binding? u x = env.binding? u x := by rw [binding?, binding?, helse u hut]
      rw [lookup_of_parent hl hp, lookup_of_parent hl' hp', hsame]
      cases hb : env.binding? u x with
      | some w =>
        refine ⟨fun hreach => ?_, fun _ => rfl⟩
        rw [(hreach.cases_ne hut).1] at hb
        cases hb
      | none =>
        have hiff : env.Reaches x u t ↔ env.Reaches x p t := by
          refine ⟨fun hreach => ?_, .up hb hp⟩
          obtain ⟨-, q, hq, hup⟩ := hreach.cases_ne hut
          rwa [Option.some.inj (hp.symm.trans hq)]
        rw [Option.none_or, Option.none_or, hiff]
        exact ih

lemma Separate.rebinds (hsep : env.Separate) (hl : env.arena.Layered) (hr : env.own t = some r)
    (harena : env'.arena = env.arena)
    (hheap : env'.heap = env.heap.setMap r (Entries.put (env.heap.entries r) x v)) :
    env.Rebinds t x v env' := by
  have hentries := ownEntries_of_put hsep hr harena hheap
  have hput : env'.ownEntries t = Entries.put (env.ownEntries t) x v := (hentries t).trans (if_pos rfl)
  have hentry : env'.binding? t x = some v := by rw [binding?, hput, Entries.get?_put_self]
  have helse : ∀ u, u ≠ t → env'.ownEntries u = env.ownEntries u := fun u hu =>
    (hentries u).trans (if_neg hu)
  have ht : env.arena.frame? t ≠ none := by
    intro hnone
    rw [own_eq_bindings, hnone] at hr
    cases hr
  have hlookup := lookup_of_entry hl harena hentry helse ht
  refine ⟨harena, hentry, fun y hy => ?_, ?_, helse, fun u y hy => ?_, fun u => (hlookup u).1,
    fun u => (hlookup u).2⟩
  · rw [binding?, binding?, hput, Entries.get?_put_ne _ v hy]
  · rw [hput, Entries.keys_put]
  · have hlayers : env'.layers u = env.layers u := by rw [layers, layers, harena]
    rw [lookup_eq, lookup_eq, hlayers, hheap]
    congr 1
    funext q
    rw [Heap.entries_setMap (hsep.stored t r hr)]
    split_ifs with hq
    · rw [Entries.get?_put_ne _ v hy, hq]
    · rfl

lemma exists_own (hs : env.arena.frame? s ≠ none) : ∃ r, env.own s = some r := by
  obtain ⟨f, hf⟩ := Option.ne_none_iff_exists'.mp hs
  exact ⟨f.bindings, by rw [own_eq_bindings, hf]; rfl⟩

lemma Separate.define (hsep : env.Separate) (hl : env.arena.Layered) (hs : env.arena.frame? s ≠ none)
    (x : String) (v : Value) : env.Rebinds s x v (env.define s x v) := by
  obtain ⟨r, hr⟩ := exists_own hs
  refine hsep.rebinds hl hr (arena_define env s x v) ?_
  rw [heap_define, hr]
  rfl

lemma Separate.set (hsep : env.Separate) (hl : env.arena.Layered) (hs : env.arena.frame? s ≠ none)
    (x : String) (v : Value) : ∃ t, env.Target s x t ∧ env.Rebinds t x v (env.set s x v) := by
  obtain ⟨ids, hc⟩ := hl.exists_climbs hs
  have hheap := heap_set env s x v
  cases hfind : (env.layers s).find? fun r => (Entries.get? (env.heap.entries r) x).isSome with
  | some r =>
    obtain ⟨t, ht, hinnermost⟩ := exists_innermost hl hc hfind
    rw [hfind] at hheap
    exact ⟨t, .inl hinnermost, hsep.rebinds hl ht (arena_set env s x v) hheap⟩
  | none =>
    obtain ⟨r, hr⟩ := exists_own hs
    rw [hfind, Option.elim_none, heap_define, hr] at hheap
    exact ⟨s, .inr ⟨lookup_of_find?_none hfind, rfl⟩, hsep.rebinds hl hr (arena_set env s x v) hheap⟩

lemma Separate.mono (hsep : env.Separate) (hown : ∀ id r, env'.own id = some r → env.own id = some r)
    (hheap : env.heap.containers ⊆ env'.heap.containers) : env'.Separate :=
  ⟨fun id r hr => hheap (hsep.stored id r (hown id r hr)),
    fun i j r hi hj => hsep.distinct i j r (hown i r hi) (hown j r hj)⟩

lemma Separate.congr (hsep : env.Separate) (hframe : ∀ j f, env'.arena.frame? j = some f →
    env.arena.frame? j = some f) (hheap : env.heap.containers ⊆ env'.heap.containers) :
    env'.Separate := by
  refine hsep.mono (fun id r hr => ?_) hheap
  rw [own_eq_bindings] at hr ⊢
  obtain ⟨f, hf, rfl⟩ := Option.map_eq_some_iff.mp hr
  rw [hframe id f hf]
  rfl

lemma Separate.gains {f : Frame} (hsep : env.Separate) (hg : Arena.Gains env.arena env'.arena s f)
    (hf : f.bindings = (env.heap.newMap []).1) (hheap : env'.heap = (env.heap.newMap []).2) :
    env'.Separate := by
  have hgrows : env.heap.containers ⊆ env'.heap.containers := hheap ▸ (env.heap.extends_newMap []).grows
  have hnew : .map f.bindings ∈ env'.heap.containers := by
    rw [hf, hheap]
    exact (env.heap.map_newMap_mem []).1
  have hfresh : .map f.bindings ∉ env.heap.containers := by
    rw [hf, Heap.map_mem_containers]
    exact Nat.lt_irrefl _
  have hown (id : ScopeId) : env'.own id = if id = s then some f.bindings else env.own id := by
    rw [own_eq_bindings, own_eq_bindings, hg.frame]
    split <;> rfl
  refine ⟨fun id r hr => ?_, fun i j r hi hj => ?_⟩
  · rw [hown] at hr
    split at hr
    · obtain rfl := Option.some.inj hr
      exact hnew
    · exact hgrows (hsep.stored id r hr)
  · rw [hown] at hi hj
    split at hi <;> split at hj
    · rw [‹i = s›, ‹j = s›]
    · obtain rfl := Option.some.inj hi
      exact absurd (hsep.stored j _ hj) hfresh
    · obtain rfl := Option.some.inj hj
      exact absurd (hsep.stored i _ hi) hfresh
    · exact hsep.distinct i j r hi hj

lemma containers_define (env : Environment) (id : ScopeId) (x : String) (v : Value) :
    (env.define id x v).heap.containers = env.heap.containers := by
  rw [heap_define]
  cases env.own id with
  | none => rfl
  | some r => exact env.heap.containers_setMap r _

lemma containers_set (env : Environment) (id : ScopeId) (x : String) (v : Value) :
    (env.set id x v).heap.containers = env.heap.containers := by
  rw [heap_set]
  cases (env.layers id).find? fun r => (Entries.get? (env.heap.entries r) x).isSome with
  | none => exact env.containers_define id x v
  | some r => exact env.heap.containers_setMap r _

lemma Separate.pushRoot (hsep : env.Separate) (hfree : env.arena.ListsFree) :
    env.pushRoot.2.Separate := by
  have hnone : ∀ p ∈ (none : Option ScopeId), env.arena.frame? p ≠ none := by simp
  exact hsep.gains (Arena.gains_allocate hnone hfree.lt hfree.fresh_eq_none)
    (env.arena.bindings_child none _) rfl

lemma Separate.push {parent : Option ScopeId} (hsep : env.Separate) (hfree : env.arena.ListsFree)
    (hparent : ∀ p ∈ parent, env.arena.frame? p ≠ none) : (env.push parent).2.Separate := by
  have hg : Arena.Gains env.arena (env.arena.allocate parent (env.heap.newMap []).1).2 _ _ :=
    Arena.gains_allocate hparent hfree.lt hfree.fresh_eq_none
  exact hsep.gains (hg.congr rfl) (env.arena.bindings_child parent _) rfl

lemma Separate.reowns {g : List Capture → List Capture} (hsep : env.Separate)
    (hr : Arena.Reowns env.arena env'.arena s g) (hheap : env'.heap = env.heap) : env'.Separate := by
  refine hsep.mono (fun id r hown => ?_) (hheap ▸ subset_rfl)
  rw [own_eq_bindings] at hown ⊢
  rwa [← hr.map_frame fun _ _ => rfl]

lemma Separate.duplicate (hsep : env.Separate) (k : Capture) : (env.duplicate k).Separate := by
  refine hsep.congr (fun j f hf => ?_) subset_rfl
  rw [Environment.duplicate, Arena.duplicate] at hf
  split at hf
  · exact hf
  · rwa [Arena.frame?_hold] at hf

lemma Separate.drop (hsep : env.Separate) (k : Capture) : (env.drop k).Separate := by
  refine hsep.congr (fun j f hf => ?_) subset_rfl
  rw [Environment.drop, Arena.drop] at hf
  split at hf
  · exact hf
  · rwa [Arena.frame?_unhold] at hf

lemma separate_initial : initial.Separate := by
  have hnone (id : ScopeId) : (⟨.empty, .empty⟩ : Environment).own id = none := rfl
  refine Separate.pushRoot ⟨fun id r hr => ?_, fun i j r hi => ?_⟩ Arena.sound_empty.free
  · rw [hnone] at hr
    cases hr
  · rw [hnone] at hi
    cases hi

end Environment

namespace Client

variable {c : Client} {r : Request}

lemma Sound.step_separate (hs : c.Sound) (hsep : c.env.Separate)
    (hr : ∀ i ∈ r.scopes, (c.env.arena.scope? (c.slot i)).isSome) : (c.step r).env.Separate := by
  cases r with
  | push parent =>
    refine hsep.push hs.arena.free fun p hp => ?_
    obtain ⟨i, rfl, rfl⟩ := Option.map_eq_some_iff.mp hp
    exact Arena.isSome_scope?.mp (hr i (by simp [Request.scopes]))
  | pushRoot => exact hsep.pushRoot hs.arena.free
  | capture i =>
    exact hsep.congr (fun j f hf => by rwa [← c.env.arena.frame?_hold (c.slot i)]) subset_rfl
  | duplicate m =>
    rw [Client.step]
    split
    · exact hsep.duplicate _
    · exact hsep
  | drop m =>
    rw [Client.step]
    split
    · exact hsep.drop _
    · exact hsep
  | entrust i m =>
    rw [Client.step]
    split
    · exact hsep.reowns (Arena.reowns_entrust (Arena.isSome_scope?.mp (hr i (by simp [Request.scopes]))) _) rfl
    · exact hsep
  | reclaim i m => exact hsep.reowns (c.env.arena.reowns_reclaim (c.slot i) m) rfl
  | define i name v =>
    refine hsep.congr (fun j f hf => ?_) (c.env.containers_define (c.slot i) name v).ge
    rwa [← c.env.arena_define (c.slot i) name v]
  | set i name v =>
    refine hsep.congr (fun j f hf => ?_) (c.env.containers_set (c.slot i) name v).ge
    rwa [← c.env.arena_set (c.slot i) name v]
  | release mark => exact hsep.congr (fun _ _ => Arena.frame?_of_release mark) subset_rfl
  | sweep => exact hsep.congr (fun _ _ => Arena.frame?_of_sweep) subset_rfl

lemma Sound.run_separate (hs : c.Sound) (hsep : c.env.Separate) (rs : List Request)
    (hrs : c.Serves rs) : (c.run rs).env.Separate := by
  induction rs generalizing c with
  | nil => exact hsep
  | cons r rs ih => exact ih (hs.step r hrs.1) (hs.step_separate hsep hrs.1) hrs.2

end Client

/-- In every state that a client can bring about, an assignment in a scope changes the entry of its variable
in the innermost scope that has it, or in the scope itself if none has, and a definition changes the entry
in the scope itself. No other entry changes, and other lookups change only where that entry is the first
to be found. -/
theorem Client.assignment_changes_one_entry (rs : List Request) (hrs : Client.initial.Serves rs)
    (s : ScopeId) (hs : ((Client.initial.run rs).env.arena.scope? s).isSome) (x : String) (v : Value) :
    let env := (Client.initial.run rs).env
    (∃ t, env.Target s x t ∧ env.Rebinds t x v (env.set s x v)) ∧ (env.set s x v).lookup s x = some v ∧
      env.Rebinds s x v (env.define s x v) ∧ (env.define s x v).lookup s x = some v := by
  intro env
  have hsound := Client.sound_initial.run rs hrs
  have hsep : env.Separate := Client.sound_initial.run_separate Environment.separate_initial rs hrs
  have hocc := Arena.isSome_scope?.mp hs
  obtain ⟨t, htarget, hset⟩ := hsep.set hsound.arena.layered hocc x v
  have hdefine := hsep.define hsound.arena.layered hocc x v
  exact ⟨⟨t, htarget, hset⟩, hset.seen s htarget.reaches, hdefine, hdefine.seen s .here⟩

theorem Client.assignment_changes_outer_entry :
    let rs := [.define 0 "x" (.number 1), .push (some 0), .push (some 1), .push (some 0),
      .define 3 "x" (.number 7)]
    let env := (Client.initial.run rs).env
    let env' := env.set ⟨2⟩ "x" (.number 5)
    Client.initial.Serves rs ∧ (env.arena.scope? ⟨2⟩).isSome ∧
      (∃ t, env.Target ⟨2⟩ "x" t ∧ env.Rebinds t "x" (.number 5) env') ∧
      env'.lookup ⟨2⟩ "x" = some (.number 5) ∧ env'.lookup ⟨0⟩ "x" = some (.number 5) ∧
      env'.lookup ⟨3⟩ "x" = some (.number 7) := by
  intro rs env env'
  have hrs : Client.initial.Serves rs := by decide
  have hocc : (env.arena.scope? ⟨2⟩).isSome := by decide
  obtain ⟨htarget, hseen, -⟩ := Client.assignment_changes_one_entry rs hrs ⟨2⟩ hocc "x" (.number 5)
  exact ⟨hrs, hocc, htarget, hseen, rfl, rfl⟩

end DiceLang

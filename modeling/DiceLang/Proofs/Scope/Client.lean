import DiceLang.Proofs.Scope.Climb

/-! Clients of an environment. As long as a client names only scopes that are there, the arena stays in good
order. -/

namespace DiceLang

/-- What a client asks for. It numbers its scopes as they come, and its captures from the latest. -/
inductive Request where
  | push (parent : Option Nat)
  | pushRoot
  | capture (scope : Nat)
  | duplicate (capture : Nat)
  | drop (capture : Nat)
  -- A variable of the scope gets a function as its value and loses it again. A client that overwrites such
  -- a variable reclaims the capture and drops it.
  | entrust (scope capture : Nat)
  | reclaim (scope place : Nat)
  | define (scope : Nat) (name : String) (v : Value)
  | set (scope : Nat) (name : String) (v : Value)
  | release (mark : Nat)
  | sweep

def Request.scopes : Request → List Nat
  | .push parent => parent.toList
  | .capture i => [i]
  | .entrust i _ => [i]
  | .reclaim i _ => [i]
  | .define i _ _ => [i]
  | .set i _ _ => [i]
  | _ => []

structure Client where
  env : Environment
  scopes : List ScopeId
  roots : List ScopeId
  captures : List Capture

namespace Client

def initial : Client := ⟨.initial, [Environment.global], [Environment.global], []⟩

def slot (c : Client) (i : Nat) : ScopeId := c.scopes.getD i Environment.global

def step (c : Client) : Request → Client
  | .push parent =>
    let (id, env) := c.env.push (parent.map c.slot)
    ⟨env, c.scopes ++ [id], c.roots, c.captures⟩
  | .pushRoot =>
    let (id, env) := c.env.pushRoot
    ⟨env, c.scopes ++ [id], id :: c.roots, c.captures⟩
  | .capture i =>
    let (k, env) := c.env.capture (c.slot i)
    ⟨env, c.scopes, c.roots, k :: c.captures⟩
  | .duplicate n =>
    match c.captures[n]? with
    | some k => ⟨c.env.duplicate k, c.scopes, c.roots, k :: c.captures⟩
    | none => c
  | .drop n =>
    match c.captures[n]? with
    | some k => ⟨c.env.drop k, c.scopes, c.roots, c.captures.eraseIdx n⟩
    | none => c
  | .entrust i n =>
    match c.captures[n]? with
    | some k => ⟨c.env.entrust (c.slot i) k, c.scopes, c.roots, c.captures.eraseIdx n⟩
    | none => c
  | .reclaim i n =>
    let (k, env) := c.env.reclaim (c.slot i) n
    ⟨env, c.scopes, c.roots, k.toList ++ c.captures⟩
  | .define i name v => { c with env := c.env.define (c.slot i) name v }
  | .set i name v => { c with env := c.env.set (c.slot i) name v }
  | .release mark => { c with env := c.env.release mark }
  | .sweep => { c with env := c.env.sweep }

def run (c : Client) (rs : List Request) : Client := rs.foldl step c

def Serves : Client → List Request → Prop
  | _, [] => True
  | c, r :: rs => (∀ i ∈ r.scopes, (c.env.arena.scope? (c.slot i)).isSome) ∧ (c.step r).Serves rs

instance decidableServes : (c : Client) → (rs : List Request) → Decidable (c.Serves rs)
  | _, [] => .isTrue trivial
  | c, r :: rs =>
    have := decidableServes (c.step r) rs
    inferInstanceAs (Decidable (_ ∧ (c.step r).Serves rs))

structure Sound (c : Client) : Prop where
  arena : c.env.arena.Sound c.roots (c.captures.map Capture.scope) []
  busy : ∀ k ∈ c.captures, k.idle = false
  global_mem : Environment.global ∈ c.roots

end Client

namespace Arena

variable {a : Arena} {roots captured : List ScopeId}

lemma sound_empty : Arena.empty.Sound [] [] [] := by
  have hnone (j : ScopeId) : Arena.empty.frame? j = none := rfl
  refine ⟨⟨List.nodup_nil, fun i => ?_⟩, ⟨List.nodup_nil, fun id => ?_⟩, ?_, ?_, ?_, ?_, ?_⟩
  · simp [Arena.empty]
  · rw [hnone]
    simp [owners, Arena.empty]
  · intro id f p hf
    rw [hnone] at hf
    cases hf
  · intro id f hf
    rw [hnone] at hf
    cases hf
  · simp
  · intro k f hf
    rw [hnone] at hf
    cases hf
  · intro id hid
    exact absurd (hnone id) hid

lemma Sound.pushRoot {bindings : MapRef} (hs : a.Sound roots captured []) :
    (a.allocate none bindings).2.Sound ((a.allocate none bindings).1 :: roots) captured [] := by
  have hnone : ∀ p ∈ (none : Option ScopeId), a.frame? p ≠ none := by simp
  refine (hs.allocate hnone).perm rfl rfl ?_ (.refl captured)
  rw [allocate_eq hnone]
  simp only [owners]
  grind

end Arena

namespace Client

variable {c : Client}

lemma sound_initial : initial.Sound :=
  ⟨Arena.sound_empty.pushRoot, by simp [initial], List.mem_singleton_self _⟩

lemma Sound.duplicate (hs : c.Sound) (n : Nat) : (c.step (.duplicate n)).Sound := by
  rw [step]
  cases hk : c.captures[n]? with
  | some k =>
    have hmem : k ∈ c.captures := List.mem_of_getElem? hk
    have hocc := hs.arena.counted.occupied k.scope (List.mem_map_of_mem hmem)
    have hhold : (c.env.duplicate k).arena = c.env.arena.hold k.scope := by
      simp [Environment.duplicate, Arena.duplicate, hs.busy k hmem]
    refine ⟨?_, List.forall_mem_cons.mpr ⟨hs.busy k hmem, hs.busy⟩, hs.global_mem⟩
    rw [hhold]
    exact hs.arena.hold hocc
  | none => exact hs

lemma Sound.drop (hs : c.Sound) (n : Nat) : (c.step (.drop n)).Sound := by
  rw [step]
  cases hk : c.captures[n]? with
  | some k =>
    obtain ⟨hn, rfl⟩ := List.getElem?_eq_some_iff.mp hk
    have hmem : c.captures[n] ∈ c.captures := List.getElem_mem hn
    have hunhold : (c.env.drop c.captures[n]).arena = c.env.arena.unhold c.captures[n].scope := by
      simp [Environment.drop, Arena.drop, hs.busy _ hmem]
    have hperm := (List.getElem_cons_eraseIdx_perm hn).map Capture.scope
    refine ⟨?_, fun k hk => hs.busy k (List.mem_of_mem_eraseIdx hk), hs.global_mem⟩
    rw [hunhold]
    exact (hs.arena.perm rfl rfl (.refl _) hperm).unhold
  | none => exact hs

lemma Sound.entrust (hs : c.Sound) (i n : Nat) (hi : c.env.arena.frame? (c.slot i) ≠ none) :
    (c.step (.entrust i n)).Sound := by
  rw [step]
  cases hk : c.captures[n]? with
  | some k =>
    obtain ⟨hn, rfl⟩ := List.getElem?_eq_some_iff.mp hk
    have hbusy := hs.busy _ (List.getElem_mem hn)
    have hperm := (List.getElem_cons_eraseIdx_perm hn).map Capture.scope
    refine ⟨?_, fun k hk => hs.busy k (List.mem_of_mem_eraseIdx hk), hs.global_mem⟩
    exact (hs.arena.perm rfl rfl (.refl _) hperm).entrust hbusy hi
  | none => exact hs

lemma Sound.reclaim (hs : c.Sound) (i n : Nat) (hi : c.env.arena.frame? (c.slot i) ≠ none) :
    (c.step (.reclaim i n)).Sound := by
  obtain ⟨f, hf⟩ := Option.ne_none_iff_exists'.mp hi
  have hfst : (c.env.reclaim (c.slot i) n).1 = f.owned[n]? := Arena.fst_reclaim hf n
  have hstep : c.step (.reclaim i n) = ⟨(c.env.reclaim (c.slot i) n).2, c.scopes, c.roots,
      f.owned[n]?.toList ++ c.captures⟩ := by
    rw [← hfst]
    rfl
  rw [hstep]
  by_cases hn : n < f.owned.length
  · rw [List.getElem?_eq_getElem hn]
    have hbusy := (hs.arena.counted.busy _ f hf _ (List.getElem_mem hn)).1
    exact ⟨hs.arena.reclaim hf hn, List.forall_mem_cons.mpr ⟨hbusy, hs.busy⟩, hs.global_mem⟩
  · rw [not_lt] at hn
    rw [List.getElem?_eq_none hn]
    refine ⟨?_, hs.busy, hs.global_mem⟩
    refine (c.env.arena.reowns_reclaim (c.slot i) n).sound hf hs.arena ?_ ?_
    · exact fun k hk => hs.arena.counted.busy _ f hf k (List.mem_of_mem_eraseIdx hk)
    · rw [List.eraseIdx_of_length_le hn]
      exact .refl _

lemma Sound.tidied (hs : c.Sound) (base : List ScopeId) (hbase : base <+: c.env.arena.stack.toList)
    (P : ScopeId → Prop) :
    Arena.Tidied c.env.arena c.roots (c.captures.map Capture.scope) base P c.env.arena [] :=
  ⟨hs.arena, hbase, fun _ _ => rfl⟩

lemma wanted_none (a : Arena) (roots captured : List ScopeId) :
    a.Wanted roots captured [] fun _ => False := fun _ hj => hj.elim

lemma Sound.step (hs : c.Sound) (r : Request)
    (hr : ∀ i ∈ r.scopes, (c.env.arena.scope? (c.slot i)).isSome) : (c.step r).Sound := by
  cases r with
  | push parent =>
    refine ⟨hs.arena.push fun p hp => ?_, hs.busy, hs.global_mem⟩
    obtain ⟨i, rfl, rfl⟩ := Option.map_eq_some_iff.mp hp
    exact Arena.isSome_scope?.mp (hr i (by simp [Request.scopes]))
  | pushRoot => exact ⟨hs.arena.pushRoot, hs.busy, List.mem_cons_of_mem _ hs.global_mem⟩
  | capture i =>
    have hocc := hr i (by simp [Request.scopes])
    refine ⟨hs.arena.hold (Arena.isSome_scope?.mp hocc), ?_, hs.global_mem⟩
    refine List.forall_mem_cons.mpr ⟨?_, hs.busy⟩
    exact Option.isNone_eq_false_iff.mpr hocc
  | duplicate n => exact hs.duplicate n
  | drop n => exact hs.drop n
  | entrust i n => exact hs.entrust i n (Arena.isSome_scope?.mp (hr i (List.mem_singleton_self i)))
  | reclaim i n => exact hs.reclaim i n (Arena.isSome_scope?.mp (hr i (List.mem_singleton_self i)))
  | define i name v => exact ⟨by simpa [Client.step] using hs.arena, hs.busy, hs.global_mem⟩
  | set i name v => exact ⟨by simpa [Client.step] using hs.arena, hs.busy, hs.global_mem⟩
  | release mark =>
    have ht := hs.tidied [] List.nil_prefix fun _ => False
    exact ⟨(ht.release (wanted_none _ _ _) (Nat.zero_le mark)).sound, hs.busy, hs.global_mem⟩
  | sweep =>
    have ht := hs.tidied [] List.nil_prefix fun _ => False
    exact ⟨(ht.sweep (wanted_none _ _ _)).sound, hs.busy, hs.global_mem⟩

lemma Sound.run (hs : c.Sound) (rs : List Request) (hrs : c.Serves rs) : (c.run rs).Sound := by
  induction rs generalizing c with
  | nil => exact hs
  | cons r rs ih => exact ih (hs.step r hrs.1) hrs.2

end Client

namespace Arena

variable {a : Arena} {roots captured loose : List ScopeId}

structure Orderly (a : Arena) (roots : List ScopeId) : Prop where
  free_nodup : a.free.toList.Nodup
  mem_free : ∀ i, i ∈ a.free ↔ i < a.slots.size ∧ a.scope? ⟨i⟩ = none
  owned_nodup : (roots ++ a.stack.toList ++ a.parked.toList).Nodup
  occupied : ∀ id, (a.scope? id).isSome ↔ id ∈ roots ∨ id ∈ a.stack ∨ id ∈ a.parked
  global : Environment.global ∈ roots ∧ (a.scope? Environment.global).isSome
  parent : ∀ id s p, a.scope? id = some s → s.parent = some p →
    ∃ t, a.scope? p = some t ∧ s.depth = t.depth + 1
  acyclic : ∀ id, ¬ Relation.TransGen (fun x y => a.parent x = some y) id id
  walk : ∀ id, (a.scope? id).isSome → ∃ ids, a.Climbs id ids ∧ ids.Nodup ∧
    ids.getLast? = some (a.root id) ∧ (a.chain id).map some = ids.map a.scope?
  live : a.free.size ≤ a.slots.size ∧ a.live = roots.length + a.stack.size + a.parked.size

lemma Sound.size_eq (hs : a.Sound roots captured loose) :
    a.slots.size = a.free.size + (a.owners roots loose).length := by
  have hnodup : (a.free.toList ++ (a.owners roots loose).map ScopeId.index).Nodup := by
    refine List.nodup_append.mpr ⟨hs.free.nodup, hs.owned.nodup.map ScopeId.index_injective, ?_⟩
    rintro i hi _ hj rfl
    obtain ⟨id, hid, rfl⟩ := List.mem_map.mp hj
    exact (hs.owned.mem id).mp hid ((hs.free.mem _).mp (Array.mem_toList_iff.mp hi)).2
  have hperm : (List.range a.slots.size).Perm
      (a.free.toList ++ (a.owners roots loose).map ScopeId.index) := by
    refine (List.perm_ext_iff_of_nodup List.nodup_range hnodup).mpr fun i => ?_
    rw [List.mem_range, List.mem_append, Array.mem_toList_iff, hs.free.mem, List.mem_map]
    constructor
    · intro hi
      by_cases hnone : a.frame? ⟨i⟩ = none
      · exact .inl ⟨hi, hnone⟩
      · exact .inr ⟨⟨i⟩, (hs.owned.mem _).mpr hnone, rfl⟩
    · rintro (⟨hi, -⟩ | ⟨id, hid, rfl⟩)
      · exact hi
      · exact index_lt ((hs.owned.mem id).mp hid)
  simpa using hperm.length_eq

lemma Layered.acyclic (hl : a.Layered) (id : ScopeId) :
    ¬ Relation.TransGen (fun x y => a.parent x = some y) id id := by
  have hless {x y : ScopeId} (h : Relation.TransGen (fun x y => a.parent x = some y) x y) :
      a.depth y < a.depth x := by
    induction h with
    | single hp =>
      have hdepth := (hl.depth_parent hp).2
      omega
    | tail _ hp ih =>
      have hdepth := (hl.depth_parent hp).2
      omega
  exact fun h => (hless h).false

lemma Sound.orderly (hs : a.Sound roots captured []) (hglobal : Environment.global ∈ roots) :
    a.Orderly roots := by
  have hoccupied (id : ScopeId) : (a.scope? id).isSome ↔ id ∈ roots ∨ id ∈ a.stack ∨ id ∈ a.parked := by
    rw [isSome_scope?, ← hs.owned.mem]
    simp [owners]
  refine ⟨hs.free.nodup, fun i => ?_, ?_, hoccupied, ⟨hglobal, (hoccupied _).mpr (.inl hglobal)⟩,
    fun id s p hid hp => ?_, hs.layered.acyclic, fun id hid => ?_, ?_⟩
  · rw [← frame?_eq_none]
    exact hs.free.mem i
  · simpa [owners] using hs.owned.nodup
  · obtain ⟨g, hg, hdepth⟩ := hs.layered id s.frame p (by rw [frame?, hid]; rfl) hp
    obtain ⟨t, ht, rfl⟩ := exists_scope hg
    exact ⟨t, ht, hdepth⟩
  · obtain ⟨ids, hids⟩ := hs.layered.exists_climbs (isSome_scope?.mp hid)
    exact ⟨ids, hids, hids.nodup hs.layered, hids.getLast?_eq_root hs.layered, hids.map_chain hs.layered⟩
  · have hsize := hs.size_eq
    simp only [owners, List.length_append, Array.length_toList, List.length_nil] at hsize
    rw [Arena.live]
    omega

end Arena

/-- Whatever a client asks for, the arena is in good order afterwards. -/
theorem Client.arena_orderly_after_requests (rs : List Request) (hrs : Client.initial.Serves rs) :
    (Client.initial.run rs).env.arena.Orderly (Client.initial.run rs).roots := by
  have hs := Client.sound_initial.run rs hrs
  exact hs.arena.orderly hs.global_mem

theorem Client.captured_then_dropped_orderly :
    let rs := [.push (some 0), .push (some 1), .capture 2, .duplicate 0, .pushRoot, .push (some 3),
      .release 0, .sweep, .push (some 2), .drop 1, .release 0, .drop 0, .release 0, .sweep, .push none,
      .push (some 0), .capture 6, .duplicate 0, .entrust 7 1, .entrust 7 0, .reclaim 7 1, .drop 0,
      .release 0]
    Client.initial.Serves rs ∧
      (Client.initial.run rs).env.arena.Orderly (Client.initial.run rs).roots ∧
      -- the second of two scopes goes first, and with it the capture that it owns of the other
      (Client.initial.run rs).env.arena.free = #[4, 2, 1] ∧
      (Client.initial.run rs).env.arena.parked = #[] := by
  intro rs
  have hrs : Client.initial.Serves rs := by decide
  exact ⟨hrs, Client.arena_orderly_after_requests rs hrs, by decide, by decide⟩

end DiceLang
